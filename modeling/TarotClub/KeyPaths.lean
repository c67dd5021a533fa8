import Mathlib.Data.List.Basic
import Mathlib.Tactic.Common

/-! Trees whose nodes have children under keys: following a path of keys, and replacing what
stands at its end. -/
namespace KeyPaths

variable {T K L : Type*} (child : T → K → Option T)

/-- The subtree at the end of a path, when every key of it exists at its level. -/
def follow : List K → T → Option T
  | [], t => some t
  | k :: ks, t => (child t k).bind (follow ks)

@[simp] theorem follow_nil (t : T) : follow child [] t = some t := rfl

theorem follow_cons (k : K) (ks : List K) (t : T) :
    follow child (k :: ks) t = (child t k).bind (follow child ks) := rfl

/-- The second tree is the first one with `v` at the end of the path. The nodes on the way keep
what `node` shows of them and all their other children. -/
inductive ReplacedAt (node : T → L) (v : T) : List K → T → T → Prop
  | here (t : T) : ReplacedAt node v [] t v
  | under {k : K} {ks : List K} {t t' c c' : T} : node t' = node t → child t k = some c →
      child t' k = some c' → (∀ l, l ≠ k → child t' l = child t l) →
      ReplacedAt node v ks c c' → ReplacedAt node v (k :: ks) t t'

namespace ReplacedAt

variable {child} {node : T → L} {v t t' : T} {ks ls : List K}

theorem follow_isSome (h : ReplacedAt child node v ks t t') : (follow child ks t).isSome := by
  induction h with
  | here t => rfl
  | under _ hc _ _ _ ih => rwa [follow_cons, hc, Option.bind_some]

/-- What lies below the place is what lies below the new subtree. -/
theorem follow_append_eq (h : ReplacedAt child node v ks t t') (ls : List K) :
    follow child (ks ++ ls) t' = follow child ls v := by
  induction h with
  | here t => rfl
  | under _ _ hc' _ _ ih => rwa [List.cons_append, follow_cons, hc', Option.bind_some]

theorem follow_eq (h : ReplacedAt child node v ks t t') : follow child ks t' = some v := by
  have hbelow := h.follow_append_eq []
  rwa [List.append_nil] at hbelow

/-- What lies neither on the way to the place nor below it is unchanged. -/
theorem frame (h : ReplacedAt child node v ks t t') (hle : ¬ ks <+: ls) (hge : ¬ ls <+: ks) :
    follow child ls t' = follow child ls t := by
  induction h generalizing ls with
  | here t => exact absurd List.nil_prefix hle
  | @under k ks t t' c c' _ hc hc' hother _ ih =>
    cases ls with
    | nil => exact absurd List.nil_prefix hge
    | cons l ls =>
      rw [follow_cons, follow_cons]
      by_cases hlk : l = k
      · subst hlk
        rw [hc, hc', Option.bind_some, Option.bind_some]
        apply ih
        · intro hpre
          exact hle (List.cons_prefix_cons.mpr ⟨rfl, hpre⟩)
        · intro hpre
          exact hge (List.cons_prefix_cons.mpr ⟨rfl, hpre⟩)
      · rw [hother l hlk]

/-- The nodes on the way are still there and look the same; each has a child on the way. -/
theorem on_the_way (h : ReplacedAt child node v ks t t') (hpre : ls <+: ks) (hne : ls ≠ ks) :
    ∃ u u' k, follow child ls t = some u ∧ follow child ls t' = some u' ∧ node u' = node u ∧
      (child u k).isSome := by
  induction h generalizing ls with
  | here t => exact absurd (List.prefix_nil.mp hpre) hne
  | @under k ks t t' c c' hnode hc hc' _ _ ih =>
    cases ls with
    | nil => exact ⟨t, t', k, rfl, rfl, hnode, hc ▸ rfl⟩
    | cons l ls =>
      obtain ⟨rfl, hrest⟩ := List.cons_prefix_cons.mp hpre
      obtain ⟨u, u', k, hu, hu', hsame⟩ := ih hrest fun heq => hne (heq ▸ rfl)
      refine ⟨u, u', k, ?_, ?_, hsame⟩
      · rwa [follow_cons, hc, Option.bind_some]
      · rwa [follow_cons, hc', Option.bind_some]

end ReplacedAt

end KeyPaths
