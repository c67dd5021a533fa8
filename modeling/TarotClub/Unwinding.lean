import TarotClub.Machine

/-! Two machines side by side. What is seen of their steps is the same along runs whose steps keep a
relation between the two states. -/
namespace Machine

variable {σ τ ι κ α : Type*}

/-- Two machines that take their inputs in pairs. -/
def pair (step : σ → ι → σ) (step' : τ → κ → τ) (p : σ × τ) (i : ι × κ) : σ × τ :=
  (step p.1 i.1, step' p.2 i.2)

variable {step : σ → ι → σ} {step' : τ → κ → τ}

/-- A run of the pair is met by guards on its two sides. -/
theorem guarded_pair {ok : σ → ι → Prop} {ok' : τ → κ → Prop} {p : σ × τ} {is : List (ι × κ)}
    (h : Guarded step ok p.1 (is.map Prod.fst)) (h' : Guarded step' ok' p.2 (is.map Prod.snd)) :
    Guarded (pair step step') (fun q i => ok q.1 i.1 ∧ ok' q.2 i.2) p is := by
  induction is generalizing p with
  | nil => trivial
  | cons i is ih => exact ⟨⟨h.1, h'.1⟩, ih (p := pair step step' p i) h.2 h'.2⟩

/-- Steps that keep the relation and show the same make runs that show the same. -/
theorem Guarded.labels_eq {label : σ → ι → α} {label' : τ → κ → α}
    {ok : σ × τ → ι × κ → Prop} (R : σ → τ → Prop)
    (hkeep : ∀ p i, R p.1 p.2 → ok p i → R (step p.1 i.1) (step' p.2 i.2))
    (hshow : ∀ p i, R p.1 p.2 → ok p i → label' p.2 i.2 = label p.1 i.1) {p : σ × τ}
    {is : List (ι × κ)} (hp : R p.1 p.2) (hg : Guarded (pair step step') ok p is) :
    labels step' label' p.2 (is.map Prod.snd) = labels step label p.1 (is.map Prod.fst) := by
  induction is generalizing p with
  | nil => rfl
  | cons i is ih =>
    have hrest := ih (p := pair step step' p i) (hkeep p i hp hg.1) hg.2
    exact congrArg₂ List.cons (hshow p i hp hg.1) hrest

end Machine
