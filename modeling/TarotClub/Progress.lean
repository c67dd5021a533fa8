import TarotClub.Machine

/-! Runs that come to an end: a measure that some steps use up and others provide for, and the
way to a state in which nothing is left to do. -/
namespace Machine

variable {σ ι α : Type*} {step : σ → ι → σ} {label : σ → ι → α} {ok : σ → ι → Prop}

/-- Every step that works lowers the measure, and no step raises it, but for those that supply
it, which raise it by `k` at most. -/
def Consumes (step : σ → ι → σ) (label : σ → ι → α) (μ : σ → ℕ) (works supplies : α → Bool)
    (k : ℕ) (s : σ) (i : ι) : Prop :=
  μ (step s i) + (if works (label s i) then 1 else 0) ≤
    μ s + if supplies (label s i) then k else 0

/-- The steps that work in a run, and what is left of the measure behind it, come out of what there
was at its start and what has been supplied on the way. -/
theorem Guarded.countP_works_le {μ : σ → ℕ} {works supplies : α → Bool} {k : ℕ}
    (Inv : σ → Prop) (hkeep : ∀ s i, Inv s → ok s i → Inv (step s i))
    (hconsumes : ∀ s i, Inv s → ok s i → Consumes step label μ works supplies k s i)
    {s : σ} {is : List ι} (hs : Inv s) (hg : Guarded step ok s is) :
    (labels step label s is).countP works + μ (run step s is) ≤
      μ s + k * (labels step label s is).countP supplies := by
  induction is generalizing s with
  | nil => simp [labels]
  | cons i is ih =>
    have hrest := ih (hkeep s i hs hg.1) hg.2
    have hfirst := hconsumes s i hs hg.1
    rw [labels, List.countP_cons, List.countP_cons, run_cons, Nat.mul_add]
    unfold Consumes at hfirst
    have hk : k * (if supplies (label s i) then 1 else 0) =
        if supplies (label s i) then k else 0 := by
      split_ifs
      · exact Nat.mul_one k
      · exact Nat.mul_zero k
    rw [hk]
    omega

/-- Where every state that is not done has a next step that lowers a measure, a run leads to a
state that is done. -/
theorem exists_run_done {Inv Done : σ → Prop} (μ : σ → ℕ)
    (hnext : ∀ s, Inv s → ¬ Done s → ∃ i, ok s i ∧ Inv (step s i) ∧ μ (step s i) < μ s)
    {s : σ} (hs : Inv s) :
    ∃ is, Guarded step ok s is ∧ Inv (run step s is) ∧ Done (run step s is) := by
  -- by induction on the measure, which counts the steps that may follow
  induction hm : μ s using Nat.strongRecOn generalizing s with
  | ind m ih =>
    by_cases hdone : Done s
    · exact ⟨[], trivial, hs, hdone⟩
    · obtain ⟨i, hok, hinv, hlt⟩ := hnext s hs hdone
      obtain ⟨is, hg, hend⟩ := ih (μ (step s i)) (hm ▸ hlt) hinv rfl
      exact ⟨i :: is, ⟨hok, hg⟩, hend⟩

end Machine
