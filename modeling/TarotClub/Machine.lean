import Mathlib.Data.List.Induction
import Mathlib.Tactic.Common

/-! Runs of a deterministic machine: the state after a list of inputs, runs whose
inputs meet a guard in the state that receives them, and runs watched by a recorder. -/
namespace Machine

variable {σ ι γ : Type*}

/-- The state reached from `s` after the inputs `is`, in order. -/
def run (step : σ → ι → σ) (s : σ) (is : List ι) : σ := is.foldl step s

@[simp] theorem run_nil (step : σ → ι → σ) (s : σ) : run step s [] = s := rfl

@[simp] theorem run_cons (step : σ → ι → σ) (s : σ) (i : ι) (is : List ι) :
    run step s (i :: is) = run step (step s i) is := rfl

theorem run_append (step : σ → ι → σ) (s : σ) (is js : List ι) :
    run step s (is ++ js) = run step (run step s is) js := List.foldl_append

/-- Every input meets `ok` in the state that receives it. -/
def Guarded (step : σ → ι → σ) (ok : σ → ι → Prop) : σ → List ι → Prop
  | _, [] => True
  | s, i :: is => ok s i ∧ Guarded step ok (step s i) is

/-- Whether a run meets its guard can be found out by running it. -/
instance decidableGuarded (step : σ → ι → σ) (ok : σ → ι → Prop) [∀ s i, Decidable (ok s i)] :
    ∀ s is, Decidable (Guarded step ok s is)
  | _, [] => .isTrue trivial
  | s, i :: is =>
    have := decidableGuarded step ok (step s i) is
    inferInstanceAs (Decidable (ok s i ∧ Guarded step ok (step s i) is))

theorem guarded_append (step : σ → ι → σ) (ok : σ → ι → Prop) (s : σ) (is js : List ι) :
    Guarded step ok s (is ++ js) ↔
      Guarded step ok s is ∧ Guarded step ok (run step s is) js := by
  induction is generalizing s with
  | nil => simp [Guarded]
  | cons i is ih => simp only [List.cons_append, Guarded, ih, run_cons, and_assoc]

/-- A guard that looks at the input alone is met along a run by inputs that meet it. -/
theorem guarded_of_forall (step : σ → ι → σ) (ok : ι → Prop) (s : σ) (is : List ι)
    (h : ∀ i ∈ is, ok i) : Guarded step (fun _ i => ok i) s is := by
  induction is generalizing s with
  | nil => trivial
  | cons i is ih =>
    exact ⟨h i List.mem_cons_self, ih _ fun j hj => h j (List.mem_cons_of_mem i hj)⟩

theorem Guarded.mono {step : σ → ι → σ} {ok ok' : σ → ι → Prop}
    (h : ∀ s i, ok s i → ok' s i) {s : σ} {is : List ι} (hg : Guarded step ok s is) :
    Guarded step ok' s is := by
  induction is generalizing s with
  | nil => trivial
  | cons i is ih => exact ⟨h s i hg.1, ih hg.2⟩

theorem Guarded.and {step : σ → ι → σ} {ok ok' : σ → ι → Prop} {s : σ} {is : List ι}
    (h : Guarded step ok s is) (h' : Guarded step ok' s is) :
    Guarded step (fun s i => ok s i ∧ ok' s i) s is := by
  induction is generalizing s with
  | nil => trivial
  | cons i is ih => exact ⟨⟨h.1, h'.1⟩, ih h.2 h'.2⟩

/-- What every guarded step keeps, a guarded run keeps. -/
theorem Guarded.invariant {step : σ → ι → σ} {ok : σ → ι → Prop} (Inv : σ → Prop)
    (hstep : ∀ s i, Inv s → ok s i → Inv (step s i)) {s : σ} {is : List ι}
    (hs : Inv s) (hg : Guarded step ok s is) : Inv (run step s is) := by
  induction is generalizing s with
  | nil => exact hs
  | cons i is ih => exact ih (hstep s i hs hg.1) hg.2

/-- A guard together with an invariant gives another guard along the run. -/
theorem Guarded.strengthen {step : σ → ι → σ} {ok ok' : σ → ι → Prop} (Inv : σ → Prop)
    (hstep : ∀ s i, Inv s → ok s i → Inv (step s i)) (hok : ∀ s i, Inv s → ok s i → ok' s i)
    {s : σ} {is : List ι} (hs : Inv s) (hg : Guarded step ok s is) : Guarded step ok' s is := by
  induction is generalizing s with
  | nil => trivial
  | cons i is ih => exact ⟨hok s i hs hg.1, ih (hstep s i hs hg.1) hg.2⟩

/-- Two guards that are one in the states of an invariant are met by the same runs. -/
theorem guarded_congr {step : σ → ι → σ} {ok ok' : σ → ι → Prop} (Inv : σ → Prop)
    (hok : ∀ s i, Inv s → (ok s i ↔ ok' s i)) (hkeep : ∀ s i, Inv s → ok s i → Inv (step s i))
    {s : σ} (hs : Inv s) (is : List ι) : Guarded step ok s is ↔ Guarded step ok' s is := by
  constructor
  · exact Guarded.strengthen Inv hkeep (fun s i h => (hok s i h).mp) hs
  · refine Guarded.strengthen Inv (fun s i h hok' => ?_) (fun s i h => (hok s i h).mpr) hs
    exact hkeep s i h ((hok s i h).mpr hok')

/-- What every step keeps, a run keeps. -/
theorem run_invariant {step : σ → ι → σ} (Inv : σ → Prop)
    (hstep : ∀ s i, Inv s → Inv (step s i)) {s : σ} (hs : Inv s) (is : List ι) :
    Inv (run step s is) :=
  (guarded_of_forall step (fun _ => True) s is fun _ _ => trivial).invariant Inv
    (fun s i h _ => hstep s i h) hs

/-- Where a guard says exactly which steps keep a property, with the help of an invariant, the runs
that meet the guard are those in which the property holds in every state. -/
theorem guarded_iff_forall_take {step : σ → ι → σ} {ok : σ → ι → Prop} (Inv P : σ → Prop)
    (hP : ∀ s, Inv s → P s) (hkeep : ∀ s i, Inv s → ok s i → Inv (step s i))
    (hbreak : ∀ s i, Inv s → P (step s i) → ok s i) {s : σ} (hs : Inv s) (is : List ι) :
    Guarded step ok s is ↔ ∀ k, P (run step s (is.take k)) := by
  induction is generalizing s with
  | nil => exact ⟨fun _ k => by rw [List.take_nil]; exact hP s hs, fun _ => trivial⟩
  | cons i is ih =>
    constructor
    · rintro ⟨hok, hrest⟩ k
      cases k with
      | zero => exact hP s hs
      | succ k => exact (ih (hkeep s i hs hok)).mp hrest k
    · intro h
      have hok : ok s i := hbreak s i hs (h 1)
      exact ⟨hok, (ih (hkeep s i hs hok)).mpr fun k => h (k + 1)⟩

/-- The machine together with a recorder that takes a note of every step. -/
def observe (step : σ → ι → σ) (note : σ → ι → γ → γ) (p : σ × γ) (i : ι) : σ × γ :=
  (step p.1 i, note p.1 i p.2)

/-- The recorder does not disturb the machine. -/
@[simp] theorem run_observe_fst (step : σ → ι → σ) (note : σ → ι → γ → γ) (p : σ × γ)
    (is : List ι) : (run (observe step note) p is).1 = run step p.1 is := by
  induction is generalizing p with
  | nil => rfl
  | cons i is ih => exact ih _

theorem guarded_observe {step : σ → ι → σ} (note : σ → ι → γ → γ) {ok : σ → ι → Prop}
    {p : σ × γ} {is : List ι} (hg : Guarded step ok p.1 is) :
    Guarded (observe step note) (fun q i => ok q.1 i) p is := by
  induction is generalizing p with
  | nil => trivial
  | cons i is ih => exact ⟨hg.1, ih (p := observe step note p i) hg.2⟩

/-- The labels of the steps of a run, where each step has one. -/
def labels {α : Type*} (step : σ → ι → σ) (label : σ → ι → α) : σ → List ι → List α
  | _, [] => []
  | s, i :: is => label s i :: labels step label (step s i) is

/-- A run whose steps are seen from another machine as the steps their labels name is a run
of that machine, whose inputs meet its guard. -/
theorem run_labels {τ α : Type*} {step : σ → ι → σ} {label : σ → ι → α} {step' : τ → α → τ}
    (view : σ → τ) (Inv : σ → Prop) {ok : σ → ι → Prop} {ok' : τ → α → Prop}
    (hinv : ∀ s i, Inv s → ok s i → Inv (step s i))
    (hstep : ∀ s i, Inv s → ok s i →
      ok' (view s) (label s i) ∧ view (step s i) = step' (view s) (label s i))
    {s : σ} {is : List ι} (hs : Inv s) (hg : Guarded step ok s is) :
    Guarded step' ok' (view s) (labels step label s is) ∧
      view (run step s is) = run step' (view s) (labels step label s is) := by
  induction is generalizing s with
  | nil => exact ⟨trivial, rfl⟩
  | cons i is ih =>
    obtain ⟨hok, hview⟩ := hstep s i hs hg.1
    obtain ⟨hrest, hrun⟩ := ih (hinv s i hs hg.1) hg.2
    rw [hview] at hrest hrun
    exact ⟨⟨hok, hrest⟩, hrun⟩

/-- What holds at the end of a run and did not hold at its start was brought about by
some input, and has held since. -/
theorem exists_last_raise {step : σ → ι → σ} {P : σ → Prop} {s : σ} (is : List ι)
    (h0 : ¬ P s) (h : P (run step s is)) :
    ∃ pre i post, is = pre ++ i :: post ∧ ¬ P (run step s pre) ∧
      P (step (run step s pre) i) ∧
      Guarded step (fun t j => P t ∧ P (step t j)) (step (run step s pre) i) post := by
  induction is using List.reverseRecOn with
  | nil => exact absurd h h0
  | append_singleton is j ih =>
    rw [run_append] at h
    by_cases hp : P (run step s is)
    · obtain ⟨pre, i, post, he, hn, hi, hg⟩ := ih hp
      have hr : run step (step (run step s pre) i) post = run step s is := by
        rw [he, run_append, run_cons]
      refine ⟨pre, i, post ++ [j], by simp [he], hn, hi, ?_⟩
      rw [guarded_append, hr]
      exact ⟨hg, ⟨hp, h⟩, trivial⟩
    · exact ⟨is, j, [], rfl, hp, h, trivial⟩

end Machine
