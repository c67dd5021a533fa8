import TarotClub.Machine
import Mathlib.Data.Int.Notation
import Mathlib.Data.Nat.Notation

/-! Values computed to the end before they are handed on. A closed run that is evaluated state
by state takes as many steps as the run is long, where each state would otherwise be computed
again at every place that reads it. -/

/-- A type whose values can be computed to the end. -/
class Eager (α : Type) where
  /-- Compute `a` and hand it on. -/
  eval : {β : Type} → α → (α → β) → β
  eval_eq : ∀ {β : Type} (a : α) (k : α → β), eval a k = k a

namespace Eager

attribute [simp] eval_eq

variable {α β γ : Type} [Eager α] [Eager β]

instance : Eager ℕ where
  eval n k := match n with
    | 0 => k 0
    | m + 1 => k (m + 1)
  eval_eq n k := by cases n <;> rfl

instance : Eager ℤ where
  eval n k := match n with
    | .ofNat m => eval m fun m => k (.ofNat m)
    | .negSucc m => eval m fun m => k (.negSucc m)
  eval_eq n k := by cases n <;> simp

instance : Eager Bool where
  eval b k := match b with
    | true => k true
    | false => k false
  eval_eq b k := by cases b <;> rfl

instance : Eager (α × β) where
  eval p k := eval p.1 fun a => eval p.2 fun b => k (a, b)
  eval_eq p k := by simp

instance : Eager (Option α) where
  eval o k := match o with
    | none => k none
    | some a => eval a fun a => k (some a)
  eval_eq o k := by cases o <;> simp

def evalList : List α → (List α → γ) → γ
  | [], k => k []
  | a :: as, k => eval a fun a => evalList as fun as => k (a :: as)

instance : Eager (List α) where
  eval := evalList
  eval_eq as k := by
    induction as generalizing k with
    | nil => rfl
    | cons a as ih => rw [evalList, eval_eq, ih]

/-- The first `n` values of a function are computed, the others when they are asked for. -/
def evalFirst (n : ℕ) (f : ℕ → α) (k : (ℕ → α) → γ) : γ :=
  eval ((List.range n).map f) fun as => k fun i => (as[i]?).getD (f i)

@[simp] theorem evalFirst_eq (n : ℕ) (f : ℕ → α) (k : (ℕ → α) → γ) :
    evalFirst n f k = k f := by
  rw [evalFirst, eval_eq]
  congr 1
  funext i
  by_cases h : i < n
  · simp [h]
  · simp [h]

end Eager

namespace Machine

variable {σ β : Type} {ι : Type*} [Eager σ] (step : σ → ι → σ) (next : σ → List ι)

/-- The inputs of `n` rounds, in each of which `next` answers the state. -/
def answers {σ ι : Type*} (step : σ → ι → σ) (next : σ → List ι) : ℕ → σ → List ι
  | 0, _ => []
  | n + 1, s => next s ++ answers step next n (run step s (next s))

/-- What holds of every answer holds of every input. -/
theorem forall_mem_answers {σ ι : Type*} {step : σ → ι → σ} {next : σ → List ι} {P : ι → Prop}
    (h : ∀ s, ∀ i ∈ next s, P i) (n : ℕ) (s : σ) : ∀ i ∈ answers step next n s, P i := by
  induction n generalizing s with
  | zero => exact fun i hi => absurd hi List.not_mem_nil
  | succ n ih =>
    intro i hi
    rcases List.mem_append.mp hi with hi | hi
    · exact h s i hi
    · exact ih _ i hi

/-- What `k` says of the state after `n` rounds, each of them computed before the next. -/
def play : ℕ → σ → (σ → β) → β
  | 0, s, k => k s
  | n + 1, s, k => Eager.eval (run step s (next s)) fun s => play n s k

theorem play_eq (n : ℕ) (s : σ) (k : σ → β) :
    play step next n s k = k (run step s (answers step next n s)) := by
  induction n generalizing s with
  | zero => rfl
  | succ n ih => rw [play, Eager.eval_eq, ih, answers, run_append]

/-- Answers that meet a guard make a run that meets it. -/
theorem guarded_answers {σ ι : Type*} {step : σ → ι → σ} {next : σ → List ι} {ok : σ → ι → Prop}
    (h : ∀ s, Guarded step ok s (next s)) (n : ℕ) (s : σ) :
    Guarded step ok s (answers step next n s) := by
  induction n generalizing s with
  | zero => trivial
  | succ n ih =>
    rw [answers, guarded_append]
    exact ⟨h s, ih _⟩

/-- The answers do not depend on a recorder. -/
theorem answers_observe {σ ι γ : Type*} (step : σ → ι → σ) (note : σ → ι → γ → γ)
    (next : σ → List ι) (n : ℕ) (p : σ × γ) :
    answers (observe step note) (fun q => next q.1) n p = answers step next n p.1 := by
  induction n generalizing p with
  | zero => rfl
  | succ n ih => rw [answers, answers, ih, run_observe_fst]

/-- What is found out by a watched run that is computed round by round. -/
theorem of_play_observe {γ : Type} [Eager γ] {next : σ → List ι} {note : σ → ι → γ → γ} {n : ℕ}
    {s : σ} {g : γ} {P : σ × γ → Prop} [∀ q, Decidable (P q)]
    (h : play (observe step note) (fun q => next q.1) n (s, g) (fun q => decide (P q)) = true) :
    P (run (observe step note) (s, g) (answers step next n s)) := by
  have hrun := answers_observe step note next n (s, g)
  rw [play_eq, hrun] at h
  exact of_decide_eq_true h

end Machine
