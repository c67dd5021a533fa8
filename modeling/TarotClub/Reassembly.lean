import TarotClub.Machine
import Mathlib.Logic.Relation

/-! Readers of a stream that comes in pieces. A reader waits for a number of letters, and its read
ends when they have come; when the pieces come and when the reads end, nobody knows. -/
namespace Reassembly

open Machine Relation

variable {σ α : Type*}

/-- How many letters the reader waits for, if it reads at all, and what it does with them. -/
structure Reader (σ α : Type*) where
  need : σ → Option ℕ
  take : σ → List α → σ

/-- A reader, with the letters that have come and that it has not read. -/
@[ext] structure Feed (σ α : Type*) where
  reader : σ
  unread : List α := []
  isOpen : Bool := true

/-- A piece of the stream comes, the pending read ends if it can, or the stream is closed. -/
inductive FeedEvent (α : Type*) where
  | arrive (piece : List α)
  | complete
  | close

namespace Feed

/-- The pending read can end. -/
def Ready (R : Reader σ α) (s : Feed σ α) (n : ℕ) : Prop :=
  s.isOpen = true ∧ R.need s.reader = some n ∧ n ≤ s.unread.length

instance (R : Reader σ α) (s : Feed σ α) (n : ℕ) : Decidable (s.Ready R n) :=
  inferInstanceAs (Decidable (_ ∧ _ ∧ _))

def arrive (s : Feed σ α) (piece : List α) : Feed σ α :=
  { s with unread := s.unread ++ piece }

def close (s : Feed σ α) : Feed σ α := { s with isOpen := false }

/-- The reader is given its letters. -/
def next (R : Reader σ α) (s : Feed σ α) (n : ℕ) : Feed σ α :=
  { s with reader := R.take s.reader (s.unread.take n), unread := s.unread.drop n }

def complete (R : Reader σ α) (s : Feed σ α) : Feed σ α :=
  match R.need s.reader with
  | some n => if s.isOpen = true ∧ n ≤ s.unread.length then s.next R n else s
  | none => s

def step (R : Reader σ α) (s : Feed σ α) : FeedEvent α → Feed σ α
  | .arrive piece => s.arrive piece
  | .complete => s.complete R
  | .close => s.close

/-- A read that ends with what has come, which may be less than the reader waits for. -/
def receive (R : Reader σ α) (s : Feed σ α) : Feed σ α :=
  match R.need s.reader with
  | some n => if s.isOpen = true ∧ (n = 0 ∨ s.unread ≠ []) then s.next R n else s
  | none => s

def receiveStep (R : Reader σ α) (s : Feed σ α) : FeedEvent α → Feed σ α
  | .arrive piece => s.arrive piece
  | .complete => s.receive R
  | .close => s.close

/-- A read that ends has got all it waits for. -/
def Full (R : Reader σ α) (s : Feed σ α) (event : FeedEvent α) : Prop :=
  event = .complete → s.unread ≠ [] → ∀ n ∈ R.need s.reader, n ≤ s.unread.length

instance [DecidableEq α] (R : Reader σ α) (s : Feed σ α) : DecidablePred (s.Full R)
  | .complete => decidable_of_iff (s.unread ≠ [] → ∀ n ∈ R.need s.reader, n ≤ s.unread.length)
      ⟨fun h _ => h, fun h => h rfl⟩
  | .arrive _ | .close => .isTrue fun h => by cases h

/-- What comes in a run. -/
def arrived : List (FeedEvent α) → List α
  | [] => []
  | .arrive piece :: events => piece ++ arrived events
  | .complete :: events | .close :: events => arrived events

/-- A read ends. -/
inductive Reads (R : Reader σ α) (s : Feed σ α) : Feed σ α → Prop
  | next {n : ℕ} (h : s.Ready R n) : Reads R s (s.next R n)

/-- No read can end. -/
def Waits (R : Reader σ α) (s : Feed σ α) : Prop := ∀ n, ¬ s.Ready R n

variable {R : Reader σ α} {s t : Feed σ α}

theorem reads_unique : Relator.RightUnique (Reads R) := by
  intro s t t' h h'
  cases h with
  | next hn =>
    cases h' with
    | next hm =>
      have hnm := Option.some.inj (hn.2.1.symm.trans hm.2.1)
      rw [hnm]

/-- A read whose letters are in front. -/
theorem reads_front {r r' : σ} {letters : List α} (hneed : R.need r = some letters.length)
    (htake : R.take r letters = r') (rest : List α) :
    Reads R { reader := r, unread := letters ++ rest } { reader := r', unread := rest } := by
  have hnext : Feed.next R { reader := r, unread := letters ++ rest } letters.length =
      { reader := r', unread := rest } := by
    rw [next, List.take_left, List.drop_left, htake]
  rw [← hnext]
  refine .next ⟨rfl, hneed, ?_⟩
  rw [List.length_append]
  omega

theorem complete_eq_or (R : Reader σ α) (s : Feed σ α) :
    (s.Waits R ∧ s.complete R = s) ∨ s.Reads R (s.complete R) := by
  unfold complete
  cases hneed : R.need s.reader with
  | none =>
    left
    refine ⟨fun n hn => ?_, rfl⟩
    cases hneed.symm.trans hn.2.1
  | some n =>
    dsimp only
    split_ifs with hready
    · exact .inr (.next ⟨hready.1, hneed, hready.2⟩)
    · refine .inl ⟨fun m hm => hready ⟨hm.1, ?_⟩, rfl⟩
      have hnm := Option.some.inj (hneed.symm.trans hm.2.1)
      rw [hnm]
      exact hm.2.2

theorem arrive_nil (s : Feed σ α) : s.arrive [] = s := by
  rw [arrive, List.append_nil]

theorem arrive_append (s : Feed σ α) (piece rest : List α) :
    s.arrive (piece ++ rest) = (s.arrive piece).arrive rest := by
  simp only [arrive, List.append_assoc]

/-- A read that can end ends in the same way when more has come. -/
theorem Reads.arrive (h : s.Reads R t) (piece : List α) : (s.arrive piece).Reads R (t.arrive piece) := by
  cases h with
  | @next n hn =>
    obtain ⟨hopen, hneed, hle⟩ := hn
    have hnext : (s.next R n).arrive piece = (s.arrive piece).next R n := by
      simp only [Feed.next, Feed.arrive]
      rw [List.take_append_of_le_length hle, List.drop_append_of_le_length hle]
    rw [hnext]
    refine .next ⟨hopen, hneed, ?_⟩
    rw [Feed.arrive, List.length_append]
    omega

theorem reads_arrive (h : ReflTransGen (Reads R) s t) (piece : List α) :
    ReflTransGen (Reads R) (s.arrive piece) (t.arrive piece) :=
  h.lift (fun s : Feed σ α => s.arrive piece) fun _ _ hread => hread.arrive piece

/-- A closed stream stays as it is, but for what comes. -/
theorem run_closed (h : s.isOpen = false) (events : List (FeedEvent α)) :
    (run (step R) s events).reader = s.reader ∧ (run (step R) s events).isOpen = false := by
  refine run_invariant (fun t : Feed σ α => t.reader = s.reader ∧ t.isOpen = false) ?_ ⟨rfl, h⟩
    events
  rintro t event ⟨hreader, hclosed⟩
  cases event with
  | arrive piece => exact ⟨hreader, hclosed⟩
  | close => exact ⟨hreader, rfl⟩
  | complete =>
    rcases complete_eq_or R t with ⟨-, hsame⟩ | hread
    · rw [step, hsame]
      exact ⟨hreader, hclosed⟩
    · rw [step]
      generalize t.complete R = t' at hread ⊢
      cases hread with
      | next hn => exact absurd (hn.1.symm.trans hclosed) Bool.true_eq_false.mp

/-- Whenever the pieces come and the reads end, the reader is where it comes to when all has come
first. -/
theorem run_reads (h : s.isOpen = true) (events : List (FeedEvent α)) :
    ∃ t, ReflTransGen (Reads R) (s.arrive (arrived events)) t ∧
      (run (step R) s events).reader = t.reader ∧
        ((run (step R) s events).isOpen = true → run (step R) s events = t) := by
  induction events generalizing s with
  | nil =>
    refine ⟨s, ?_, rfl, fun _ => rfl⟩
    rw [arrived, arrive_nil]
  | cons event events ih =>
    rw [run_cons]
    cases event with
    | arrive piece =>
      rw [arrived, arrive_append]
      exact ih h
    | close =>
      obtain ⟨hreader, hclosed⟩ := run_closed (R := R) (s := s.close) rfl events
      refine ⟨_, .refl, hreader, fun hopen => ?_⟩
      exact absurd (hopen.symm.trans hclosed) Bool.true_eq_false.mp
    | complete =>
      rw [arrived]
      rcases complete_eq_or R s with ⟨-, hsame⟩ | hread
      · rw [step, hsame]
        exact ih h
      · have hopen : (s.complete R).isOpen = true := by
          generalize s.complete R = t at hread
          cases hread with
          | next _ => exact h
        obtain ⟨t, hreads, hrun⟩ := ih hopen
        exact ⟨t, .head (hread.arrive _) hreads, hrun⟩

theorem Waits.not_reads (h : s.Waits R) : ¬ s.Reads R t := by
  intro hread
  cases hread with
  | next hn => exact h _ hn

/-- Where no read can end, no more is read. -/
theorem Waits.eq (h : s.Waits R) (hreads : ReflTransGen (Reads R) s t) : t = s := by
  rcases ReflTransGen.cases_head hreads with heq | ⟨t', hread, -⟩
  · exact heq.symm
  · exact absurd hread h.not_reads

theorem receive_eq_complete (h : s.Full R .complete) : s.receive R = s.complete R := by
  unfold receive complete
  cases hneed : R.need s.reader with
  | none => rfl
  | some n =>
    have hiff : (n = 0 ∨ s.unread ≠ []) ↔ n ≤ s.unread.length := by
      constructor
      · rintro (rfl | hcome)
        · exact Nat.zero_le _
        · exact h rfl hcome n hneed
      · intro hle
        by_cases hcome : s.unread = []
        · rw [hcome] at hle
          exact .inl (Nat.le_zero.mp hle)
        · exact .inr hcome
    simp only [hiff]

/-- As long as no read ends early, it makes no difference how reads end. -/
theorem run_receiveStep {events : List (FeedEvent α)}
    (h : Guarded (receiveStep R) (Full R) s events) :
    run (receiveStep R) s events = run (step R) s events := by
  induction events generalizing s with
  | nil => rfl
  | cons event events ih =>
    have hsame : s.receiveStep R event = s.step R event := by
      cases event with
      | complete => exact receive_eq_complete h.1
      | arrive piece => rfl
      | close => rfl
    rw [run_cons, run_cons, ← hsame]
    exact ih h.2

/-- What is read from a state on goes on behind the next state. -/
theorem Reads.cases_of_reads {t' : Feed σ α} (h : s.Reads R t)
    (hreads : ReflTransGen (Reads R) s t') : t' = s ∨ ReflTransGen (Reads R) t t' := by
  rcases ReflTransGen.cases_head hreads with heq | ⟨u, hread, hrest⟩
  · exact .inl heq.symm
  · rw [reads_unique h hread]
    exact .inr hrest

end Feed

/-! Messages: each of them is a head, which says how long it is, and a body. What the reader has made
of them stands in its state. -/

variable {β : Type*}

/-- The reader takes a message with two reads, all is well on the way, and behind the second one it
has told what was in the message. -/
structure Takes (R : Reader σ α) (told : σ → List β) (P : σ → Prop) (r : σ) (message : List α)
    (out : List β) (mid r' : σ) (head body : List α) : Prop where
  split : message = head ++ body
  takesHead : R.need r = some head.length ∧ R.take r head = mid
  takesBody : R.need mid = some body.length ∧ R.take mid body = r'
  well : P mid ∧ P r'
  silent : told mid = told r
  tells : told r' = told r ++ out

/-- The reader takes these messages one after the other. -/
inductive Chain (R : Reader σ α) (told : σ → List β) (P : σ → Prop) :
    σ → List (List α) → List (List β) → Prop
  | nil {r : σ} (h : ∀ n, R.need r = some n → 0 < n) : Chain R told P r [] []
  | cons {r mid r' : σ} {message head body : List α} {out : List β} {messages : List (List α)}
    {outs : List (List β)} (h : Takes R told P r message out mid r' head body)
    (hrest : Chain R told P r' messages outs) : Chain R told P r (message :: messages) (out :: outs)

variable {R : Reader σ α} {told : σ → List β} {P : σ → Prop} {r : σ} {messages : List (List α)}
  {outs : List (List β)}

/-- Where a reader has come to on its way through the messages. -/
theorem Chain.reads (h : Chain R told P r messages outs) (hwell : P r) {t : Feed σ α}
    (hreads : ReflTransGen (Feed.Reads R) { reader := r, unread := messages.flatten } t) :
    ∃ k ≤ messages.length, P t.reader ∧ told t.reader = told r ++ (outs.take k).flatten ∧
      (t.Waits R → k = messages.length) := by
  induction h with
  | @nil r hneed =>
    have hwaits : Feed.Waits R { reader := r, unread := [] } := by
      intro n hn
      exact absurd hn.2.2 (Nat.not_le.mpr (hneed n hn.2.1))
    obtain rfl := hwaits.eq hreads
    exact ⟨0, Nat.le_refl 0, hwell, (List.append_nil _).symm, fun _ => rfl⟩
  | @cons r mid r' message head body out messages outs htakes hrest ih =>
    have hhead := Feed.reads_front htakes.takesHead.1 htakes.takesHead.2 (body ++ messages.flatten)
    have hbody := Feed.reads_front htakes.takesBody.1 htakes.takesBody.2 messages.flatten
    rw [List.flatten_cons, htakes.split, List.append_assoc] at hreads
    rcases hhead.cases_of_reads hreads with rfl | hreads
    · refine ⟨0, Nat.zero_le _, hwell, (List.append_nil _).symm, fun hwaits => ?_⟩
      exact absurd hhead hwaits.not_reads
    rcases hbody.cases_of_reads hreads with rfl | hreads
    · refine ⟨0, Nat.zero_le _, htakes.well.1, ?_, fun hwaits => ?_⟩
      · rw [htakes.silent]
        exact (List.append_nil _).symm
      · exact absurd hbody hwaits.not_reads
    obtain ⟨k, hk, hwell', htold, hall⟩ := ih htakes.well.2 hreads
    refine ⟨k + 1, Nat.succ_le_succ hk, hwell', ?_, fun hwaits => ?_⟩
    · rw [htold, htakes.tells, List.take_succ_cons, List.flatten_cons, List.append_assoc]
    · rw [hall hwaits, List.length_cons]

/-- However messages are cut, and whenever the reads end: so many of them have been taken, and when
all have come and no read can end any more, all of them have. -/
theorem Chain.run (h : Chain R told P r messages outs) (hwell : P r)
    {events : List (FeedEvent α)} (hcome : Feed.arrived events <+: messages.flatten) :
    let s := Machine.run (Feed.step R) { reader := r } events
    ∃ k ≤ messages.length, P s.reader ∧ told s.reader = told r ++ (outs.take k).flatten ∧
      (Feed.arrived events = messages.flatten → s.isOpen = true → s.Waits R →
        k = messages.length) := by
  intro s
  obtain ⟨rest, hrest⟩ := hcome
  obtain ⟨t, hreads, hreader, hopen⟩ :=
    Feed.run_reads (R := R) (s := { reader := r }) rfl events
  have hmore := Feed.reads_arrive hreads rest
  rw [← Feed.arrive_append, hrest] at hmore
  obtain ⟨k, hk, hwell', htold, hall⟩ := h.reads hwell hmore
  refine ⟨k, hk, ?_, ?_, fun hcame hisOpen hwaits => ?_⟩
  · rw [hreader]
    exact hwell'
  · rw [hreader]
    exact htold
  · have hnil : rest = [] := by
      rw [hcame] at hrest
      exact List.append_right_eq_self.mp hrest
    rw [hnil, Feed.arrive_nil, ← hopen hisOpen] at hall
    exact hall hwaits

end Reassembly
