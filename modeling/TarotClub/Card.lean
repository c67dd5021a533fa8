import TarotClub.Common

/-! A tarot card: trumps are numbered from 0 (the Fool) to 21, the cards of the four plain
suits from 1 to 14, with the jack at 11, the knight at 12, the queen at 13 and the king at 14. -/
namespace TarotClub

/-- Suit and value as bytes; the default card is invalid. -/
structure Card where
  mValue : ℕ := 0xFF
  mSuit : ℕ := 0xFF
  deriving DecidableEq, Repr

namespace Card

abbrev spades : ℕ := 0
abbrev hearts : ℕ := 1
abbrev diamonds : ℕ := 2
abbrev clubs : ℕ := 3
abbrev trumps : ℕ := 4

abbrev king : ℕ := 14
abbrev queen : ℕ := 13
abbrev knight : ℕ := 12
abbrev jack : ℕ := 11

/-- The Fool. -/
abbrev fool : Card := ⟨0, trumps⟩

def suits : Str := str "SHDCT"

def suitName (suit : ℕ) : Str := if suit ≤ trumps then [suits.getD suit 0] else []

def suitFromName (name : Str) : ℕ :=
  (List.range 5).foldl (fun suit i => if name = [suits.getD i 0] then i else suit) 0xFF

def toString (c : Card) : Str := padLeft 2 (decimal c.mValue) ++ str "-" ++ suitName c.mSuit

/-- `ss >> value` for a variable that holds `value`: a text of white space alone leaves it. -/
def extractUInt32 (value : ℕ) (s : Str) : ℕ :=
  if s.all isSpace then value else streamToUInt32 s

/-- The card named by a text of four characters; the third one is not looked at. `uninitialized`
is what the variable holds that the value is read into. -/
def ofName (uninitialized : ℕ) (name : Str) : Card :=
  if name.length = 4 then
    { mValue := extractUInt32 uninitialized (name.take 2) % 256
      mSuit := suitFromName [name.getD 3 0] }
  else {}

/-- The constructor where that variable holds zero: what it holds shows in the names alone that
begin with two blanks (`ofName_eq_ofString`), and no card is read then that another name does not
give (`exists_ofString`). -/
def ofString (name : Str) : Card := ofName 0 name

def isValid (c : Card) : Bool :=
  if c.mSuit = trumps then c.mValue ≤ 21
  else if c.mSuit < trumps then 0 < c.mValue && c.mValue ≤ 14
  else false

def isFool (c : Card) : Bool := c.mSuit = trumps && c.mValue = 0

/-- Card points, counted in half points. -/
def getPoints (c : Card) : ℤ :=
  if c.mSuit = trumps then
    if c.mValue = 0 ∨ c.mValue = 1 ∨ c.mValue = 21 then 9 else 1
  else if c.mValue > 10 then 1 + 2 * (c.mValue - 10) else 1

@[simp] theorem isValid_default : isValid {} = false := rfl

theorem isFool_iff {c : Card} : c.isFool = true ↔ c = fool := by
  cases c
  simp [isFool, fool, and_comm]

theorem getPoints_pos (c : Card) : 1 ≤ c.getPoints := by
  unfold getPoints
  split_ifs <;> omega

theorem valid_bounds {c : Card} (h : c.isValid = true) : c.mSuit ≤ 4 ∧ c.mValue ≤ 21 := by
  have ht : trumps = 4 := rfl
  unfold isValid at h
  split_ifs at h
  · simp only [decide_eq_true_eq] at h
    omega
  · simp only [Bool.and_eq_true, decide_eq_true_eq] at h
    omega

/-- The texts of the valid cards name these cards, are four characters long and hold no
semicolon. -/
theorem toString_table : ∀ s ≤ 4, ∀ v ≤ 21, isValid ⟨v, s⟩ = true →
    ofString (toString ⟨v, s⟩) = ⟨v, s⟩ ∧ (toString ⟨v, s⟩).length = 4 ∧
      chr ';' ∉ toString ⟨v, s⟩ := by
  decide +kernel

theorem ofString_toString {c : Card} (h : c.isValid = true) : ofString c.toString = c :=
  (toString_table c.mSuit (valid_bounds h).1 c.mValue (valid_bounds h).2 h).1

theorem ofName_eq_ofString (value : ℕ) {name : Str} (h : (name.take 2).all isSpace = false) :
    ofName value name = ofString name := by
  simp only [ofName, ofString, extractUInt32, h, Bool.false_eq_true, if_false]

theorem length_toString {c : Card} (h : c.isValid = true) : c.toString.length = 4 :=
  (toString_table c.mSuit (valid_bounds h).1 c.mValue (valid_bounds h).2 h).2.1

theorem semicolon_not_mem_toString {c : Card} (h : c.isValid = true) :
    chr ';' ∉ c.toString :=
  (toString_table c.mSuit (valid_bounds h).1 c.mValue (valid_bounds h).2 h).2.2

/-- What the variable holds gives no card that the names without it do not give. -/
theorem exists_ofString (value : ℕ) (name : Str) :
    ∃ name', chr ';' ∉ name' ∧ (ofString name').isValid = (ofName value name).isValid ∧
      ((ofName value name).isValid = true → ofString name' = ofName value name) := by
  cases h : (ofName value name).isValid with
  | true =>
    have hread := ofString_toString h
    exact ⟨_, semicolon_not_mem_toString h, by rw [hread, h], fun _ => hread⟩
  | false => exact ⟨[], List.not_mem_nil, rfl, fun hvalid => absurd hvalid Bool.false_ne_true⟩

end Card

end TarotClub
