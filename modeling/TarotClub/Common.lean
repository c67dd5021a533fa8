import Mathlib.Tactic.IntervalCases
import Mathlib.Order.Basic
import TarotClub.Text

namespace TarotClub

inductive Team where
  | attack
  | defense
  | noTeam
  deriving DecidableEq, Repr

def Team.value : Team → ℕ
  | attack => 0
  | defense => 1
  | noTeam => 0xFF

/-- The seats of a table; `nowhere` is the default of the class. -/
inductive Place where
  | south
  | east
  | north
  | west
  | fifth
  | nowhere
  deriving DecidableEq, Repr

namespace Place

def value : Place → ℕ
  | south => 0
  | east => 1
  | north => 2
  | west => 3
  | fifth => 4
  | nowhere => 5

/-- Assignment of a number: what is above `NOWHERE` becomes `SOUTH`. -/
def assign : ℕ → Place
  | 1 => east
  | 2 => north
  | 3 => west
  | 4 => fifth
  | 5 => nowhere
  | _ => south

def toString : Place → Str
  | south => str "South"
  | east => str "East"
  | north => str "North"
  | west => str "West"
  | fifth => str "Fifth"
  | nowhere => str "Nowhere"

/-- Assignment of a text: unknown texts give `NOWHERE`. -/
def ofString (s : Str) : Place :=
  if s = str "South" then south
  else if s = str "East" then east
  else if s = str "North" then north
  else if s = str "West" then west
  else if s = str "Fifth" then fifth
  else nowhere

/-- The next player on the right. -/
def next (p : Place) (numberOfPlayers : ℕ) : Place :=
  let place := p.value + 1
  if place ≥ numberOfPlayers ∨ place ≥ nowhere.value then south else assign place

def previous (p : Place) (numberOfPlayers : ℕ) : Place :=
  if p = south then assign ((numberOfPlayers + 255) % 256) else assign (p.value - 1)

def isValid (p : Place) : Bool := p.value < nowhere.value

theorem value_le (p : Place) : p.value ≤ 5 := by cases p <;> decide

@[simp] theorem value_inj {p q : Place} : p.value = q.value ↔ p = q := by
  cases p <;> cases q <;> decide

@[simp] theorem assign_value (p : Place) : assign p.value = p := by cases p <;> rfl

theorem value_assign {i : ℕ} (h : i ≤ 5) : (assign i).value = i := by
  interval_cases i <;> rfl

@[simp] theorem ofString_toString (p : Place) : ofString p.toString = p := by
  cases p <;> decide

/-- Below five seats the turn goes round modulo the number of players. -/
theorem next_value {p : Place} {n : ℕ} (hn : n ≤ 5) (hp : p.value < n) :
    (p.next n).value = (p.value + 1) % n := by
  have h5 : nowhere.value = 5 := rfl
  simp only [next, h5]
  by_cases h : p.value + 1 ≥ n ∨ p.value + 1 ≥ 5
  · have he : p.value + 1 = n := by omega
    rw [if_pos h, he, Nat.mod_self]
    rfl
  · rw [if_neg h, value_assign (by omega), Nat.mod_eq_of_lt (by omega)]

theorem next_value_lt {n : ℕ} (p : Place) (h0 : 0 < n) : (p.next n).value < n := by
  have h5 : nowhere.value = 5 := rfl
  simp only [next, h5]
  by_cases h : p.value + 1 ≥ n ∨ p.value + 1 ≥ 5
  · rw [if_pos h]
    exact h0
  · rw [if_neg h, value_assign (by omega)]
    omega

theorem previous_value_lt {p : Place} {n : ℕ} (hn : n ≤ 5) (hp : p.value < n) :
    (p.previous n).value < n := by
  unfold previous
  by_cases hsouth : p = south
  · have hlast : (n + 255) % 256 = n - 1 := by omega
    rw [if_pos hsouth, hlast, value_assign (by omega)]
    omega
  · have hle := p.value_le
    rw [if_neg hsouth, value_assign (by omega)]
    omega

end Place

inductive Contract where
  | noAny
  | pass
  | take
  | guard
  | guardWithout
  | guardAgainst
  deriving DecidableEq, Repr

namespace Contract

def value : Contract → ℕ
  | noAny => 0
  | pass => 1
  | take => 2
  | guard => 3
  | guardWithout => 4
  | guardAgainst => 5

/-- The order of the announcements, by value. -/
instance : LinearOrder Contract :=
  LinearOrder.lift' value (by intro a b; cases a <;> cases b <;> decide)

theorem noAny_le (c : Contract) : noAny ≤ c := Nat.zero_le _

theorem pass_le {c : Contract} (h : c ≠ noAny) : pass ≤ c := by
  cases c <;> first | exact absurd rfl h | decide

theorem eq_pass_of_le {c : Contract} (h : c ≠ noAny) (hle : c ≤ pass) : c = pass :=
  le_antisymm hle (pass_le h)

theorem take_le {c : Contract} (h : c ≠ noAny) (h' : c ≠ pass) : take ≤ c := by
  cases c <;> first | exact absurd rfl h | exact absurd rfl h' | decide

def toString : Contract → Str
  | noAny => []
  | pass => str "Pass"
  | take => str "Take"
  | guard => str "Guard"
  | guardWithout => str "Guard without"
  | guardAgainst => str "Guard against"

/-- Assignment of a text: the empty text is the contract `NO_ANY`, unknown texts give
`PASS`. -/
def ofString (s : Str) : Contract :=
  if s = [] then noAny
  else if s = str "Take" then take
  else if s = str "Guard" then guard
  else if s = str "Guard without" then guardWithout
  else if s = str "Guard against" then guardAgainst
  else pass

@[simp] theorem ofString_toString (c : Contract) : ofString c.toString = c := by
  cases c <;> decide

end Contract

/-- `Tarot::Bid`. -/
structure Bid where
  taker : Place := .nowhere
  partner : Place := .nowhere
  contract : Contract := .noAny
  slam : Bool := false
  deriving DecidableEq, Repr

def Bid.hasPartner (b : Bid) : Bool :=
  b.taker.isValid && b.partner.isValid && b.partner != b.taker

inductive Handle where
  | noHandle
  | simpleHandle
  | doubleHandle
  | tripleHandle
  deriving DecidableEq, Repr

inductive DealType where
  | random
  | numbered
  | custom
  deriving DecidableEq, Repr

/-- `Distribution::TypeFromString`. -/
def DealType.ofString (s : Str) : DealType :=
  if s = str "Random" then random else if s = str "Numbered" then numbered else custom

def DealType.toString : DealType → Str
  | random => str "Random"
  | numbered => str "Numbered"
  | custom => str "Custom"

/-- `Tarot::Distribution`. -/
structure Distribution where
  mType : DealType := .random
  mFile : Str := []
  mSeed : ℕ := 0
  deriving DecidableEq, Repr

inductive GameMode where
  | quickDeal
  | simpleTournament
  | custom
  deriving DecidableEq, Repr

/-- `Game::Set`. -/
def GameMode.ofString (s : Str) : GameMode :=
  if s = str "Custom" then custom
  else if s = str "SimpleTournament" then simpleTournament
  else quickDeal

/-- `Game::Get`. -/
def GameMode.toString : GameMode → Str
  | custom => str "Custom"
  | simpleTournament => str "SimpleTournament"
  | quickDeal => str "QuickDeal"

/-- `Tarot::Game`. -/
structure Game where
  mode : GameMode := .quickDeal
  deals : List Distribution := [{}]
  deriving DecidableEq, Repr

def numberOfCardsInHand (numberOfPlayers : ℕ) : ℕ :=
  if numberOfPlayers = 3 then 24 else if numberOfPlayers = 5 then 15 else 18

def numberOfDogCards (numberOfPlayers : ℕ) : ℕ :=
  ((78 - numberOfCardsInHand numberOfPlayers * numberOfPlayers : ℤ) % 256).toNat

def isDealFinished (trickCounter numberOfPlayers : ℕ) : Bool :=
  trickCounter ≥ numberOfCardsInHand numberOfPlayers

def getHandlePoints (nbPlayers : ℕ) (handle : Handle) : ℤ :=
  if nbPlayers = 4 then
    match handle with
    | .simpleHandle => 20
    | .doubleHandle => 30
    | .tripleHandle => 40
    | .noHandle => 0
  else if nbPlayers = 3 then
    match handle with
    | .simpleHandle => 13
    | .doubleHandle => 15
    | .tripleHandle => 18
    | .noHandle => 0
  else if nbPlayers = 5 then
    match handle with
    | .simpleHandle => 8
    | .doubleHandle => 10
    | .tripleHandle => 13
    | .noHandle => 0
  else 0

def getHandleType (size : ℕ) : Handle :=
  if size = 10 then .simpleHandle
  else if size = 13 then .doubleHandle
  else if size = 15 then .tripleHandle
  else .noHandle

/-- `Tarot::PointsToDo`; the number of oudlers arrives as an unsigned byte. -/
def pointsToDo (numberOfOudlers : ℕ) : ℤ :=
  match numberOfOudlers % 256 with
  | 0 => 56
  | 1 => 51
  | 2 => 41
  | _ => 36

def getMultiplier : Contract → ℤ
  | .take => 1
  | .guard => 2
  | .guardWithout => 4
  | .guardAgainst => 6
  | _ => 0

end TarotClub
