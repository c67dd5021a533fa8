import TarotClub.DeckText
import TarotClub.TextSearch

namespace TarotClub.Deck

/-- What one turn of the loop does with a token: it counts, and a valid card is stored. -/
def takeToken (acc : ℕ × List Card) (cardName : Str) : ℕ × List Card :=
  let card := Card.ofString cardName
  (u8 (acc.1 + 1), if card.isValid then acc.2 ++ [card] else acc.2)

/-- The `do` loop of `SetCards` from a position on. Behind the last token `found + 1` wraps to zero,
and the loop ends. -/
def setCardsLoop (cards : Str) : ℕ → ℕ → ℕ × List Card → ℕ × List Card
  | 0, _, acc => acc
  | fuel + 1, pos, acc =>
    match findFrom cards (str ";") pos with
    | some found =>
      setCardsLoop cards fuel (found + 1) (takeToken acc (substr cards pos (found - pos)))
    | none => takeToken acc (substr cards pos (cards.length - pos))

/-- `SetCards` with its positions; every turn but the last takes a separator. -/
def setCardsAt (d : Deck) (cards : Str) : ℕ × Deck :=
  let (count, mDeck) := setCardsLoop cards (cards.length + 1) 0 (0, [])
  (count, { d with mDeck := mDeck })

theorem foldl_takeToken (names : List Str) (count : ℕ) (mDeck : List Card) :
    names.foldl takeToken (u8 count, mDeck) =
      (u8 (count + names.length), mDeck ++ (names.map Card.ofString).filter Card.isValid) := by
  induction names generalizing count mDeck with
  | nil => simp
  | cons name names ih =>
    have hcount : u8 (u8 count + 1) = u8 (count + 1) := Nat.mod_add_mod count 256 1
    rw [List.foldl_cons, takeToken, hcount, ih, List.length_cons, add_assoc, add_comm 1,
      List.map_cons]
    by_cases h : (Card.ofString name).isValid = true
    · simp [h]
    · simp [h]

/-- The loop takes the tokens behind the position, one after the other. -/
theorem setCardsLoop_eq {cards : Str} {fuel pos : ℕ} (hpos : pos ≤ cards.length)
    (hfuel : (split (cards.drop pos) (str ";")).length ≤ fuel) (acc : ℕ × List Card) :
    setCardsLoop cards fuel pos acc = (split (cards.drop pos) (str ";")).foldl takeToken acc := by
  have hne : str ";" ≠ [] := List.cons_ne_nil _ _
  have hone : (str ";").length = 1 := rfl
  induction fuel generalizing pos acc with
  | zero => exact absurd (List.length_eq_zero_iff.mp (Nat.le_zero.mp hfuel)) (split_ne_nil hne _)
  | succ fuel ih =>
    rw [split_search hne] at hfuel ⊢
    rw [setCardsLoop, findFrom, if_pos hpos]
    cases hfound : search (str ";") (cards.drop pos) with
    | none =>
      have hlast : substr cards pos (cards.length - pos) = cards.drop pos := by
        rw [substr, List.take_of_length_le (by rw [List.length_drop])]
      dsimp only [Option.map_none]
      rw [hlast]
      rfl
    | some i =>
      obtain ⟨hle, -⟩ := search_eq_some hfound
      rw [List.length_drop, hone] at hle
      have hnext : i + pos + 1 = pos + (i + 1) := by omega
      have hpiece : substr cards pos (i + pos - pos) = (cards.drop pos).take i := by
        rw [substr, Nat.add_sub_cancel]
      rw [hfound] at hfuel
      dsimp only [Option.map_some] at hfuel ⊢
      rw [List.length_cons, hone, List.drop_drop] at hfuel
      rw [hpiece, hnext, ih (by omega) (by omega), hone, List.drop_drop, List.foldl_cons]

/-- The loop gives the cards that splitting the text gives. -/
theorem setCardsAt_eq (d : Deck) (cards : Str) : d.setCardsAt cards = d.setCards cards := by
  have hne : str ";" ≠ [] := List.cons_ne_nil _ _
  have hloop := @setCardsLoop_eq cards _ 0 (Nat.zero_le _) (split_length_le hne cards)
    (u8 0, [])
  rw [List.drop_zero, foldl_takeToken, Nat.zero_add, List.nil_append] at hloop
  have hzero : u8 0 = 0 := rfl
  rw [hzero] at hloop
  rw [setCardsAt, hloop]
  rfl

/-- A deck of valid cards is read back from its text, card by card. -/
theorem deck_text_read_back (e : Deck) (h : ∀ c ∈ e.mDeck, c.isValid = true) (d : Deck) :
    (d.setCardsAt e.toString).2.mDeck = e.mDeck := by
  rw [setCardsAt_eq, setCards_toString d h]

/-- A card twice and the Fool, out of order. -/
theorem deck_text_read_back_three :
    let cards : List Card := [⟨14, Card.hearts⟩, Card.fool, ⟨14, Card.hearts⟩]
    (({} : Deck).setCardsAt (str "14-H;00-T;14-H")).2.mDeck = cards := by
  intro cards
  exact deck_text_read_back { mDeck := cards } (by decide) {}

end TarotClub.Deck
