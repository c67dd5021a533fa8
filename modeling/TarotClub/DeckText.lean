import TarotClub.Cards
import TarotClub.TextSearch

namespace TarotClub

namespace Deck

/-- The text of a deck of valid cards is read back. -/
theorem setCards_toString (d : Deck) {e : Deck} (h : ∀ c ∈ e.mDeck, c.isValid = true) :
    (d.setCards e.toString).2 = { d with mDeck := e.mDeck } := by
  rw [setCards]
  cases hcards : e.mDeck with
  | nil =>
    rw [toString, hcards]
    rfl
  | cons c cards =>
    have hne : e.mDeck.map Card.toString ≠ [] := by rw [hcards]; exact List.cons_ne_nil _ _
    have hsplit : split e.toString (str ";") = e.mDeck.map Card.toString := by
      refine split_join hne fun t ht => ?_
      obtain ⟨x, hx, rfl⟩ := List.mem_map.mp ht
      exact Card.semicolon_not_mem_toString (h x hx)
    have hread : (e.mDeck.map Card.toString).map Card.ofString = e.mDeck := by
      rw [List.map_map]
      exact (List.map_congr_left fun x hx => Card.ofString_toString (h x hx)).trans
        (List.map_id e.mDeck)
    have hvalid : e.mDeck.filter Card.isValid = e.mDeck := List.filter_eq_self.mpr h
    rw [← hcards, hsplit, hread, hvalid]

theorem ofString_toString {e : Deck} (h : ∀ c ∈ e.mDeck, c.isValid = true) :
    ofString e.toString = e.setOwner .noTeam :=
  setCards_toString {} h

/-- `SetCards` where the variable of the constructor of a card holds `memory i` as the token `i` is
read. -/
def setCardsFrom (memory : ℕ → ℕ) (d : Deck) (cards : Str) : ℕ × Deck :=
  let names := split cards (str ";")
  (u8 names.length,
    { d with
      mDeck := (names.zipIdx.map fun x => Card.ofName (memory x.2) x.1).filter Card.isValid })

/-- Whatever the memory holds, another text gives the same count and the same cards. -/
theorem exists_setCards (memory : ℕ → ℕ) (d : Deck) (cards : Str) :
    ∃ cards', d.setCardsFrom memory cards = d.setCards cards' := by
  choose other hplain hvalid hcard using Card.exists_ofString
  have hne : str ";" ≠ [] := List.cons_ne_nil _ _
  generalize hnames : split cards (str ";") = names
  obtain ⟨others, hothers⟩ : ∃ others, others = names.zipIdx.map fun x => other (memory x.2) x.1 :=
    ⟨_, rfl⟩
  have hsome : others ≠ [] := by
    rw [hothers, ne_eq, List.map_eq_nil_iff, List.zipIdx_eq_nil_iff, ← hnames]
    exact split_ne_nil hne cards
  have hsplit : split (join others (str ";")) (str ";") = others := by
    refine split_join hsome fun t ht => ?_
    rw [hothers] at ht
    obtain ⟨x, -, rfl⟩ := List.mem_map.mp ht
    exact hplain _ _
  have hkeep : Card.isValid ∘ Card.ofString ∘ (fun x : Str × ℕ => other (memory x.2) x.1) =
      Card.isValid ∘ fun x => Card.ofName (memory x.2) x.1 := funext fun x => hvalid _ _
  have hcards : (others.map Card.ofString).filter Card.isValid =
      (names.zipIdx.map fun x => Card.ofName (memory x.2) x.1).filter Card.isValid := by
    rw [hothers, List.map_map, List.filter_map, List.filter_map, hkeep]
    exact List.map_congr_left fun x hx => hcard _ _ (List.mem_filter.mp hx).2
  have hlength : others.length = names.length := by
    rw [hothers, List.length_map, List.length_zipIdx]
  refine ⟨join others (str ";"), ?_⟩
  rw [setCardsFrom, setCards, hsplit, hcards, hlength, hnames]

end Deck

end TarotClub
