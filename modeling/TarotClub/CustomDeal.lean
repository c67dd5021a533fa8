import TarotClub.DealGenerator
import TarotClub.DealRun

namespace TarotClub

open Finset (range)

/-- What the server finds on its disk. -/
structure Files where
  fileExists : Str → Bool
  read : Str → Option Str
  homePath : Str

/-- The file of a distribution, looked for in the home directory when it is not found as it is
named. -/
def Files.custom (files : Files) (shuffle : Distribution) : Option Str :=
  files.read
    (if files.fileExists shuffle.mFile then shuffle.mFile else files.homePath ++ shuffle.mFile)

/-- `CreateDeal`: a custom deal that is refused is replaced by a random one. -/
def customDealer (files : Files) (random : Dealer) : Dealer := fun nbPlayers shuffle =>
  if shuffle.mType = .custom then
    let (loaded, editor) := ({} : DealGenerator).loadFile (files.custom shuffle)
    if loaded && editor.isValid nbPlayers then
      { mPlayers := editor.mPlayers
        mDogDeck := editor.mDogDeck
        mFirstPlayer := some editor.mFirstPlayer }
    else random nbPlayers shuffle
  else random nbPlayers shuffle

namespace DealGenerator

variable {json : JsonValue} {n : ℕ}

/-- The cards that a file names under a key. -/
def cardsOf (json : JsonValue) (key : Str) : List Card := (Deck.ofString (textOf json key)).mDeck

/-- The cards that a file names for the first `n` seats and for the dog. -/
def namedCards (n : ℕ) (json : JsonValue) : List Card :=
  (List.range n).flatMap (fun i => cardsOf json (handKey i)) ++ cardsOf json (str "Dog")

theorem isValid_iff {g : DealGenerator} : g.isValid n = true ↔
    (∀ i < n, (g.mPlayers i).size = numberOfCardsInHand n) ∧
      g.mDogDeck.size = numberOfDogCards n := by
  simp [isValid, List.all_eq_true]

theorem valid_of_mem_cardsOf {key : Str} {c : Card} (h : c ∈ cardsOf json key) :
    c.isValid = true :=
  (List.mem_filter.mp h).2

theorem valid_of_mem_namedCards {c : Card} (h : c ∈ namedCards n json) : c.isValid = true := by
  rcases List.mem_append.mp h with h | h
  · obtain ⟨i, -, hc⟩ := List.mem_flatMap.mp h
    exact valid_of_mem_cardsOf hc
  · exact valid_of_mem_cardsOf h

theorem coe_namedCards (n : ℕ) (json : JsonValue) : (namedCards n json : Multiset Card) =
    ∑ i ∈ range n, (cardsOf json (handKey i) : Multiset Card) + cardsOf json (str "Dog") := by
  rw [namedCards, ← Multiset.coe_add]
  refine congrArg (· + _) ?_
  induction n with
  | zero => rfl
  | succ n ih => rw [List.range_succ, List.flatMap_append, ← Multiset.coe_add, ih,
      Finset.sum_range_succ, List.flatMap_singleton]

/-- Valid cards in the number of the 78 are the 78 when none of them is repeated. -/
theorem namedCards_nodup (hlength : (namedCards n json).length = 78) :
    (namedCards n json : Multiset Card) = Deck.tarotDeck.cards ↔ (namedCards n json).Nodup := by
  constructor
  · intro h
    exact Multiset.coe_nodup.mp (h ▸ Deck.tarotDeck_nodup)
  · intro h
    refine Multiset.eq_of_le_of_card_le ?_ ?_
    · refine (Multiset.le_iff_subset (Multiset.coe_nodup.mpr h)).mpr fun c hc => ?_
      exact Deck.mem_cards.mpr (Deck.mem_tarotDeck.mpr (valid_of_mem_namedCards hc))
    · rw [Multiset.coe_card, hlength, Deck.card_cards, Deck.tarotDeck_size]

/-- The editor holds what the file names. -/
structure Holds (json : JsonValue) (g : DealGenerator) : Prop where
  hands : ∀ i < 5, (g.mPlayers i).mDeck = cardsOf json (handKey i)
  dog : g.mDogDeck.mDeck = cardsOf json (str "Dog")
  seat : g.mFirstPlayer = Place.ofString (textOf json (str "FirstPlayer"))

theorem holds_loadJson {g : DealGenerator} (h : Complete json) : Holds json (g.loadJson json).2 := by
  rw [loadJson_eq h]
  refine ⟨fun i hi => ?_, rfl, rfl⟩
  simp only [withHands, if_pos hi]
  rfl

/-- A file that is loaded and has the right sizes has a dog, so the editor holds all
that the file names. -/
theorem holds_of_accepted {file : Option Str} (hn : n = 3 ∨ n = 4 ∨ n = 5)
    (hloaded : (({} : DealGenerator).loadFile file).1 = true)
    (hvalid : (({} : DealGenerator).loadFile file).2.isValid n = true) :
    ∃ json, file.bind JsonReader.parseString = some json ∧
      Holds json (({} : DealGenerator).loadFile file).2 := by
  rw [loadFile] at hloaded hvalid ⊢
  cases hparse : file.bind JsonReader.parseString with
  | none =>
    rw [hparse] at hloaded
    contradiction
  | some json =>
    rw [hparse] at hloaded hvalid
    dsimp only at hloaded hvalid ⊢
    rcases loadJson_fst.mp hloaded with hcomplete | ⟨hversion, hdog⟩
    · exact ⟨json, rfl, holds_loadJson hcomplete⟩
    · have hempty : (({} : DealGenerator).clear.loadJson json).2.mDogDeck.size = 0 := by
        rw [loadJson, if_pos hversion, hdog]
        rfl
      have hsize := (isValid_iff.mp hvalid).2
      rw [hempty] at hsize
      rcases hn with rfl | rfl | rfl <;> contradiction

theorem Holds.sum_cards {g : DealGenerator} (h : Holds json g) (h5 : n ≤ 5) :
    ∑ i ∈ range n, (g.mPlayers i).cards + g.mDogDeck.cards = (namedCards n json : Multiset Card) := by
  rw [coe_namedCards, Deck.cards, h.dog]
  refine congrArg (· + _) (Finset.sum_congr rfl fun i hi => ?_)
  rw [Deck.cards, h.hands i ((Finset.mem_range.mp hi).trans_le h5)]

theorem Holds.length_namedCards {g : DealGenerator} (h : Holds json g)
    (hn : n = 3 ∨ n = 4 ∨ n = 5) (hvalid : g.isValid n = true) :
    (namedCards n json).length = 78 := by
  obtain ⟨hhands, hdog⟩ := isValid_iff.mp hvalid
  have hcard := congrArg Multiset.card (h.sum_cards (by omega : n ≤ 5))
  rw [Multiset.card_add, Multiset.card_sum, Deck.card_cards, hdog, Multiset.coe_card] at hcard
  simp only [Deck.card_cards] at hcard
  rw [Finset.sum_const_nat fun i hi => hhands i (Finset.mem_range.mp hi),
    Finset.card_range] at hcard
  rw [← hcard]
  rcases hn with rfl | rfl | rfl <;> rfl

end DealGenerator

namespace Engine

open DealGenerator

variable {n : ℕ} {files : Files} {random : Dealer} {shuffle : Distribution}

/-- The deal of a file that is accepted is what the editor holds. -/
theorem customDealer_accepted (hcustom : shuffle.mType = .custom)
    (hloaded : (({} : DealGenerator).loadFile (files.custom shuffle)).1 = true)
    (hvalid : (({} : DealGenerator).loadFile (files.custom shuffle)).2.isValid n = true) :
    let g := (({} : DealGenerator).loadFile (files.custom shuffle)).2
    customDealer files random n shuffle =
      { mPlayers := g.mPlayers, mDogDeck := g.mDogDeck, mFirstPlayer := some g.mFirstPlayer } := by
  simp only [customDealer, if_pos hcustom, hloaded, hvalid, Bool.and_self, if_true]

theorem newDeal_custom {e : Engine} {deal : Deal} {first : Place}
    (hfirst : deal.mFirstPlayer = some first) :
    (e.newDeal deal).mCurrentPlayer = first ∧
      (e.newDeal deal).mDealer = first.previous e.mCtx.mNbPlayers := by
  unfold newDeal createDeal
  rw [hfirst]
  exact ⟨rfl, rfl⟩

/-- An accepted file deals out the 78 cards and sits a player of the table at the lead exactly when
it names no card twice and one of the first `n` seats. -/
theorem custom_deal (hn : n = 3 ∨ n = 4 ∨ n = 5) (e : Engine) (he : e.mCtx.mNbPlayers = n)
    (files : Files) (random : Dealer) (shuffle : Distribution) (hcustom : shuffle.mType = .custom)
    (hloaded : (({} : DealGenerator).loadFile (files.custom shuffle)).1 = true)
    (hvalid : (({} : DealGenerator).loadFile (files.custom shuffle)).2.isValid n = true) :
    let r := e.newDeal (customDealer files random n shuffle)
    (∑ i ∈ range n, (r.mPlayers i).cards + r.mCtx.mDog.cards = Deck.tarotDeck.cards ∧
        r.mCurrentPlayer.value < n ∧ r.mDealer.value < n) ↔
      ∃ json, (files.custom shuffle).bind JsonReader.parseString = some json ∧
        (namedCards n json).Nodup ∧
        (Place.ofString (textOf json (str "FirstPlayer"))).value < n := by
  intro r
  obtain ⟨json, hparse, hholds⟩ := holds_of_accepted hn hloaded hvalid
  have hlength := hholds.length_namedCards hn hvalid
  have hdeal : customDealer files random n shuffle = _ :=
    customDealer_accepted hcustom hloaded hvalid
  obtain ⟨hcurrent, hdealer⟩ := newDeal_custom (e := e) (congrArg Deal.mFirstPlayer hdeal)
  have hhand : ∀ i < n, (r.mPlayers i).mDeck =
      ((({} : DealGenerator).loadFile (files.custom shuffle)).2.mPlayers i).mDeck := by
    intro i hi
    rw [newDeal_mPlayers e _ (he.symm ▸ hi), hdeal]
  have hcards : ∑ i ∈ range n, (r.mPlayers i).cards + r.mCtx.mDog.cards =
      (namedCards n json : Multiset Card) := by
    rw [← hholds.sum_cards (by omega : n ≤ 5), newDeal_dog, hdeal]
    refine congrArg (· + _) (Finset.sum_congr rfl fun i hi => ?_)
    exact congrArg Multiset.ofList (hhand i (Finset.mem_range.mp hi))
  have hseat : ∀ p : Place, p.value < n ↔ p.value < n ∧ (p.previous n).value < n := fun p =>
    ⟨fun hp => ⟨hp, Place.previous_value_lt (by omega) hp⟩, And.left⟩
  rw [hcards, namedCards_nodup hlength, hcurrent, hdealer, he, ← hseat, hholds.seat, hparse]
  constructor
  · exact fun h => ⟨json, rfl, h⟩
  · rintro ⟨json', hjson, h⟩
    exact Option.some.inj hjson ▸ h

/-- A disk on which every name is the same file. -/
def oneFile (text : Str) : Files :=
  { fileExists := fun _ => true, read := fun _ => some text, homePath := [] }

/-- A saved deal of the right sizes is accepted when it is loaded again. -/
theorem accepted_of_saved (shuffle : Distribution) {g : DealGenerator} (h : g.Proper) (h5 : n ≤ 5)
    (hvalid : g.isValid n = true) :
    let r := ({} : DealGenerator).loadFile ((oneFile g.saveFile).custom shuffle)
    r.1 = true ∧ r.2.isValid n = true ∧ g.Restores r.2 := by
  have hfile : (oneFile g.saveFile).custom shuffle = some (g.toString ++ [chr '\n']) := rfl
  obtain ⟨hret, hdeal⟩ := loadFile_toString h {} (t := [chr '\n']) (by decide)
  obtain ⟨hhands, hdog⟩ := DealGenerator.isValid_iff.mp hvalid
  rw [hfile]
  refine ⟨hret, DealGenerator.isValid_iff.mpr ⟨?_, ?_⟩, hdeal⟩
  · intro i hi
    rw [Deck.size, hdeal.hands i (hi.trans_le h5), ← Deck.size, hhands i hi]
  · rw [Deck.size, hdeal.dog, ← Deck.size, hdog]

/-- The deal of a deck that nobody has shuffled, with `WEST` at the lead. -/
def plainEditor : DealGenerator :=
  { mPlayers := (plainDealer 4 {}).mPlayers
    mDogDeck := (plainDealer 4 {}).mDogDeck
    mFirstPlayer := .west }

theorem custom_deal_plain :
    let shuffle : Distribution := { mType := .custom }
    let r := ({} : Engine).newDeal
      (customDealer (oneFile plainEditor.saveFile) plainDealer 4 shuffle)
    (∑ i ∈ range 4, (r.mPlayers i).cards + r.mCtx.mDog.cards = Deck.tarotDeck.cards ∧
        r.mCurrentPlayer.value < 4 ∧ r.mDealer.value < 4) ↔
      ∃ json, ((oneFile plainEditor.saveFile).custom shuffle).bind JsonReader.parseString =
          some json ∧
        (namedCards 4 json).Nodup ∧
        (Place.ofString (textOf json (str "FirstPlayer"))).value < 4 := by
  have hproper : plainEditor.Proper := ⟨by decide +kernel, by decide +kernel, rfl⟩
  obtain ⟨hloaded, hvalid, -⟩ :=
    accepted_of_saved (n := 4) { mType := .custom } hproper (by decide) (by decide +kernel)
  exact custom_deal (.inr (.inl rfl)) {} rfl _ plainDealer { mType := .custom } rfl hloaded hvalid

/-- The trumps from 1 to `k`. -/
def lowTrumps (k : ℕ) : Deck := { mDeck := (List.range k).map fun i => ⟨i + 1, Card.trumps⟩ }

/-- Four hands of the same 18 trumps, and six of these once more in the dog. -/
def fourAlike : DealGenerator :=
  { mPlayers := fun i => if i < 4 then lowTrumps 18 else {}
    mDogDeck := lowTrumps 6
    mFirstPlayer := .south }

/-- A file that gives every player the same hand is accepted. -/
theorem custom_deal_alike :
    ¬ ∀ n, (n = 3 ∨ n = 4 ∨ n = 5) → ∀ (e : Engine) (files : Files) (random : Dealer)
      (shuffle : Distribution), e.mCtx.mNbPlayers = n → shuffle.mType = .custom →
      (({} : DealGenerator).loadFile (files.custom shuffle)).1 = true →
      (({} : DealGenerator).loadFile (files.custom shuffle)).2.isValid n = true →
      let r := e.newDeal (customDealer files random n shuffle)
      ∑ i ∈ range n, (r.mPlayers i).cards + r.mCtx.mDog.cards = Deck.tarotDeck.cards ∧
        r.mCurrentPlayer.value < n ∧ r.mDealer.value < n := by
  intro hall
  have hproper : fourAlike.Proper := ⟨by decide +kernel, by decide +kernel, rfl⟩
  obtain ⟨hloaded, hvalid, hdeal⟩ :=
    accepted_of_saved (n := 4) { mType := .custom } hproper (by decide) (by decide +kernel)
  obtain ⟨hcards, -⟩ := hall 4 (.inr (.inl rfl)) {} (oneFile fourAlike.saveFile) plainDealer
    { mType := .custom } rfl rfl hloaded hvalid
  rw [customDealer_accepted rfl hloaded hvalid] at hcards
  generalize (({} : DealGenerator).loadFile ((oneFile fourAlike.saveFile).custom
    { mType := .custom })).2 = g at hcards hdeal
  set r := ({} : Engine).newDeal ⟨g.mPlayers, g.mDogDeck, some g.mFirstPlayer⟩
  have hhand : ∀ i < 4, (r.mPlayers i).mDeck = (lowTrumps 18).mDeck := by
    intro i hi
    rw [newDeal_mPlayers {} _ hi, hdeal.hands i (by omega)]
    exact congrArg Deck.mDeck (if_pos hi)
  have hdog : r.mCtx.mDog.mDeck = (lowTrumps 6).mDeck := by
    rw [newDeal_dog, hdeal.dog, fourAlike]
  have hfair : Deal.Fair 4 ⟨r.mPlayers, r.mCtx.mDog, none⟩ := by
    refine ⟨fun i hi => ?_, ?_, hcards⟩
    · rw [Deck.size, hhand i hi]
      decide
    · rw [Deck.size, hdog]
      decide
  have hmem : (⟨1, Card.trumps⟩ : Card) ∈ (lowTrumps 18).mDeck := by decide
  exact absurd (hfair.unique_hand (i := 0) (j := 1) (by decide) (by decide)
    (hhand 0 (by decide) ▸ hmem) (hhand 1 (by decide) ▸ hmem)) (by decide)

end Engine

end TarotClub
