import TarotClub.DeckText
import TarotClub.Engine
import TarotClub.JsonRoundTrip

namespace TarotClub

/-- `DealGenerator`, without the seed of a random deal. -/
structure DealGenerator where
  mPlayers : ℕ → Deck := fun _ => {}
  mDogDeck : Deck := {}
  mFirstPlayer : Place := .nowhere
  mNbPlayers : ℕ := 4

namespace DealGenerator

def dealFileVersion : Str := str "3"

def clear (g : DealGenerator) : DealGenerator :=
  { g with
    mPlayers := fun i => if i < 5 then (g.mPlayers i).clear else g.mPlayers i
    mDogDeck := g.mDogDeck.clear }

/-- The sizes of the hands and of the dog. -/
def isValid (g : DealGenerator) (numberOfPlayers : ℕ) : Bool :=
  (List.range numberOfPlayers).all
      (fun i => (g.mPlayers i).size = numberOfCardsInHand numberOfPlayers) &&
    g.mDogDeck.size = numberOfDogCards numberOfPlayers

/-- The key of a hand in the file. -/
def handKey (i : ℕ) : Str := (Place.assign i).toString

def loadFirstPlayer (g : DealGenerator) (json : JsonValue) : Bool × DealGenerator :=
  match json.getStringValue (str "FirstPlayer") with
  | some text => (Place.ofString text ≠ .nowhere, { g with mFirstPlayer := Place.ofString text })
  | none => (false, g)

/-- One turn of the loop over the five hands. -/
def loadHand (json : JsonValue) (acc : Bool × DealGenerator) (i : ℕ) : Bool × DealGenerator :=
  let (ret, g) := acc
  if ret then
    match json.getStringValue (handKey i) with
    | some text =>
      (true,
        { g with
          mPlayers := Function.update g.mPlayers i ((g.mPlayers i).setCards text).2
          mNbPlayers := if text.length > 0 then u8 (g.mNbPlayers + 1) else g.mNbPlayers })
    | none => (false, g)
  else (false, g)

/-- What `LoadFile` does with the tree of the file. -/
def loadJson (g : DealGenerator) (json : JsonValue) : Bool × DealGenerator :=
  if json.getStringValue (str "version") = some dealFileVersion then
    match json.getStringValue (str "Dog") with
    | some text =>
      let g := { g with mDogDeck := (g.mDogDeck.setCards text).2 }
      let (ret, g) := g.loadFirstPlayer json
      (List.range 5).foldl (loadHand json) (ret, { g with mNbPlayers := 0 })
    -- a file without a dog is reported in the log, but not to the caller
    | none => (true, g)
  else (false, g)

/-- `LoadFile`, on what the file holds if it can be opened. -/
def loadFile (g : DealGenerator) (file : Option Str) : Bool × DealGenerator :=
  match file.bind JsonReader.parseString with
  | some json => g.clear.loadJson json
  | none => (false, g.clear)

def build (g : DealGenerator) : JsonObject :=
  JsonObject.ofList
    ([(str "version", .string dealFileVersion),
      (str "FirstPlayer", .string g.mFirstPlayer.toString),
      (str "Dog", .string g.mDogDeck.toString)] ++
        (List.range 5).map fun i => (handKey i, .string (g.mPlayers i).toString))

def toString (g : DealGenerator) : Str := (JsonValue.object g.build).toString 0

/-- `SaveFile`: what is written to the file. -/
def saveFile (g : DealGenerator) : Str := g.toString ++ [chr '\n']

variable {json : JsonValue} {g : DealGenerator}

/-- The text of a key, empty where the file has none. -/
def textOf (json : JsonValue) (key : Str) : Str := (json.getStringValue key).getD []

/-- The editor with the first `k` hands of the file. -/
def withHands (g : DealGenerator) (json : JsonValue) (k : ℕ) : DealGenerator :=
  { g with
    mPlayers := fun i =>
      if i < k then ((g.mPlayers i).setCards (textOf json (handKey i))).2 else g.mPlayers i
    mNbPlayers := (List.range k).countP fun i => 0 < (textOf json (handKey i)).length }

theorem loadHand_withHands {k : ℕ} (hk : k < 5)
    (h : (json.getStringValue (handKey k)).isSome = true) :
    loadHand json (true, g.withHands json k) k = (true, g.withHands json (k + 1)) := by
  obtain ⟨text, htext⟩ := Option.isSome_iff_exists.mp h
  have hof : textOf json (handKey k) = text := by rw [textOf, htext, Option.getD_some]
  have hcount : (List.range k).countP (fun i => 0 < (textOf json (handKey i)).length) ≤ 4 :=
    List.countP_le_length.trans (by rw [List.length_range]; omega)
  simp only [loadHand, htext, if_true, Prod.mk.injEq, true_and, withHands, DealGenerator.mk.injEq]
  refine ⟨?_, ?_⟩
  · funext i
    by_cases hi : i = k
    · rw [hi, Function.update_self, if_neg (lt_irrefl k), if_pos k.lt_succ_self, hof]
    · rw [Function.update_of_ne hi]
      exact if_congr (by omega) rfl rfl
  · rw [List.range_succ, List.countP_append, List.countP_singleton, hof, u8]
    by_cases hempty : 0 < text.length
    · rw [if_pos hempty, if_pos (decide_eq_true hempty), Nat.mod_eq_of_lt (by omega)]
    · rw [if_neg hempty, if_neg (by simpa using hempty), add_zero]

/-- The hands that are all there are loaded one by one. -/
theorem foldl_loadHand {k : ℕ} (hk : k ≤ 5)
    (h : ∀ i < k, (json.getStringValue (handKey i)).isSome = true) :
    (List.range k).foldl (loadHand json) (true, { g with mNbPlayers := 0 }) =
      (true, g.withHands json k) := by
  induction k with
  | zero => simp [withHands]
  | succ k ih =>
    rw [List.range_succ, List.foldl_append, ih (by omega) fun i hi => h i (by omega),
      List.foldl_cons, List.foldl_nil, loadHand_withHands hk (h k k.lt_succ_self)]

/-- One hand that is missing is enough to fail. -/
theorem foldl_loadHand_fst {k : ℕ} {acc : Bool × DealGenerator} :
    ((List.range k).foldl (loadHand json) acc).1 = true ↔
      acc.1 = true ∧ ∀ i < k, (json.getStringValue (handKey i)).isSome = true := by
  induction k with
  | zero => simp
  | succ k ih =>
    have hstep : ∀ acc : Bool × DealGenerator, (loadHand json acc k).1 = true ↔
        acc.1 = true ∧ (json.getStringValue (handKey k)).isSome = true := by
      rintro ⟨ret, g⟩
      unfold loadHand
      cases ret <;> cases json.getStringValue (handKey k) <;> simp
    rw [List.range_succ, List.foldl_append, List.foldl_cons, List.foldl_nil, hstep, ih, and_assoc]
    simp only [Nat.lt_succ_iff_lt_or_eq, or_imp, forall_and, forall_eq]

/-- The keys that a file needs. -/
structure Complete (json : JsonValue) : Prop where
  version : json.getStringValue (str "version") = some dealFileVersion
  dog : (json.getStringValue (str "Dog")).isSome = true
  seat : Place.ofString (textOf json (str "FirstPlayer")) ≠ .nowhere
  hands : ∀ i < 5, (json.getStringValue (handKey i)).isSome = true

theorem textOf_eq {key : Str} (h : (json.getStringValue key).isSome = true) :
    json.getStringValue key = some (textOf json key) := by
  obtain ⟨text, htext⟩ := Option.isSome_iff_exists.mp h
  rw [textOf, htext, Option.getD_some]

theorem loadFirstPlayer_fst : (g.loadFirstPlayer json).1 = true ↔
    Place.ofString (textOf json (str "FirstPlayer")) ≠ .nowhere := by
  unfold loadFirstPlayer textOf
  cases json.getStringValue (str "FirstPlayer") with
  | some text => simp
  | none => simpa using (by decide : Place.ofString [] = .nowhere)

/-- A file is loaded when it is complete, and also when it has no dog at all. -/
theorem loadJson_fst : (g.loadJson json).1 = true ↔ Complete json ∨
    json.getStringValue (str "version") = some dealFileVersion ∧
      json.getStringValue (str "Dog") = none := by
  unfold loadJson
  by_cases hversion : json.getStringValue (str "version") = some dealFileVersion
  · rw [if_pos hversion]
    cases hdog : json.getStringValue (str "Dog") with
    | none => exact iff_of_true rfl (.inr ⟨hversion, rfl⟩)
    | some text =>
      dsimp only
      rw [foldl_loadHand_fst, loadFirstPlayer_fst]
      constructor
      · exact fun ⟨hseat, hhands⟩ => .inl ⟨hversion, hdog ▸ rfl, hseat, hhands⟩
      · rintro (h | ⟨-, hnone⟩)
        · exact ⟨h.seat, h.hands⟩
        · contradiction
  · rw [if_neg hversion]
    refine iff_of_false Bool.false_ne_true ?_
    rintro (h | ⟨h, -⟩)
    · exact hversion h.version
    · exact hversion h

/-- What a complete file leaves in the editor. -/
theorem loadJson_eq (h : Complete json) : g.loadJson json =
    (true, ({ g with
      mDogDeck := (g.mDogDeck.setCards (textOf json (str "Dog"))).2
      mFirstPlayer := Place.ofString (textOf json (str "FirstPlayer")) } : DealGenerator).withHands
        json 5) := by
  have hfirst : (json.getStringValue (str "FirstPlayer")).isSome = true := by
    by_contra hnone
    rw [Bool.not_eq_true, Option.isSome_eq_false_iff, Option.isNone_iff_eq_none] at hnone
    refine h.seat ?_
    rw [textOf, hnone]
    decide
  rw [loadJson, if_pos h.version, textOf_eq h.dog]
  simp only [loadFirstPlayer, textOf_eq hfirst, decide_eq_true h.seat]
  exact foldl_loadHand (g := { g with
    mDogDeck := (g.mDogDeck.setCards (textOf json (str "Dog"))).2
    mFirstPlayer := Place.ofString (textOf json (str "FirstPlayer")) }) le_rfl h.hands

/-! ### Reading back what was saved -/

/-- The bytes that the texts of a deal are made of. -/
def DealText (s : Str) : Prop := ∀ b ∈ s, 45 ≤ b ∧ b ≤ 122

instance (s : Str) : Decidable (DealText s) :=
  inferInstanceAs (Decidable (∀ b ∈ s, 45 ≤ b ∧ b ≤ 122))

theorem DealText.nulFree {s : Str} (h : DealText s) : 0 ∉ s := fun h0 =>
  absurd (h 0 h0).1 (by decide)

theorem DealText.plain {s : Str} (h : DealText s) : JsonReader.PlainString s := by
  intro b hb
  obtain ⟨hlow, hhigh⟩ := h b hb
  rw [UInt8.le_iff_toNat_le] at hlow hhigh
  have hne : ∀ c : UInt8, c.toNat < 45 ∨ 122 < c.toNat → b ≠ c := by
    rintro c hc rfl
    have h45 : (45 : UInt8).toNat = 45 := rfl
    have h122 : (122 : UInt8).toNat = 122 := rfl
    omega
  have hspace : ¬ b < 32 := by
    rw [UInt8.lt_iff_toNat_lt]
    exact fun h => absurd (hlow.trans h.le) (by decide)
  refine ⟨hne _ (by decide), ?_⟩
  rw [isCntrl, decide_eq_false hspace, decide_eq_false (hne 127 (by decide))]
  rfl

theorem DealText.join {tokens : List Str} (h : ∀ t ∈ tokens, DealText t) :
    DealText (join tokens (str ";")) := by
  induction tokens with
  | nil => exact fun _ hb => absurd hb List.not_mem_nil
  | cons t tokens ih =>
    have ht := h t List.mem_cons_self
    have hrest := ih fun t ht => h t (List.mem_cons_of_mem _ ht)
    cases tokens with
    | nil => rwa [TarotClub.join, List.intercalate_singleton]
    | cons u tokens =>
      rw [TarotClub.join, List.intercalate_cons_cons]
      intro b hb
      rcases List.mem_append.mp hb with hb | hb
      · rcases List.mem_append.mp hb with hb | hb
        · exact ht b hb
        · exact (by decide +kernel : DealText (str ";")) b hb
      · exact hrest b hb

theorem dealText_place (p : Place) : DealText p.toString := by
  cases p <;> decide +kernel

theorem dealText_card {c : Card} (h : c.isValid = true) : DealText c.toString := by
  have hall : ∀ s ≤ 4, ∀ v ≤ 21, Card.isValid ⟨v, s⟩ = true → DealText (Card.toString ⟨v, s⟩) := by
    decide +kernel
  obtain ⟨hsuit, hvalue⟩ := Card.valid_bounds h
  exact hall c.mSuit hsuit c.mValue hvalue h

theorem dealText_deck {d : Deck} (h : ∀ c ∈ d.mDeck, c.isValid = true) : DealText d.toString := by
  refine DealText.join ?_
  intro t ht
  obtain ⟨c, hc, rfl⟩ := List.mem_map.mp ht
  exact dealText_card (h c hc)

/-- The cards of the editor are valid ones, and one of the five seats begins. -/
structure Proper (g : DealGenerator) : Prop where
  dog : ∀ c ∈ g.mDogDeck.mDeck, c.isValid = true
  hands : ∀ i < 5, ∀ c ∈ (g.mPlayers i).mDeck, c.isValid = true
  seat : g.mFirstPlayer.isValid = true

/-- The entries of the file in the order of their keys. -/
theorem build_eq (g : DealGenerator) : g.build =
    [(str "Dog", .string g.mDogDeck.toString), (str "East", .string (g.mPlayers 1).toString),
      (str "Fifth", .string (g.mPlayers 4).toString),
      (str "FirstPlayer", .string g.mFirstPlayer.toString),
      (str "North", .string (g.mPlayers 2).toString),
      (str "South", .string (g.mPlayers 0).toString),
      (str "West", .string (g.mPlayers 3).toString),
      (str "version", .string dealFileVersion)] := rfl

/-- The text of the editor is read back, whatever stands behind it. -/
theorem parse_build (h : g.Proper) {t : Str} (ht : 0 ∉ t) :
    JsonReader.parseString (g.toString ++ t) = some (.object g.build) := by
  have hkeys : g.build.map Prod.fst = [str "Dog", str "East", str "Fifth", str "FirstPlayer",
      str "North", str "South", str "West", str "version"] := rfl
  have hsorted : (g.build.map Prod.fst).Pairwise (· < ·) := by
    rw [hkeys]
    decide +kernel
  have hkey : ∀ k ∈ g.build.map Prod.fst, (k ≠ [] ∧ 0 ∉ k) ∧
      ∀ c ∈ k, c ≠ chr '"' ∧ c ≠ chr '\\' ∧ isCntrl c = false := by
    rw [hkeys]
    decide +kernel
  have hvalue : ∀ e ∈ g.build, ∃ s, e.2 = .string s ∧ DealText s := by
    have hhand : ∀ i < 5, ∃ s, JsonValue.string (g.mPlayers i).toString = .string s ∧ DealText s :=
      fun i hi => ⟨_, rfl, dealText_deck (h.hands i hi)⟩
    rw [build_eq]
    simp only [List.forall_mem_cons]
    exact ⟨⟨_, rfl, dealText_deck h.dog⟩, hhand 1 (by omega), hhand 4 (by omega),
      ⟨_, rfl, dealText_place _⟩, hhand 2 (by omega), hhand 0 (by omega), hhand 3 (by omega),
      ⟨_, rfl, by decide +kernel⟩, fun e he => absurd he List.not_mem_nil⟩
  refine JsonReader.parseString_toString_append (.object (List.pairwise_map.mp hsorted) ?_ ?_)
    (.inr ⟨_, rfl⟩) (.object ?_ ?_) 0 ht
  · exact fun e he => (hkey e.1 (List.mem_map_of_mem he)).1
  · intro e he
    obtain ⟨s, hs, htext⟩ := hvalue e he
    exact hs ▸ .string htext.nulFree
  · exact fun e he => (hkey e.1 (List.mem_map_of_mem he)).2
  · intro e he
    obtain ⟨s, hs, htext⟩ := hvalue e he
    exact hs ▸ .string htext.plain

/-- What is found under the keys of the saved tree. -/
theorem build_reads (g : DealGenerator) :
    let json := JsonValue.object g.build
    json.getStringValue (str "version") = some dealFileVersion ∧
      json.getStringValue (str "Dog") = some g.mDogDeck.toString ∧
      json.getStringValue (str "FirstPlayer") = some g.mFirstPlayer.toString ∧
      ∀ i < 5, json.getStringValue (handKey i) = some (g.mPlayers i).toString := by
  refine ⟨rfl, rfl, rfl, ?_⟩
  intro i hi
  interval_cases i <;> rfl

theorem build_complete (h : g.Proper) : Complete (.object g.build) := by
  obtain ⟨hversion, hdog, hfirst, hhands⟩ := build_reads g
  refine ⟨hversion, hdog ▸ rfl, ?_, fun i hi => hhands i hi ▸ rfl⟩
  rw [textOf, hfirst, Option.getD_some, Place.ofString_toString]
  intro hnowhere
  have hvalid := h.seat
  rw [hnowhere] at hvalid
  contradiction

theorem toString_length_pos {d : Deck} (h : ∀ c ∈ d.mDeck, c.isValid = true) :
    0 < d.toString.length ↔ d.mDeck ≠ [] := by
  rw [Deck.toString]
  cases hcards : d.mDeck with
  | nil => exact iff_of_false (lt_irrefl 0) (absurd rfl)
  | cons c cards =>
    refine iff_of_true ?_ (List.cons_ne_nil c cards)
    have hlength := Card.length_toString (h c (hcards ▸ List.mem_cons_self))
    cases cards with
    | nil => simp [join, hlength]
    | cons c' cards => simp [join, hlength]

/-- What is read back of a deal. -/
structure Restores (g r : DealGenerator) : Prop where
  dog : r.mDogDeck.mDeck = g.mDogDeck.mDeck
  hands : ∀ i < 5, (r.mPlayers i).mDeck = (g.mPlayers i).mDeck
  seat : r.mFirstPlayer = g.mFirstPlayer
  players : r.mNbPlayers = (List.range 5).countP fun i => (g.mPlayers i).mDeck ≠ []

theorem loadFile_toString (h : g.Proper) (loader : DealGenerator) {t : Str} (ht : 0 ∉ t) :
    let r := loader.loadFile (some (g.toString ++ t))
    r.1 = true ∧ g.Restores r.2 := by
  obtain ⟨-, hdog, hfirst, hhands⟩ := build_reads g
  rw [loadFile, Option.bind_some, parse_build h ht]
  dsimp only
  rw [loadJson_eq (build_complete h)]
  refine ⟨rfl, ?_, ?_, ?_, ?_⟩
  · simp only [withHands, textOf, hdog, Option.getD_some, Deck.setCards_toString _ h.dog]
  · intro i hi
    simp only [withHands, textOf, hhands i hi, Option.getD_some, if_pos hi,
      Deck.setCards_toString _ (h.hands i hi)]
  · simp only [withHands, textOf, hfirst, Option.getD_some, Place.ofString_toString]
  · refine List.countP_congr fun i hi => ?_
    have hlt := List.mem_range.mp hi
    rw [textOf, hhands i hlt, Option.getD_some, decide_eq_true_eq, decide_eq_true_eq,
      toString_length_pos (h.hands i hlt)]

/-- A deal that is saved, or printed, is loaded again as it was. -/
theorem deal_file (g loader : DealGenerator) (hdog : ∀ c ∈ g.mDogDeck.mDeck, c.isValid = true)
    (hhands : ∀ i < 5, ∀ c ∈ (g.mPlayers i).mDeck, c.isValid = true)
    (hfirst : g.mFirstPlayer.isValid = true) (text : Str)
    (htext : text = g.toString ∨ text = g.saveFile) :
    let r := loader.loadFile (some text)
    r.1 = true ∧ r.2.mDogDeck.mDeck = g.mDogDeck.mDeck ∧
      (∀ i < 5, (r.2.mPlayers i).mDeck = (g.mPlayers i).mDeck) ∧
      r.2.mFirstPlayer = g.mFirstPlayer ∧
      r.2.mNbPlayers = (List.range 5).countP fun i => (g.mPlayers i).mDeck ≠ [] := by
  have hproper : g.Proper := ⟨hdog, hhands, hfirst⟩
  have hread : ∀ t : Str, 0 ∉ t → text = g.toString ++ t → _ := fun t ht htext =>
    htext ▸ loadFile_toString hproper loader ht
  obtain ⟨hret, hdeal⟩ := htext.elim
    (fun h => hread [] List.not_mem_nil (h.trans (List.append_nil _).symm))
    (fun h => hread [chr '\n'] (by decide) h)
  exact ⟨hret, hdeal.dog, hdeal.hands, hdeal.seat, hdeal.players⟩

/-- Two cards for `WEST` and one for the dog. -/
def threeCards : DealGenerator :=
  { mPlayers := fun i => if i = 3 then { mDeck := [⟨14, Card.spades⟩, Card.fool] } else {}
    mDogDeck := { mDeck := [⟨21, Card.trumps⟩] }
    mFirstPlayer := .fifth }

theorem deal_file_three :
    let r := ({} : DealGenerator).loadFile (some threeCards.saveFile)
    r.1 = true ∧ (r.2.mPlayers 3).mDeck = [⟨14, Card.spades⟩, Card.fool] ∧ r.2.mNbPlayers = 1 := by
  obtain ⟨hret, -, hhands, -, hplayers⟩ := deal_file threeCards {} (by decide) (by decide) rfl _
    (.inr rfl)
  exact ⟨hret, hhands 3 (by decide), hplayers⟩

end DealGenerator

end TarotClub
