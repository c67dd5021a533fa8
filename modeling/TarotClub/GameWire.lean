import TarotClub.FairDeal
import TarotClub.JsonRoundTrip
import TarotClub.PlayingTable

namespace TarotClub

namespace JsonReader

/-- A tree that is read back from its text as it was. -/
structure Survives (json : JsonValue) : Prop where
  storable : Storable json
  legible : Legible (fun n => |n| ≤ 2 ^ 53) json

/-- Keys that are printed so that they can be read again, in the order of an object. -/
def OrderedKeys (keys : List Str) : Prop :=
  keys.Pairwise (· < ·) ∧
    ∀ k ∈ keys, k ≠ [] ∧ ∀ c ∈ k, c ≠ chr '"' ∧ c ≠ chr '\\' ∧ isCntrl c = false

instance (keys : List Str) : Decidable (OrderedKeys keys) :=
  inferInstanceAs (Decidable (_ ∧ ∀ k ∈ keys, _))

theorem PlainString.notMem_zero {s : Str} (h : PlainString s) : 0 ∉ s := by
  intro hmem
  have hcntrl := (h 0 hmem).2
  contradiction

namespace Survives

theorem string {s : Str} (h : PlainString s) : Survives (.string s) where
  storable := .string h.notMem_zero
  legible := .string h

/-- An unsigned integer of 32 bits is exact in a `double`. -/
theorem natCast {n : ℕ} (h : n < 2 ^ 32) : Survives (.integer n) where
  storable := .integer (by omega) (by omega)
  legible := by
    apply Legible.integer
    rw [Nat.abs_cast]
    omega

theorem array {values : List JsonValue} (h : ∀ v ∈ values, Survives v) :
    Survives (.array values) where
  storable := .array fun v hv => (h v hv).storable
  legible := .array fun v hv => (h v hv).legible

theorem object {entries : JsonObject} (hkeys : OrderedKeys (entries.map Prod.fst))
    (h : ∀ e ∈ entries, Survives e.2) : Survives (.object entries) := by
  obtain ⟨hsorted, hplain⟩ := hkeys
  rw [List.pairwise_map] at hsorted
  have hkey : ∀ e ∈ entries, e.1 ≠ [] ∧ PlainKey e.1 := by
    intro e he
    exact hplain e.1 (List.mem_map_of_mem he)
  constructor
  · apply Storable.object hsorted _ fun e he => (h e he).storable
    intro e he
    obtain ⟨hne, hplain⟩ := hkey e he
    refine ⟨hne, ?_⟩
    intro hzero
    have hcntrl := (hplain 0 hzero).2.2
    contradiction
  · exact .object (fun e he => (hkey e he).2) fun e he => (h e he).legible

theorem parseString_object {entries : JsonObject} (h : Survives (.object entries)) (level : ℤ) :
    parseString ((JsonValue.object entries).toString level) = some (.object entries) :=
  parseString_toString_of_small h.storable (.inr ⟨entries, rfl⟩) h.legible level

end Survives

end JsonReader

open JsonReader

/-! ### The texts of a game -/

@[simp] theorem DealType.ofString_toString (type : DealType) : ofString type.toString = type := by
  cases type <;> decide +kernel

@[simp] theorem GameMode.ofString_toString (mode : GameMode) : ofString mode.toString = mode := by
  cases mode <;> decide +kernel

theorem DealType.toString_plain (type : DealType) : PlainString type.toString := by
  unfold PlainString
  cases type <;> decide +kernel

theorem GameMode.toString_plain (mode : GameMode) : PlainString mode.toString := by
  unfold PlainString
  cases mode <;> decide +kernel

/-- A seed goes through a signed integer of 32 bits and back. -/
theorem seed_getInteger {seed : ℕ} (h : seed < 2 ^ 32) :
    ((JsonValue.integer seed).getInteger % 2 ^ 32).toNat = seed := by
  -- the sign that the cast may bring is lost again in the unsigned seed
  have hmod : ∀ n : ℤ, n.bmod (2 ^ 32) % 2 ^ 32 = n % 2 ^ 32 := fun n => Int.bmod_emod
  rw [JsonValue.getInteger, hmod]
  omega

namespace Distribution

/-- What can be sent of a distribution: its file is printed as it is, and its seed has 32 bits. -/
structure Sendable (dist : Distribution) : Prop where
  file : PlainString dist.mFile
  seed : dist.mSeed < 2 ^ 32

variable {dist : Distribution}

theorem Sendable.survives (h : Sendable dist) : Survives (.object (dist.toJson [])) := by
  have hentries : dist.toJson [] =
      [(str "file", .string dist.mFile), (str "seed", .integer dist.mSeed),
       (str "type", .string dist.mType.toString)] := rfl
  rw [hentries]
  apply Survives.object
  · change OrderedKeys [str "file", str "seed", str "type"]
    decide +kernel
  · intro e he
    rw [List.mem_cons, List.mem_cons, List.mem_singleton] at he
    rcases he with rfl | rfl | rfl
    · exact .string h.file
    · exact .natCast h.seed
    · exact .string dist.mType.toString_plain

/-- A distribution is read from its object. -/
theorem fromJson_toJson (h : dist.mSeed < 2 ^ 32) : fromJson (dist.toJson []) = dist := by
  have hfile : JsonObject.getKey (dist.toJson []) (str "file") = .string dist.mFile := rfl
  have hseed : JsonObject.getKey (dist.toJson []) (str "seed") = .integer dist.mSeed := rfl
  have htype : JsonObject.getKey (dist.toJson []) (str "type") =
      .string dist.mType.toString := rfl
  rw [fromJson, hfile, hseed, htype, seed_getInteger h]
  simp only [JsonValue.getString, DealType.ofString_toString]

end Distribution

/-! ### The request -/

namespace PlayerContext

/-- `BuildNewGame`. -/
def buildNewGame (game : Game) : JsonValue :=
  .object (JsonObject.ofList
    [(str "cmd", .string (str "RequestNewGame")), (str "mode", .string game.mode.toString),
     (str "deals", .array (game.deals.map fun deal => .object (deal.toJson [])))])

variable {game : Game}

/-- The request is parsed as it was built. -/
theorem buildNewGame_parse (h : ∀ deal ∈ game.deals, deal.Sendable) (level : ℤ) :
    parseString ((buildNewGame game).toString level) = some (buildNewGame game) := by
  have hentries : buildNewGame game = .object
      [(str "cmd", .string (str "RequestNewGame")),
       (str "deals", .array (game.deals.map fun deal => .object (deal.toJson []))),
       (str "mode", .string game.mode.toString)] := rfl
  rw [hentries]
  apply Survives.parseString_object
  apply Survives.object
  · change OrderedKeys [str "cmd", str "deals", str "mode"]
    decide +kernel
  · intro e he
    rw [List.mem_cons, List.mem_cons, List.mem_singleton] at he
    rcases he with rfl | rfl | rfl
    · apply Survives.string
      unfold PlainString
      decide +kernel
    · apply Survives.array
      intro v hv
      obtain ⟨deal, hdeal, rfl⟩ := List.mem_map.mp hv
      exact (h deal hdeal).survives
    · exact .string game.mode.toString_plain

/-- The table reads the game that was meant. -/
theorem buildNewGame_read (h : ∀ deal ∈ game.deals, deal.mSeed < 2 ^ 32) :
    GameMode.ofString ((buildNewGame game).findValue (str "mode")).getString = game.mode ∧
      (((buildNewGame game).findValue (str "deals")).getArray.map fun v : JsonValue =>
        Distribution.fromJson v.getObj) = game.deals := by
  refine ⟨GameMode.ofString_toString game.mode, ?_⟩
  have hdeals : ((buildNewGame game).findValue (str "deals")).getArray =
      game.deals.map fun deal => .object (deal.toJson []) := rfl
  rw [hdeals, List.map_map]
  calc game.deals.map ((fun v : JsonValue => Distribution.fromJson v.getObj) ∘
        fun deal => .object (deal.toJson [])) = game.deals.map id := by
        apply List.map_congr_left
        intro deal hdeal
        exact Distribution.fromJson_toJson (h deal hdeal)
    _ = game.deals := List.map_id _

end PlayerContext

namespace PlayingTable

/-- A game that the administrator asks for over the wire is the one that the table plays. -/
theorem newGame_survives_wire (game : Game) (h : ∀ deal ∈ game.deals, deal.Sendable) (level : ℤ)
    (dealer : Dealer) (t : PlayingTable) :
    ∃ json, parseString ((PlayerContext.buildNewGame game).toString level) = some json ∧
      (t.executeRequest dealer t.mAdmin json).table.mGame = game := by
  refine ⟨PlayerContext.buildNewGame game, PlayerContext.buildNewGame_parse h level, ?_⟩
  have hcmd : ((PlayerContext.buildNewGame game).findValue (str "cmd")).getString =
      str "RequestNewGame" := rfl
  obtain ⟨hmode, hdeals⟩ := PlayerContext.buildNewGame_read fun deal hdeal => (h deal hdeal).seed
  have hexecute : t.executeRequest dealer t.mAdmin (PlayerContext.buildNewGame game) =
      t.executeNewGame t.mAdmin (PlayerContext.buildNewGame game) := by
    simp only [executeRequest, hcmd]
    rw [if_neg (by decide), if_neg (by decide), if_pos trivial]
  rw [hexecute, executeNewGame, if_pos rfl, hmode, hdeals]
  rfl

/-- Three deals, one of them with the greatest seed and one from a file. -/
theorem newGame_survives_wire_custom :
    let game : Game :=
      { mode := .custom
        deals := [{ mType := .numbered, mSeed := 2 ^ 32 - 1 },
          { mType := .custom, mFile := str "my deal.json" }, {}] }
    let t : PlayingTable := { mAdmin := 10 }
    ∃ json, parseString ((PlayerContext.buildNewGame game).toString (-1)) = some json ∧
      (t.executeRequest plainDealer 10 json).table.mGame = game := by
  intro game t
  have hsendable : ∀ deal ∈ game.deals, deal.Sendable := by
    intro deal hdeal
    rw [List.mem_cons, List.mem_cons, List.mem_singleton] at hdeal
    rcases hdeal with rfl | rfl | rfl
    all_goals
      constructor
      · unfold PlainString
        decide +kernel
      · decide
  exact newGame_survives_wire game hsendable (-1) plainDealer t

end PlayingTable

end TarotClub
