import TarotClub.Engine

namespace TarotClub

/-- Reserved identifier: nobody. -/
def invalidUid : ℕ := 0

/-- A message and the players it goes to. -/
structure Reply where
  dest : List ℕ
  data : JsonObject

/-- `gAckList`: the steps that can be acknowledged, under their names on the wire. -/
def ackList : List (Str × Sequence) :=
  [(str "AckJoinTable", .waitForPlayers),
   (str "Ready", .waitForReady),
   (str "NewDeal", .waitForCards),
   (str "ShowBid", .waitForShowBid),
   (str "AllPassed", .waitForAllPassed),
   (str "ShowKingCall", .waitForShowKingCall),
   (str "ShowDog", .waitForShowDog),
   (str "StartDeal", .waitForStartDeal),
   (str "ShowHandle", .waitForShowHandle),
   (str "Card", .waitForShowCard),
   (str "EndOfTrick", .waitForEndOfTrick),
   (str "EndOfDeal", .waitForEndOfDeal)]

/-- `Ack::FromString`. -/
def ackFromString (step : Str) : Sequence :=
  ((ackList.find? fun a => a.1 = step).map Prod.snd).getD .badStep

/-- `Ack::ToString`. -/
def ackToString (sequence : Sequence) : Str :=
  ((ackList.find? fun a => a.2 = sequence).map Prod.fst).getD (str "BadSeq")

/-- A value of an object, invalid when the key is missing. -/
def JsonObject.getKey (obj : JsonObject) (name : Str) : JsonValue :=
  (obj.lookup name).getD .invalid

/-- A key without separators is looked up in the object itself. -/
theorem findValue_object {key : Str} (hkey : split key (str ":") = [key]) (data : JsonObject) :
    (JsonValue.object data).findValue key = data.getKey key := by
  rw [JsonValue.findValue, hkey, JsonObject.getKey, JsonValue.findKeys]
  cases JsonObject.lookup data key with
  | none =>
    dsimp only
    rw [JsonValue.findKeys, if_neg Bool.false_ne_true]
    rfl
  | some v =>
    dsimp only
    rw [JsonValue.findKeys, if_pos rfl]
    rfl

/-- `FromJson` for a distribution. -/
def Distribution.fromJson (obj : JsonObject) : Distribution :=
  { mFile := (obj.getKey (str "file")).getString
    mSeed := ((obj.getKey (str "seed")).getInteger % 2 ^ 32).toNat
    mType := DealType.ofString (obj.getKey (str "type")).getString }

/-- `ToJson` for a distribution. -/
def Distribution.toJson (dist : Distribution) (obj : JsonObject) : JsonObject :=
  ((obj.addValue (str "file") (.string dist.mFile)).addValue
    (str "seed") (.integer dist.mSeed)).addValue (str "type") (.string dist.mType.toString)

end TarotClub
