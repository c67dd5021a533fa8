import TarotClub.Lobby

namespace TarotClub.PlayerContext

def buildReplyLogin (identity : Identity) : JsonObject :=
  identity.toJson (JsonObject.ofList [(str "cmd", .string (str "ReplyLogin"))])

def buildJoinTable (tableId : ℕ) : JsonObject :=
  JsonObject.ofList
    [(str "cmd", .string (str "RequestJoinTable")), (str "table_id", .integer tableId)]

def buildQuitTable (tableId : ℕ) : JsonObject :=
  JsonObject.ofList
    [(str "cmd", .string (str "RequestQuitTable")), (str "table_id", .integer tableId)]

def buildChangeNickname (nickname : Str) : JsonObject :=
  JsonObject.ofList
    [(str "cmd", .string (str "RequestChangeNickname")), (str "nickname", .string nickname)]

/-- The request of a user to the lobby, as it arrives there. -/
def toLobby (srcUuid : ℕ) (data : JsonObject) : Request where
  srcUuid := srcUuid
  destUuid := lobbyUid
  arg := (JsonValue.object data).toString (-1)

end TarotClub.PlayerContext
