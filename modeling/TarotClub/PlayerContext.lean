import TarotClub.Network

namespace TarotClub.PlayerContext

/-- `Sync`: the acknowledgement of a step. -/
def sync (sequence : Sequence) : JsonValue :=
  .object (JsonObject.ofList
    [(str "cmd", .string (str "Ack")), (str "step", .string (ackToString sequence))])

def buildReplyBid (contract : Contract) (slam : Bool) : JsonValue :=
  .object (JsonObject.ofList
    [(str "cmd", .string (str "ReplyBid")), (str "contract", .string contract.toString),
     (str "slam", .boolean slam)])

def buildHandle (handle : Deck) : JsonValue :=
  .object (JsonObject.ofList
    [(str "cmd", .string (str "Handle")), (str "handle", .string handle.toString)])

def buildDiscard (discard : Deck) : JsonValue :=
  .object (JsonObject.ofList
    [(str "cmd", .string (str "Discard")), (str "discard", .string discard.toString)])

def buildSendCard (c : Card) : JsonValue :=
  .object (JsonObject.ofList
    [(str "cmd", .string (str "Card")), (str "card", .string c.toString)])

theorem sync_cmd (sequence : Sequence) :
    ((sync sequence).findValue (str "cmd")).getString = str "Ack" := rfl

theorem sync_step (sequence : Sequence) :
    ((sync sequence).findValue (str "step")).getString = ackToString sequence := rfl

theorem buildReplyBid_cmd (contract : Contract) (slam : Bool) :
    ((buildReplyBid contract slam).findValue (str "cmd")).getString = str "ReplyBid" := rfl

/-- The table reads the bid that was meant. -/
theorem buildReplyBid_read (contract : Contract) (slam : Bool) :
    Contract.ofString
        ((buildReplyBid contract slam).findValue (str "contract")).getString = contract ∧
      ((buildReplyBid contract slam).findValue (str "slam")).getBool = slam :=
  ⟨Contract.ofString_toString contract, rfl⟩

theorem buildSendCard_cmd (c : Card) :
    ((buildSendCard c).findValue (str "cmd")).getString = str "Card" := rfl

/-- The table reads the card that was meant. -/
theorem buildSendCard_read {c : Card} (h : c.isValid = true) :
    Card.ofString ((buildSendCard c).findValue (str "card")).getString = c :=
  Card.ofString_toString h

end TarotClub.PlayerContext
