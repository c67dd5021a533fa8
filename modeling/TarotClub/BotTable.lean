import TarotClub.Bot
import TarotClub.Tournament

/-! Bots around a table. Each of them handles the messages of the table in order, one at a time;
what the bots send reaches the table in any order, and between it anything else may come. -/
namespace TarotClub

open Machine

/-- A bot, with the messages that it has not handled yet. -/
structure Client where
  ctx : PlayerContext := {}
  inbox : List JsonObject := []

/-- More messages, behind those that wait. -/
def Client.put (client : Client) (messages : List JsonObject) : Client :=
  { client with inbox := client.inbox ++ messages }

/-- The bots are found under their identifiers. What they have sent and what has not arrived yet
stands in no order. -/
structure BotTable where
  table : PlayingTable
  bots : ℕ → Client
  sent : List (ℕ × Reply) := []

/-- A call that comes from elsewhere, a bot that handles its next message, or a message of a bot that
arrives. -/
inductive BotEvent where
  | call (c : Call)
  | handle (uuid : ℕ) (script : Script)
  | arrive (i : ℕ) (dealer : Dealer)

/-- The messages among the replies that go to a user. -/
def messagesTo (uuid : ℕ) (out : List Reply) : List JsonObject :=
  out.flatMap fun reply => List.replicate (reply.dest.count uuid) reply.data

/-- What a call makes the host send: the lobby tells a player which seat he has got. -/
def PlayingTable.sends (t : PlayingTable) : Call → List Reply
  | .addPlayer uuid =>
    let (place, t') := t.addPlayer uuid
    if place.isValid then [⟨[uuid], Lobby.replyJoinTable t.mId place t'⟩] else []
  | c => (t.respond c).out

namespace BotTable

/-- The table receives a call, and what it sends is put behind the messages that wait. -/
def receive (s : BotTable) (c : Call) : BotTable :=
  { s with
    table := s.table.apply c
    bots := fun u => (s.bots u).put (messagesTo u (s.table.sends c)) }

def handle (s : BotTable) (uuid : ℕ) (script : Script) : BotTable :=
  match (s.bots uuid).inbox with
  | [] => s
  | json :: inbox =>
    let (ctx, out) := Bot.handleRequest script (s.bots uuid).ctx json
    { s with
      bots := Function.update s.bots uuid { ctx := ctx, inbox := inbox }
      sent := s.sent ++ out.map fun reply => (uuid, reply) }

theorem handle_nil {s : BotTable} {uuid : ℕ} (h : (s.bots uuid).inbox = []) (script : Script) :
    s.handle uuid script = s := by
  rw [handle, h]

theorem handle_cons {s : BotTable} {uuid : ℕ} {json : JsonObject} {inbox : List JsonObject}
    (h : (s.bots uuid).inbox = json :: inbox) (script : Script) :
    s.handle uuid script =
      { s with
        bots := Function.update s.bots uuid
          { ctx := (Bot.handleRequest script (s.bots uuid).ctx json).1, inbox := inbox }
        sent := s.sent ++ (Bot.handleRequest script (s.bots uuid).ctx json).2.map
          fun reply => (uuid, reply) } := by
  rw [handle, h]

/-- A message to the lobby is lost here. -/
def arrive (s : BotTable) (i : ℕ) (dealer : Dealer) : BotTable :=
  match s.sent[i]? with
  | none => s
  | some (uuid, reply) =>
    let s := { s with sent := s.sent.eraseIdx i }
    if s.table.mId ∈ reply.dest then
      s.receive (.executeRequest dealer uuid (.object reply.data))
    else s

def step (s : BotTable) : BotEvent → BotTable
  | .call c => s.receive c
  | .handle uuid script => s.handle uuid script
  | .arrive i dealer => s.arrive i dealer

/-- A new table, and bots that are logged in. -/
def start (t : PlayingTable) (nbPlayers : ℕ) (randomPlace : Place) : BotTable where
  table := t.createTable nbPlayers randomPlace
  bots := fun u => { ctx := { mMyself := { uuid := u } } }

end BotTable

end TarotClub
