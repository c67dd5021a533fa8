import TarotClub.Machine
import TarotClub.FirstMax
import TarotClub.Eager
import TarotClub.Text
import TarotClub.TextSearch
import TarotClub.SplitJoin
import TarotClub.Common
import TarotClub.Card
import TarotClub.Deck
import TarotClub.Cards
import TarotClub.Rounding
import TarotClub.RoundingGrid
import TarotClub.KeyPaths
import TarotClub.JsonValue
import TarotClub.JsonPaths
import TarotClub.JsonReplace
import TarotClub.JsonReader
import TarotClub.Score
import TarotClub.TarotContext
import TarotClub.Trick
import TarotClub.AttackScore
import TarotClub.Engine
import TarotClub.FairDeal
import TarotClub.EngineRun
import TarotClub.Network
import TarotClub.PlayerContext
import TarotClub.PlayingTable
import TarotClub.TableRun
import TarotClub.Seats
import TarotClub.AckBarrier
import TarotClub.Refusals
import TarotClub.Auction
import TarotClub.AuctionResult
import TarotClub.DealInvariant
import TarotClub.DealRun
import TarotClub.CardConservation
import TarotClub.TurnOrder
import TarotClub.Autoplay
import TarotClub.DealResults
import TarotClub.Hex
import TarotClub.Protocol
import TarotClub.FrameBounds
import TarotClub.HeaderAbort
import TarotClub.FrameRoundTrip
import TarotClub.Nonces
import TarotClub.UniqueId
import TarotClub.Users
import TarotClub.Lobby
import TarotClub.LobbyPeers
import TarotClub.LobbyRequests
import TarotClub.LobbyTables
import TarotClub.LobbySeats
import TarotClub.QuitTable
import TarotClub.PeerSession
import TarotClub.Authentication
import TarotClub.SourceField
import TarotClub.RemovedSession
import TarotClub.FrameReplay
import TarotClub.JsonText
import TarotClub.JsonScalars
import TarotClub.JsonLoop
import TarotClub.JsonPrint
import TarotClub.JsonRoundTrip
import TarotClub.JsonGrammar
import TarotClub.JsonLiberties
import TarotClub.JsonDocuments
import TarotClub.Terminated
import TarotClub.JsonCursor
import TarotClub.JsonOverRead
import TarotClub.DeckText
import TarotClub.DeckTokens
import TarotClub.CardNames
import TarotClub.Replay
import TarotClub.DealFile
import TarotClub.LoadedDeal
import TarotClub.SavedDeal
import TarotClub.DealLedger
import TarotClub.DealReplay
import TarotClub.ClientContext
import TarotClub.QuitRequest
import TarotClub.TableAdmin
import TarotClub.PeerMap
import TarotClub.DogHidden
import TarotClub.ZeroSum
import TarotClub.PartnerSplit
import TarotClub.Podium
import TarotClub.Tournament
import TarotClub.LobbyReplica
import TarotClub.Bot
import TarotClub.BotTable
import TarotClub.BotBids
import TarotClub.DealTotals
import TarotClub.UserKeys
import TarotClub.LegalPlay
import TarotClub.Discards
import TarotClub.Handles
import TarotClub.HandleBonus
import TarotClub.TrickWinner
import TarotClub.KingCall
import TarotClub.DealGenerator
import TarotClub.RandomDeal
import TarotClub.CustomDeal
import TarotClub.BotView
import TarotClub.TableNews
import TarotClub.PlayReplica
import TarotClub.BotAnswers
import TarotClub.BotPlay
import TarotClub.ReplaceCharacter
import TarotClub.UserEntries
import TarotClub.Memory
import TarotClub.DeckSort
import TarotClub.Decryption
import TarotClub.GameWire
import TarotClub.Counter
import TarotClub.Runs
import TarotClub.HandStatistics
import TarotClub.Progress
import TarotClub.DealLength
import TarotClub.DealEnds
import TarotClub.Unwinding
import TarotClub.AlikeDeals
import TarotClub.HandsHidden
import TarotClub.FiveBots
import TarotClub.TableAsks
import TarotClub.BotReplies
import TarotClub.BotsServe
import TarotClub.BotsPending
import TarotClub.BotsFinish
import TarotClub.Scoreboard
import TarotClub.Reassembly
import TarotClub.Session
import TarotClub.RequestStream
