import TarotClub.FairDeal
import TarotClub.LobbyRequests
import TarotClub.PeerSession

namespace TarotClub

/-- On every session with this uuid that is let in, every frame with this source field has the
effects of a request of that uuid: the lobby and the replies are the same. -/
def SourceIgnored (uuid source : ℕ) : Prop :=
  ∀ (decrypt : Decryption) (dealer : Dealer) (l : Lobby) (s : PeerSession) (arg : Str),
    s.mIsPending = false → s.uuid = uuid → s.h.srcUid = source →
    decrypt s.mProto.mKey (s.mProto.frame s.h) s.h.prefixSize s.h.payloadSize = some arg →
    ∃ req, (s.handleBody decrypt l).2 = .deliver req ∧
      (l.deliver dealer req).lobby =
        (l.deliver dealer { srcUuid := uuid, destUuid := s.h.dstUid, arg := arg }).lobby ∧
      (l.deliver dealer req).out =
        (l.deliver dealer { srcUuid := uuid, destUuid := s.h.dstUid, arg := arg }).out

/-- A session that is let in passes the source field on. -/
theorem handleBody_of_let_in {decrypt : Decryption} {s : PeerSession} {arg : Str}
    (hin : s.mIsPending = false)
    (hclear : decrypt s.mProto.mKey (s.mProto.frame s.h) s.h.prefixSize s.h.payloadSize =
      some arg) (l : Lobby) :
    s.handleBody decrypt l =
      (s, .deliver { srcUuid := s.h.srcUid, destUuid := s.h.dstUid, arg := arg }) := by
  have hfind : s.findSecurity l = s := by
    rw [PeerSession.findSecurity, hin, if_neg Bool.false_ne_true]
  rw [PeerSession.handleBody, hfind]
  simp only [hclear, hin, Bool.false_eq_true, if_false]

/-- A request whose effects show who has made it: a nickname that nobody here has. -/
def nicknameRequest (uuid : ℕ) : Request :=
  PlayerContext.toLobby uuid (PlayerContext.buildChangeNickname (str "Bob"))

/-- A lobby that has given an identifier to a session, and nothing else. -/
def lobbyOf (uuid : ℕ) : Lobby where
  mUserIds := { UniqueId.create 10 200 with mUsedIds := [uuid] }
  mPeers := [(uuid, 0)]

theorem deliver_nicknameRequest (dealer : Dealer) (peer uuid : ℕ) :
    ((lobbyOf peer).deliver dealer (nicknameRequest uuid)).out =
      Lobby.error Lobby.cErrorNickNameUsed uuid := by
  have hparse : (JsonReader.parseString (nicknameRequest 0).arg).any
      (fun json => (json.findValue (str "cmd")).getString = str "RequestChangeNickname") = true := by
    decide +kernel
  rw [Option.any_eq_true] at hparse
  obtain ⟨json, hjson, hcmd⟩ := hparse
  rw [decide_eq_true_iff] at hcmd
  have hlobby : (lobbyOf peer).deliver dealer (nicknameRequest uuid) =
      (lobbyOf peer).requestChangeNickname uuid json := by
    rw [Lobby.deliver, show (nicknameRequest uuid).arg = (nicknameRequest 0).arg from rfl, hjson]
    change (lobbyOf peer).deliverToLobby uuid json = _
    rw [Lobby.deliverToLobby, hcmd]
    rw [if_neg (by decide), if_neg (by decide), if_neg (by decide), if_neg (by decide), if_pos rfl]
  rw [hlobby]
  rfl

theorem source_eq_of_sourceIgnored {uuid source : ℕ} (h : SourceIgnored uuid source) :
    source = uuid := by
  let s : PeerSession :=
    { uuid := uuid, mIsPending := false, h := { srcUid := source, dstUid := lobbyUid } }
  obtain ⟨req, hreq, -, hout⟩ := h (fun _ _ _ _ => some (nicknameRequest 0).arg)
    plainDealer (lobbyOf uuid) s (nicknameRequest 0).arg rfl rfl rfl rfl
  have hhandle : s.handleBody (fun _ _ _ _ => some (nicknameRequest 0).arg) (lobbyOf uuid) =
      (s, .deliver (nicknameRequest source)) := handleBody_of_let_in rfl rfl (lobbyOf uuid)
  rw [hhandle] at hreq
  obtain rfl := Handling.deliver.inj hreq
  change ((lobbyOf uuid).deliver _ (nicknameRequest source)).out =
    ((lobbyOf uuid).deliver _ (nicknameRequest uuid)).out at hout
  rw [deliver_nicknameRequest, deliver_nicknameRequest] at hout
  simpa [Lobby.error, Lobby.errors, Lobby.cErrorNickNameUsed] using hout

/-- The source field is of no influence exactly where it names the session's own uuid. -/
theorem sourceIgnored_iff (uuid source : ℕ) : SourceIgnored uuid source ↔ source = uuid := by
  refine ⟨source_eq_of_sourceIgnored, ?_⟩
  rintro rfl decrypt dealer l s arg hin huuid hsource hclear
  refine ⟨_, congrArg Prod.snd (handleBody_of_let_in hin hclear l), ?_, ?_⟩
  · rw [hsource]
  · rw [hsource]

/-- The session of the user 10 can act as the user 11. -/
theorem not_sourceIgnored : ¬ SourceIgnored 10 11 :=
  fun h => absurd (source_eq_of_sourceIgnored h) (by decide)

end TarotClub
