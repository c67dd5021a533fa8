import TarotClub.Lobby

namespace TarotClub.Lobby

/-- Who has which identifier is as before. -/
def SamePeers (l l' : Lobby) : Prop := l'.mUserIds = l.mUserIds ∧ l'.mPeers = l.mPeers

theorem samePeers_refl (l : Lobby) : l.SamePeers l := ⟨rfl, rfl⟩

theorem SamePeers.trans {l l' l'' : Lobby} (h : l.SamePeers l') (h' : l'.SamePeers l'') :
    l.SamePeers l'' := ⟨h'.1.trans h.1, h'.2.trans h.2⟩

theorem samePeers_sendPlayerEvent (l : Lobby) (uuid : ℕ) (event : Str) :
    l.SamePeers (l.sendPlayerEvent uuid event).1 := by
  unfold sendPlayerEvent
  split
  · exact ⟨rfl, rfl⟩
  · exact ⟨rfl, rfl⟩

theorem samePeers_removePlayerFromTable (l : Lobby) (uuid tableId : ℕ) :
    l.SamePeers (l.removePlayerFromTable uuid tableId).1 := by
  unfold removePlayerFromTable
  refine SamePeers.trans ?_ (samePeers_sendPlayerEvent _ _ _)
  split_ifs
  · exact ⟨rfl, rfl⟩
  · exact ⟨rfl, rfl⟩

theorem samePeers_createTable (l : Lobby) (tableName : Str) (game : Game) (randomPlace : Place) :
    l.SamePeers (l.createTable tableName game randomPlace).2 := by
  simp only [createTable]
  split_ifs
  · exact ⟨rfl, rfl⟩
  · exact ⟨rfl, rfl⟩

theorem samePeers_deliverToLobby (l : Lobby) (srcUuid : ℕ) (json : JsonValue) :
    l.SamePeers (l.deliverToLobby srcUuid json).lobby := by
  simp only [deliverToLobby]
  split_ifs
  · exact l.samePeers_refl
  · simp only [replyLogin]
    split_ifs
    · exact SamePeers.trans ⟨rfl, rfl⟩ (samePeers_sendPlayerEvent _ _ _)
    · exact ⟨rfl, rfl⟩
    · exact l.samePeers_refl
  · simp only [requestJoinTable]
    split_ifs
    · split
      · split_ifs
        · exact SamePeers.trans ⟨rfl, rfl⟩ (samePeers_sendPlayerEvent _ _ _)
        · exact ⟨rfl, rfl⟩
      · exact l.samePeers_refl
    · exact l.samePeers_refl
  · simp only [requestQuitTable]
    split_ifs
    · exact samePeers_removePlayerFromTable l _ _
    · exact l.samePeers_refl
  · simp only [requestChangeNickname]
    split_ifs
    · exact SamePeers.trans ⟨rfl, rfl⟩ (samePeers_sendPlayerEvent _ _ _)
    · exact ⟨rfl, rfl⟩
  · exact l.samePeers_refl

/-- No request takes or frees an identifier, or changes a peer. -/
theorem samePeers_deliver (dealer : Dealer) (l : Lobby) (req : Request) :
    l.SamePeers (l.deliver dealer req).lobby := by
  unfold deliver
  cases JsonReader.parseString req.arg with
  | none => exact l.samePeers_refl
  | some json =>
    dsimp only
    split_ifs
    · unfold deliverToTable
      split_ifs
      · exact ⟨rfl, rfl⟩
      · exact l.samePeers_refl
    · exact samePeers_deliverToLobby l _ json
    · exact l.samePeers_refl

theorem removeUser_mUserIds (l : Lobby) (uuid : ℕ) :
    (l.removeUser uuid).mUserIds = l.mUserIds.releaseId uuid := by
  simp only [removeUser]
  split_ifs
  · rw [(samePeers_removePlayerFromTable l uuid _).1]
  · rfl

theorem removeUser_mPeers (l : Lobby) (uuid : ℕ) : (l.removeUser uuid).mPeers = l.mPeers := by
  simp only [removeUser]
  split_ifs
  · exact (samePeers_removePlayerFromTable l uuid _).2
  · rfl

/-- `mPeers[uuid] = peer` changes the one entry. -/
theorem find?_insertPeer (uuid peer : ℕ) (peers : List (ℕ × ℕ)) (u : ℕ) :
    ((insertPeer uuid peer peers).find? fun p => p.1 = u) =
      if uuid = u then some (uuid, peer) else peers.find? fun p => p.1 = u := by
  induction peers with
  | nil => by_cases hu : uuid = u <;> simp [insertPeer, hu]
  | cons p peers ih =>
    obtain ⟨k, q⟩ := p
    rw [insertPeer]
    by_cases hk : uuid = k
    · subst hk
      by_cases hu : uuid = u <;> simp [hu]
    · rw [if_neg hk]
      by_cases hlt : uuid < k
      · rw [if_pos hlt]
        by_cases hu : uuid = u <;> simp [hu]
      · rw [if_neg hlt]
        by_cases hku : k = u
        · have hne : uuid ≠ u := fun hu => hk (hu.trans hku.symm)
          simp [hku, hne]
        · rw [List.find?_cons_of_neg (by simpa using hku), ih,
            List.find?_cons_of_neg (by simpa using hku)]

theorem getPeer_addUser (l : Lobby) (peer u : ℕ) :
    (l.addUser peer).2.getPeer u = if (l.addUser peer).1 = u then some peer else l.getPeer u := by
  change ((insertPeer l.mUserIds.takeId.1 peer l.mPeers).find? fun p => p.1 = u).map (·.2) = _
  rw [find?_insertPeer]
  split_ifs with hu hu' hu'
  · rfl
  · exact absurd hu hu'
  · exact absurd hu' hu
  · rfl

end TarotClub.Lobby
