import TarotClub.LobbyTables
import TarotClub.LobbyPeers

namespace TarotClub

open Machine

namespace Lobby

/-- The sessions that live, as identifiers and peers. -/
def noteSessions (l : Lobby) (c : LobbyCall) (live : List (ℕ × ℕ)) : List (ℕ × ℕ) :=
  match c with
  | .addUser peer => ((l.addUser peer).1, peer) :: live
  | .removeUser uuid => live.filter fun s => s.1 ≠ uuid
  | _ => live

/-- The sessions that live have identifiers of their own, and are the peers of the lobby. -/
structure PeersAreLive (p : Lobby × List (ℕ × ℕ)) : Prop where
  nonzero : ∀ s ∈ p.2, s.1 ≠ invalidUid
  distinct : (p.2.map Prod.fst).Nodup
  peers : ∀ s, s ∈ p.1.mPeers ↔ s ∈ p.2

/-- The identifiers that are taken are those of the sessions that live. -/
structure PoolIsLive (p : Lobby × List (ℕ × ℕ)) : Prop where
  range : p.1.mUserIds.mMin = 10 ∧ p.1.mUserIds.mMax = 200
  used : ∀ id, id ∈ p.1.mUserIds.mUsedIds ↔ id ∈ p.2.map Prod.fst
  inRange : ∀ id ∈ p.2.map Prod.fst, 10 ≤ id ∧ id ≤ 200

/-- No session goes, and none comes when 191 of them live. -/
def NobodyLeaves (p : Lobby × List (ℕ × ℕ)) : LobbyCall → Prop
  | .addUser _ => p.2.length < 191
  | .removeUser uuid => uuid ∉ p.2.map Prod.fst
  | _ => True

theorem mem_insertPeer {uuid peer : ℕ} {peers : List (ℕ × ℕ)}
    (hnew : ∀ p ∈ peers, p.1 ≠ uuid) (s : ℕ × ℕ) :
    s ∈ insertPeer uuid peer peers ↔ s = (uuid, peer) ∨ s ∈ peers := by
  induction peers with
  | nil => simp [insertPeer]
  | cons p peers ih =>
    obtain ⟨k, q⟩ := p
    have hk : uuid ≠ k := fun h => hnew (k, q) List.mem_cons_self h.symm
    rw [insertPeer, if_neg hk]
    split_ifs
    · rw [List.mem_cons]
    · rw [List.mem_cons, ih fun p hp => hnew p (List.mem_cons_of_mem _ hp), List.mem_cons]
      tauto

/-- Below 191 sessions there is an identifier left. -/
theorem exists_free {live : List (ℕ × ℕ)} (hlen : live.length < 191) :
    ∃ id, (10 ≤ id ∧ id ≤ 200) ∧ id ∉ live.map Prod.fst := by
  by_contra hall
  push Not at hall
  have hsub : List.range' 10 191 ⊆ live.map Prod.fst := by
    intro id hid
    rw [List.mem_range'_1] at hid
    exact hall id (by omega)
  have hle := (List.nodup_range' (s := 10) (n := 191)).subperm hsub |>.length_le
  rw [List.length_range', List.length_map] at hle
  omega

/-- From 191 sessions on there is none. -/
theorem length_of_full {live : List (ℕ × ℕ)} (hnodup : (live.map Prod.fst).Nodup)
    (hrange : ∀ id ∈ live.map Prod.fst, 10 ≤ id ∧ id ≤ 200)
    {id : ℕ} (hid : 10 ≤ id ∧ id ≤ 200) (hfree : id ∉ live.map Prod.fst) :
    live.length < 191 := by
  have hsub : id :: live.map Prod.fst ⊆ List.range' 10 191 := by
    intro id' hmem
    rw [List.mem_range'_1]
    rcases List.mem_cons.mp hmem with rfl | hmem
    · omega
    · have := hrange id' hmem
      omega
  have hle := (List.nodup_cons.mpr ⟨hfree, hnodup⟩).subperm hsub |>.length_le
  rw [List.length_range', List.length_cons, List.length_map] at hle
  omega

/-- A new session gets an identifier of its own as long as there is one. -/
theorem PoolIsLive.addUser {p : Lobby × List (ℕ × ℕ)} (h : PeersAreLive p) (hpool : PoolIsLive p)
    (peer : ℕ) :
    ((10 ≤ (p.1.addUser peer).1 ∧ (p.1.addUser peer).1 ≤ 200) ∧
      (p.1.addUser peer).1 ∉ p.2.map Prod.fst ∧
      (p.1.addUser peer).2.mUserIds.mUsedIds =
        p.1.mUserIds.mUsedIds ++ [(p.1.addUser peer).1] ∧ p.2.length < 191) ∨
    (p.1.addUser peer).1 = invalidUid ∧ 191 ≤ p.2.length := by
  rcases p.1.mUserIds.takeId_cases with ⟨h0, -⟩ | ⟨hrange, hfree, hused⟩
  · refine .inr ⟨h0, ?_⟩
    by_contra hlen
    obtain ⟨id, hid, hfree⟩ := exists_free (Nat.lt_of_not_le hlen)
    have hsome : ((List.range' p.1.mUserIds.mMin (p.1.mUserIds.mMax + 1 - p.1.mUserIds.mMin)).find?
        fun i => !p.1.mUserIds.isTaken i).isSome = true := by
      rw [List.find?_isSome]
      refine ⟨id, ?_, ?_⟩
      · rw [List.mem_range'_1, hpool.range.1, hpool.range.2]
        omega
      · rw [Bool.not_eq_true', ← Bool.not_eq_true, UniqueId.isTaken_iff, hpool.used]
        exact hfree
    obtain ⟨i, hi⟩ := Option.isSome_iff_exists.mp hsome
    have hmem := List.mem_of_find?_eq_some hi
    rw [List.mem_range'_1, hpool.range.1] at hmem
    have htake : p.1.mUserIds.takeId.1 = i := by
      rw [UniqueId.takeId, hi]
    rw [h0] at htake
    simp only [UniqueId.cInvalidId] at htake
    omega
  · rw [hpool.range.1, hpool.range.2] at hrange
    rw [hpool.used] at hfree
    exact .inl ⟨hrange, hfree, hused, length_of_full h.distinct hpool.inRange hrange hfree⟩

/-- Where the peers, the identifiers and the sessions are as before, so is all the rest. -/
theorem peersAreLive_congr {p p' : Lobby × List (ℕ × ℕ)} (hpeers : p'.1.mPeers = p.1.mPeers)
    (hids : p'.1.mUserIds = p.1.mUserIds) (hlive : p'.2 = p.2)
    (h : PeersAreLive p ∧ PoolIsLive p) : PeersAreLive p' ∧ PoolIsLive p' := by
  obtain ⟨h, hpool⟩ := h
  refine ⟨⟨?_, ?_, ?_⟩, ⟨?_, ?_, ?_⟩⟩ <;> simp only [hpeers, hids, hlive]
  exacts [h.nonzero, h.distinct, h.peers, hpool.range, hpool.used, hpool.inRange]

theorem peersAreLive_step (p : Lobby × List (ℕ × ℕ)) (c : LobbyCall)
    (h : PeersAreLive p ∧ PoolIsLive p) (hok : NobodyLeaves p c) :
    PeersAreLive (observe apply noteSessions p c) ∧ PoolIsLive (observe apply noteSessions p c) := by
  obtain ⟨h, hpool⟩ := h
  cases c with
  | addUser peer =>
    rcases hpool.addUser h peer with ⟨hrange, hfree, hused, -⟩ | ⟨-, hlen⟩
    swap
    · exact absurd hok (Nat.not_lt.mpr hlen)
    have hnew : ∀ s ∈ p.1.mPeers, s.1 ≠ (p.1.addUser peer).1 := fun s hs he =>
      hfree (he ▸ List.mem_map_of_mem ((h.peers s).mp hs))
    refine ⟨⟨fun s hs => ?_, ?_, fun s => ?_⟩, ⟨?_, fun id => ?_, fun id hid => ?_⟩⟩
    · rcases List.mem_cons.mp hs with rfl | hs
      · have h10 := hrange.1
        simp only [invalidUid]
        omega
      · exact h.nonzero s hs
    · exact List.nodup_cons.mpr ⟨hfree, h.distinct⟩
    · exact (mem_insertPeer hnew s).trans (by
        rw [h.peers s]
        exact List.mem_cons.symm)
    · have hmin := UniqueId.takeId_mMin p.1.mUserIds
      have hmax := UniqueId.takeId_mMax p.1.mUserIds
      exact ⟨hmin.trans hpool.range.1, hmax.trans hpool.range.2⟩
    · change id ∈ (p.1.addUser peer).2.mUserIds.mUsedIds ↔
        id ∈ (p.1.addUser peer).1 :: p.2.map Prod.fst
      rw [hused, List.mem_append, List.mem_singleton, List.mem_cons, hpool.used, or_comm]
    · rcases List.mem_cons.mp hid with rfl | hid
      · exact hrange
      · exact hpool.inRange id hid
  | removeUser uuid =>
    have hnone : uuid ∉ p.1.mUserIds.mUsedIds := fun hmem => hok ((hpool.used uuid).mp hmem)
    have hlive : noteSessions p.1 (.removeUser uuid) p.2 = p.2 := by
      refine List.filter_eq_self.mpr fun s hs => decide_eq_true fun he => ?_
      exact hok (he ▸ List.mem_map_of_mem hs)
    have hids : (p.1.removeUser uuid).mUserIds = p.1.mUserIds := by
      rw [removeUser_mUserIds, UniqueId.releaseId, List.erase_of_not_mem hnone]
    exact peersAreLive_congr (removeUser_mPeers p.1 uuid) hids hlive ⟨h, hpool⟩
  | createTable tableName game randomPlace =>
    obtain ⟨hids, hpeers⟩ := samePeers_createTable p.1 tableName game randomPlace
    exact peersAreLive_congr (p := p) hpeers hids rfl ⟨h, hpool⟩
  | destroyTable id => exact peersAreLive_congr (p := p) rfl rfl rfl ⟨h, hpool⟩
  | deliver dealer req =>
    obtain ⟨hids, hpeers⟩ := samePeers_deliver dealer p.1 req
    exact peersAreLive_congr hpeers hids rfl ⟨h, hpool⟩

/-- A session that goes leaves its peer, and one that comes too late has no identifier. -/
theorem nobodyLeaves_of_peersAreLive (p : Lobby × List (ℕ × ℕ)) (c : LobbyCall)
    (h : PeersAreLive p ∧ PoolIsLive p) (hnext : PeersAreLive (observe apply noteSessions p c)) :
    NobodyLeaves p c := by
  obtain ⟨h, hpool⟩ := h
  cases c with
  | addUser peer =>
    rcases hpool.addUser h peer with ⟨-, -, -, hlen⟩ | ⟨h0, -⟩
    · exact hlen
    · exact absurd h0 (hnext.nonzero _ List.mem_cons_self)
  | removeUser uuid =>
    intro hmem
    obtain ⟨s, hs, rfl⟩ := List.mem_map.mp hmem
    have hpeer : s ∈ (p.1.removeUser s.1).mPeers := by
      rw [removeUser_mPeers]
      exact (h.peers s).mpr hs
    have hkept := (hnext.peers s).mp hpeer
    exact absurd rfl (of_decide_eq_true (List.mem_filter.mp hkept).2)
  | createTable | destroyTable | deliver => trivial

/-- What is sent goes to sessions that live, and each of them gets what is addressed to it. -/
theorem PeersAreLive.send {p : Lobby × List (ℕ × ℕ)} (h : PeersAreLive p) (out : List Reply) :
    (∀ q ∈ p.1.send out, ∃ s ∈ p.2, s.2 = q.1) ∧
      ∀ s ∈ p.2, ∀ reply ∈ out, s.1 ∈ reply.dest →
        (s.2, (JsonValue.object reply.data).toString (-1)) ∈ p.1.send out := by
  constructor
  · intro q hq
    obtain ⟨reply, -, hq⟩ := List.mem_flatMap.mp hq
    obtain ⟨uuid, -, hq⟩ := List.mem_flatMap.mp hq
    cases hfind : p.1.mPeers.find? fun p => p.1 = uuid with
    | some s =>
      rw [hfind, List.mem_singleton] at hq
      exact ⟨s, (h.peers s).mp (List.mem_of_find?_eq_some hfind), by rw [hq]⟩
    | none =>
      rw [hfind] at hq
      dsimp only at hq
      split_ifs at hq
      · obtain ⟨s, hs, rfl⟩ := List.mem_map.mp hq
        exact ⟨s, (h.peers s).mp hs, rfl⟩
      · cases hq
  · intro s hs reply hreply hdest
    refine List.mem_flatMap.mpr ⟨reply, hreply, List.mem_flatMap.mpr ⟨s.1, hdest, ?_⟩⟩
    cases hfind : p.1.mPeers.find? fun p => p.1 = s.1 with
    | some s' =>
      have hs' := (h.peers s').mp (List.mem_of_find?_eq_some hfind)
      have he : s'.1 = s.1 := by simpa using List.find?_some hfind
      rw [List.inj_on_of_nodup_map h.distinct hs' hs he]
      exact List.mem_singleton_self _
    | none =>
      have hnone := List.find?_eq_none.mp hfind s ((h.peers s).mpr hs)
      rw [decide_eq_true_iff] at hnone
      exact absurd rfl hnone

/-- In all the states of a run the peers are the sessions that live, under identifiers of their
own, if and only if no session goes and none comes when 191 of them live; and as long as this is
so, what is sent goes to the sessions that live and to them alone. -/
theorem peers_live_iff (adminMode : Bool) (calls : List LobbyCall) :
    ((∀ k, PeersAreLive (run (observe apply noteSessions)
        (({ mAdminMode := adminMode } : Lobby), []) (calls.take k))) ↔
      Guarded (observe apply noteSessions) NobodyLeaves
        (({ mAdminMode := adminMode } : Lobby), []) calls) ∧
    ∀ k, PeersAreLive (run (observe apply noteSessions)
        (({ mAdminMode := adminMode } : Lobby), []) (calls.take k)) →
      let p := run (observe apply noteSessions) (({ mAdminMode := adminMode } : Lobby), [])
        (calls.take k)
      ∀ out, (∀ q ∈ p.1.send out, ∃ s ∈ p.2, s.2 = q.1) ∧
        ∀ s ∈ p.2, ∀ reply ∈ out, s.1 ∈ reply.dest →
          (s.2, (JsonValue.object reply.data).toString (-1)) ∈ p.1.send out := by
  refine ⟨?_, fun k h out => h.send out⟩
  have hstart : PeersAreLive (({ mAdminMode := adminMode } : Lobby), []) ∧
      PoolIsLive (({ mAdminMode := adminMode } : Lobby), []) := by
    refine ⟨⟨?_, List.nodup_nil, fun s => Iff.rfl⟩, ⟨⟨rfl, rfl⟩, fun id => Iff.rfl, ?_⟩⟩
    · exact fun s hs => absurd hs List.not_mem_nil
    · exact fun id hid => absurd hid List.not_mem_nil
  exact (guarded_iff_forall_take (fun p => PeersAreLive p ∧ PoolIsLive p) PeersAreLive
    (fun p h => h.1) peersAreLive_step nobodyLeaves_of_peersAreLive hstart calls).symm

theorem peers_live_iff_two : ∀ k, PeersAreLive (run (observe apply noteSessions)
    (({} : Lobby), []) (([.addUser 1, .addUser 2] : List LobbyCall).take k)) :=
  (peers_live_iff false [.addUser 1, .addUser 2]).1.mpr
    ⟨(by decide : 0 < 191), (by decide : 1 < 191), trivial⟩

/-- A session comes and goes, and what is broadcast is still written to its peer. -/
theorem removed_peer_is_kept :
    ¬ ∀ calls : List LobbyCall, ∀ k, PeersAreLive (run (observe apply noteSessions)
      (({} : Lobby), []) (calls.take k)) := by
  intro h
  have hlive := h [.addUser 1, .removeUser 10] 2
  have hpeer : (10, 1) ∈ (run (observe apply noteSessions) (({} : Lobby), [])
      (([.addUser 1, .removeUser 10] : List LobbyCall).take 2)).1.mPeers := by decide +kernel
  have hnone : (run (observe apply noteSessions) (({} : Lobby), [])
      (([.addUser 1, .removeUser 10] : List LobbyCall).take 2)).2 = [] := by decide +kernel
  have hmem := (hlive.peers (10, 1)).mp hpeer
  rw [hnone] at hmem
  cases hmem

end Lobby

end TarotClub
