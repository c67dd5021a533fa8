import TarotClub.LobbyTables

namespace TarotClub

open Machine

/-- A player comes or goes; nobody comes under the identifier of nobody. -/
inductive SeatCall where
  | addPlayer (uuid : ℕ) (huuid : uuid ≠ invalidUid)
  | removePlayer (kickedPlayer : ℕ)

namespace PlayingTable

def seatStep (t : PlayingTable) : SeatCall → PlayingTable
  | .addPlayer uuid _ => (t.addPlayer uuid).2
  | .removePlayer kickedPlayer => t.removePlayer kickedPlayer

/-- Who sits on a seat. -/
def uuidAt (t : PlayingTable) (i : ℕ) : ℕ := (t.mPlayers i).uuid

/-- Some seat is held, by somebody else than this player. -/
def HoldsOther (t : PlayingTable) (uuid i : ℕ) : Prop :=
  i < t.nbPlayers ∧ t.uuidAt i ≠ uuid ∧ t.uuidAt i ≠ invalidUid

instance (t : PlayingTable) (uuid i : ℕ) : Decidable (t.HoldsOther uuid i) :=
  inferInstanceAs (Decidable (_ ∧ _ ∧ _))

/-- A table where somebody sits has a seated admin, and no player has two seats. -/
structure SeatedAdmin (t : PlayingTable) : Prop where
  seated : ∀ i < t.nbPlayers, t.uuidAt i ≠ invalidUid →
    t.mAdmin ≠ invalidUid ∧ ∃ j < t.nbPlayers, t.uuidAt j = t.mAdmin
  distinct : ∀ i < t.nbPlayers, ∀ j < t.nbPlayers, t.uuidAt i ≠ invalidUid →
    t.uuidAt i = t.uuidAt j → i = j
  empty : (∀ i < t.nbPlayers, t.uuidAt i = invalidUid) → t.mAdmin = invalidUid

/-- When the admin goes and others stay, no free seat is in front of the first of them. -/
def HandsOver (t : PlayingTable) : SeatCall → Prop
  | .addPlayer _ _ => True
  | .removePlayer kickedPlayer =>
    kickedPlayer = t.mAdmin → (∃ i, t.HoldsOther kickedPlayer i) →
      ∃ i, t.HoldsOther kickedPlayer i ∧ ∀ j < i, t.uuidAt j ≠ invalidUid

/-- The admin that `RemovePlayer` chooses. -/
def nextAdmin (t : PlayingTable) (kickedPlayer : ℕ) : ℕ :=
  match (List.range t.nbPlayers).find? fun i => (t.mPlayers i).uuid ≠ kickedPlayer with
  | some i => (t.mPlayers i).uuid
  | none => invalidUid

/-- It is the player of the first seat that is not the kicked one's, if there is such a seat. -/
theorem nextAdmin_cases (t : PlayingTable) (kickedPlayer : ℕ) :
    (∃ i < t.nbPlayers, t.nextAdmin kickedPlayer = t.uuidAt i ∧ t.uuidAt i ≠ kickedPlayer ∧
      ∀ j < i, t.uuidAt j = kickedPlayer) ∨
    t.nextAdmin kickedPlayer = invalidUid ∧ ∀ i < t.nbPlayers, t.uuidAt i = kickedPlayer := by
  unfold nextAdmin
  cases hfind : (List.range t.nbPlayers).find? fun i => (t.mPlayers i).uuid ≠ kickedPlayer with
  | some i =>
    obtain ⟨hne, hlt, hbefore⟩ := List.find?_range_eq_some.mp hfind
    refine .inl ⟨i, List.mem_range.mp hlt, rfl, of_decide_eq_true hne, fun j hj => ?_⟩
    have hj' := hbefore j hj
    rw [Bool.not_eq_true', decide_eq_false_iff_not, not_not] at hj'
    exact hj'
  | none =>
    refine .inr ⟨rfl, fun i hi => ?_⟩
    have hall := List.find?_eq_none.mp hfind i (List.mem_range.mpr hi)
    rw [decide_eq_true_iff, not_not] at hall
    exact hall

theorem removePlayer_mAdmin {t : PlayingTable} (hn : t.nbPlayers ≤ 5) (kickedPlayer : ℕ) :
    (t.removePlayer kickedPlayer).mAdmin =
      if kickedPlayer = t.mAdmin ∧ ∃ i < t.nbPlayers, t.uuidAt i = kickedPlayer then
        t.nextAdmin kickedPlayer else t.mAdmin := by
  have hseat := not_congr (@getPlayerPlace_eq_nowhere _ hn kickedPlayer)
  push Not at hseat
  by_cases hp : t.getPlayerPlace kickedPlayer = .nowhere
  · rw [removePlayer, if_neg (not_not.mpr hp), if_neg]
    rintro ⟨-, hex⟩
    exact hseat.mpr hex hp
  · simp only [removePlayer, if_pos hp]
    have hex : ∃ i < t.nbPlayers, t.uuidAt i = kickedPlayer := hseat.mp hp
    simp only [hex, and_true]
    rfl

theorem seatedAdmin_createTable (t : PlayingTable) {n : ℕ} (hn : n ≤ 5) (randomPlace : Place) :
    (t.createTable n randomPlace).SeatedAdmin := by
  have hfree : ∀ i < n, (t.createTable n randomPlace).uuidAt i = invalidUid := by
    intro i hi
    rw [uuidAt, createTable_mPlayers t randomPlace hn hi]
  refine ⟨fun i hi hne => ?_, fun i hi j hj hne => ?_, fun _ => rfl⟩
  · exact absurd (hfree i hi) hne
  · exact absurd (hfree i hi) hne

/-- A player who comes to an empty table is its admin; the others come as they are. -/
theorem SeatedAdmin.addPlayer {t : PlayingTable} (h : t.SeatedAdmin) (hn : t.nbPlayers ≤ 5)
    {uuid : ℕ} (huuid : uuid ≠ invalidUid) : (t.addPlayer uuid).2.SeatedAdmin := by
  rcases addPlayer_cases hn uuid with ⟨-, hsame⟩ |
    ⟨k, hk, hfree, -, -, -, hnone, hseats⟩
  · rw [hsame]
    exact h
  have hnb := addPlayer_nbPlayers t uuid
  have hadmin : (t.addPlayer uuid).2.mAdmin =
      if t.mAdmin = invalidUid then uuid else t.mAdmin := by
    have hp := (getPlayerPlace_eq_nowhere hn).mpr hnone
    have hv : t.freePlace.value < Place.nowhere.value := by
      by_contra hv
      have hkeep := hseats k
      rw [if_pos rfl] at hkeep
      simp only [PlayingTable.addPlayer, hp, if_true, if_neg hv] at hkeep
      exact huuid (hkeep.symm.trans hfree)
    simp only [PlayingTable.addPlayer, hp, if_true, if_pos hv]
  have hat : ∀ j, (t.addPlayer uuid).2.uuidAt j = if j = k then uuid else t.uuidAt j := hseats
  refine ⟨fun i hi hne => ?_, fun i hi j hj hne he => ?_, fun hempty => ?_⟩
  · rw [hadmin, hnb]
    by_cases h0 : t.mAdmin = invalidUid
    · rw [if_pos h0]
      exact ⟨huuid, k, hk, by rw [hat, if_pos rfl]⟩
    · rw [if_neg h0]
      refine ⟨h0, ?_⟩
      have hex : ∃ i < t.nbPlayers, t.uuidAt i ≠ invalidUid := by
        by_contra hall
        push Not at hall
        exact h0 (h.empty hall)
      obtain ⟨i', hi', hne'⟩ := hex
      obtain ⟨-, j, hj, he⟩ := h.seated i' hi' hne'
      refine ⟨j, hj, ?_⟩
      rw [hat, if_neg, he]
      rintro rfl
      exact h0 (he.symm.trans hfree)
  · rw [hnb] at hi hj
    rw [hat] at hne he
    rw [hat] at he
    by_cases hik : i = k
    · by_cases hjk : j = k
      · rw [hik, hjk]
      · rw [if_pos hik, if_neg hjk] at he
        exact absurd he.symm (hnone j hj)
    · by_cases hjk : j = k
      · rw [if_neg hik, if_pos hjk] at he
        exact absurd he (hnone i hi)
      · rw [if_neg hik] at hne he
        rw [if_neg hjk] at he
        exact h.distinct i hi j hj hne he
  · have hk' := hempty k (hnb ▸ hk)
    rw [hat, if_pos rfl] at hk'
    exact absurd hk' huuid

/-- The players who stay keep a seat of their own, whoever goes. -/
theorem SeatedAdmin.removePlayer_iff {t : PlayingTable} (h : t.SeatedAdmin)
    (hn : t.nbPlayers ≤ 5) (kickedPlayer : ℕ) :
    (t.removePlayer kickedPlayer).SeatedAdmin ↔ t.HandsOver (.removePlayer kickedPlayer) := by
  have hnb := removePlayer_nbPlayers t kickedPlayer
  have hat : ∀ i < t.nbPlayers, (t.removePlayer kickedPlayer).uuidAt i =
      if t.uuidAt i = kickedPlayer then invalidUid else t.uuidAt i :=
    fun i hi => removePlayer_uuid hn kickedPlayer hi
  have hstay : ∀ i < t.nbPlayers, (t.removePlayer kickedPlayer).uuidAt i ≠ invalidUid ↔
      t.HoldsOther kickedPlayer i := by
    intro i hi
    rw [hat i hi, HoldsOther]
    split_ifs with he
    · simp [he]
    · simp [he, hi]
  have hadmin := removePlayer_mAdmin hn kickedPlayer
  constructor
  · intro h' hkicked ⟨i, hother⟩
    obtain ⟨hne, j, hj, hj'⟩ := h'.seated i (hnb ▸ hother.1) ((hstay i hother.1).mpr hother)
    have hex : ∃ i < t.nbPlayers, t.uuidAt i = kickedPlayer := by
      obtain ⟨-, k, hk, hk'⟩ := h.seated i hother.1 hother.2.2
      exact ⟨k, hk, hk'.trans hkicked.symm⟩
    rw [hadmin, if_pos ⟨hkicked, hex⟩] at hne
    have h0 : kickedPlayer ≠ invalidUid := by
      rw [hkicked]
      exact (h.seated i hother.1 hother.2.2).1
    rcases t.nextAdmin_cases kickedPlayer with ⟨k, hk, hnext, hkne, hbefore⟩ | ⟨hnone, -⟩
    · rw [hnext] at hne
      exact ⟨k, ⟨hk, hkne, hne⟩, fun j hj => by rw [hbefore j hj]; exact h0⟩
    · exact absurd hnone hne
  · intro hover
    refine ⟨fun i hi hne => ?_, fun i hi j hj hne he => ?_, fun hempty => ?_⟩
    · rw [hnb] at hi ⊢
      have hother := (hstay i hi).mp hne
      obtain ⟨hadmin0, k, hk, hk'⟩ := h.seated i hi hother.2.2
      by_cases hkicked : kickedPlayer = t.mAdmin
      · obtain ⟨m, hm, hheld⟩ := hover hkicked ⟨i, hother⟩
        rw [hadmin, if_pos ⟨hkicked, k, hk, hk'.trans hkicked.symm⟩]
        rcases t.nextAdmin_cases kickedPlayer with ⟨l, hl, hnext, hlne, hbefore⟩ | ⟨-, hall⟩
        · have hlm : ¬ m < l := fun hlt => hm.2.1 (hbefore m hlt)
          have hl0 : t.uuidAt l ≠ invalidUid := by
            rcases Nat.lt_or_eq_of_le (Nat.le_of_not_lt hlm) with hlt | rfl
            · exact hheld l hlt
            · exact hm.2.2
          refine ⟨hnext ▸ hl0, l, hl, ?_⟩
          rw [hat l hl, if_neg hlne, hnext]
        · exact absurd (hall i hi) hother.2.1
      · rw [hadmin, if_neg fun hc => hkicked hc.1]
        refine ⟨hadmin0, k, hk, ?_⟩
        rw [hat k hk, if_neg fun hc => hkicked (hc.symm.trans hk'), hk']
    · rw [hnb] at hi hj
      have hother := (hstay i hi).mp hne
      rw [hat i hi, if_neg hother.2.1, hat j hj] at he
      split_ifs at he
      · exact absurd he hother.2.2
      · exact h.distinct i hi j hj hother.2.2 he
    · have hall : ∀ i < t.nbPlayers, t.uuidAt i = kickedPlayer ∨ t.uuidAt i = invalidUid := by
        intro i hi
        by_contra hc
        rw [not_or] at hc
        exact (hstay i hi).mpr ⟨hi, hc⟩ (hempty i (hnb ▸ hi))
      rw [hadmin]
      split_ifs with hcase
      · rcases t.nextAdmin_cases kickedPlayer with ⟨i, hi, hnext, hne, -⟩ | ⟨hnone, -⟩
        · rw [hnext]
          exact (hall i hi).resolve_left hne
        · exact hnone
      · refine h.empty fun i hi => ?_
        by_contra hi0
        obtain ⟨hadmin0, k, hk, hk'⟩ := h.seated i hi hi0
        have hkicked := (hall k hk).resolve_right (hk' ▸ hadmin0)
        exact hcase ⟨hkicked.symm.trans hk', k, hk, hkicked⟩

theorem seatStep_nbPlayers (t : PlayingTable) (c : SeatCall) :
    (t.seatStep c).nbPlayers = t.nbPlayers := by
  cases c with
  | addPlayer uuid huuid => exact addPlayer_nbPlayers t uuid
  | removePlayer kickedPlayer => exact removePlayer_nbPlayers t kickedPlayer

/-- In all the states of a run from a new table somebody who sits there is the admin, if and only
if the admin never goes while a free seat is in front of all the others. -/
theorem admin_seated_iff (t : PlayingTable) {n : ℕ} (hn : n ≤ 5) (randomPlace : Place)
    (calls : List SeatCall) :
    (∀ k, (run seatStep (t.createTable n randomPlace) (calls.take k)).SeatedAdmin) ↔
      Guarded seatStep HandsOver (t.createTable n randomPlace) calls := by
  have hstep : ∀ (t : PlayingTable) (c : SeatCall), t.SeatedAdmin ∧ t.nbPlayers ≤ 5 →
      ((t.seatStep c).SeatedAdmin ↔ t.HandsOver c) := by
    rintro t c ⟨h, h5⟩
    cases c with
    | addPlayer uuid huuid => exact iff_of_true (h.addPlayer h5 huuid) trivial
    | removePlayer kickedPlayer => exact h.removePlayer_iff h5 kickedPlayer
  refine (guarded_iff_forall_take (fun t => t.SeatedAdmin ∧ t.nbPlayers ≤ 5) SeatedAdmin
    (fun t h => h.1) (fun t c h hok => ⟨(hstep t c h).mpr hok, ?_⟩)
    (fun t c h hc => (hstep t c h).mp hc) ⟨seatedAdmin_createTable t hn randomPlace, hn⟩
    calls).symm
  rw [seatStep_nbPlayers]
  exact h.2

/-- The admin goes, and the player on the next seat is the admin. -/
theorem admin_seated_iff_leaves :
    let calls := [SeatCall.addPlayer 10 (by decide), .addPlayer 11 (by decide), .removePlayer 10]
    let t := run seatStep (({} : PlayingTable).createTable 4 .south) calls
    t.SeatedAdmin ∧ t.mAdmin = 11 := by
  intro calls t
  have hover : Guarded seatStep HandsOver (({} : PlayingTable).createTable 4 .south) calls := by
    refine ⟨trivial, trivial, fun _ _ => ⟨1, by decide +kernel, fun j hj => ?_⟩, trivial⟩
    obtain rfl : j = 0 := by omega
    decide +kernel
  exact ⟨(admin_seated_iff {} (by decide) .south calls).mpr hover 3, by decide +kernel⟩

/-- Three players sit down, the second one goes, and then the admin. -/
def adminLeaves : List SeatCall :=
  [.addPlayer 10 (by decide), .addPlayer 11 (by decide), .addPlayer 12 (by decide),
    .removePlayer 11, .removePlayer 10]

/-- The third player is left at a table without an admin. -/
theorem free_seat_is_admin :
    ¬ (run seatStep (({} : PlayingTable).createTable 4 .south) adminLeaves).SeatedAdmin := by
  intro h
  have hseat : (run seatStep (({} : PlayingTable).createTable 4 .south) adminLeaves).uuidAt 2 = 12 :=
    by decide +kernel
  have hadmin : (run seatStep (({} : PlayingTable).createTable 4 .south) adminLeaves).mAdmin =
      invalidUid := by decide +kernel
  have hnb : (run seatStep (({} : PlayingTable).createTable 4 .south) adminLeaves).nbPlayers = 4 :=
    by decide +kernel
  exact (h.seated 2 (by omega) (by rw [hseat]; decide)).1 hadmin

end PlayingTable

end TarotClub
