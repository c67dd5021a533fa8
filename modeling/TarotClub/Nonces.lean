import TarotClub.FrameRoundTrip

namespace TarotClub

open Machine

namespace Protocol

theorem colon_split {a b x y : Str} (ha : ∀ c ∈ a, c ≠ chr ':') (hb : ∀ c ∈ b, c ≠ chr ':')
    (h : a ++ chr ':' :: x = b ++ chr ':' :: y) : a = b ∧ x = y := by
  induction a generalizing b with
  | nil =>
    cases b with
    | nil => exact ⟨rfl, (List.cons.inj h).2⟩
    | cons d b => exact absurd (List.cons.inj h).1.symm (hb d List.mem_cons_self)
  | cons c a ih =>
    cases b with
    | nil => exact absurd (List.cons.inj h).1 (ha c List.mem_cons_self)
    | cons d b =>
      obtain ⟨rfl, htail⟩ := List.cons.inj h
      obtain ⟨rfl, hx⟩ := ih (fun e he => ha e (List.mem_cons_of_mem c he))
        (fun e he => hb e (List.mem_cons_of_mem c he)) htail
      exact ⟨rfl, hx⟩

/-- A column can be told from the text, and so can what stands behind it. -/
theorem column_inj {width m n : ℕ} {x y : Str}
    (h : hexField width m ++ chr ':' :: x = hexField width n ++ chr ':' :: y) : m = n ∧ x = y := by
  obtain ⟨hfield, hrest⟩ := colon_split
    (fun c hc => ne_colon_of_isXDigit (isXDigit_hexField width m c hc))
    (fun c hc => ne_colon_of_isXDigit (isXDigit_hexField width n c hc)) h
  refine ⟨?_, hrest⟩
  rw [← hexNumber_hexField width m, hfield, hexNumber_hexField]

theorem headerText_inj {h h' : Header} {x y : Str}
    (heq : headerText h ++ x = headerText h' ++ y) :
    { h with prefixText := [] } = ({ h' with prefixText := [] } : Header) ∧ x = y := by
  simp only [headerText, show str ":" = [chr ':'] from rfl, List.append_assoc,
    List.cons_append, List.nil_append] at heq
  obtain ⟨h1, heq⟩ := column_inj heq
  obtain ⟨h2, heq⟩ := column_inj heq
  obtain ⟨h3, heq⟩ := column_inj heq
  obtain ⟨h4, heq⟩ := column_inj heq
  obtain ⟨h5, heq⟩ := column_inj heq
  obtain ⟨h6, heq⟩ := column_inj heq
  exact ⟨by rw [h1, h2, h3, h4, h5, h6], heq⟩

/-- What a call of `Build` has ciphered. -/
def callInput (p : Protocol) (c : BuildCall) : GcmInput :=
  p.buildInput c.src c.dst c.clearMessage c.prefixText

/-- Two frames have the same text and the same additional data when the calls and the frame
counters are the same. -/
theorem callInput_eq_iff (p q : Protocol) (c d : BuildCall) :
    (p.callInput c).text = (q.callInput d).text ∧ (p.callInput c).add = (q.callInput d).add ↔
      p.mTxFrameCounter = q.mTxFrameCounter ∧ c = d := by
  constructor
  · rintro ⟨htext, hadd⟩
    have hadd' : p.frameAad c.src c.dst c.clearMessage c.prefixText =
        q.frameAad d.src d.dst d.clearMessage d.prefixText := hadd
    rw [frameAad, frameAad, frameHeader_eq, frameHeader_eq, List.append_assoc,
      List.append_assoc] at hadd'
    obtain ⟨hheader, hprefix⟩ := headerText_inj hadd'
    simp only [buildHeader, Header.mk.injEq] at hheader
    obtain ⟨-, hsrc, hdst, -, hcounter, -⟩ := hheader
    refine ⟨hcounter, ?_⟩
    rw [BuildCall.mk.injEq]
    exact ⟨hsrc, hdst, htext, List.append_cancel_right hprefix⟩
  · rintro ⟨hcounter, rfl⟩
    refine ⟨rfl, ?_⟩
    show p.frameAad c.src c.dst c.clearMessage c.prefixText =
      q.frameAad c.src c.dst c.clearMessage c.prefixText
    simp only [frameAad, frameHeader, hcounter]

end Protocol

/-- Who builds a frame. -/
inductive Side where
  | client
  | server
  deriving DecidableEq

/-- The two sides of a connection. -/
structure Connection where
  client : Protocol := {}
  server : Protocol := {}

namespace Connection

open Protocol

def protocol (n : Connection) : Side → Protocol
  | .client => n.client
  | .server => n.server

def setSecurity (n : Connection) (key : Str) : Connection where
  client := n.client.setSecurity key
  server := n.server.setSecurity key

def step (gcm : Gcm) (n : Connection) (c : Side × BuildCall) : Connection :=
  match c.1 with
  | .client => { n with client := afterBuild gcm n.client c.2 }
  | .server => { n with server := afterBuild gcm n.server c.2 }

/-- What AES-GCM is given in a run of the connection. -/
def encrypted (gcm : Gcm) (n : Connection) (calls : List (Side × BuildCall)) : List GcmInput :=
  labels (step gcm) (fun n c => (n.protocol c.1).callInput c.2) n calls

/-- No nonce serves two frames with different texts or additional data. -/
def NoncesUnique (inputs : List GcmInput) : Prop :=
  inputs.Pairwise fun a b => a.iv = b.iv → a.text = b.text ∧ a.add = b.add

/-- The frame counter of a side after a call. -/
theorem counter_step (gcm : Gcm) (n : Connection) (c : Side × BuildCall) (s : Side) :
    ((n.step gcm c).protocol s).mTxFrameCounter =
      if c.1 = s then ((n.protocol s).mTxFrameCounter + 1) % 2 ^ 32
      else (n.protocol s).mTxFrameCounter := by
  obtain ⟨side, call⟩ := c
  cases side <;> cases s <;> rfl

/-- Two frames go together exactly when they are the same call with the same counter. -/
theorem sameNonce_iff (p q : Protocol) (c d : BuildCall) :
    ((p.callInput c).iv = (q.callInput d).iv →
      (p.callInput c).text = (q.callInput d).text ∧ (p.callInput c).add = (q.callInput d).add) ↔
      p.mTxFrameCounter = q.mTxFrameCounter ∧ c = d := by
  rw [← callInput_eq_iff]
  exact ⟨fun h => h rfl, fun h _ => h⟩

theorem Side.eq_or_eq {s t : Side} (h : s ≠ t) (u : Side) : s = u ∨ t = u := by
  cases s <;> cases t <;> cases u <;> simp_all

/-- No nonce is used twice exactly when each side builds at most one frame and, where both build
one, it is the same. -/
theorem noncesUnique_iff (gcm : Gcm) (n : Connection) (key : Str)
    (calls : List (Side × BuildCall)) :
    NoncesUnique ((n.setSecurity key).encrypted gcm calls) ↔
      calls.Pairwise fun c d => c.1 ≠ d.1 ∧ c.2 = d.2 := by
  have hzero : ∀ s, ((n.setSecurity key).protocol s).mTxFrameCounter = 0 := by
    rintro (_ | _) <;> rfl
  generalize n.setSecurity key = n at hzero
  rcases calls with _ | ⟨c, _ | ⟨d, rest⟩⟩
  · exact iff_of_true .nil .nil
  · exact iff_of_true (List.pairwise_singleton _ _) (List.pairwise_singleton _ _)
  have hone : ∀ s, (((n.step gcm c).step gcm d).protocol s).mTxFrameCounter =
      (if c.1 = s then 1 else 0) + if d.1 = s then 1 else 0 := by
    intro s
    rw [counter_step, counter_step, hzero]
    split_ifs <;> rfl
  have hpair : ((n.step gcm c).protocol d.1).mTxFrameCounter = if c.1 = d.1 then 1 else 0 := by
    rw [counter_step, hzero]
    split_ifs <;> rfl
  constructor
  · intro h
    obtain ⟨h1, -⟩ := List.pairwise_cons.mp h
    have hcd := (sameNonce_iff _ _ _ _).mp (h1 _ List.mem_cons_self)
    rw [hzero, hpair] at hcd
    have hside : c.1 ≠ d.1 := by
      intro heq
      rw [if_pos heq] at hcd
      exact absurd hcd.1 (by norm_num)
    cases rest with
    | nil => exact List.pairwise_pair.mpr ⟨hside, hcd.2⟩
    | cons e rest =>
      -- the third frame is the second one of its side, and differs from the first frame
      have hce := (sameNonce_iff _ _ _ _).mp
        (h1 _ (List.mem_cons_of_mem _ List.mem_cons_self))
      rw [hzero, hone] at hce
      exfalso
      rcases Side.eq_or_eq hside e.1 with he | he
      · rw [if_pos he] at hce
        omega
      · rw [if_pos he] at hce
        omega
  · intro h
    obtain ⟨h1, h2⟩ := List.pairwise_cons.mp h
    obtain ⟨hside, hcall⟩ := h1 d List.mem_cons_self
    cases rest with
    | nil =>
      refine List.pairwise_pair.mpr ((sameNonce_iff _ _ _ _).mpr ⟨?_, hcall⟩)
      rw [hzero, hpair, if_neg hside]
    | cons e rest =>
      exfalso
      have hce := (h1 e (List.mem_cons_of_mem _ List.mem_cons_self)).1
      have hde := ((List.pairwise_cons.mp h2).1 e List.mem_cons_self).1
      rcases Side.eq_or_eq hside e.1 with he | he
      · exact hce he
      · exact hde he

/-- The pass phrase of the client and the answer of the server go out under one nonce. -/
theorem nonce_shared_by_login :
    ¬ NoncesUnique ((({} : Connection).setSecurity helloInput.key).encrypted helloGcm
      [(.client, ⟨0, 1, str "secret", str "web"⟩),
       (.server, ⟨1, 10, str "\x7b\"cmd\":\"RequestLogin\",\"uuid\":10\x7d", []⟩)]) := by
  intro h
  have hboth := (List.pairwise_pair.mp h) rfl
  exact absurd hboth.1 (by decide)

end Connection

end TarotClub
