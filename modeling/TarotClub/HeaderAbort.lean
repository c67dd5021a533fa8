import TarotClub.FrameBounds

namespace TarotClub.Protocol

/-- The column is a number to its last character. -/
def Whole (p : Protocol) (offset size : ℕ) : Prop := (strtoul (p.column offset size)).2 = size

/-- The number in a column of four characters, in 32 bits. -/
def announced (p : Protocol) (offset : ℕ) : ℕ := (strtoul (p.column offset 4)).1 % 2 ^ 32

/-- The columns in front of the payload size are numbers: that size is read. -/
def PayloadRead (p : Protocol) : Prop := p.Whole 0 2 ∧ p.Whole 3 4 ∧ p.Whole 8 4

/-- The columns in front of the prefix size are numbers: that size is read. -/
def PrefixRead (p : Protocol) : Prop := p.PayloadRead ∧ p.Whole 13 4 ∧ p.Whole 18 4

instance (p : Protocol) (offset size : ℕ) : Decidable (p.Whole offset size) :=
  inferInstanceAs (Decidable (_ = _))

instance (p : Protocol) : Decidable p.PayloadRead := inferInstanceAs (Decidable (_ ∧ _))

instance (p : Protocol) : Decidable p.PrefixRead := inferInstanceAs (Decidable (_ ∧ _))

/-- The colons are in their places, and the sizes that the header announces, or has from an
earlier frame where they are not read, make a body that is too large. -/
structure TooLarge (p : Protocol) (h : Header) : Prop where
  colons : ∀ i ∈ separators, p.mData.getD i 0 = chr ':'
  size : maxBodySize ≤ ((if p.PayloadRead then p.announced 13 else h.payloadSize) +
    (if p.PrefixRead then p.announced 23 else h.prefixSize) + 1) % 2 ^ 32

/-! ### The columns -/

/-- A column and the colon behind it. -/
theorem drop_column {p : Protocol} {offset size : ℕ}
    (hcolon : p.mData.getD (offset + size) 0 = chr ':') :
    ∃ t, p.mData.drop offset = p.column offset size ++ chr ':' :: t := by
  rw [List.getD_eq_getElem?_getD] at hcolon
  have hlt : offset + size < p.mData.length := by
    by_contra hle
    rw [List.getElem?_eq_none (by omega)] at hcolon
    exact absurd hcolon (by decide)
  rw [List.getElem?_eq_getElem hlt, Option.getD_some] at hcolon
  refine ⟨p.mData.drop (offset + size + 1), ?_⟩
  rw [column, ← hcolon, ← List.drop_eq_getElem_cons hlt, ← List.drop_drop,
    List.take_append_drop]

/-- A number is read from its column alone. -/
theorem parseUint_of_column {p : Protocol} {modulus offset size : ℕ}
    (hcolon : p.mData.getD (offset + size) 0 = chr ':') (hsize : size < modulus) :
    parseUint modulus (p.mData.drop offset) size =
      (decide (p.Whole offset size), (strtoul (p.column offset size)).1 % modulus) := by
  obtain ⟨t, ht⟩ := drop_column hcolon
  have hle : (strtoul (p.column offset size)).2 ≤ size := by
    refine (strtoul_le_length _).trans ?_
    rw [column, List.length_take]
    omega
  -- the length is compared in the type of the number, where it does not wrap around
  have hmod : (strtoul (p.column offset size)).2 % modulus = (strtoul (p.column offset size)).2 :=
    Nat.mod_eq_of_lt (by omega)
  rw [parseUint, ht, strtoul_append_colon]
  dsimp only
  rw [hmod]
  exact Prod.ext (decide_eq_decide.mpr eq_comm) rfl

theorem parseColumn_fst {p : Protocol} {modulus offset size : ℕ} {store : Header → ℕ → Header}
    (hcolon : p.mData.getD (offset + size) 0 = chr ':') (hsize : size < modulus)
    (r : Bool × Header) :
    (p.parseColumn modulus offset size store r).1 = true ↔ r.1 = true ∧ p.Whole offset size := by
  rw [parseColumn, parseUint_of_column hcolon hsize]
  split_ifs with hr
  · simp [hr]
  · simp [hr]

theorem parseColumn_snd {p : Protocol} {modulus offset size : ℕ} {store : Header → ℕ → Header}
    (hcolon : p.mData.getD (offset + size) 0 = chr ':') (hsize : size < modulus)
    (r : Bool × Header) :
    (p.parseColumn modulus offset size store r).2 =
      if r.1 then store r.2 ((strtoul (p.column offset size)).1 % modulus) else r.2 := by
  rw [parseColumn, parseUint_of_column hcolon hsize]
  split_ifs with hr
  · rfl
  · rfl

theorem parseColumn_keep {α : Type} (f : Header → α) {p : Protocol} {modulus offset size : ℕ}
    {store : Header → ℕ → Header} (hstore : ∀ h v, f (store h v) = f h) (r : Bool × Header) :
    f (p.parseColumn modulus offset size store r).2 = f r.2 := by
  rw [parseColumn]
  split_ifs
  · exact hstore r.2 _
  · rfl

/-- The sizes of the header behind the parsing of its columns. -/
theorem parseColumns_sizes {p : Protocol} (hcolons : ∀ i ∈ separators, p.mData.getD i 0 = chr ':')
    (h : Header) :
    (p.parseColumns h).2.payloadSize =
        (if p.PayloadRead then p.announced 13 else h.payloadSize) ∧
      (p.parseColumns h).2.prefixSize =
        (if p.PrefixRead then p.announced 23 else h.prefixSize) := by
  have h2 : p.mData.getD (0 + 2) 0 = chr ':' := hcolons 2 (by decide)
  have h7 : p.mData.getD (3 + 4) 0 = chr ':' := hcolons 7 (by decide)
  have h12 : p.mData.getD (8 + 4) 0 = chr ':' := hcolons 12 (by decide)
  have h17 : p.mData.getD (13 + 4) 0 = chr ':' := hcolons 17 (by decide)
  have h22 : p.mData.getD (18 + 4) 0 = chr ':' := hcolons 22 (by decide)
  have h27 : p.mData.getD (23 + 4) 0 = chr ':' := hcolons 27 (by decide)
  have hpayload : p.PayloadRead ↔ ((true = true ∧ p.Whole 0 2) ∧ p.Whole 3 4) ∧ p.Whole 8 4 := by
    simp [PayloadRead, and_assoc]
  have hpre : p.PrefixRead ↔ ((((true = true ∧ p.Whole 0 2) ∧ p.Whole 3 4) ∧ p.Whole 8 4) ∧
      p.Whole 13 4) ∧ p.Whole 18 4 := by
    simp [PrefixRead, PayloadRead, and_assoc]
  unfold parseColumns
  dsimp only
  constructor
  · rw [parseColumn_keep Header.payloadSize, parseColumn_keep Header.payloadSize,
      parseColumn_snd h17 (by norm_num), apply_ite Header.payloadSize,
      parseColumn_keep Header.payloadSize, parseColumn_keep Header.payloadSize,
      parseColumn_keep Header.payloadSize]
    · refine if_congr ?_ rfl rfl
      rw [hpayload, parseColumn_fst h12 (by norm_num), parseColumn_fst h7 (by norm_num),
        parseColumn_fst h2 (by norm_num)]
    all_goals exact fun _ _ => rfl
  · rw [parseColumn_snd h27 (by norm_num), apply_ite Header.prefixSize,
      parseColumn_keep Header.prefixSize, parseColumn_keep Header.prefixSize,
      parseColumn_keep Header.prefixSize, parseColumn_keep Header.prefixSize,
      parseColumn_keep Header.prefixSize]
    · refine if_congr ?_ rfl rfl
      rw [hpre, parseColumn_fst h22 (by norm_num), parseColumn_fst h17 (by norm_num),
        parseColumn_fst h12 (by norm_num), parseColumn_fst h7 (by norm_num),
        parseColumn_fst h2 (by norm_num)]
    all_goals exact fun _ _ => rfl

/-- The parsing of a header comes back to its caller unless the header is too large. -/
theorem parseHeader_returns_iff (p : Protocol) (h : Header) :
    (p.parseHeader h).isSome ↔ ¬ TooLarge p h := by
  by_cases hcolons : ∀ i ∈ separators, p.mData.getD i 0 = chr ':'
  · obtain ⟨hpayload, hpre⟩ := parseColumns_sizes hcolons h
    have hlarge : TooLarge p h ↔ maxBodySize ≤
        ((p.parseColumns h).2.payloadSize + (p.parseColumns h).2.prefixSize + 1) % 2 ^ 32 := by
      rw [hpayload, hpre]
      exact ⟨TooLarge.size, TooLarge.mk hcolons⟩
    rw [hlarge, parseHeader, if_pos hcolons]
    dsimp only
    split_ifs with hsize
    · exact ⟨fun hnone => absurd hnone Bool.false_ne_true, fun hsmall => absurd hsize hsmall⟩
    · exact ⟨fun _ => hsize, fun _ => rfl⟩
  · have hsmall : ¬ TooLarge p h := fun hlarge => hcolons hlarge.colons
    rw [parseHeader, if_neg hcolons]
    simp [hsmall]

/-- 65535 bytes of payload. -/
theorem large_payload_aborts :
    parseHeader { mData := str "01:000a:0001:ffff:0000:0000:" } {} = none := by
  decide +kernel

/-! ### The headers of a session -/

/-- The sizes make no body that is too large. -/
def SizesFit (h : Header) : Prop :=
  (h.payloadSize + h.prefixSize + 1) % 2 ^ 32 < maxBodySize

theorem parseHeader_sizesFit {p : Protocol} {h : Header} {r : Bool × Header} (hfit : SizesFit h)
    (hp : p.parseHeader h = some r) : SizesFit r.2 := by
  unfold parseHeader at hp
  dsimp only at hp
  split_ifs at hp with hcolons hsize
  · rw [Option.some.injEq] at hp
    subst hp
    exact not_le.mp hsize
  · rw [Option.some.injEq] at hp
    subst hp
    exact hfit

/-- The header of a session behind the frames that have come, each into `mData`; nothing when
the process has been aborted. -/
def headerAfter : List Protocol → Header → Option Header
  | [], h => some h
  | p :: ps, h =>
    match p.parseHeader h with
    | none => none
    | some r => headerAfter ps r.2

theorem headerAfter_sizesFit {ps : List Protocol} {h h' : Header} (hfit : SizesFit h)
    (hrun : headerAfter ps h = some h') : SizesFit h' := by
  induction ps generalizing h with
  | nil =>
    obtain rfl := Option.some.inj hrun
    exact hfit
  | cons p ps ih =>
    rw [headerAfter] at hrun
    cases hp : p.parseHeader h with
    | none =>
      rw [hp] at hrun
      contradiction
    | some r =>
      rw [hp] at hrun
      exact ih (parseHeader_sizesFit hfit hp) hrun

/-- In a session only the columns of the frame itself make its header too large: the payload
size is read, and it does not fit together with the prefix size. -/
theorem tooLarge_iff_of_session {ps : List Protocol} {h : Header}
    (hrun : headerAfter ps {} = some h) (p : Protocol) :
    TooLarge p h ↔ (∀ i ∈ separators, p.mData.getD i 0 = chr ':') ∧ p.PayloadRead ∧
      maxBodySize ≤ (p.announced 13 +
        (if p.PrefixRead then p.announced 23 else h.prefixSize) + 1) % 2 ^ 32 := by
  have hfirst : SizesFit {} := by
    rw [SizesFit]
    decide
  have hfit : SizesFit h := headerAfter_sizesFit hfirst hrun
  constructor
  · rintro ⟨hcolons, hsize⟩
    by_cases hread : p.PayloadRead
    · rw [if_pos hread] at hsize
      exact ⟨hcolons, hread, hsize⟩
    · have hpre : ¬ p.PrefixRead := fun hpre => hread hpre.1
      rw [if_neg hread, if_neg hpre] at hsize
      exact absurd hsize (not_le.mpr hfit)
  · rintro ⟨hcolons, hread, hsize⟩
    refine ⟨hcolons, ?_⟩
    rwa [if_pos hread]

end TarotClub.Protocol
