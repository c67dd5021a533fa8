import TarotClub.Protocol

namespace TarotClub.Protocol

/-- A column of the header as the peer has written it. -/
def column (p : Protocol) (offset size : ℕ) : Str := (p.mData.drop offset).take size

/-- The body is shorter than the room for it, and so every byte of the payload is inside of
`mData`. -/
def BodyFits (h : Header) : Prop :=
  h.prefixSize + 1 + h.payloadSize < maxBodySize ∧
    ∀ i < h.payloadSize, headerSize + h.prefixSize + 1 + i < dataSize

theorem bodyFits_iff (h : Header) :
    BodyFits h ↔ h.prefixSize + 1 + h.payloadSize < maxBodySize := by
  refine ⟨And.left, fun hlt => ⟨hlt, fun i hi => ?_⟩⟩
  rw [dataSize]
  omega

/-- A column of four bytes holds a number below `16 ^ 4`, or one that a minus has brought to the
top of the 32 bits. -/
theorem parseUint_column {p : Protocol} {offset value : ℕ}
    (hcolon : p.mData.getD (offset + 4) 0 = chr ':')
    (h : parseUint (2 ^ 32) (p.mData.drop offset) 4 = (true, value)) :
    (Negative (p.column offset 4) → 2 ^ 32 - 2 ^ 16 < value) ∧
      (¬ Negative (p.column offset 4) → value < 2 ^ 16) := by
  rw [parseUint, Prod.mk.injEq, decide_eq_true_iff] at h
  obtain ⟨hread, rfl⟩ := h
  have hle : (strtoul (p.mData.drop offset)).2 ≤ 4 := strtoul_le_of_colon <| by
    rw [← hcolon, List.getD_eq_getElem?_getD, List.getElem?_drop, List.getD_eq_getElem?_getD]
  rw [Nat.mod_eq_of_lt (by omega)] at hread
  obtain ⟨digits, hdigits, hlength, -, -, hneg, hvalue⟩ :=
    strtoul_eq (s := p.mData.drop offset) (n := 4) (by norm_num) hread.symm
  have hlt : hexNumber digits < 2 ^ 16 := lt_of_lt_of_le (hexNumber_lt hdigits) <| by
    calc 16 ^ digits.length ≤ 16 ^ 4 := Nat.pow_le_pow_right (by norm_num) hlength
      _ = 2 ^ 16 := by norm_num
  rw [column, hneg, hvalue, if_neg (by omega)]
  refine ⟨fun ⟨hminus, hne⟩ => ?_, fun hnot => ?_⟩
  · rw [if_pos hminus]
    omega
  · split_ifs with hminus
    · have h0 : hexNumber digits = 0 := by
        by_contra hne
        exact hnot ⟨hminus, hne⟩
      omega
    · omega

theorem parseColumn_true {p : Protocol} {modulus offset size : ℕ} {store : Header → ℕ → Header}
    {r r' : Bool × Header} (h : p.parseColumn modulus offset size store r = r')
    (hr : r'.1 = true) :
    r.1 = true ∧ ∃ value, parseUint modulus (p.mData.drop offset) size = (true, value) ∧
      r' = (true, store r.2 value) := by
  subst h
  unfold parseColumn at hr ⊢
  cases h1 : r.1
  · rw [h1, if_neg Bool.false_ne_true, h1] at hr
    exact absurd hr Bool.false_ne_true
  · rw [h1, if_pos rfl] at hr
    simp only [if_true]
    exact ⟨trivial, _, Prod.ext hr rfl, Prod.ext hr rfl⟩

/-- The columns of a header are all read, or the header is not accepted. -/
theorem parseColumns_true {p : Protocol} {h h' : Header} (hp : p.parseColumns h = (true, h')) :
    parseUint (2 ^ 16) (p.mData.drop 0) 2 = (true, h'.option) ∧
      parseUint (2 ^ 32) (p.mData.drop 3) 4 = (true, h'.srcUid) ∧
      parseUint (2 ^ 32) (p.mData.drop 8) 4 = (true, h'.dstUid) ∧
      parseUint (2 ^ 32) (p.mData.drop 13) 4 = (true, h'.payloadSize) ∧
      parseUint (2 ^ 32) (p.mData.drop 18) 4 = (true, h'.frameCounter) ∧
      parseUint (2 ^ 32) (p.mData.drop 23) 4 = (true, h'.prefixSize) ∧
      h'.prefixText = h.prefixText := by
  simp only [parseColumns] at hp
  obtain ⟨h5, prefixSize, hprefix, heq⟩ := parseColumn_true hp rfl
  obtain ⟨h4, counter, hcounter, heq4⟩ := parseColumn_true rfl h5
  obtain ⟨h3, payloadSize, hpayload, heq3⟩ := parseColumn_true rfl h4
  obtain ⟨h2, dstUid, hdst, heq2⟩ := parseColumn_true rfl h3
  obtain ⟨h1, srcUid, hsrc, heq1⟩ := parseColumn_true rfl h2
  obtain ⟨-, option, hoption, heq0⟩ := parseColumn_true rfl h1
  rw [heq4, heq3, heq2, heq1, heq0] at heq
  obtain ⟨-, rfl⟩ := Prod.mk.inj heq
  exact ⟨hoption, hsrc, hdst, hpayload, hcounter, hprefix, rfl⟩

/-- A header is accepted when its columns are numbers, and the sizes not too large together. -/
theorem parseHeader_columns {p : Protocol} {h h' : Header}
    (hp : p.parseHeader h = some (true, h')) :
    (∀ i ∈ separators, p.mData.getD i 0 = chr ':') ∧ p.parseColumns h = (true, h') ∧
      (h'.payloadSize + h'.prefixSize + 1) % 2 ^ 32 < maxBodySize := by
  simp only [parseHeader] at hp
  split_ifs at hp with hcolons hsize
  · rw [Option.some.injEq] at hp
    rw [hp, ge_iff_le, not_le] at hsize
    exact ⟨hcolons, hp, hsize⟩
  · simp at hp

theorem parseHeader_true {p : Protocol} {h h' : Header}
    (hp : p.parseHeader h = some (true, h')) :
    (∀ i ∈ separators, p.mData.getD i 0 = chr ':') ∧
      parseUint (2 ^ 32) (p.mData.drop 13) 4 = (true, h'.payloadSize) ∧
      parseUint (2 ^ 32) (p.mData.drop 23) 4 = (true, h'.prefixSize) ∧
      (h'.payloadSize + h'.prefixSize + 1) % 2 ^ 32 < maxBodySize := by
  obtain ⟨hcolons, hcolumns, hsize⟩ := parseHeader_columns hp
  obtain ⟨-, -, -, hpayload, -, hprefix, -⟩ := parseColumns_true hcolumns
  exact ⟨hcolons, hpayload, hprefix, hsize⟩

/-- A frame is accepted with a body that fits exactly when neither of its two sizes is negative. -/
theorem bodyFits_iff_not_negative {p : Protocol} {h h' : Header}
    (hp : p.parseHeader h = some (true, h')) :
    BodyFits h' ↔ ¬ Negative (p.column 13 4) ∧ ¬ Negative (p.column 23 4) := by
  obtain ⟨hcolons, hpayload, hprefix, hsize⟩ := parseHeader_true hp
  have hpay := parseUint_column (hcolons 17 (by decide)) hpayload
  have hpre := parseUint_column (hcolons 27 (by decide)) hprefix
  rw [bodyFits_iff, maxBodySize]
  rw [maxBodySize] at hsize
  constructor
  · intro hfits
    refine ⟨fun hneg => ?_, fun hneg => ?_⟩
    · have := hpay.1 hneg
      omega
    · have := hpre.1 hneg
      omega
  · rintro ⟨hpos, hpos'⟩
    have := hpay.2 hpos
    have := hpre.2 hpos'
    omega

theorem bodyFits_iff_not_negative_hello :
    let p : Protocol := { mData := str "01:000a:0001:0040:0000:0003:" }
    let h : Header := { option := 1, srcUid := 10, dstUid := 1, payloadSize := 64, prefixSize := 3 }
    p.parseHeader {} = some (true, h) ∧
      (BodyFits h ↔ ¬ Negative (p.column 13 4) ∧ ¬ Negative (p.column 23 4)) := by
  intro p h
  have hp : p.parseHeader {} = some (true, h) := by decide +kernel
  exact ⟨hp, bodyFits_iff_not_negative hp⟩

/-- A payload of minus one byte is accepted: the sum of the sizes wraps to zero. -/
theorem negative_payload_accepted :
    let p : Protocol := { mData := str "01:000a:0001:-001:0000:0000:" }
    ∃ h, p.parseHeader {} = some (true, h) ∧ h.payloadSize = 2 ^ 32 - 1 ∧ ¬ BodyFits h := by
  intro p
  refine ⟨{ option := 1, srcUid := 10, dstUid := 1, payloadSize := 2 ^ 32 - 1 },
    by decide +kernel, rfl, fun h => ?_⟩
  exact absurd h.1 (by decide)

end TarotClub.Protocol
