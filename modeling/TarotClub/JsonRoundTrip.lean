import TarotClub.JsonPrint

/-! The round trip of JSON trees through their printed text. A tree that is read costs no more
than its text pays for: each backslash of the text pays one, each `u` two. -/
namespace TarotClub.JsonReader

open JsonValue

/-! ### What a text pays for -/

def charPay (c : UInt8) : ℕ := if c = chr '\\' then 1 else if c = chr 'u' then 2 else 0

def pay (s : Str) : ℕ := (s.map charPay).sum

/-- What a character of a string costs: the ones that need a backslash in the text are not
free. -/
def charCost (c : UInt8) : ℕ :=
  if c = chr '\\' ∨ c = chr 'u' then 2 else if c = chr '"' ∨ isCntrl c = true then 1 else 0

def cost (s : Str) : ℕ := (s.map charCost).sum

mutual
/-- What a tree costs: its strings, its keys, and the words with a `u`. -/
def treeCost : JsonValue → ℕ
  | array values => valuesCost values
  | object entries => entriesCost entries
  | string s => cost s
  | boolean b => if b then 2 else 0
  | null => 2
  | integer _ | double _ | invalid => 0

def valuesCost : List JsonValue → ℕ
  | [] => 0
  | v :: values => treeCost v + valuesCost values

def entriesCost : List (Str × JsonValue) → ℕ
  | [] => 0
  | (k, v) :: entries => cost k + treeCost v + entriesCost entries
end

@[simp] theorem pay_nil : pay [] = 0 := rfl

@[simp] theorem pay_cons (c : UInt8) (s : Str) : pay (c :: s) = charPay c + pay s := by
  simp [pay]

@[simp] theorem pay_append (s t : Str) : pay (s ++ t) = pay s + pay t := by
  simp [pay]

@[simp] theorem cost_nil : cost [] = 0 := rfl

@[simp] theorem cost_cons (c : UInt8) (s : Str) : cost (c :: s) = charCost c + cost s := by
  simp [cost]

@[simp] theorem cost_append (s t : Str) : cost (s ++ t) = cost s + cost t := by
  simp [cost]

theorem valuesCost_append (values : List JsonValue) (v : JsonValue) :
    valuesCost (values ++ [v]) = valuesCost values + treeCost v := by
  induction values with
  | nil => simp [valuesCost]
  | cons w values ih =>
    rw [List.cons_append, valuesCost, valuesCost, ih]
    omega

/-- Adding a value costs its key and the value; it may replace another one. -/
theorem entriesCost_addValue (entries : JsonObject) (k : Str) (v : JsonValue) :
    entriesCost (entries.addValue k v) ≤ entriesCost entries + cost k + treeCost v := by
  induction entries with
  | nil =>
    rw [JsonObject.addValue]
    simp only [entriesCost]
    omega
  | cons e entries ih =>
    obtain ⟨k', v'⟩ := e
    rw [JsonObject.addValue]
    split_ifs with h
    all_goals simp only [entriesCost]
    · subst h
      omega
    · omega
    · omega

/-! ### Reading -/

theorem charToInt_lt {c : UInt8} (hc : isXDigit c = true) : charToInt c < 16 := by
  have h : ∀ c : UInt8, isXDigit c = true → charToInt c < 16 := forall_byte (by decide +kernel)
  exact h c hc

/-- The bytes of a code outside ASCII cost nothing. -/
theorem cost_encode {c : ℕ} (hc : c < 65536) : cost (encode c) ≤ 2 := by
  have hascii : ∀ b : UInt8, charCost b ≤ 2 := by
    intro b
    unfold charCost
    split_ifs <;> decide
  have htail : ∀ n < 64, charCost (0x80 ||| n).toUInt8 = 0 := by decide +kernel
  have htwo : ∀ n < 32, charCost (0xC0 ||| n).toUInt8 = 0 := by decide +kernel
  have hthree : ∀ n < 16, charCost (0xE0 ||| n).toUInt8 = 0 := by decide +kernel
  have hlow : ∀ n, n &&& 0x3F < 64 := fun n => Nat.and_lt_two_pow n (n := 6) (by norm_num)
  unfold encode
  split_ifs with h1 h2
  · simpa using hascii c.toUInt8
  · have hhigh : c >>> 6 < 32 := by
      rw [Nat.shiftRight_eq_div_pow]
      omega
    simp only [cost_cons, cost_nil, htwo _ hhigh, htail _ (hlow c)]
    omega
  · have hhigh : c >>> 12 < 16 := by
      rw [Nat.shiftRight_eq_div_pow]
      omega
    simp only [cost_cons, cost_nil, hthree _ hhigh, htail _ (hlow c), htail _ (hlow (c >>> 6))]
    omega

theorem Character.cost_le {x d : Str} (h : Character x d) : cost d ≤ pay x := by
  cases h with
  | @plain c h1 h2 h3 =>
    simp only [cost_cons, cost_nil, pay_cons, pay_nil, charCost, charPay, h1, h2, h3, if_false,
      false_or, Bool.false_eq_true]
    omega
  | @escape e b he =>
    have h : ∀ e : UInt8, ∀ b ∈ simpleEscape e, charCost b ≤ 1 + charPay e :=
      forall_byte (by decide +kernel)
    have hslash : charPay (chr '\\') = 1 := by decide
    simp only [cost_cons, cost_nil, pay_cons, pay_nil, hslash]
    have hb := h e b he
    omega
  | @unicode a b c d hx =>
    simp only [Bool.and_eq_true] at hx
    obtain ⟨⟨⟨ha, hb⟩, hc⟩, hd⟩ := hx
    have ha := charToInt_lt ha
    have hb := charToInt_lt hb
    have hc := charToInt_lt hc
    have hd := charToInt_lt hd
    have hcode := cost_encode
      (c := ((charToInt a * 16 + charToInt b) * 16 + charToInt c) * 16 + charToInt d) (by omega)
    have hslash : charPay (chr '\\') = 1 ∧ charPay (chr 'u') = 2 := by decide
    simp only [pay_cons, hslash.1, hslash.2]
    omega

theorem Body.cost_le {x d : Str} (h : Body x d) : cost d ≤ pay x := by
  induction h with
  | nil => exact le_rfl
  | cons hc _ ih =>
    have := hc.cost_le
    rw [cost_append, pay_append]
    omega

/-- A scalar costs no more than its text pays for. -/
theorem ScalarRead.cost_le {c : UInt8} {s t : Str} {v : JsonValue} (h : ScalarRead c s v t) :
    treeCost v + pay t ≤ pay (c :: s) := by
  cases h with
  | number hx hv =>
    rcases stringToNumber_value hv with ⟨n, rfl⟩ | ⟨d, rfl⟩
    all_goals
      rw [treeCost]
      simp only [pay_cons, pay_append]
      omega
  | string hb =>
    have := hb.cost_le
    rw [treeCost]
    simp only [pay_cons, pay_append]
    omega
  | unclosed hb =>
    have := hb.cost_le
    rw [treeCost]
    simp only [pay_cons, pay_nil]
    omega
  | isTrue =>
    have hword : pay (chr 't' :: str "rue") = 2 := by decide
    rw [pay_cons] at hword
    rw [treeCost, if_pos rfl, pay_cons, pay_append]
    omega
  | isFalse =>
    rw [treeCost, if_neg (by decide), pay_cons, pay_append]
    omega
  | isNull =>
    have hword : pay (chr 'n' :: str "ull") = 2 := by decide
    rw [pay_cons] at hword
    rw [treeCost, pay_cons, pay_append]
    omega

def levelCost : Level → ℕ
  | .array values => valuesCost values
  | .object entries key => entriesCost entries + cost key

def levelsCost : List Level → ℕ
  | [] => 0
  | l :: ls => levelCost l + levelsCost ls

theorem levelCost_addValue (l : Level) (v : JsonValue) :
    levelCost (l.addValue v) ≤ levelCost l + treeCost v := by
  cases l with
  | array values => exact (valuesCost_append values v).le
  | object entries key => exact entriesCost_addValue entries key v

theorem levelsCost_addScalar {levels levels' : List Level} {v : JsonValue}
    (h : addScalar levels v = .ok levels') : levelsCost levels' ≤ levelsCost levels + treeCost v := by
  match levels, h with
  | .array values :: ls, h =>
    obtain rfl := Except.ok.inj h
    have := levelCost_addValue (.array values) v
    simp only [levelsCost, levelCost, Level.addValue] at this ⊢
    omega
  | .object entries [] :: ls, h =>
    cases v with
    | string k =>
      obtain rfl := Except.ok.inj h
      simp only [levelsCost, levelCost, treeCost, cost_nil]
      omega
    | _ => contradiction
  | .object entries (k :: key) :: ls, h =>
    obtain rfl := Except.ok.inj h
    have := levelCost_addValue (.object entries (k :: key)) v
    simp only [levelsCost, levelCost, Level.addValue] at this ⊢
    omega

theorem TokenRead.cost_le {b b' : Bool} {levels levels' : List Level} {c : UInt8} {s t : Str}
    (h : TokenRead b levels c s b' levels' t) :
    levelsCost levels' + pay t ≤ levelsCost levels + pay (c :: s) := by
  cases h with
  | scalar hs _ ha =>
    have hscalar := hs.cost_le
    have hadd := levelsCost_addScalar ha
    omega
  | openArray | openObject =>
    simp only [levelsCost, levelCost, valuesCost, entriesCost, cost_nil, pay_cons]
    omega
  | @closeArray _ values l ls =>
    have := levelCost_addValue l (.array values)
    simp only [levelsCost, levelCost, treeCost, pay_cons] at this ⊢
    omega
  | @closeObject _ entries l ls =>
    have := levelCost_addValue l (.object entries)
    simp only [levelsCost, levelCost, treeCost, pay_cons] at this ⊢
    omega
  | colon | comma =>
    rw [pay_cons]
    omega

/-- A tree that is read costs no more than the text pays for. -/
theorem treeCost_le_of_readFrom {b : Bool} {levels : List Level} {s : Str} {json : JsonValue}
    (h : readFrom b levels s = .ok json) : treeCost json ≤ levelsCost levels + pay s := by
  refine readFrom_induct (motive := fun _ levels s => treeCost json ≤ levelsCost levels + pay s)
    ?_ ?_ h
  · intro w c u b levels _ hroot
    cases hroot with
    | array | object =>
      simp only [levelsCost, levelCost, treeCost]
      omega
  · intro w c u b levels b' levels' t _ htoken _ ih
    have := htoken.cost_le
    rw [pay_append]
    omega

/-! ### Printing -/

theorem pay_crlf (level : ℤ) : pay (crlf level) = 0 := by
  unfold crlf
  split_ifs
  · decide
  · rfl

theorem pay_indentOf (level : ℤ) : pay (indentOf level) = 0 := by
  have hspace : charPay (chr ' ') = 0 := by decide
  unfold indentOf createIndent
  split_ifs
  · rw [pay, List.map_replicate, hspace]
    simp
  · rfl

theorem pay_decimalInt (n : ℤ) : pay (decimalInt n) = 0 := by
  have hdecimal : pay (decimal n.natAbs) = 0 := by
    have hdigit : ∀ d < 10, charPay (digitChar d) = 0 := by decide
    unfold pay decimal
    rw [List.map_map]
    refine List.sum_eq_zero ?_
    intro m hm
    obtain ⟨d, hd, rfl⟩ := List.mem_map.mp hm
    exact hdigit d (decimalDigits_lt _ d hd)
  have hminus : charPay (chr '-') = 0 := by decide
  unfold decimalInt
  split_ifs
  · rw [pay_cons, hminus, hdecimal]
  · exact hdecimal

/-- The text pays for the tree exactly when the tree is legible, and never for more. -/
def PaidFor (text : Str) (price : ℕ) (legible : Prop) : Prop :=
  pay text ≤ price ∧ (price ≤ pay text → legible)

theorem paidFor_escapeBackslashes (s : Str) :
    PaidFor (escapeBackslashes s) (cost s) (PlainString s) := by
  induction s with
  | nil => exact ⟨le_rfl, fun _ c hc => absurd hc List.not_mem_nil⟩
  | cons c s ih =>
    obtain ⟨hle, hplain⟩ := ih
    -- a backslash is paid for by being doubled; quotation marks and control characters are not
    have hc : ∀ c : UInt8, c ≠ chr '\\' → charPay c ≤ charCost c ∧
        (charCost c ≤ charPay c → c ≠ chr '"' ∧ isCntrl c = false) :=
      forall_byte (by decide +kernel)
    have hslash : charCost (chr '\\') = 2 ∧ charPay (chr '\\') = 1 ∧
        chr '\\' ≠ chr '"' ∧ isCntrl (chr '\\') = false := by decide
    rw [escapeBackslashes]
    split_ifs with h
    · subst h
      refine ⟨?_, ?_⟩
      · simp only [cost_cons, pay_cons, hslash.1, hslash.2.1]
        omega
      · intro hcost
        simp only [cost_cons, pay_cons, hslash.1, hslash.2.1] at hcost
        rintro d hd
        rcases List.mem_cons.mp hd with rfl | hd
        · exact hslash.2.2
        · exact hplain (by omega) d hd
    · obtain ⟨hpay, hfree⟩ := hc c h
      refine ⟨?_, ?_⟩
      · simp only [cost_cons, pay_cons]
        omega
      · intro hcost
        simp only [cost_cons, pay_cons] at hcost
        rintro d hd
        rcases List.mem_cons.mp hd with rfl | hd
        · exact hfree (by omega)
        · exact hplain (by omega) d hd

theorem paidFor_key (k : Str) : PaidFor k (cost k) (PlainKey k) := by
  have hc : ∀ c : UInt8, charPay c ≤ charCost c ∧
      (charCost c ≤ charPay c → c ≠ chr '"' ∧ c ≠ chr '\\' ∧ isCntrl c = false) :=
    forall_byte (by decide +kernel)
  induction k with
  | nil => exact ⟨le_rfl, fun _ c hc => absurd hc List.not_mem_nil⟩
  | cons c k ih =>
    obtain ⟨hle, hplain⟩ := ih
    obtain ⟨hpay, hfree⟩ := hc c
    refine ⟨?_, ?_⟩
    · simp only [cost_cons, pay_cons]
      omega
    · intro hcost
      simp only [cost_cons, pay_cons] at hcost
      intro d hd
      rcases List.mem_cons.mp hd with rfl | hd
      · exact hfree (by omega)
      · exact hplain (by omega) d hd

theorem pay_quote (s : Str) : pay (quote s) = pay s := by
  have hquote : charPay (chr '"') = 0 := by decide
  rw [quote, List.cons_append, pay_cons, pay_append, pay_cons, pay_nil, hquote]
  omega

theorem pay_separator (level : ℤ) (last : Bool) :
    pay (if last then [] else chr ',' :: crlf level) = 0 := by
  have hcomma : charPay (chr ',') = 0 := by decide
  cases last with
  | true => rfl
  | false =>
    rw [if_neg Bool.false_ne_true, pay_cons, pay_crlf, hcomma]

theorem paidFor_values {values : List JsonValue}
    (h : ∀ v ∈ values, ∀ level,
      PaidFor (toString v level) (treeCost v) (Legible (fun _ => True) v)) (level : ℤ) :
    PaidFor (valuesToString values level) (valuesCost values)
      (∀ v ∈ values, Legible (fun _ => True) v) := by
  induction values with
  | nil => exact ⟨le_rfl, fun _ v hv => absurd hv List.not_mem_nil⟩
  | cons v values ih =>
    obtain ⟨hle, hlegible⟩ := ih fun w hw => h w (List.mem_cons_of_mem v hw)
    obtain ⟨hle', hlegible'⟩ := h v List.mem_cons_self (nextLevel level)
    have hpay : pay (valuesToString (v :: values) level) =
        pay (toString v (nextLevel level)) + pay (valuesToString values level) := by
      rw [valuesToString]
      simp only [pay_append, pay_indentOf, pay_separator]
      omega
    rw [PaidFor, hpay, valuesCost]
    refine ⟨by omega, ?_⟩
    intro hcost w hw
    rcases List.mem_cons.mp hw with rfl | hw
    · exact hlegible' (by omega)
    · exact hlegible (by omega) w hw

theorem paidFor_entries {entries : JsonObject}
    (h : ∀ e ∈ entries, ∀ level,
      PaidFor (toString e.2 level) (treeCost e.2) (Legible (fun _ => True) e.2)) (level : ℤ) :
    PaidFor (entriesToString entries level) (entriesCost entries)
      (∀ e ∈ entries, PlainKey e.1 ∧ Legible (fun _ => True) e.2) := by
  have hcolon : charPay (chr ':') = 0 := by decide
  induction entries with
  | nil => exact ⟨le_rfl, fun _ e he => absurd he List.not_mem_nil⟩
  | cons e entries ih =>
    obtain ⟨k, v⟩ := e
    obtain ⟨hle, hlegible⟩ := ih fun f hf => h f (List.mem_cons_of_mem _ hf)
    obtain ⟨hle', hlegible'⟩ := h (k, v) List.mem_cons_self (nextLevel level)
    obtain ⟨hkey, hplain⟩ := paidFor_key k
    have hpay : pay (entriesToString ((k, v) :: entries) level) =
        pay k + pay (toString v (nextLevel level)) + pay (entriesToString entries level) := by
      rw [entriesToString]
      simp only [pay_append, pay_cons, pay_indentOf, pay_separator, pay_quote, hcolon]
      omega
    simp only at hle' hlegible'
    rw [PaidFor, hpay, entriesCost]
    refine ⟨by omega, ?_⟩
    intro hcost f hf
    rcases List.mem_cons.mp hf with rfl | hf
    · exact ⟨hplain (by omega), hlegible' (by omega)⟩
    · exact hlegible (by omega) f hf

theorem Storable.paidFor {json : JsonValue} (hs : Storable json) :
    ∀ level, PaidFor (toString json level) (treeCost json) (Legible (fun _ => True) json) := by
  have hbrackets : charPay (chr '[') = 0 ∧ charPay (chr ']') = 0 ∧ charPay (chr '{') = 0 ∧
      charPay (chr '}') = 0 := by decide
  obtain ⟨hopen, hclose, hopen', hclose'⟩ := hbrackets
  have hwords : pay (str "true") = 2 ∧ pay (str "false") = 0 ∧ pay (str "null") = 2 := by decide
  induction hs with
  | @array values _ ih =>
    intro level
    obtain ⟨hle, hlegible⟩ := paidFor_values ih level
    have hpay : pay (toString (.array values) level) = pay (valuesToString values level) := by
      rw [JsonValue.toString]
      simp only [pay_append, pay_cons, pay_nil, pay_crlf, pay_indentOf, hopen, hclose]
      omega
    rw [PaidFor, hpay, treeCost]
    exact ⟨hle, fun hcost => .array (hlegible hcost)⟩
  | @object entries _ _ _ ih =>
    intro level
    obtain ⟨hle, hlegible⟩ := paidFor_entries ih level
    have hpay : pay (toString (.object entries) level) = pay (entriesToString entries level) := by
      rw [JsonValue.toString]
      simp only [pay_append, pay_cons, pay_nil, pay_crlf, pay_indentOf, hopen', hclose']
      omega
    rw [PaidFor, hpay, treeCost]
    refine ⟨hle, ?_⟩
    intro hcost
    have hall := hlegible hcost
    exact .object (fun e he => (hall e he).1) fun e he => (hall e he).2
  | @string s _ =>
    intro level
    obtain ⟨hle, hplain⟩ := paidFor_escapeBackslashes s
    rw [JsonValue.toString, PaidFor, pay_quote, treeCost]
    exact ⟨hle, fun hcost => .string (hplain hcost)⟩
  | @integer n =>
    intro level
    rw [JsonValue.toString, PaidFor, pay_decimalInt, treeCost]
    exact ⟨le_rfl, fun _ => .integer trivial⟩
  | @boolean b =>
    intro level
    refine ⟨?_, fun _ => .boolean⟩
    cases b with
    | true => exact hwords.1.le
    | false => exact hwords.2.1.le
  | null =>
    intro level
    exact ⟨hwords.2.2.le, fun _ => .null⟩

/-! ### The round trip -/

theorem nulFree_escapeBackslashes {s : Str} (h : 0 ∉ s) : 0 ∉ escapeBackslashes s := by
  induction s with
  | nil => exact List.not_mem_nil
  | cons c s ih =>
    rw [List.mem_cons, not_or] at h
    rw [escapeBackslashes]
    split_ifs <;> simp [h.1, ih h.2]

theorem nulFree_spaces {w : Str} (hw : Spaces w) : 0 ∉ w := by
  intro h
  exact absurd (hw 0 h) (by decide)

theorem nulFree_digits {ds : Str} (hd : JsonText.Digits ds) : 0 ∉ ds := by
  intro h
  exact absurd (hd 0 h) (by decide)

/-- The structural characters are no NUL. -/
theorem mark_ne_zero : ∀ c ∈ [chr '[', chr ']', chr '{', chr '}', chr '"', chr '-', chr ',',
    chr ':'], (0 : UInt8) ≠ c := by
  decide

theorem nulFree_values {values : List JsonValue}
    (h : ∀ v ∈ values, ∀ level, 0 ∉ toString v level) (level : ℤ) :
    0 ∉ valuesToString values level := by
  have hcomma := mark_ne_zero (chr ',') (by decide)
  induction values with
  | nil => exact List.not_mem_nil
  | cons v values ih =>
    have hrest := ih fun w hw => h w (List.mem_cons_of_mem v hw)
    have hv := h v List.mem_cons_self (nextLevel level)
    have hcrlf := nulFree_spaces (spaces_crlf level)
    have hindent := nulFree_spaces (spaces_indentOf level)
    rw [valuesToString]
    split_ifs <;> simp [hrest, hv, hindent, hcrlf, hcomma]

theorem nulFree_entries {entries : JsonObject} (hkeys : ∀ e ∈ entries, 0 ∉ e.1)
    (h : ∀ e ∈ entries, ∀ level, 0 ∉ toString e.2 level) (level : ℤ) :
    0 ∉ entriesToString entries level := by
  have hcomma := mark_ne_zero (chr ',') (by decide)
  have hcolon := mark_ne_zero (chr ':') (by decide)
  have hquote := mark_ne_zero (chr '"') (by decide)
  induction entries with
  | nil => exact List.not_mem_nil
  | cons e entries ih =>
    obtain ⟨k, v⟩ := e
    have hrest := ih (fun f hf => hkeys f (List.mem_cons_of_mem _ hf))
      fun f hf => h f (List.mem_cons_of_mem _ hf)
    have hv : 0 ∉ toString v (nextLevel level) := h (k, v) List.mem_cons_self _
    have hk : 0 ∉ k := hkeys (k, v) List.mem_cons_self
    have hcrlf := nulFree_spaces (spaces_crlf level)
    have hindent := nulFree_spaces (spaces_indentOf level)
    rw [entriesToString, quote]
    split_ifs <;> simp [hrest, hv, hk, hindent, hcrlf, hcomma, hcolon, hquote]

/-- A printed tree holds no NUL. -/
theorem Storable.nulFree {json : JsonValue} (hs : Storable json) :
    ∀ level, 0 ∉ toString json level := by
  induction hs with
  | array _ ih =>
    intro level
    have hvalues := nulFree_values ih level
    have hcrlf := nulFree_spaces (spaces_crlf level)
    have hindent := nulFree_spaces (spaces_indentOf level)
    have hopen := mark_ne_zero (chr '[') (by decide)
    have hclose := mark_ne_zero (chr ']') (by decide)
    rw [JsonValue.toString]
    simp [hvalues, hcrlf, hindent, hopen, hclose]
  | object _ hkeys _ ih =>
    intro level
    have hentries := nulFree_entries (fun e he => (hkeys e he).2) ih level
    have hcrlf := nulFree_spaces (spaces_crlf level)
    have hindent := nulFree_spaces (spaces_indentOf level)
    have hopen := mark_ne_zero (chr '{') (by decide)
    have hclose := mark_ne_zero (chr '}') (by decide)
    rw [JsonValue.toString]
    simp [hentries, hcrlf, hindent, hopen, hclose]
  | string hs =>
    intro level
    have hquote := mark_ne_zero (chr '"') (by decide)
    rw [JsonValue.toString, quote]
    simp [nulFree_escapeBackslashes hs, hquote]
  | @integer n =>
    intro level
    have hdigits := nulFree_digits (digits_decimal n.natAbs)
    have hminus := mark_ne_zero (chr '-') (by decide)
    rw [JsonValue.toString, decimalInt]
    split_ifs
    · simp [hdigits, hminus]
    · exact hdigits
  | @boolean b =>
    intro level
    have hwords : 0 ∉ str "true" ∧ 0 ∉ str "false" := by decide
    cases b with
    | true => exact hwords.1
    | false => exact hwords.2
  | null =>
    intro level
    have hword : 0 ∉ str "null" := by decide
    exact hword

theorem map_eq_self_iff {α : Type*} {f : α → α} {l : List α} :
    l.map f = l ↔ ∀ a ∈ l, f a = a := by
  have h := List.map_inj_left (l := l) (f := f) (g := id)
  rwa [List.map_id] at h

/-- The integers of a legible tree that is reread as it was meet their condition. -/
theorem Legible.of_reread {json : JsonValue} (hl : Legible (fun _ => True) json)
    (h : reread json = json) : Legible (fun n => rereadInteger n = n) json := by
  induction hl with
  | @array values _ ih =>
    have hvalues : values.map reread = values := by
      rw [← rereadValues_eq_map]
      exact JsonValue.array.inj h
    refine .array ?_
    intro v hv
    exact ih v hv (map_eq_self_iff.mp hvalues v hv)
  | @object entries hplain _ ih =>
    have hentries : (entries.map fun e => (e.1, reread e.2)) = entries := by
      rw [← rereadEntries_eq_map]
      exact JsonValue.object.inj h
    refine .object hplain ?_
    intro e he
    have hpair : (e.1, reread e.2) = e := map_eq_self_iff.mp hentries e he
    exact ih e he (congrArg Prod.snd hpair)
  | string hs => exact .string hs
  | integer => exact .integer (JsonValue.integer.inj h)
  | boolean => exact .boolean
  | null => exact .null

theorem Legible.reread_eq {json : JsonValue}
    (hl : Legible (fun n => rereadInteger n = n) json) : reread json = json := by
  induction hl with
  | @array values _ ih =>
    rw [reread, rereadValues_eq_map, map_eq_self_iff.mpr ih]
  | @object entries _ _ ih =>
    rw [reread, rereadEntries_eq_map, map_eq_self_iff.mpr]
    intro e he
    rw [ih e he]
  | string | boolean | null => rfl
  | integer hn => rw [reread, hn]

theorem Legible.mono {P Q : ℤ → Prop} (h : ∀ n, P n → Q n) {json : JsonValue}
    (hl : Legible P json) : Legible Q json := by
  induction hl with
  | array _ ih => exact .array ih
  | object hplain _ ih => exact .object hplain ih
  | string hs => exact .string hs
  | integer hn => exact .integer (h _ hn)
  | boolean => exact .boolean
  | null => exact .null

/-- A tree is read back from the front of a text with its integers reread. -/
theorem parse_toString_append {json : JsonValue} (hs : Storable json)
    (hroot : (∃ values, json = .array values) ∨ ∃ entries, json = .object entries)
    (hl : Legible (fun _ => True) json) (level : ℤ) (t : Str) :
    parse (toString json level ++ t) = .ok (reread json) := by
  rw [parse_eq]
  rcases hroot with ⟨values, rfl⟩ | ⟨entries, rfl⟩
  · obtain ⟨hvalues⟩ := hs
    obtain ⟨hlegible⟩ := hl
    exact readFrom_array (fun v hv => (hvalues v hv).rereads (hlegible v hv)) level true [] t
  · obtain _ | ⟨hsorted, hkeys, hvalues⟩ := hs
    obtain _ | ⟨hplain, hlegible⟩ := hl
    exact readFrom_object hsorted (fun e he => ⟨(hkeys e he).1, hplain e he⟩)
      (fun e he => (hvalues e he).rereads (hlegible e he)) level true [] t

theorem parse_toString {json : JsonValue} (hs : Storable json)
    (hroot : (∃ values, json = .array values) ∨ ∃ entries, json = .object entries)
    (hl : Legible (fun _ => True) json) (level : ℤ) :
    parse (toString json level) = .ok (reread json) := by
  have h := parse_toString_append hs hroot hl level []
  rwa [List.append_nil] at h

/-- The copy that is parsed is the whole text. -/
theorem Storable.takeWhile_toString {json : JsonValue} (hs : Storable json) (level : ℤ) :
    (toString json level).takeWhile (· ≠ 0) = toString json level := by
  rw [List.takeWhile_eq_self_iff]
  intro c hc
  have hne : c ≠ 0 := fun h0 => hs.nulFree level (h0 ▸ hc)
  simpa using hne

/-- A tree of arrays and objects is read back from its text exactly when its strings hold no
quotation mark and no control character, its keys no backslash either, and its integers come
out of the sum of their digits in a `double` as they were. -/
theorem parseString_toString_iff {json : JsonValue} (hs : Storable json)
    (hroot : (∃ values, json = .array values) ∨ ∃ entries, json = .object entries) (level : ℤ) :
    parseString (toString json level) = some json ↔
      Legible (fun n => rereadInteger n = n) json := by
  rw [parseString, hs.takeWhile_toString]
  constructor
  · intro h
    have hparse : parse (toString json level) = .ok json := by
      cases hp : parse (toString json level) with
      | ok json' =>
        rw [hp] at h
        rw [Option.some.inj h]
      | error | overRead | overflow =>
        rw [hp] at h
        contradiction
    -- the text pays for the tree, so the tree is legible
    have hcost := treeCost_le_of_readFrom hparse
    rw [levelsCost, zero_add] at hcost
    have hl := (hs.paidFor level).2 hcost
    rw [parse_toString hs hroot hl] at hparse
    exact hl.of_reread (ParseOutcome.ok.inj hparse)
  · intro hl
    rw [parse_toString hs hroot (hl.mono fun _ _ => trivial), hl.reread_eq]

theorem parseString_toString_iff_object :
    parseString (toString (.object [(str "a", .array [.integer 7, .string (str "x")])]) 0) =
      some (.object [(str "a", .array [.integer 7, .string (str "x")])]) := by
  refine (parseString_toString_iff (.object (List.pairwise_singleton _ _) ?_ ?_)
    (.inr ⟨_, rfl⟩) 0).mpr (.object ?_ ?_)
  · rw [List.forall_mem_singleton]
    decide
  · rw [List.forall_mem_singleton]
    refine .array ?_
    rw [List.forall_mem_cons, List.forall_mem_singleton]
    exact ⟨.integer (by norm_num) (by norm_num), .string (by decide)⟩
  · rw [List.forall_mem_singleton]
    decide
  · rw [List.forall_mem_singleton]
    refine .array ?_
    rw [List.forall_mem_cons, List.forall_mem_singleton]
    exact ⟨.integer (by decide +kernel), .string (by decide)⟩

/-- A quotation mark in a string is printed without a backslash and ends the string too early. -/
theorem quote_not_reread :
    ¬ ∀ json level, Storable json →
      ((∃ values, json = .array values) ∨ ∃ entries, json = .object entries) →
      parseString (toString json level) = some json := by
  intro h
  have hnone : (parseString (toString (.array [.string (str "\"")]) (-1))).isNone = true := by
    decide +kernel
  have hstorable : Storable (.array [.string (str "\"")]) := by
    refine .array ?_
    rw [List.forall_mem_singleton]
    exact .string (by decide)
  rw [h _ (-1) hstorable (.inl ⟨_, rfl⟩)] at hnone
  contradiction

/-! ### Integers of 53 bits -/

theorem accumulate_natCast {m d : ℕ} (h : 10 * m + d ≤ 2 ^ 53) :
    accumulate (.finite m) d = .finite ((10 * m + d : ℕ) : ℚ) := by
  have hmul : ((m : ℚ) * (10 : ℕ)) = ((10 * m : ℕ) : ℚ) := by
    push_cast
    ring
  have hadd : ((10 * m : ℕ) : ℚ) + (d : ℕ) = ((10 * m + d : ℕ) : ℚ) := by
    push_cast
    ring
  rw [accumulate, Rounding.Double.ofNat, Rounding.Double.mul, hmul,
    Rounding.Double.ofRat_natCast (by omega), Rounding.Double.ofNat, Rounding.Double.add, hadd,
    Rounding.Double.ofRat_natCast h]

theorem le_foldl_digits (ds : List ℕ) (m : ℕ) :
    m ≤ ds.foldl (fun v d => 10 * v + d) m := by
  induction ds generalizing m with
  | nil => exact le_rfl
  | cons d ds ih =>
    have h := ih (10 * m + d)
    rw [List.foldl_cons]
    omega

/-- As long as the number fits in 53 bits no digit is lost. -/
theorem foldl_accumulate (ds : List ℕ) {m : ℕ}
    (h : ds.foldl (fun v d => 10 * v + d) m ≤ 2 ^ 53) :
    ds.foldl accumulate (.finite m) =
      .finite ((ds.foldl (fun v d => 10 * v + d) m : ℕ) : ℚ) := by
  induction ds generalizing m with
  | nil => rfl
  | cons d ds ih =>
    rw [List.foldl_cons] at h
    have hle := (le_foldl_digits ds (10 * m + d)).trans h
    rw [List.foldl_cons, List.foldl_cons, accumulate_natCast hle, ih h]

theorem foldl_decimalDigits (n : ℕ) : (decimalDigits n).foldl (fun v d => 10 * v + d) 0 = n := by
  unfold decimalDigits
  split_ifs with h
  · rw [h]
    rfl
  · rw [List.foldl_reverse]
    conv_rhs => rw [← Nat.ofDigits_digits 10 n, Nat.ofDigits_eq_foldr]
    refine List.foldr_ext _ _ _ ?_
    intro d _ v
    simp only [Nat.cast_id]
    ring

theorem rereadInteger_eq {n : ℤ} (h : |n| ≤ 2 ^ 53) : rereadInteger n = n := by
  have hle : n.natAbs ≤ 2 ^ 53 := by
    rw [Int.abs_eq_natAbs] at h
    exact_mod_cast h
  have hfold := foldl_accumulate (decimalDigits n.natAbs) (m := 0)
    (by rw [foldl_decimalDigits]; exact hle)
  rw [foldl_decimalDigits] at hfold
  have hint : ∀ m : ℤ, |m| ≤ 2 ^ 53 → toInt64 (.finite (m : ℚ)) = m := by
    intro m hm
    have hbounds := abs_le.mp hm
    simp only [toInt64, Rounding.truncate_intCast]
    rw [if_pos ⟨by omega, by omega⟩]
  have hzero : Rounding.Double.ofNat 0 = .finite ((0 : ℕ) : ℚ) := rfl
  unfold rereadInteger
  dsimp only
  rw [hzero, hfold]
  by_cases hn : n < 0
  · have hcast : -((n.natAbs : ℕ) : ℚ) = ((n : ℤ) : ℚ) := by
      rw [Nat.cast_natAbs, abs_of_neg hn]
      push_cast
      ring
    rw [if_pos hn, Rounding.Double.neg, hcast, hint n h]
  · have hcast : ((n.natAbs : ℕ) : ℚ) = ((n : ℤ) : ℚ) := by
      rw [Nat.cast_natAbs, abs_of_nonneg (by omega)]
    rw [if_neg hn, hcast, hint n h]

/-- A legible tree whose integers have at most 53 bits is read back as it was, and what stands
behind it is not looked at. -/
theorem parseString_toString_append {json : JsonValue} (hs : Storable json)
    (hroot : (∃ values, json = .array values) ∨ ∃ entries, json = .object entries)
    (hl : Legible (fun n => |n| ≤ 2 ^ 53) json) (level : ℤ) {t : Str} (ht : 0 ∉ t) :
    parseString (toString json level ++ t) = some json := by
  have hcopy : (toString json level ++ t).takeWhile (· ≠ 0) = toString json level ++ t := by
    rw [List.takeWhile_append_of_pos, List.takeWhile_eq_self_iff.mpr]
    · exact fun c hc => decide_eq_true fun h0 => ht (h0 ▸ hc)
    · exact fun c hc => decide_eq_true fun h0 => hs.nulFree level (h0 ▸ hc)
  have hkept : Legible (fun n => rereadInteger n = n) json :=
    hl.mono fun _ hn => rereadInteger_eq hn
  rw [parseString, hcopy, parse_toString_append hs hroot (hl.mono fun _ _ => trivial),
    hkept.reread_eq]

theorem parseString_toString_of_small {json : JsonValue} (hs : Storable json)
    (hroot : (∃ values, json = .array values) ∨ ∃ entries, json = .object entries)
    (hl : Legible (fun n => |n| ≤ 2 ^ 53) json) (level : ℤ) :
    parseString (toString json level) = some json := by
  have h := parseString_toString_append hs hroot hl level (t := []) List.not_mem_nil
  rwa [List.append_nil] at h

end TarotClub.JsonReader
