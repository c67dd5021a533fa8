import TarotClub.JsonLoop

namespace TarotClub.JsonReader

open JsonText (Digits)
open JsonValue
open Rounding (Double)

/-- The trees of arrays and objects whose leaves are strings, integers, booleans and nulls.
The strings end at no NUL, no key is empty, and an object lists its keys in order. -/
inductive Storable : JsonValue → Prop
  | array {values : List JsonValue} : (∀ v ∈ values, Storable v) → Storable (.array values)
  | object {entries : JsonObject} : (entries.Pairwise fun e f => e.1 < f.1) →
      (∀ e ∈ entries, e.1 ≠ [] ∧ 0 ∉ e.1) → (∀ e ∈ entries, Storable e.2) →
      Storable (.object entries)
  | string {s : Str} : 0 ∉ s → Storable (.string s)
  | integer {n : ℤ} : -2 ^ 63 ≤ n → n < 2 ^ 63 → Storable (.integer n)
  | boolean {b : Bool} : Storable (.boolean b)
  | null : Storable .null

/-- No quotation mark and no control character, which are printed as they are. -/
def PlainString (s : Str) : Prop := ∀ c ∈ s, c ≠ chr '"' ∧ isCntrl c = false

/-- A backslash in a key is not doubled either. -/
def PlainKey (k : Str) : Prop := ∀ c ∈ k, c ≠ chr '"' ∧ c ≠ chr '\\' ∧ isCntrl c = false

instance : DecidablePred PlainString := fun s =>
  inferInstanceAs (Decidable (∀ c ∈ s, c ≠ chr '"' ∧ isCntrl c = false))

instance : DecidablePred PlainKey := fun k =>
  inferInstanceAs (Decidable (∀ c ∈ k, c ≠ chr '"' ∧ c ≠ chr '\\' ∧ isCntrl c = false))

/-- The strings and keys are printed so that they can be read again, and every integer meets a
condition. -/
inductive Legible (P : ℤ → Prop) : JsonValue → Prop
  | array {values : List JsonValue} : (∀ v ∈ values, Legible P v) → Legible P (.array values)
  | object {entries : JsonObject} : (∀ e ∈ entries, PlainKey e.1) →
      (∀ e ∈ entries, Legible P e.2) → Legible P (.object entries)
  | string {s : Str} : PlainString s → Legible P (.string s)
  | integer {n : ℤ} : P n → Legible P (.integer n)
  | boolean {b : Bool} : Legible P (.boolean b)
  | null : Legible P .null

/-- What `StringToNumber` makes of a printed integer. -/
def rereadInteger (n : ℤ) : ℤ :=
  let result := (decimalDigits n.natAbs).foldl accumulate (.ofNat 0)
  toInt64 (if n < 0 then result.neg else result)

mutual
/-- The tree with every integer reread. -/
def reread : JsonValue → JsonValue
  | array values => array (rereadValues values)
  | object entries => object (rereadEntries entries)
  | integer n => integer (rereadInteger n)
  | v => v

def rereadValues : List JsonValue → List JsonValue
  | [] => []
  | v :: values => reread v :: rereadValues values

def rereadEntries : List (Str × JsonValue) → List (Str × JsonValue)
  | [] => []
  | (k, v) :: entries => (k, reread v) :: rereadEntries entries
end

/-! ### Scalars -/

theorem body_escapeBackslashes {s : Str} (h : PlainString s) : Body (escapeBackslashes s) s := by
  induction s with
  | nil => exact .nil
  | cons c s ih =>
    obtain ⟨hquote, hcntrl⟩ := h c List.mem_cons_self
    have htail := ih fun d hd => h d (List.mem_cons_of_mem c hd)
    rw [escapeBackslashes]
    split_ifs with hc
    · subst hc
      exact .cons (.escape (by decide)) htail
    · exact .cons (.plain hc hcntrl hquote) htail

theorem body_key {k : Str} (h : PlainKey k) : Body k k := by
  induction k with
  | nil => exact .nil
  | cons c k ih =>
    obtain ⟨hquote, hslash, hcntrl⟩ := h c List.mem_cons_self
    exact .cons (.plain hslash hcntrl hquote) (ih fun d hd => h d (List.mem_cons_of_mem c hd))

theorem decimalDigits_lt (n : ℕ) : ∀ d ∈ decimalDigits n, d < 10 := by
  intro d hd
  unfold decimalDigits at hd
  split_ifs at hd
  · rw [List.mem_singleton.mp hd]
    norm_num
  · exact Nat.digits_lt_base (by norm_num) (List.mem_reverse.mp hd)

theorem digitChar_spec {d : ℕ} (hd : d < 10) :
    isDigit (digitChar d) = true ∧ digitValue (digitChar d) = d := by
  interval_cases d <;> decide

theorem digits_decimal (n : ℕ) : Digits (decimal n) := by
  intro c hc
  obtain ⟨d, hd, rfl⟩ := List.mem_map.mp hc
  exact (digitChar_spec (decimalDigits_lt n d hd)).1

theorem map_digitValue_decimal (n : ℕ) : (decimal n).map digitValue = decimalDigits n := by
  rw [decimal, List.map_map]
  refine (List.map_congr_left ?_).trans (List.map_id _)
  intro d hd
  exact (digitChar_spec (decimalDigits_lt n d hd)).2

theorem decimal_ne_nil (n : ℕ) : decimal n ≠ [] := by
  unfold decimal decimalDigits
  split_ifs with h
  · simp
  · simp [Nat.digits_ne_nil_iff_ne_zero.mpr h]

/-- A printed integer is read as a number. -/
theorem scalarRead_decimalInt (n : ℤ) {t : Str} (ht : Delimited t) :
    ∃ c x, decimalInt n = c :: x ∧ ScalarRead c (x ++ t) (.integer (rereadInteger n)) t := by
  obtain ⟨minus, hm, hprint, hneg⟩ : ∃ minus : Str, (minus = [] ∨ minus = [chr '-']) ∧
      decimalInt n = minus ++ decimal n.natAbs ∧ (minus = [] ↔ ¬ n < 0) := by
    unfold decimalInt
    split_ifs with h
    · exact ⟨[chr '-'], .inr rfl, rfl, by simp [h]⟩
    · exact ⟨[], .inl rfl, rfl, by simp [h]⟩
  have hd := digits_decimal n.natAbs
  obtain ⟨d, ds, hds⟩ := List.exists_cons_of_ne_nil (decimal_ne_nil n.natAbs)
  have hdigit : isDigit d = true := hd d (by rw [hds]; exact List.mem_cons_self)
  have hnumber : JsonText.Number Digits Digits IntDigits (decimalInt n) := by
    have h := JsonText.Number.parts (I := Digits) (F := Digits) (E := IntDigits) hm hd .none .none
    rwa [List.append_nil, List.append_nil, ← hprint] at h
  have hstart : isDigit (peek (decimalInt n)) = true ∨
      ∃ c t, decimalInt n = chr '-' :: c :: t ∧ (isDigit c = true ∨ c = chr '.') := by
    rw [hprint, hds]
    rcases hm with rfl | rfl
    · exact .inl hdigit
    · exact .inr ⟨d, ds, rfl, .inl hdigit⟩
  have hvalue : stringToNumber (decimalInt n ++ t) = some (.integer (rereadInteger n), t) := by
    have hfraction : readFraction (((decimal n.natAbs).map digitValue).foldl accumulate (.ofNat 0))
        ([] ++ t) = (((decimal n.natAbs).map digitValue).foldl accumulate (.ofNat 0), false, t) := by
      rw [List.nil_append, readFraction, if_neg ht.endsFraction.2.1]
    have h := stringToNumber_parts hm hd .none ht.endsFraction hfraction
    rw [readExponent_delimited ht, Option.map_some, map_digitValue_decimal] at h
    rw [hprint, List.append_assoc]
    refine h.trans ?_
    unfold rereadInteger
    by_cases hn : n < 0
    · have hne : minus ≠ [] := fun h0 => hneg.mp h0 hn
      simp [hn, hne]
    · simp [hn, hneg.mpr hn]
  obtain ⟨c, x, hx⟩ : ∃ c x, decimalInt n = c :: x := by
    apply List.exists_cons_of_ne_nil
    rw [hprint]
    exact List.append_ne_nil_of_right_ne_nil minus (decimal_ne_nil _)
  refine ⟨c, x, hx, ?_⟩
  rw [hx] at hnumber hstart hvalue
  exact .number ⟨hnumber, hstart⟩ hvalue

/-! ### Objects in the order of their keys -/

/-- A key behind all others goes to the end. -/
theorem addValue_append {obj : JsonObject} {k : Str} (h : ∀ e ∈ obj, e.1 < k) (v : JsonValue) :
    obj.addValue k v = obj ++ [(k, v)] := by
  induction obj with
  | nil => rfl
  | cons e obj ih =>
    have hlt := h e List.mem_cons_self
    have hne : k ≠ e.1 := by
      rintro rfl
      exact List.lt_irrefl _ hlt
    have hnot : ¬ k < e.1 := List.lt_asymm hlt
    rw [JsonObject.addValue, if_neg hne, if_neg hnot, List.cons_append,
      ih fun f hf => h f (List.mem_cons_of_mem e hf)]

/-- The entries added to an object one by one. -/
def addAll (acc entries : JsonObject) : JsonObject :=
  entries.foldl (fun obj e => JsonObject.addValue obj e.1 e.2) acc

/-- Adding the entries in the order of their keys lists them in that order. -/
theorem addAll_eq_append {entries : JsonObject} (acc : JsonObject)
    (h : (acc ++ entries).Pairwise fun e f => e.1 < f.1) :
    addAll acc entries = acc ++ entries := by
  unfold addAll
  induction entries generalizing acc with
  | nil => rw [List.foldl_nil, List.append_nil]
  | cons e entries ih =>
    have hlast : ∀ f ∈ acc, f.1 < e.1 := by
      intro f hf
      exact (List.pairwise_append.mp h).2.2 f hf e List.mem_cons_self
    have hall : acc ++ [(e.1, e.2)] ++ entries = acc ++ e :: entries := by
      rw [List.append_assoc, List.singleton_append]
    rw [List.foldl_cons, addValue_append hlast, ih _ (hall ▸ h), hall]

theorem rereadEntries_eq_map (entries : JsonObject) :
    rereadEntries entries = entries.map fun e => (e.1, reread e.2) := by
  induction entries with
  | nil => rfl
  | cons e entries ih => rw [rereadEntries, ih, List.map_cons]

theorem rereadValues_eq_map (values : List JsonValue) : rereadValues values = values.map reread := by
  induction values with
  | nil => rfl
  | cons v values ih => rw [rereadValues, ih, List.map_cons]

/-! ### Arrays and objects -/

theorem spaces_crlf (level : ℤ) : Spaces (crlf level) := by
  intro c hc
  unfold crlf at hc
  split_ifs at hc
  · rw [List.mem_singleton.mp hc]
    decide
  · contradiction

theorem spaces_indentOf (level : ℤ) : Spaces (indentOf level) := by
  intro c hc
  unfold indentOf at hc
  split_ifs at hc
  · rw [List.eq_of_mem_replicate hc]
    decide
  · contradiction

/-- White space, or nothing, before a closing bracket. -/
theorem delimited_closing (level : ℤ) {c : UInt8} (hc : isDelim c = true) (t : Str) :
    Delimited (crlf level ++ (indentOf level ++ c :: t)) := by
  unfold crlf indentOf
  split_ifs
  · have hspace : isDelim (chr '\n') = true := by decide
    exact hspace
  · exact hc

/-- Wherever it stands, the printed value is read, converted, and added to the bracket around
it. -/
def Rereads (v : JsonValue) : Prop :=
  ∀ level b l ls t, Ready l → Delimited t →
    readFrom b (l :: ls) (toString v level ++ t) = readFrom false (l.addValue (reread v) :: ls) t

theorem rereads_scalar {v : JsonValue} (h : ∀ level t, Delimited t →
    ∃ c x, toString v level = c :: x ∧ ScalarRead c (x ++ t) (reread v) t) : Rereads v := by
  intro level b l ls t hl ht
  obtain ⟨c, x, hx, hread⟩ := h level t ht
  rw [hx]
  exact (TokenRead.scalar hread ht (addScalar_ready hl ls _)).readFrom_eq

/-- The loop of an array. -/
theorem readFrom_values {values : List JsonValue} (h : ∀ v ∈ values, Rereads v) (level : ℤ)
    (b : Bool) (acc : List JsonValue) (levels : List Level) (t : Str) :
    readFrom b (.array acc :: levels)
        (valuesToString values level ++ (crlf level ++ (indentOf level ++ chr ']' :: t))) =
      closed (.array (acc ++ rereadValues values)) levels t := by
  induction values generalizing b acc with
  | nil =>
    have hne : indentOf level ++ chr ']' :: t ≠ [] := by simp
    rw [valuesToString, List.nil_append, readFrom_spaces (spaces_crlf level) hne,
      readFrom_spaces (spaces_indentOf level) (List.cons_ne_nil _ _), readFrom_closeArray,
      rereadValues, List.append_nil]
  | cons v values ih =>
    have hv := h v List.mem_cons_self
    have hvalues := ih fun w hw => h w (List.mem_cons_of_mem v hw)
    have hacc : acc ++ rereadValues (v :: values) = acc ++ [reread v] ++ rereadValues values := by
      rw [rereadValues, List.append_assoc, List.singleton_append]
    rw [valuesToString]
    simp only [List.append_assoc]
    rw [readFrom_spaces (spaces_indentOf level) (by simp)]
    cases values with
    | nil =>
      have hread := hv (nextLevel level) b (.array acc) levels _ trivial
        (delimited_closing level (c := chr ']') (by decide) t)
      rw [hacc]
      exact hread.trans (hvalues false _)
    | cons w values =>
      have hread := hv (nextLevel level) b (.array acc) levels
        (chr ',' :: (crlf level ++ (valuesToString (w :: values) level ++
          (crlf level ++ (indentOf level ++ chr ']' :: t))))) trivial
        (delimited_cons (by decide) _)
      have hcomma := @TokenRead.comma (.array (acc ++ [reread v]) :: levels)
        (crlf level ++ (valuesToString (w :: values) level ++
          (crlf level ++ (indentOf level ++ chr ']' :: t)))) (by simp [Level.key])
      rw [hacc, ← hvalues true]
      refine hread.trans (hcomma.readFrom_eq.trans ?_)
      exact readFrom_spaces (spaces_crlf level) (by simp) true _

/-- The loop of an object. -/
theorem readFrom_entries {entries : JsonObject} (hkeys : ∀ e ∈ entries, e.1 ≠ [] ∧ PlainKey e.1)
    (h : ∀ e ∈ entries, Rereads e.2) (level : ℤ) (b : Bool) (acc : JsonObject)
    (levels : List Level) (t : Str) :
    readFrom b (.object acc [] :: levels)
        (entriesToString entries level ++ (crlf level ++ (indentOf level ++ chr '}' :: t))) =
      closed (.object (addAll acc (rereadEntries entries))) levels t := by
  induction entries generalizing b acc with
  | nil =>
    have hne : indentOf level ++ chr '}' :: t ≠ [] := by simp
    rw [entriesToString, List.nil_append, readFrom_spaces (spaces_crlf level) hne,
      readFrom_spaces (spaces_indentOf level) (List.cons_ne_nil _ _), readFrom_closeObject,
      rereadEntries]
    rfl
  | cons e entries ih =>
    obtain ⟨k, v⟩ := e
    obtain ⟨hne, hplain⟩ := hkeys (k, v) List.mem_cons_self
    have hv : Rereads v := h (k, v) List.mem_cons_self
    have hentries := ih (fun f hf => hkeys f (List.mem_cons_of_mem _ hf))
      fun f hf => h f (List.mem_cons_of_mem _ hf)
    have hkey : ∀ u, readFrom b (.object acc [] :: levels) (quote k ++ chr ':' :: u) =
        readFrom true (.object acc k :: levels) u := by
      intro u
      have hscalar : ScalarRead (chr '"') (k ++ chr '"' :: chr ':' :: u) (.string k)
          (chr ':' :: u) := .string (body_key hplain)
      have htoken : TokenRead b (.object acc [] :: levels) (chr '"')
          (k ++ chr '"' :: chr ':' :: u) false (.object acc k :: levels) (chr ':' :: u) :=
        .scalar hscalar (delimited_cons (by decide) u) rfl
      have hcolon := @TokenRead.colon k acc levels u hne
      have htext : quote k ++ chr ':' :: u = chr '"' :: (k ++ chr '"' :: chr ':' :: u) := by
        simp [quote]
      rw [htext, htoken.readFrom_eq, hcolon.readFrom_eq]
    have hadd : addAll acc ((k, reread v) :: rereadEntries entries) =
        addAll (acc.addValue k (reread v)) (rereadEntries entries) := rfl
    rw [entriesToString, rereadEntries, hadd]
    simp only [List.append_assoc, List.cons_append]
    rw [readFrom_spaces (spaces_indentOf level) (by simp), hkey]
    cases entries with
    | nil =>
      have hread := hv (nextLevel level) true (.object acc k) levels _ hne
        (delimited_closing level (c := chr '}') (by decide) t)
      exact hread.trans (hentries false _)
    | cons f entries =>
      have hread := hv (nextLevel level) true (.object acc k) levels
        (chr ',' :: (crlf level ++ (entriesToString (f :: entries) level ++
          (crlf level ++ (indentOf level ++ chr '}' :: t))))) hne (delimited_cons (by decide) _)
      have hcomma := @TokenRead.comma (.object (acc.addValue k (reread v)) [] :: levels)
        (crlf level ++ (entriesToString (f :: entries) level ++
          (crlf level ++ (indentOf level ++ chr '}' :: t)))) (by simp [Level.key])
      rw [← hentries true]
      refine hread.trans (hcomma.readFrom_eq.trans ?_)
      exact readFrom_spaces (spaces_crlf level) (by simp) true _

theorem readFrom_array {values : List JsonValue} (h : ∀ v ∈ values, Rereads v) (level : ℤ)
    (b : Bool) (levels : List Level) (t : Str) :
    readFrom b levels (toString (.array values) level ++ t) =
      closed (.array (rereadValues values)) levels t := by
  rw [JsonValue.toString]
  simp only [List.append_assoc, List.cons_append, List.nil_append]
  rw [TokenRead.openArray.readFrom_eq, readFrom_spaces (spaces_crlf level) (by simp),
    readFrom_values h, List.nil_append]

theorem readFrom_object {entries : JsonObject}
    (hsorted : entries.Pairwise fun e f => e.1 < f.1)
    (hkeys : ∀ e ∈ entries, e.1 ≠ [] ∧ PlainKey e.1) (h : ∀ e ∈ entries, Rereads e.2) (level : ℤ)
    (b : Bool) (levels : List Level) (t : Str) :
    readFrom b levels (toString (.object entries) level ++ t) =
      closed (.object (rereadEntries entries)) levels t := by
  have hall : addAll [] (rereadEntries entries) = rereadEntries entries := by
    rw [rereadEntries_eq_map]
    refine (addAll_eq_append [] ?_).trans (List.nil_append _)
    rw [List.nil_append, List.pairwise_map]
    exact hsorted
  rw [JsonValue.toString]
  simp only [List.append_assoc, List.cons_append, List.nil_append]
  rw [TokenRead.openObject.readFrom_eq, readFrom_spaces (spaces_crlf level) (by simp),
    readFrom_entries hkeys h, hall]

/-- Every legible value is reread where it stands. -/
theorem Storable.rereads {json : JsonValue} (hs : Storable json)
    (hl : Legible (fun _ => True) json) : Rereads json := by
  induction hs with
  | @array values hvalues ih =>
    obtain ⟨hl⟩ := hl
    intro level b l ls t _ _
    exact readFrom_array (fun v hv => ih v hv (hl v hv)) level b (l :: ls) t
  | @object entries hsorted hkeys hvalues ih =>
    obtain _ | ⟨hplain, hl⟩ := hl
    intro level b l ls t _ _
    exact readFrom_object hsorted (fun e he => ⟨(hkeys e he).1, hplain e he⟩)
      (fun e he => ih e he (hl e he)) level b (l :: ls) t
  | @string s hs =>
    obtain _ | _ | hplain := hl
    apply rereads_scalar
    intro level t _
    refine ⟨chr '"', escapeBackslashes s ++ [chr '"'], rfl, ?_⟩
    rw [List.append_assoc, List.singleton_append]
    exact .string (body_escapeBackslashes hplain)
  | @integer n =>
    apply rereads_scalar
    intro level t ht
    exact scalarRead_decimalInt n ht
  | @boolean b =>
    apply rereads_scalar
    intro level t _
    cases b with
    | true => exact ⟨_, _, rfl, .isTrue⟩
    | false => exact ⟨_, _, rfl, .isFalse⟩
  | null =>
    apply rereads_scalar
    intro level t _
    exact ⟨_, _, rfl, .isNull⟩

end TarotClub.JsonReader
