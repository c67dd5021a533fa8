import TarotClub.JsonLiberties

namespace TarotClub.JsonReader

open JsonText (Blank Derives Digits Document Number SomeDigits StringOf Symbol Tokens numeral
  standard)

/-- The tokens of the standard that the reader reads: exponents that an `int` holds, strings
without a DEL character, and keys that are not empty. -/
def readable : Tokens where
  number := Number JsonText.Integer SomeDigits fun ds => SomeDigits ds ∧ numeral ds < 2 ^ 31
  string := StringOf fun c => JsonText.Character c ∧ 0x7F ∉ c
  key x := StringOf (fun c => JsonText.Character c ∧ 0x7F ∉ c) x ∧ x ≠ [0x22, 0x22]

theorem spaces_of_blank {w : Str} (hw : Blank w) : Spaces w := by
  intro c hc
  rcases hw c hc with rfl | rfl | rfl | rfl
  all_goals decide

/-! ### Tokens -/

theorem Body.append {b d b' d' : Str} (h : Body b d) (h' : Body b' d') :
    Body (b ++ b') (d ++ d') := by
  induction h with
  | nil => exact h'
  | cons hc _ ih =>
    rw [List.append_assoc, List.append_assoc]
    exact .cons hc ih

/-- Bytes with their highest bit are read as they are. -/
theorem body_high {s : Str} (h : ∀ c ∈ s, 0x80 ≤ c) : Body s s := by
  have hplain : ∀ c : UInt8, 0x80 ≤ c → c ≠ chr '\\' ∧ isCntrl c = false ∧ c ≠ chr '"' :=
    forall_byte (by decide +kernel)
  induction s with
  | nil => exact .nil
  | cons c s ih =>
    obtain ⟨h1, h2, h3⟩ := hplain c (h c List.mem_cons_self)
    exact .cons (.plain h1 h2 h3) (ih fun d hd => h d (List.mem_cons_of_mem c hd))

/-- A character of the standard is read, unless it is DEL. -/
theorem body_of_character {x : Str} (h : JsonText.Character x) :
    (∃ d, Body x d) ∧ 0x7F ∉ x ∨ x = [0x7F] := by
  cases h with
  | @unescaped c h1 h2 h3 =>
    by_cases hascii : c.toNat < 0x80
    · rw [JsonText.utf8EncodeChar_ascii hascii]
      by_cases hdel : c.toNat = 0x7F
      · right
        rw [hdel]
        rfl
      · left
        have hplain : ∀ n < 0x80, 0x20 ≤ n ∧ n ≠ 0x7F ∧ n ≠ 0x22 ∧ n ≠ 0x5C →
            UInt8.ofNat n ≠ chr '\\' ∧ isCntrl (UInt8.ofNat n) = false ∧
              UInt8.ofNat n ≠ chr '"' ∧ (0x7F : UInt8) ≠ UInt8.ofNat n := by decide +kernel
        have hquote : c.toNat ≠ 0x22 := fun h => h2 (Char.toNat_inj.mp h)
        have hslash : c.toNat ≠ 0x5C := fun h => h3 (Char.toNat_inj.mp h)
        obtain ⟨h1, h2, h3, h4⟩ := hplain c.toNat hascii ⟨h1, hdel, hquote, hslash⟩
        exact ⟨⟨_, .cons (.plain h1 h2 h3) .nil⟩, by simpa using h4⟩
    · have hhigh := JsonText.utf8EncodeChar_high (not_lt.mp hascii)
      refine .inl ⟨⟨_, body_high hhigh⟩, ?_⟩
      intro hmem
      exact absurd (hhigh _ hmem) (by decide)
  | @escape e he =>
    have h : ∀ e : UInt8, e ∈ [0x22, 0x5C, 0x2F, 0x62, 0x66, 0x6E, 0x72, 0x74] →
        (simpleEscape e).isSome = true ∧ (0x7F : UInt8) ∉ [0x5C, e] :=
      forall_byte (by decide +kernel)
    obtain ⟨hsome, hdel⟩ := h e he
    obtain ⟨b, hb⟩ := Option.isSome_iff_exists.mp hsome
    exact .inl ⟨⟨_, .cons (.escape hb) .nil⟩, hdel⟩
  | @unicode a b c d hx =>
    have h : ∀ c : UInt8, isXDigit c = true → 0x7F ≠ c := forall_byte (by decide +kernel)
    have hx' : (isXDigit a && isXDigit b && isXDigit c && isXDigit d) = true := hx
    refine .inl ⟨⟨_, .cons (.unicode hx') .nil⟩, ?_⟩
    simp only [Bool.and_eq_true] at hx'
    obtain ⟨⟨⟨ha, hb⟩, hc⟩, hd⟩ := hx'
    simp [h a ha, h b hb, h c hc, h d hd]

/-- The characters of a string of the standard are read, unless there is a DEL among them. -/
theorem body_of_characters {cs : List Str} (h : ∀ c ∈ cs, JsonText.Character c ∧ 0x7F ∉ c) :
    ∃ d, Body cs.flatten d := by
  induction cs with
  | nil => exact ⟨[], .nil⟩
  | cons c cs ih =>
    obtain ⟨e, he⟩ := ih fun c' hc => h c' (List.mem_cons_of_mem c hc)
    obtain ⟨hc, hdel⟩ := h c List.mem_cons_self
    rcases body_of_character hc with ⟨⟨d, hd⟩, -⟩ | rfl
    · exact ⟨d ++ e, hd.append he⟩
    · exact absurd (List.mem_singleton_self _) hdel

/-- A DEL in a string is an error. -/
theorem readString_del {cs : List Str} (h : ∀ c ∈ cs, JsonText.Character c)
    (hdel : ¬ ∀ c ∈ cs, 0x7F ∉ c) (s temp : Str) :
    readString (cs.flatten ++ s) temp = .error .badString := by
  induction cs generalizing temp with
  | nil => exact absurd (fun c hc => absurd hc List.not_mem_nil) hdel
  | cons c cs ih =>
    rw [List.flatten_cons, List.append_assoc]
    rcases body_of_character (h c List.mem_cons_self) with ⟨⟨d, hd⟩, hfree⟩ | rfl
    · rw [readString_body hd]
      refine ih (fun c' hc => h c' (List.mem_cons_of_mem c hc)) ?_ (temp ++ d)
      intro hall
      exact hdel (List.forall_mem_cons.mpr ⟨hfree, hall⟩)
    · have hslash : (0x7F : UInt8) ≠ chr '\\' := by decide
      have hcntrl : isCntrl 0x7F = true := by decide
      rw [List.singleton_append, readString.eq_def]
      simp only [hslash, hcntrl, if_true, if_false]

theorem stringText_of_readable {x : Str} (h : readable.string x) : StringText x := by
  obtain ⟨cs, hcs, ⟨⟩⟩ := h
  obtain ⟨d, hd⟩ := body_of_characters hcs
  exact stringText_iff.mpr ⟨cs.flatten, d, hd, rfl⟩

/-- Digits before the point start a number that the reader takes. -/
theorem startsNumber_of_someDigits {minus ds u : Str} (hm : minus = [] ∨ minus = [chr '-'])
    (hd : SomeDigits ds) :
    StartsNumber (minus ++ (ds ++ u)) := by
  obtain ⟨d, ds, rfl⟩ := List.exists_cons_of_ne_nil hd.1
  have hdigit : isDigit d = true := hd.2 d List.mem_cons_self
  rcases hm with rfl | rfl
  · exact .inl hdigit
  · exact .inr ⟨d, ds ++ u, rfl, .inl hdigit⟩

theorem numeral_of_readable {x : Str} (h : readable.number x) : Numeral x := by
  have hnumber : Number Digits Digits IntDigits x :=
    h.mono (fun _ hi => hi.someDigits.2) (fun _ hf => hf.2) fun _ he => ⟨he.1.2, he.2⟩
  refine ⟨hnumber, ?_⟩
  obtain ⟨hm, hi, -, -⟩ := h
  exact startsNumber_of_someDigits hm hi.someDigits

/-! ### Documents of readable tokens take no liberty -/

theorem standard_of_readable {a : Symbol} {x : Str} (h : Derives readable a x) :
    Derives standard a x := by
  have hstring : ∀ x, readable.string x → standard.string x := by
    rintro x ⟨cs, hcs, hx⟩
    exact ⟨cs, fun c hc => (hcs c hc).1, hx⟩
  refine h.mono ?_ hstring ?_
  · intro x hx
    exact hx.mono (fun _ => id) (fun _ => id) fun _ he => he.1
  · intro x hx
    exact hstring x hx.1

theorem delimited_spaces {w t : Str} (hw : Spaces w) (ht : Delimited t) : Delimited (w ++ t) := by
  cases w with
  | nil => exact ht
  | cons c w =>
    have hc : isSpace c = true := hw c List.mem_cons_self
    have hdelim : isDelim c = true := by simp [isDelim, hc]
    exact delimited_cons hdelim _

section

variable {ls : List Liberty} {p : Point} {f : Frame} {x t : Str}

theorem Inside.blank {w : Str} (hw : Blank w) (h : Inside ls p f x) : Inside ls p f (w ++ x) := by
  induction w with
  | nil => exact h
  | cons c w ih =>
    have hc : Blank [c] := by
      intro d hd
      rw [List.mem_singleton.mp hd]
      exact hw c List.mem_cons_self
    have hspace := Inside.space (spaces_of_blank hc c (List.mem_singleton_self c))
      (ih fun d hd => hw d (List.mem_cons_of_mem c hd))
    rwa [onSpaces_eq_nil.mpr hc, List.nil_append] at hspace

theorem Inside.value (hp : p ≠ .filled) (hf : f ≠ .object false) (hx : ScalarText x)
    (hvalue : Derives standard .value x) (ht : Delimited t) (h : Inside ls .filled f.filled t) :
    Inside ls p f (x ++ t) := by
  have htakes : f.Takes x := (Frame.takes_iff hf x).mpr hx
  have htoken := Inside.token (p := p) htakes ht (Frame.after_eq hf x ▸ h)
  rwa [Point.onValue_eq_nil.mpr hp, (Frame.onToken_value hf).mpr hvalue] at htoken

theorem Inside.key (hp : p ≠ .filled) (hx : readable.key x) (ht : Delimited t)
    (h : Inside ls .filled (.object true) t) : Inside ls p (.object false) (x ++ t) := by
  have hstandard : standard.key x := by
    obtain ⟨⟨cs, hcs, hquoted⟩, -⟩ := hx
    exact ⟨cs, fun c hc => (hcs c hc).1, hquoted⟩
  have hafter : (Frame.object false).after x = .object true :=
    congrArg Frame.object (decide_eq_true hx.2)
  have htoken := Inside.token (p := p) (f := .object false) (stringText_of_readable hx.1) ht
    (hafter ▸ h)
  rwa [Point.onValue_eq_nil.mpr hp, Frame.onToken_key.mpr ⟨hx.2, hstandard⟩] at htoken

end

/-- What a part of a document is to the reader's grammar, where it stands. -/
def Placed : Symbol → Str → Prop
  | .container, x => Bracketed [] x
  | .value, x | .element, x => ∀ ls p f t, p ≠ .filled → f ≠ .object false → Delimited t →
      Inside ls .filled f.filled t → Inside ls p f (x ++ t)
  | .elements, x => ∀ ls p t, p ≠ .filled → Delimited t → Inside ls .filled .array t →
      Inside ls p .array (x ++ t)
  | .member, x | .members, x => ∀ ls p t, p ≠ .filled → Delimited t →
      Inside ls .filled (.object false) t → Inside ls p (.object false) (x ++ t)

theorem placed_scalar {x : Str} (hx : ScalarText x) (hvalue : Derives readable .value x) :
    Placed .value x := by
  intro ls p f t hp hf ht hin
  exact hin.value hp hf hx (standard_of_readable hvalue) ht

theorem placed_of_derives {a : Symbol} {x : Str} (h : Derives readable a x) : Placed a x := by
  have harray : ∀ p : Point, p ≠ .separated → Inside [] p .array [chr ']'] := by
    intro p hp
    have hclose := Inside.close (p := p) (f := .array) rfl
    rwa [Point.onClose_eq_nil.mpr hp] at hclose
  have hobject : ∀ p : Point, p ≠ .separated → Inside [] p (.object false) [chr '}'] := by
    intro p hp
    have hclose := Inside.close (p := p) (f := .object false) rfl
    rwa [Point.onClose_eq_nil.mpr hp] at hclose
  have hend : ∀ c ∈ [chr ']', chr '}', chr ',', chr ':'], ∀ t, Delimited (c :: t) := by
    intro c hc t
    exact delimited_cons (by revert c; decide) t
  induction h with
  | emptyArray hw => exact .intro (f := .array) rfl (.blank hw (harray .opened (by decide)))
  | array _ ih =>
    exact .intro (f := .array) rfl
      (ih [] .opened [chr ']'] (by decide) (hend _ (by decide) _) (harray .filled (by decide)))
  | emptyObject hw =>
    exact .intro (f := .object false) rfl (.blank hw (hobject .opened (by decide)))
  | object _ ih =>
    exact .intro (f := .object false) rfl
      (ih [] .opened [chr '}'] (by decide) (hend _ (by decide) _) (hobject .filled (by decide)))
  | container _ ih =>
    intro ls p f t hp hf _ hin
    cases ih with
    | intro hc hx =>
      have hbracket := Inside.bracket (p := p) hc hx hin
      rwa [Point.onValue_eq_nil.mpr hp, Frame.onBracket_eq_nil.mpr hf] at hbracket
  | isFalse => exact placed_scalar (.word (by decide)) .isFalse
  | isNull => exact placed_scalar (.word (by decide)) .isNull
  | isTrue => exact placed_scalar (.word (by decide)) .isTrue
  | number hx => exact placed_scalar (.number (numeral_of_readable hx)) (.number hx)
  | string hx => exact placed_scalar (.string (stringText_of_readable hx)) (.string hx)
  | element hw _ hw' ih =>
    intro ls p f t hp hf ht hin
    have hvalue := ih ls p f _ hp hf (delimited_spaces (spaces_of_blank hw') ht) (hin.blank hw')
    simpa only [List.append_assoc] using hvalue.blank hw
  | lastElement _ ih =>
    intro ls p t hp ht hin
    exact ih ls p .array t hp (by decide) ht hin
  | @elements x y _ _ ih ih' =>
    intro ls p t hp ht hin
    have hrest : Inside ls .filled .array (chr ',' :: (y ++ t)) :=
      .separator (f := .array) (ih' ls .separated t (by decide) ht hin)
    have hvalue := ih ls p .array _ hp (by decide) (hend _ (by decide) _) hrest
    simp only [List.append_assoc, List.cons_append]
    exact hvalue
  | @member w k w' x hw hk hw' _ ih =>
    intro ls p t hp ht hin
    have hvalue := ih ls .separated (.object true) t (by decide) (by decide) ht hin
    have hcolon : Inside ls .filled (.object true) (w' ++ chr ':' :: (x ++ t)) :=
      .blank hw' (.separator (f := .object true) hvalue)
    have hdelim : Delimited (w' ++ chr ':' :: (x ++ t)) :=
      delimited_spaces (spaces_of_blank hw') (hend _ (by decide) _)
    simp only [List.append_assoc, List.cons_append]
    exact (hcolon.key hp hk hdelim).blank hw
  | lastMember _ ih => exact ih
  | @members x y _ _ ih ih' =>
    intro ls p t hp ht hin
    have hrest : Inside ls .filled (.object false) (chr ',' :: (y ++ t)) :=
      .separator (f := .object false) (ih' ls .separated t (by decide) ht hin)
    have hvalue := ih ls p _ hp (hend _ (by decide) _) hrest
    simp only [List.append_assoc, List.cons_append]
    exact hvalue

/-- A document whose tokens are readable takes no liberty. -/
theorem written_of_document {s : Str} (h : Document readable s) : Written [] s := by
  obtain ⟨w, x, w', hw, hx, hw', rfl⟩ := h
  refine ⟨w, [], x, w', spaces_of_blank hw, placed_of_derives hx, rfl, ?_⟩
  rw [onSpaces_eq_nil.mpr hw, onTrailing_eq_nil.mpr hw']
  rfl

/-! ### The documents that are accepted have readable tokens -/

/-- The reading succeeds from here, whatever values the open brackets hold. -/
def Succeeds (b : Bool) (fs : List Frame) (s : Str) : Prop :=
  ∃ levels, levels.map Level.frame = fs ∧ Accepts b levels s

theorem Succeeds.of_spaces {b : Bool} {fs : List Frame} {w s : Str} (hw : Spaces w)
    (h : Succeeds b fs (w ++ s)) : Succeeds b fs s := by
  obtain ⟨levels, hl, json, h⟩ := h
  refine ⟨levels, hl, json, ?_⟩
  by_cases hs : s = []
  · subst hs
    by_cases hempty : w = []
    · rwa [hempty] at h
    · have hturn : parseTurn b levels (w ++ []) = .stop .overRead := parseTurn_spaces hw b levels []
      rw [readFrom_stop (by simpa using hempty) hturn] at h
      contradiction
  · rwa [readFrom_spaces hw hs] at h

theorem Accepts.of_token {b b' : Bool} {levels levels' : List Level} {c : UInt8} {s t : Str}
    (htoken : TokenRead b levels c s b' levels' t) (h : Accepts b levels (c :: s)) :
    Accepts b' levels' t := by
  obtain ⟨json, h⟩ := h
  exact ⟨json, htoken.readFrom_eq.symm.trans h⟩

theorem not_accepts_of_stop {b : Bool} {levels : List Level} {s : Str} {o : ParseOutcome}
    (hs : s ≠ []) (hstop : parseTurn b levels s = .stop o) (ho : ∀ json, o ≠ .ok json) :
    ¬ Accepts b levels s := by
  rintro ⟨json, h⟩
  rw [readFrom_stop hs hstop] at h
  exact ho json h

/-- A scalar that is in error ends the reading. -/
theorem not_accepts_of_error {b : Bool} {levels : List Level} {c : UInt8} {s : Str}
    {o : ParseOutcome} (hc : isSpace c = false) (h : readScalar c s = some (.error o)) :
    ¬ Accepts b levels (c :: s) := by
  have ho : ∀ json, o ≠ .ok json := by
    rcases readScalar_stop h with ⟨e, rfl⟩ | ⟨rfl, -⟩
    all_goals simp
  refine not_accepts_of_stop (List.cons_ne_nil c s) ?_ ho
  rw [parseTurn_cons hc, h]

theorem Succeeds.of_openArray {b : Bool} {fs : List Frame} {s : Str}
    (h : Succeeds b fs (chr '[' :: s)) : Succeeds true (.array :: fs) s := by
  obtain ⟨levels, rfl, h⟩ := h
  exact ⟨.array [] :: levels, rfl, h.of_token .openArray⟩

theorem Succeeds.of_openObject {b : Bool} {fs : List Frame} {s : Str}
    (h : Succeeds b fs (chr '{' :: s)) : Succeeds true (.object false :: fs) s := by
  obtain ⟨levels, rfl, h⟩ := h
  exact ⟨.object [] [] :: levels, rfl, h.of_token .openObject⟩

theorem Succeeds.of_closeArray {b : Bool} {f : Frame} {fs : List Frame} {s : Str}
    (h : Succeeds b (.array :: f :: fs) (chr ']' :: s)) : Succeeds false (f.filled :: fs) s := by
  obtain ⟨levels, hl, h⟩ := h
  obtain ⟨l, ls, rfl, hf, hl⟩ := List.map_eq_cons_iff.mp hl
  obtain ⟨m, ms, rfl, rfl, rfl⟩ := List.map_eq_cons_iff.mp hl
  obtain ⟨values, rfl⟩ := eq_array_of_frame hf
  refine ⟨m.addValue (.array values) :: ms, ?_, h.of_token .closeArray⟩
  rw [List.map_cons, frame_addValue]

theorem Succeeds.of_closeObject {b : Bool} {f : Frame} {fs : List Frame} {s : Str}
    (h : Succeeds b (.object false :: f :: fs) (chr '}' :: s)) :
    Succeeds false (f.filled :: fs) s := by
  obtain ⟨levels, hl, h⟩ := h
  obtain ⟨l, ls, rfl, hf, hl⟩ := List.map_eq_cons_iff.mp hl
  obtain ⟨m, ms, rfl, rfl, rfl⟩ := List.map_eq_cons_iff.mp hl
  obtain ⟨entries, key, rfl, hkey⟩ := eq_object_of_frame hf
  obtain rfl : key = [] := by simpa using hkey
  refine ⟨m.addValue (.object entries) :: ms, ?_, h.of_token .closeObject⟩
  rw [List.map_cons, frame_addValue]

theorem Succeeds.of_comma {f : Frame} {fs : List Frame} {s : Str} (hf : f ≠ .object true)
    (h : Succeeds false (f :: fs) (chr ',' :: s)) : Succeeds true (f :: fs) s := by
  obtain ⟨levels, hl, h⟩ := h
  obtain ⟨l, ls, rfl, rfl, rfl⟩ := List.map_eq_cons_iff.mp hl
  have hkey := key_eq_nil_of_frame hf
  exact ⟨l :: ls, rfl, h.of_token (.comma (by simp [hkey]))⟩

theorem Succeeds.of_colon {fs : List Frame} {s : Str}
    (h : Succeeds false (.object true :: fs) (chr ':' :: s)) :
    Succeeds true (.object true :: fs) s := by
  obtain ⟨levels, hl, h⟩ := h
  obtain ⟨l, ls, rfl, hf, rfl⟩ := List.map_eq_cons_iff.mp hl
  obtain ⟨entries, key, rfl, hkey⟩ := eq_object_of_frame hf
  refine ⟨.object entries key :: ls, ?_, h.of_token (.colon (hkey.mp rfl))⟩
  rw [List.map_cons, hf]

/-- Without a key no colon is read. -/
theorem not_succeeds_colon (b : Bool) (fs : List Frame) (s : Str) :
    ¬ Succeeds b (.object false :: fs) (chr ':' :: s) := by
  rintro ⟨levels, hl, h⟩
  obtain ⟨l, ls, rfl, hf, rfl⟩ := List.map_eq_cons_iff.mp hl
  obtain ⟨entries, key, rfl, hkey⟩ := eq_object_of_frame hf
  obtain rfl : key = [] := by simpa using hkey
  refine not_accepts_of_stop (List.cons_ne_nil _ s) (o := .error .unexpectedCharacter) ?_
    (by simp) h
  rw [parseTurn_cons (by decide), readScalar_punctuation s _ (by decide)]
  exact (readPunctuation_colon b _ ls s).trans (if_pos (.inr rfl))

/-- A scalar that is read as a value. -/
theorem Succeeds.of_scalar {b : Bool} {f : Frame} {fs : List Frame} {c : UInt8} {s t : Str}
    {v : JsonValue} (hread : ScalarRead c s v t) (ht : Delimited t) (hf : f ≠ .object false)
    (h : Succeeds b (f :: fs) (c :: s)) : Succeeds false (f.filled :: fs) t := by
  obtain ⟨levels, hl, h⟩ := h
  obtain ⟨l, ls, rfl, rfl, rfl⟩ := List.map_eq_cons_iff.mp hl
  have hready : Ready l := ready_iff.mpr hf
  refine ⟨l.addValue v :: ls, ?_, h.of_token (.scalar hread ht (addScalar_ready hready ls v))⟩
  rw [List.map_cons, frame_addValue]

theorem Succeeds.of_scalarText {b : Bool} {f : Frame} {fs : List Frame} {x t : Str}
    (hx : ScalarText x) (ht : Delimited t) (hf : f ≠ .object false)
    (h : Succeeds b (f :: fs) (x ++ t)) : Succeeds false (f.filled :: fs) t := by
  obtain ⟨c, y, v, rfl, hread⟩ := hx.scalarRead ht
  exact h.of_scalar hread ht hf

/-- A number of the standard that is read has an exponent that an `int` holds. -/
theorem Succeeds.of_number {b : Bool} {f : Frame} {fs : List Frame} {x t : Str}
    (hx : standard.number x) (ht : Delimited t) (hf : f ≠ .object false)
    (h : Succeeds b (f :: fs) (x ++ t)) :
    readable.number x ∧ Succeeds false (f.filled :: fs) t := by
  have hread : ∀ {x}, readable.number x → Succeeds b (f :: fs) (x ++ t) →
      readable.number x ∧ Succeeds false (f.filled :: fs) t := by
    intro x hx h
    exact ⟨hx, h.of_scalarText (.number (numeral_of_readable hx)) ht hf⟩
  obtain @⟨minus, int, frac, exp, hm, hi, hfrac, he⟩ := hx
  cases he with
  | none => exact hread (.parts hm hi hfrac .none) h
  | @mark e sign ds he hs hd =>
    by_cases hlt : numeral ds < 2 ^ 31
    · exact hread (.parts hm hi hfrac (.mark he hs ⟨hd, hlt⟩)) h
    · exfalso
      have hstart := startsNumber_of_someDigits hm hi.someDigits
        (u := frac ++ e :: (sign ++ ds))
      have hnone := stringToNumber_overflow hm hi.someDigits.2
        (hfrac.mono fun _ hd => hd.2) he hs hd.2 hlt ht
      have htext : minus ++ (int ++ (frac ++ e :: (sign ++ (ds ++ t)))) =
          minus ++ (int ++ (frac ++ e :: (sign ++ ds))) ++ t := by simp
      rw [htext] at hnone
      obtain ⟨c, y, hy⟩ : ∃ c y, minus ++ (int ++ (frac ++ e :: (sign ++ ds))) = c :: y :=
        List.exists_cons_of_ne_nil (by simp)
      rw [hy] at h hstart hnone
      rw [List.cons_append] at h hnone
      have hscalar := readScalar_number hstart t
      rw [hnone] at hscalar
      have hspace : isSpace c = false := by
        have hfirst : ∀ c : UInt8, c = chr '-' ∨ isDigit c = true → isSpace c = false :=
          forall_byte (by decide +kernel)
        apply hfirst
        rcases hstart with hd | ⟨d, z, hz, -⟩
        · exact .inr hd
        · exact .inl (List.cons.inj hz).1
      obtain ⟨levels, -, h⟩ := h
      exact not_accepts_of_error hspace hscalar h

/-- A string of the standard that is read holds no DEL. -/
theorem readable_of_stringOf {b : Bool} {fs : List Frame} {x t : Str}
    (hx : StringOf JsonText.Character x) (h : Succeeds b fs (x ++ t)) : readable.string x := by
  obtain ⟨cs, hcs, ⟨⟩⟩ := hx
  by_cases hdel : ∀ c ∈ cs, 0x7F ∉ c
  · exact ⟨cs, fun c hc => ⟨hcs c hc, hdel c hc⟩, .marks cs⟩
  · exfalso
    have herror := readString_del hcs hdel (chr '"' :: t) []
    have hscalar : readScalar (chr '"') (cs.flatten ++ chr '"' :: t) =
        some (.error (.error .badString)) := by
      rw [readScalar, if_neg (by decide), if_pos rfl, herror]
    obtain ⟨levels, -, h⟩ := h
    rw [List.cons_append, List.append_assoc] at h
    exact not_accepts_of_error (by decide) hscalar h

/-- A key that is read and followed by a colon is not empty. -/
theorem Succeeds.of_key {b : Bool} {fs : List Frame} {k w s : Str} (hk : standard.key k)
    (hw : Spaces w) (h : Succeeds b (.object false :: fs) (k ++ (w ++ chr ':' :: s))) :
    readable.key k ∧ Succeeds true (.object true :: fs) s := by
  have hreadable := readable_of_stringOf hk h
  have ht : Delimited (w ++ chr ':' :: s) := delimited_spaces hw (delimited_cons (by decide) s)
  obtain ⟨x, d, hb, rfl⟩ := stringText_iff.mp (stringText_of_readable hreadable)
  obtain ⟨levels, hl, h⟩ := h
  obtain ⟨l, ls, rfl, hf, hfs⟩ := List.map_eq_cons_iff.mp hl
  obtain ⟨entries, key, rfl, hkey⟩ := eq_object_of_frame hf
  obtain rfl : key = [] := by simpa using hkey
  rw [List.cons_append, List.append_assoc, List.singleton_append] at h
  have htoken : TokenRead b (.object entries [] :: ls) (chr '"')
      (x ++ chr '"' :: (w ++ chr ':' :: s)) false (.object entries d :: ls)
      (w ++ chr ':' :: s) := .scalar (.string hb) ht rfl
  have hnext := h.of_token htoken
  by_cases hd : d = []
  · exfalso
    subst hd
    refine not_succeeds_colon false fs s (.of_spaces hw ?_)
    exact ⟨.object entries [] :: ls, by rw [List.map_cons, hfs]; rfl, hnext⟩
  · have hframe : (Level.object entries d).frame = .object true :=
      congrArg Frame.object (decide_eq_true hd)
    have hcolon : Succeeds false (.object true :: fs) (w ++ chr ':' :: s) :=
      ⟨.object entries d :: ls, by rw [List.map_cons, hfs, hframe], hnext⟩
    refine ⟨⟨hreadable, ?_⟩, (hcolon.of_spaces hw).of_colon⟩
    have hx : x ≠ [] := fun hx => hd (hb.read_eq_nil.mpr hx)
    have hne : chr '"' :: (x ++ [chr '"']) ≠ [chr '"', chr '"'] := by simp [hx]
    exact hne

/-- What a part of a document that has been read has to be, and how the reading goes on. -/
def Traced : Symbol → Str → Prop
  | .container, x => ∀ b fs t, Succeeds b fs (x ++ t) → Derives readable .container x ∧
      ∀ f fs', fs = f :: fs' → Succeeds false (f.filled :: fs') t
  | .value, x => ∀ b f fs t, f ≠ .object false → Delimited t → Succeeds b (f :: fs) (x ++ t) →
      Derives readable .value x ∧ Succeeds false (f.filled :: fs) t
  | .element, x => ∀ b f fs t, f ≠ .object false → Delimited t →
      Succeeds b (f :: fs) (x ++ t) →
      Derives readable .element x ∧ Succeeds false (f.filled :: fs) t
  | .elements, x => ∀ b fs t, Delimited t → Succeeds b (.array :: fs) (x ++ t) →
      Derives readable .elements x ∧ Succeeds false (.array :: fs) t
  | .member, x => ∀ b fs t, Delimited t → Succeeds b (.object false :: fs) (x ++ t) →
      Derives readable .member x ∧ Succeeds false (.object false :: fs) t
  | .members, x => ∀ b fs t, Delimited t → Succeeds b (.object false :: fs) (x ++ t) →
      Derives readable .members x ∧ Succeeds false (.object false :: fs) t

theorem traced_word {x : Str} (hx : x ∈ [str "true", str "false", str "null"])
    (hd : Derives readable .value x) : Traced .value x := by
  intro b f fs t hf ht h
  exact ⟨hd, h.of_scalarText (.word hx) ht hf⟩

theorem traced_of_derives {a : Symbol} {x : Str} (h : Derives standard a x) : Traced a x := by
  -- on the derivation: each rule is read token by token, and what is behind it goes on
  induction h with
  | @emptyArray w hw =>
    intro b fs t h
    refine ⟨.emptyArray hw, ?_⟩
    rintro f fs' rfl
    simp only [List.cons_append, List.append_assoc, List.nil_append] at h
    have h := Succeeds.of_openArray (s := w ++ chr ']' :: t) h
    exact (h.of_spaces (spaces_of_blank hw)).of_closeArray
  | @array x _ ih =>
    intro b fs t h
    simp only [List.cons_append, List.append_assoc, List.nil_append] at h
    have h := Succeeds.of_openArray (s := x ++ chr ']' :: t) h
    obtain ⟨hd, h⟩ := ih _ _ _ (delimited_cons (by decide) t) h
    refine ⟨.array hd, ?_⟩
    rintro f fs' rfl
    exact h.of_closeArray
  | @emptyObject w hw =>
    intro b fs t h
    refine ⟨.emptyObject hw, ?_⟩
    rintro f fs' rfl
    simp only [List.cons_append, List.append_assoc, List.nil_append] at h
    have h := Succeeds.of_openObject (s := w ++ chr '}' :: t) h
    exact (h.of_spaces (spaces_of_blank hw)).of_closeObject
  | @object x _ ih =>
    intro b fs t h
    simp only [List.cons_append, List.append_assoc, List.nil_append] at h
    have h := Succeeds.of_openObject (s := x ++ chr '}' :: t) h
    obtain ⟨hd, h⟩ := ih _ _ _ (delimited_cons (by decide) t) h
    refine ⟨.object hd, ?_⟩
    rintro f fs' rfl
    exact h.of_closeObject
  | container _ ih =>
    intro b f fs t _ _ h
    obtain ⟨hd, h⟩ := ih b (f :: fs) t h
    exact ⟨.container hd, h f fs rfl⟩
  | isFalse => exact traced_word (by decide) .isFalse
  | isNull => exact traced_word (by decide) .isNull
  | isTrue => exact traced_word (by decide) .isTrue
  | number hx =>
    intro b f fs t hf ht h
    obtain ⟨hread, h⟩ := h.of_number hx ht hf
    exact ⟨.number hread, h⟩
  | string hx =>
    intro b f fs t hf ht h
    have hread := readable_of_stringOf hx h
    exact ⟨.string hread, h.of_scalarText (.string (stringText_of_readable hread)) ht hf⟩
  | element hw _ hw' ih =>
    intro b f fs t hf ht h
    have hs := spaces_of_blank hw
    have hs' := spaces_of_blank hw'
    simp only [List.append_assoc] at h
    obtain ⟨hd, h⟩ := ih b f fs _ hf (delimited_spaces hs' ht) (h.of_spaces hs)
    exact ⟨.element hw hd hw', h.of_spaces hs'⟩
  | lastElement _ ih =>
    intro b fs t ht h
    obtain ⟨hd, h⟩ := ih b .array fs t (by simp) ht h
    exact ⟨.lastElement hd, h⟩
  | elements _ _ ih ih' =>
    intro b fs t ht h
    simp only [List.append_assoc, List.cons_append] at h
    obtain ⟨hd, h⟩ := ih b .array fs _ (by simp) (delimited_cons (by decide) _) h
    obtain ⟨hd', h⟩ := ih' true fs t ht (Succeeds.of_comma (by simp) h)
    exact ⟨.elements hd hd', h⟩
  | member hw hk hw' _ ih =>
    intro b fs t ht h
    simp only [List.append_assoc, List.cons_append] at h
    obtain ⟨hkey, h⟩ := (h.of_spaces (spaces_of_blank hw)).of_key hk (spaces_of_blank hw')
    obtain ⟨hd, h⟩ := ih true (.object true) fs t (by simp) ht h
    exact ⟨.member hw hkey hw' hd, h⟩
  | lastMember _ ih =>
    intro b fs t ht h
    obtain ⟨hd, h⟩ := ih b fs t ht h
    exact ⟨.lastMember hd, h⟩
  | members _ _ ih ih' =>
    intro b fs t ht h
    simp only [List.append_assoc, List.cons_append] at h
    obtain ⟨hd, h⟩ := ih b fs _ (delimited_cons (by decide) _) h
    obtain ⟨hd', h⟩ := ih' true fs t ht (Succeeds.of_comma (by simp) h)
    exact ⟨.members hd hd', h⟩

/-- A document that is accepted has readable tokens. -/
theorem readable_of_accepts {s : Str} (hd : Document standard s) (h : Accepts true [] s) :
    Document readable s := by
  obtain ⟨w, x, w', hw, hx, hw', rfl⟩ := hd
  have hread : Succeeds true [] (x ++ w') := Succeeds.of_spaces (spaces_of_blank hw) ⟨[], rfl, h⟩
  obtain ⟨hx', -⟩ := traced_of_derives hx true [] w' hread
  exact ⟨w, x, w', hw, hx', hw', rfl⟩

/-! ### Acceptance and the standard -/

theorem parseString_eq_some_iff {s : Str} (hs : 0 ∉ s) {json : JsonValue} :
    parseString s = some json ↔ parse s = .ok json := by
  have htext : s.takeWhile (· ≠ 0) = s := by
    rw [List.takeWhile_eq_self_iff]
    intro c hc
    have hne : c ≠ 0 := fun h0 => hs (h0 ▸ hc)
    simpa using hne
  rw [parseString, htext]
  cases parse s <;> simp

/-- A text without NUL is accepted exactly when it is a document of the standard, if and only if
it takes no liberty in case the reader's grammar has it, and its exponents, strings and keys are
ones that the reader reads in case it is a document. -/
theorem parseString_iff_document_iff {s : Str} (hs : 0 ∉ s) :
    ((∃ json, parseString s = some json) ↔ Document standard s) ↔
      (∀ ls, Written ls s → ls = []) ∧ (Document standard s → Document readable s) := by
  have haccepts : (∃ json, parseString s = some json) ↔ Accepts true [] s :=
    exists_congr fun json => parseString_eq_some_iff hs
  rw [haccepts]
  constructor
  · intro h
    have hreadable : Document standard s → Document readable s := by
      intro hd
      exact readable_of_accepts hd (h.mpr hd)
    refine ⟨?_, hreadable⟩
    intro ls hls
    exact hls.unique (written_of_document (hreadable (h.mp hls.accepts)))
  · rintro ⟨hnone, hreadable⟩
    constructor
    · intro h
      obtain ⟨ls, hls⟩ := (accepts_iff_written s).mp h
      exact document_of_written (hnone ls hls ▸ hls)
    · intro hd
      exact (written_of_document (hreadable hd)).accepts

/-- Two values without a comma between them. -/
theorem written_without_comma : Written [.missingComma] (str "[true true]") := by
  have htrue : ScalarText (str "true") := .word (by decide)
  have htoken : Frame.array.onToken (str "true") = [] :=
    (Frame.onToken_value (by decide)).mpr .isTrue
  have hclose : Inside [] .filled .array (str "]") := Inside.close (p := .filled) rfl
  have hsecond : Inside [.missingComma] .filled .array (str "true" ++ str "]") := by
    have hsecond := Inside.token (p := .filled) (f := .array) htrue
      (delimited_cons (by decide) _) hclose
    rwa [htoken] at hsecond
  have hblank : Blank (str " ") := by unfold Blank; decide
  have hfirst : Inside [.missingComma] .opened .array
      (str "true" ++ (str " " ++ (str "true" ++ str "]"))) :=
    Inside.value (by decide) (by decide) htrue .isTrue (delimited_cons (by decide) _)
      (hsecond.blank hblank)
  refine ⟨[], [.missingComma], str "[true true]", [], ?_, .intro (f := .array) rfl hfirst, rfl, ?_⟩
  · intro c hc
    cases hc
  · rw [onSpaces_eq_nil.mpr blank_nil, onTrailing_eq_nil.mpr blank_nil]
    rfl

theorem document_pair : Document standard (str "[1,2]") := by
  have hnumber : ∀ d ∈ [(0x31 : UInt8), 0x32], Derives standard .element [d] := by
    intro d hd
    have hdigit : d ≠ 0x30 ∧ isDigit d = true := by revert d; decide
    have hint : JsonText.Integer [d] := .inr ⟨d, [], rfl, hdigit.1, hdigit.2, by simp [Digits]⟩
    have hnumber : standard.number ([] ++ ([d] ++ ([] ++ []))) := .parts (.inl rfl) hint .none .none
    have hvalue : Derives standard .value [d] := .number hnumber
    exact .element blank_nil hvalue blank_nil
  have helements : Derives standard .elements (str "1,2") :=
    .elements (hnumber 0x31 (by decide)) (.lastElement (hnumber 0x32 (by decide)))
  exact ⟨[], str "[1,2]", [], blank_nil, .array helements, blank_nil, rfl⟩

/-- The text `[true true]` takes a liberty, so the reader does not do there what the standard says;
`[1,2]` is a document and is accepted, so it takes none. -/
theorem parseString_iff_document_iff_comma :
    ¬ ((∃ json, parseString (str "[true true]") = some json) ↔
        Document standard (str "[true true]")) ∧
      ∀ ls, Written ls (str "[1,2]") → ls = [] := by
  constructor
  · intro h
    have hnone := ((parseString_iff_document_iff (by decide)).mp h).1 _ written_without_comma
    exact absurd hnone (by decide)
  · have haccepted : ∃ json, parseString (str "[1,2]") = some json :=
      Option.isSome_iff_exists.mp (by decide +kernel)
    exact ((parseString_iff_document_iff (by decide)).mp
      (iff_of_true haccepted document_pair)).1

/-- Between texts that are not blank at their ends there is no room for white space. -/
theorem eq_of_blanks {w x w' s : Str} (hw : Blank w) (hw' : Blank w') (h : s = w ++ (x ++ w'))
    (hhead : ∀ c ∈ s.head?, ¬ Blank [c]) (hlast : ∀ c ∈ s.getLast?, ¬ Blank [c]) : x = s := by
  have hnil : w = [] := by
    cases w with
    | nil => rfl
    | cons c w =>
      exfalso
      refine hhead c (by rw [h]; rfl) ?_
      intro d hd
      rw [List.mem_singleton.mp hd]
      exact hw c List.mem_cons_self
  have hnil' : w' = [] := by
    rcases List.eq_nil_or_concat w' with hnil | ⟨v, c, rfl⟩
    · exact hnil
    · exfalso
      refine hlast c (by rw [h]; simp) ?_
      intro d hd
      rw [List.mem_singleton.mp hd]
      exact hw' c (by simp)
  rw [h, hnil, hnil', List.nil_append, List.append_nil]

/-- Of the values only `true` starts with a `t`. -/
theorem eq_true_of_value {y : Str} (h : Derives standard .value (chr 't' :: y)) :
    y = str "rue" := by
  cases h with
  | container h => cases h
  | isTrue => rfl
  | number h =>
    exfalso
    generalize hx : chr 't' :: y = x at h
    obtain ⟨hm, hi, -, -⟩ := h
    obtain ⟨d, ds, rfl⟩ := List.exists_cons_of_ne_nil hi.someDigits.1
    have hdigit := hi.someDigits.2 d List.mem_cons_self
    rcases hm with rfl | rfl
    · obtain ⟨rfl, -⟩ := List.cons.inj hx
      exact absurd hdigit (by decide)
    · obtain ⟨hne, -⟩ := List.cons.inj hx
      exact absurd hne (by decide)
  | string h =>
    exfalso
    generalize hx : chr 't' :: y = x at h
    obtain ⟨cs, -, ⟨⟩⟩ := h
    obtain ⟨hne, -⟩ := List.cons.inj hx
    exact absurd hne (by decide)

theorem not_element_without_comma : ¬ Derives standard .element (str "true true") := by
  intro h
  generalize hs : str "true true" = s at h
  cases h with
  | element hw hx hw' =>
    have hvalue := eq_of_blanks hw hw' hs
      (by unfold Blank; decide) (by unfold Blank; decide)
    rw [hvalue] at hx
    exact absurd (eq_true_of_value (y := str "rue true") hx) (by decide)

theorem not_document_without_comma : ¬ Document standard (str "[true true]") := by
  rintro ⟨w, x, w', hw, hx, hw', h⟩
  have hcontainer := eq_of_blanks hw hw' h
    (by unfold Blank; decide) (by unfold Blank; decide)
  rw [hcontainer] at hx
  have hinner : ∀ y, str "[true true]" = 0x5B :: (y ++ [0x5D]) → y = str "true true" := by
    intro y hy
    have htail : str "true true" ++ [0x5D] = y ++ [0x5D] := (List.cons.inj hy).2
    exact (List.append_cancel_right htail).symm
  generalize hs : str "[true true]" = s at hx hinner
  cases hx with
  | emptyArray hw =>
    rw [hinner _ rfl] at hw
    exact absurd (hw (chr 't') (by decide)) (by decide)
  | array hx =>
    rw [hinner _ rfl] at hx
    generalize helements : str "true true" = y at hx
    cases hx with
    | lastElement hx =>
      rw [← helements] at hx
      exact not_element_without_comma hx
    | elements _ _ =>
      have hcomma : chr ',' ∉ str "true true" := by decide
      rw [helements] at hcomma
      exact hcomma (List.mem_append_right _ List.mem_cons_self)
  | emptyObject =>
    obtain ⟨hne, -⟩ := List.cons.inj hs
    exact absurd hne (by decide)
  | object =>
    obtain ⟨hne, -⟩ := List.cons.inj hs
    exact absurd hne (by decide)

/-- Two values without a comma between them are accepted. -/
theorem accepts_without_comma :
    ¬ ∀ s, 0 ∉ s → ((∃ json, parseString s = some json) ↔ Document standard s) := by
  intro h
  have hsome : (parseString (str "[true true]")).isSome = true := by decide +kernel
  have hdocument := (h (str "[true true]") (by decide)).mp (Option.isSome_iff_exists.mp hsome)
  exact not_document_without_comma hdocument

end TarotClub.JsonReader
