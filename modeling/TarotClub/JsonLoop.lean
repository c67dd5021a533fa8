import TarotClub.JsonScalars

namespace TarotClub.JsonReader

/-- How the reading ends from some point of the text on. -/
def readFrom (separator : Bool) (levels : List Level) (s : Str) : ParseOutcome :=
  parseLoop (s.length + 1) separator levels s

theorem parse_eq (s : Str) : parse s = readFrom true [] s := rfl

/-- White space, as `isspace` has it. -/
def Spaces (w : Str) : Prop := ∀ c ∈ w, isSpace c = true

/-- What a turn that goes on reads behind the white space: a character and the text that
follows it, with the separator flag, the open brackets and the rest of the text after it. -/
inductive TokenRead : Bool → List Level → UInt8 → Str → Bool → List Level → Str → Prop
  | scalar {b : Bool} {levels levels' : List Level} {c : UInt8} {s t : Str} {v : JsonValue} :
      ScalarRead c s v t → Delimited t → addScalar levels v = .ok levels' →
      TokenRead b levels c s false levels' t
  | openArray {b : Bool} {levels : List Level} {s : Str} :
      TokenRead b levels (chr '[') s true (.array [] :: levels) s
  | openObject {b : Bool} {levels : List Level} {s : Str} :
      TokenRead b levels (chr '{') s true (.object [] [] :: levels) s
  | closeArray {b : Bool} {values : List JsonValue} {l : Level} {ls : List Level} {s : Str} :
      TokenRead b (.array values :: l :: ls) (chr ']') s false
        (l.addValue (.array values) :: ls) s
  | closeObject {b : Bool} {entries : JsonObject} {l : Level} {ls : List Level} {s : Str} :
      TokenRead b (.object entries [] :: l :: ls) (chr '}') s false
        (l.addValue (.object entries) :: ls) s
  | colon {key : Str} {entries : JsonObject} {ls : List Level} {s : Str} : key ≠ [] →
      TokenRead false (.object entries key :: ls) (chr ':') s true (.object entries key :: ls) s
  | comma {levels : List Level} {s : Str} : (∀ l ∈ levels.head?, l.key = []) →
      TokenRead false levels (chr ',') s true levels s

/-- The closing bracket of the root, with the value of the document. -/
inductive RootClosed : List Level → UInt8 → JsonValue → Prop
  | array {values : List JsonValue} : RootClosed [.array values] (chr ']') (.array values)
  | object {entries : JsonObject} : RootClosed [.object entries []] (chr '}') (.object entries)

/-- How a turn ends the call without a value: with a status, where only white space is left, or
at a number that overflows. -/
inductive Stops : Str → ParseOutcome → Prop
  | status (s : Str) (e : ParseStatus) : Stops s (.error e)
  | overRead {s : Str} : Spaces s → Stops s .overRead
  | overflow {w x : Str} : Spaces w → Oversized x → Stops (w ++ x) .overflow

theorem Stops.ne_ok {s : Str} {o : ParseOutcome} (h : Stops s o) (json : JsonValue) :
    o ≠ .ok json := by
  cases h with
  | status | overRead | overflow => simp

theorem StartsNumber.isSpace_eq {c : UInt8} {s : Str} (h : StartsNumber (c :: s)) :
    isSpace c = false := by
  have hdigit : ∀ c : UInt8, isDigit c = true → isSpace c = false :=
    forall_byte (by decide +kernel)
  rcases h with hd | ⟨d, y, hy, -⟩
  · exact hdigit c hd
  · rw [(List.cons.inj hy).1]
    decide

theorem ScalarRead.isSpace_eq {c : UInt8} {s t : Str} {v : JsonValue}
    (h : ScalarRead c s v t) : isSpace c = false := by
  cases h with
  | number hx => exact hx.2.isSpace_eq
  | string | unclosed | isTrue | isFalse | isNull => decide

theorem parseTurn_cons {c : UInt8} (hc : isSpace c = false) (b : Bool) (levels : List Level)
    (s : Str) : parseTurn b levels (c :: s) =
      match readScalar c s with
      | none => readPunctuation c b levels s
      | some (.error outcome) => .stop outcome
      | some (.ok (o, s)) =>
        match addScalar levels o with
        | .error e => .stop (.error e)
        | .ok levels => .go false levels s := by
  have hdrop : (c :: s).dropWhile isSpace = c :: s := List.dropWhile_cons_of_neg (by simp [hc])
  unfold parseTurn
  generalize (c :: s).dropWhile isSpace = u at hdrop
  subst hdrop
  rfl

theorem parseTurn_spaces {w : Str} (hw : Spaces w) (b : Bool) (levels : List Level) (s : Str) :
    parseTurn b levels (w ++ s) = parseTurn b levels s := by
  rw [parseTurn, parseTurn, List.dropWhile_append_of_pos hw]

/-- Brackets and separators are no scalars. -/
theorem readScalar_punctuation (s : Str) :
    ∀ c ∈ [chr '[', chr '{', chr ']', chr '}', chr ':', chr ','], readScalar c s = none := by
  have h : ∀ c ∈ [chr '[', chr '{', chr ']', chr '}', chr ':', chr ','],
      ¬ (c = chr '-' ∨ isDigit c = true) ∧ c ≠ chr '"' ∧ c ≠ chr 't' ∧ c ≠ chr 'f' ∧
        c ≠ chr 'n' := by decide +kernel
  intro c hc
  obtain ⟨h1, h2, h3, h4, h5⟩ := h c hc
  rw [readScalar, if_neg h1, if_neg h2, if_neg h3, if_neg h4, if_neg h5]

theorem TokenRead.parseTurn_eq {b b' : Bool} {levels levels' : List Level} {c : UInt8}
    {s t : Str} (h : TokenRead b levels c s b' levels' t) :
    parseTurn b levels (c :: s) = .go b' levels' t := by
  cases h with
  | scalar hs ht ha =>
    rw [parseTurn_cons hs.isSpace_eq, hs.readScalar_eq ht]
    simp only [ha]
  | openArray | openObject | closeArray | closeObject =>
    rw [parseTurn_cons (by decide), readScalar_punctuation s _ (by decide)]
    rfl
  | @colon key entries ls _ hk =>
    have hgo : ¬ (false = true ∨ (Level.object entries key).key = []) := by
      rintro (h | h)
      · exact Bool.false_ne_true h
      · exact hk h
    rw [parseTurn_cons (by decide), readScalar_punctuation s _ (by decide)]
    exact if_neg hgo
  | comma hk =>
    rw [parseTurn_cons (by decide), readScalar_punctuation s _ (by decide)]
    cases levels with
    | nil => rfl
    | cons l ls =>
      have hgo : ¬ (false = true ∨ l.key ≠ []) := by
        rintro (h | h)
        · exact Bool.false_ne_true h
        · exact h (hk l rfl)
      exact if_neg hgo

theorem RootClosed.parseTurn_eq {levels : List Level} {c : UInt8} {json : JsonValue}
    (h : RootClosed levels c json) (b : Bool) (s : Str) :
    parseTurn b levels (c :: s) = .stop (.ok json) := by
  cases h with
  | array | object =>
    rw [parseTurn_cons (by decide), readScalar_punctuation s _ (by decide)]
    rfl

theorem readPunctuation_other {c : UInt8}
    (hc : c ∉ [chr ']', chr '}', chr '[', chr '{', chr ':', chr ',']) (b : Bool)
    (levels : List Level) (s : Str) :
    readPunctuation c b levels s = .stop (.error .unexpectedCharacter) := by
  simp only [List.mem_cons, List.not_mem_nil, or_false, not_or] at hc
  obtain ⟨h1, h2, h3, h4, h5, h6⟩ := hc
  unfold readPunctuation
  simp only [h1, h2, h3, h4, h5, h6, if_false]

theorem readPunctuation_colon (b : Bool) (l : Level) (ls : List Level) (s : Str) :
    readPunctuation (chr ':') b (l :: ls) s =
      if b = true ∨ l.key = [] then .stop (.error .unexpectedCharacter)
      else .go true (l :: ls) s := rfl

theorem readPunctuation_comma (b : Bool) (l : Level) (ls : List Level) (s : Str) :
    readPunctuation (chr ',') b (l :: ls) s =
      if b = true ∨ l.key ≠ [] then .stop (.error .unexpectedCharacter)
      else .go true (l :: ls) s := rfl

/-- What a bracket or a separator does when the loop goes on or ends the document. -/
theorem readPunctuation_cases (b : Bool) (levels : List Level) (c : UInt8) (s : Str) :
    (∃ b' levels', readPunctuation c b levels s = .go b' levels' s ∧
        TokenRead b levels c s b' levels' s) ∨
      (∃ json, readPunctuation c b levels s = .stop (.ok json) ∧ RootClosed levels c json) ∨
      ∃ e, readPunctuation c b levels s = .stop (.error e) := by
  by_cases hc : c ∈ [chr ']', chr '}', chr '[', chr '{', chr ':', chr ',']
  swap
  · exact .inr (.inr ⟨_, readPunctuation_other hc b levels s⟩)
  simp only [List.mem_cons, List.not_mem_nil, or_false] at hc
  rcases hc with rfl | rfl | rfl | rfl | rfl | rfl
  · match levels with
    | [] | .object _ _ :: _ => exact .inr (.inr ⟨_, rfl⟩)
    | [.array values] => exact .inr (.inl ⟨_, rfl, .array⟩)
    | .array values :: l :: ls => exact .inl ⟨_, _, rfl, .closeArray⟩
  · match levels with
    | [] | .array _ :: _ => exact .inr (.inr ⟨_, rfl⟩)
    | .object _ (_ :: _) :: _ => exact .inr (.inr ⟨_, rfl⟩)
    | [.object entries []] => exact .inr (.inl ⟨_, rfl, .object⟩)
    | .object entries [] :: l :: ls => exact .inl ⟨_, _, rfl, .closeObject⟩
  · exact .inl ⟨_, _, rfl, .openArray⟩
  · exact .inl ⟨_, _, rfl, .openObject⟩
  · cases levels with
    | nil => exact .inr (.inr ⟨_, rfl⟩)
    | cons l ls =>
      rw [readPunctuation_colon]
      split_ifs with hgo
      · exact .inr (.inr ⟨_, rfl⟩)
      rw [not_or, Bool.not_eq_true] at hgo
      obtain ⟨rfl, hkey⟩ := hgo
      cases l with
      | array values => exact absurd rfl hkey
      | object entries key => exact .inl ⟨_, _, rfl, .colon hkey⟩
  · cases levels with
    | nil =>
      cases b with
      | true => exact .inr (.inr ⟨_, rfl⟩)
      | false => exact .inl ⟨_, _, rfl, .comma (by simp)⟩
    | cons l ls =>
      rw [readPunctuation_comma]
      split_ifs with hgo
      · exact .inr (.inr ⟨_, rfl⟩)
      rw [not_or, Bool.not_eq_true, not_not] at hgo
      obtain ⟨rfl, hkey⟩ := hgo
      exact .inl ⟨_, _, rfl, .comma (by simpa using hkey)⟩

/-- A turn reads a token, closes the root, or ends the call without a value. -/
theorem parseTurn_cases (b : Bool) (levels : List Level) (s : Str) :
    (∃ w c u b' levels' t, s = w ++ c :: u ∧ Spaces w ∧ TokenRead b levels c u b' levels' t ∧
        parseTurn b levels s = .go b' levels' t) ∨
      (∃ w c u json, s = w ++ c :: u ∧ Spaces w ∧ RootClosed levels c json ∧
        parseTurn b levels s = .stop (.ok json)) ∨
      ∃ o, parseTurn b levels s = .stop o ∧ Stops s o := by
  have hspaces : Spaces (s.takeWhile isSpace) := fun c hc => List.mem_takeWhile_imp hc
  have hs : s.takeWhile isSpace ++ s.dropWhile isSpace = s := List.takeWhile_append_dropWhile
  have hturn : parseTurn b levels s = parseTurn b levels (s.dropWhile isSpace) := by
    conv_lhs => rw [← hs, parseTurn_spaces hspaces]
  have hhead := List.head?_dropWhile_not isSpace s
  rw [hturn]
  generalize s.dropWhile isSpace = u at hs hhead ⊢
  cases u with
  | nil =>
    rw [List.append_nil] at hs
    exact .inr (.inr ⟨.overRead, rfl, .overRead (hs ▸ hspaces)⟩)
  | cons c u =>
    have hc : isSpace c = false := by simpa using hhead
    rw [parseTurn_cons hc]
    cases hscalar : readScalar c u with
    | none =>
      rcases readPunctuation_cases b levels c u with
        ⟨b', levels', hgo, htoken⟩ | ⟨json, hstop, hroot⟩ | ⟨e, hstop⟩
      · exact .inl ⟨_, c, u, b', levels', u, hs.symm, hspaces, htoken, hgo⟩
      · exact .inr (.inl ⟨_, c, u, json, hs.symm, hspaces, hroot, hstop⟩)
      · exact .inr (.inr ⟨_, hstop, .status s e⟩)
    | some r =>
      cases r with
      | error o =>
        rcases readScalar_stop hscalar with ⟨e, rfl⟩ | ⟨rfl, hsize⟩
        · exact .inr (.inr ⟨_, rfl, .status s e⟩)
        · exact .inr (.inr ⟨_, rfl, hs ▸ .overflow hspaces hsize⟩)
      | ok p =>
        obtain ⟨v, t⟩ := p
        obtain ⟨hread, ht⟩ := ScalarRead.of_readScalar hscalar
        cases hadd : addScalar levels v with
        | error e => exact .inr (.inr ⟨.error e, by simp only [hadd], .status s e⟩)
        | ok levels' =>
          exact .inl ⟨_, c, u, false, levels', t, hs.symm, hspaces, .scalar hread ht hadd,
            by simp only [hadd]⟩

/-! ### The loop -/

theorem TokenRead.length_le {b b' : Bool} {levels levels' : List Level} {c : UInt8} {s t : Str}
    (h : TokenRead b levels c s b' levels' t) : t.length ≤ s.length := by
  cases h with
  | scalar hs =>
    obtain ⟨x, rfl⟩ := hs.eq_append
    rw [List.length_append]
    omega
  | openArray | openObject | closeArray | closeObject | colon | comma => exact le_rfl

theorem parseTurn_length {b b' : Bool} {levels levels' : List Level} {s t : Str}
    (h : parseTurn b levels s = .go b' levels' t) : t.length < s.length := by
  rcases parseTurn_cases b levels s with ⟨w, c, u, b'', levels'', t', hs, -, htoken, hgo⟩ |
    ⟨w, c, u, json, -, -, -, hstop⟩ | ⟨o, hstop, -⟩
  · rw [hgo, Turn.go.injEq] at h
    obtain ⟨-, -, rfl⟩ := h
    have hlength := htoken.length_le
    rw [hs, List.length_append, List.length_cons]
    omega
  · rw [hstop] at h
    contradiction
  · rw [hstop] at h
    contradiction

/-- More turns than characters are enough. -/
theorem parseLoop_eq_readFrom (fuel : ℕ) (b : Bool) (levels : List Level) (s : Str)
    (hfuel : s.length < fuel) : parseLoop fuel b levels s = readFrom b levels s := by
  unfold readFrom
  suffices h : ∀ m n b levels (s : Str), s.length < m → s.length < n →
      parseLoop m b levels s = parseLoop n b levels s from
    h fuel (s.length + 1) b levels s hfuel (Nat.lt_succ_self _)
  intro m
  induction m with
  | zero => intro n b levels s hm; omega
  | succ m ih =>
    intro n b levels s hm hn
    obtain ⟨n, rfl⟩ : ∃ k, n = k + 1 := ⟨n - 1, by omega⟩
    rw [parseLoop, parseLoop]
    split_ifs
    · rfl
    · cases hturn : parseTurn b levels s with
      | stop o => rfl
      | go b' levels' t =>
        have hlength := parseTurn_length hturn
        exact ih n b' levels' t (by omega) (by omega)

theorem readFrom_nil (b : Bool) (levels : List Level) :
    readFrom b levels [] = .error .breakingBad := rfl

theorem readFrom_go {b b' : Bool} {levels levels' : List Level} {s t : Str}
    (h : parseTurn b levels s = .go b' levels' t) :
    readFrom b levels s = readFrom b' levels' t := by
  have hlength := parseTurn_length h
  have hs : s ≠ [] := by
    intro hs
    rw [hs, List.length_nil] at hlength
    omega
  rw [readFrom, parseLoop, if_neg hs, h]
  exact parseLoop_eq_readFrom _ _ _ _ hlength

theorem readFrom_stop {b : Bool} {levels : List Level} {s : Str} {o : ParseOutcome}
    (hs : s ≠ []) (h : parseTurn b levels s = .stop o) : readFrom b levels s = o := by
  rw [readFrom, parseLoop, if_neg hs, h]

/-- A token is read. -/
theorem TokenRead.readFrom_eq {b b' : Bool} {levels levels' : List Level} {c : UInt8}
    {s t : Str} (h : TokenRead b levels c s b' levels' t) :
    readFrom b levels (c :: s) = readFrom b' levels' t := readFrom_go h.parseTurn_eq

theorem RootClosed.readFrom_eq {levels : List Level} {c : UInt8} {json : JsonValue}
    (h : RootClosed levels c json) (b : Bool) (s : Str) :
    readFrom b levels (c :: s) = .ok json :=
  readFrom_stop (List.cons_ne_nil c s) (h.parseTurn_eq b s)

/-- White space before a token is skipped. -/
theorem readFrom_spaces {w s : Str} (hw : Spaces w) (hs : s ≠ []) (b : Bool)
    (levels : List Level) : readFrom b levels (w ++ s) = readFrom b levels s := by
  have hws : w ++ s ≠ [] := List.append_ne_nil_of_right_ne_nil w hs
  have hturn := parseTurn_spaces hw b levels s
  cases h : parseTurn b levels s with
  | stop o => rw [readFrom_stop hs h, readFrom_stop hws (hturn.trans h)]
  | go b' levels' t => rw [readFrom_go h, readFrom_go (hturn.trans h)]

/-- A value can go to the bracket: it is an array, or an object with a pending key. -/
def Ready : Level → Prop
  | .array _ => True
  | .object _ key => key ≠ []

theorem addScalar_ready {l : Level} (hl : Ready l) (ls : List Level) (v : JsonValue) :
    addScalar (l :: ls) v = .ok (l.addValue v :: ls) := by
  cases l with
  | array values => rfl
  | object entries key => exact if_neg hl

/-- How the reading goes on behind a closing bracket. -/
def closed (node : JsonValue) (levels : List Level) (t : Str) : ParseOutcome :=
  match closeLevel node levels with
  | .inl json => .ok json
  | .inr levels => readFrom false levels t

theorem readFrom_closeArray (b : Bool) (values : List JsonValue) (levels : List Level) (t : Str) :
    readFrom b (.array values :: levels) (chr ']' :: t) = closed (.array values) levels t := by
  cases levels with
  | nil => exact RootClosed.array.readFrom_eq b t
  | cons l ls => exact TokenRead.closeArray.readFrom_eq

theorem readFrom_closeObject (b : Bool) (entries : JsonObject) (levels : List Level) (t : Str) :
    readFrom b (.object entries [] :: levels) (chr '}' :: t) =
      closed (.object entries) levels t := by
  cases levels with
  | nil => exact RootClosed.object.readFrom_eq b t
  | cons l ls => exact TokenRead.closeObject.readFrom_eq

/-- Induction along a reading that succeeds: from the closing bracket of the root back over the
tokens. -/
theorem readFrom_induct {motive : Bool → List Level → Str → Prop} {json : JsonValue}
    (root : ∀ w c u b levels, Spaces w → RootClosed levels c json →
      motive b levels (w ++ c :: u))
    (token : ∀ w c u b levels b' levels' t, Spaces w → TokenRead b levels c u b' levels' t →
      readFrom b' levels' t = .ok json → motive b' levels' t → motive b levels (w ++ c :: u))
    {b : Bool} {levels : List Level} {s : Str} (h : readFrom b levels s = .ok json) :
    motive b levels s := by
  induction hn : s.length using Nat.strong_induction_on generalizing b levels s with
  | _ n ih =>
    have hs : s ≠ [] := by
      rintro rfl
      rw [readFrom_nil] at h
      contradiction
    rcases parseTurn_cases b levels s with ⟨w, c, u, b', levels', t, rfl, hw, htoken, hgo⟩ |
      ⟨w, c, u, json', rfl, hw, hroot, hstop⟩ | ⟨o, hstop, ho⟩
    · rw [readFrom_go hgo] at h
      have hlength := parseTurn_length hgo
      exact token w c u b levels b' levels' t hw htoken h (ih _ (hn ▸ hlength) h rfl)
    · rw [readFrom_stop hs hstop, ParseOutcome.ok.injEq] at h
      subst h
      exact root w c u b levels hw hroot
    · rw [readFrom_stop hs hstop] at h
      exact absurd h (ho.ne_ok json)

end TarotClub.JsonReader
