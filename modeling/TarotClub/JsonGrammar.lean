import TarotClub.JsonLoop

/-! The texts that the JSON reader accepts, as a grammar: that of RFC 8259, with the liberties that
the reader grants written down where a text takes them. -/
namespace TarotClub.JsonReader

open JsonText (Blank Derives StringOf standard)

/-- A bracket as far as acceptance goes: in an object a key may be pending. -/
inductive Frame where
  | array
  | object (pending : Bool)
  deriving DecidableEq

namespace Frame

/-- A value has been added. -/
def filled : Frame → Frame
  | array => array
  | object _ => object false

/-- The opening bracket, where nothing is pending yet. -/
def opening : Frame → Option UInt8
  | array => some (chr '[')
  | object false => some (chr '{')
  | object true => none

/-- The closing bracket, where nothing is pending any more. -/
def closing : Frame → Option UInt8
  | array => some (chr ']')
  | object false => some (chr '}')
  | object true => none

/-- The separator: a colon behind a key, else a comma. -/
def separator : Frame → UInt8
  | object true => chr ':'
  | _ => chr ','

end Frame

def Level.frame : Level → Frame
  | array _ => .array
  | object _ key => .object (decide (key ≠ []))

/-- A string with its quotation marks. -/
def StringText (x : Str) : Prop := StringOf (fun c => ∃ d, Character c d) x

inductive ScalarText : Str → Prop
  | number {x : Str} : Numeral x → ScalarText x
  | string {x : Str} : StringText x → ScalarText x
  | word {x : Str} : x ∈ [str "true", str "false", str "null"] → ScalarText x

namespace Frame

/-- The tokens that may stand here: where an object waits for a key, only strings. -/
def Takes : Frame → Str → Prop
  | object false, x => StringText x
  | _, x => ScalarText x

/-- What is pending behind a token. An empty string is no key, and it is ignored. -/
def after : Frame → Str → Frame
  | object false, x => object (decide (x ≠ [chr '"', chr '"']))
  | f, _ => f.filled

theorem takes_iff {f : Frame} (hf : f ≠ object false) (x : Str) : f.Takes x ↔ ScalarText x := by
  rcases f with _ | ⟨_ | _⟩
  · exact Iff.rfl
  · contradiction
  · exact Iff.rfl

theorem after_eq {f : Frame} (hf : f ≠ object false) (x : Str) : f.after x = f.filled := by
  rcases f with _ | ⟨_ | _⟩
  · rfl
  · contradiction
  · rfl

end Frame

/-- Where a text departs from the grammar of RFC 8259: vertical tabs and form feeds as white space,
a comma in front of a closing bracket, commas and colons left out, an array or an object as a
member without a key, an empty string as a member, a number or a string as the standard does not
write it, and text behind the root. -/
inductive Liberty where
  | whiteSpace
  | trailingComma
  | missingComma
  | missingColon
  | missingKey
  | emptyMember
  | number
  | encoding
  | trailingText
  deriving DecidableEq

/-- What has been read last between two brackets: the opening one, a separator, or a token or a
bracket that a separator has to follow. -/
inductive Point where
  | opened
  | separated
  | filled
  deriving DecidableEq

namespace Point

/-- The flag of the reader. -/
def separator : Point → Bool
  | opened | separated => true
  | filled => false

/-! The liberties that are taken with what stands next. -/

def onClose : Point → List Liberty
  | separated => [.trailingComma]
  | opened | filled => []

def onValue : Point → Frame → List Liberty
  | filled, .object true => [.missingColon]
  | filled, _ => [.missingComma]
  | opened, _ | separated, _ => []

end Point

def Frame.onBracket : Frame → List Liberty
  | object false => [.missingKey]
  | _ => []

open Classical in
noncomputable def Frame.onToken : Frame → Str → List Liberty
  | object false, x =>
    if x = [chr '"', chr '"'] then [.emptyMember]
    else if standard.key x then [] else [.encoding]
  | _, x =>
    if Derives standard .value x then []
    else if x.head? = some (chr '"') then [.encoding] else [.number]

open Classical in
noncomputable def onSpaces (w : Str) : List Liberty := if Blank w then [] else [.whiteSpace]

open Classical in
noncomputable def onTrailing (t : Str) : List Liberty := if Blank t then [] else [.trailingText]

/-- The text from some point between two brackets up to the closing one, and the liberties that it
takes. -/
inductive Inside : List Liberty → Point → Frame → Str → Prop
  | space {ls : List Liberty} {p : Point} {f : Frame} {c : UInt8} {t : Str} : isSpace c = true →
      Inside ls p f t → Inside (onSpaces [c] ++ ls) p f (c :: t)
  | close {p : Point} {f : Frame} {c : UInt8} : f.closing = some c → Inside p.onClose p f [c]
  | separator {ls : List Liberty} {f : Frame} {t : Str} : Inside ls .separated f t →
      Inside ls .filled f (f.separator :: t)
  | token {ls : List Liberty} {p : Point} {f : Frame} {x t : Str} : f.Takes x → Delimited t →
      Inside ls .filled (f.after x) t →
      Inside (p.onValue f ++ (f.onToken x ++ ls)) p f (x ++ t)
  | bracket {ks ls : List Liberty} {p : Point} {f g : Frame} {c : UInt8} {x t : Str} :
      g.opening = some c → Inside ks .opened g x → Inside ls .filled f.filled t →
      Inside (p.onValue f ++ (f.onBracket ++ (ks ++ ls))) p f (c :: (x ++ t))

/-- An array or an object, from its opening bracket to its closing one. -/
inductive Bracketed : List Liberty → Str → Prop
  | intro {ls : List Liberty} {f : Frame} {c : UInt8} {x : Str} : f.opening = some c →
      Inside ls .opened f x → Bracketed ls (c :: x)

/-- White space, an array or an object, and anything, with the liberties that are taken. -/
def Written (ls : List Liberty) (s : Str) : Prop :=
  ∃ w ks x t, Spaces w ∧ Bracketed ks x ∧ s = w ++ (x ++ t) ∧
    ls = onSpaces w ++ (ks ++ onTrailing t)

/-! ### Scalars -/

theorem Body.characters {b d : Str} (h : Body b d) :
    ∃ cs : List Str, (∀ c ∈ cs, ∃ d, Character c d) ∧ b = cs.flatten := by
  induction h with
  | nil => exact ⟨[], fun c hc => absurd hc List.not_mem_nil, rfl⟩
  | @cons x d y e hc _ ih =>
    obtain ⟨cs, hcs, rfl⟩ := ih
    refine ⟨x :: cs, ?_, rfl⟩
    rw [List.forall_mem_cons]
    exact ⟨⟨d, hc⟩, hcs⟩

theorem body_flatten {cs : List Str} (h : ∀ c ∈ cs, ∃ d, Character c d) :
    ∃ d, Body cs.flatten d := by
  induction cs with
  | nil => exact ⟨[], .nil⟩
  | cons c cs ih =>
    obtain ⟨d, hd⟩ := h c List.mem_cons_self
    obtain ⟨e, he⟩ := ih fun c' hc => h c' (List.mem_cons_of_mem c hc)
    exact ⟨d ++ e, .cons hd he⟩

theorem stringText_iff {x : Str} :
    StringText x ↔ ∃ b d, Body b d ∧ x = chr '"' :: (b ++ [chr '"']) := by
  constructor
  · rintro ⟨cs, hcs, ⟨⟩⟩
    obtain ⟨d, hd⟩ := body_flatten hcs
    exact ⟨cs.flatten, d, hd, rfl⟩
  · rintro ⟨b, d, hb, rfl⟩
    obtain ⟨cs, hcs, rfl⟩ := hb.characters
    exact ⟨cs, hcs, .marks cs⟩

/-- A scalar text is read as a scalar. -/
theorem ScalarText.scalarRead {x t : Str} (h : ScalarText x) (ht : Delimited t) :
    ∃ c y v, x = c :: y ∧ ScalarRead c (y ++ t) v t := by
  cases h with
  | number hx =>
    obtain ⟨v, hv⟩ := stringToNumber_number hx.1 ht
    obtain ⟨c, y, rfl⟩ : ∃ c y, x = c :: y := by
      apply List.exists_cons_of_ne_nil
      rintro rfl
      rcases hx.2 with hd | ⟨c, y, hy, -⟩
      · exact absurd hd (by decide)
      · contradiction
    exact ⟨c, y, v, rfl, .number hx hv⟩
  | string hx =>
    obtain ⟨b, d, hb, rfl⟩ := stringText_iff.mp hx
    refine ⟨chr '"', b ++ [chr '"'], .string d, rfl, ?_⟩
    rw [List.append_assoc, List.singleton_append]
    exact .string hb
  | word hx =>
    simp only [List.mem_cons, List.not_mem_nil, or_false] at hx
    rcases hx with rfl | rfl | rfl
    · exact ⟨_, _, _, rfl, .isTrue⟩
    · exact ⟨_, _, _, rfl, .isFalse⟩
    · exact ⟨_, _, _, rfl, .isNull⟩

/-- What is read as a scalar is a scalar text; a string without its closing mark takes the
rest of the text. -/
theorem ScalarRead.scalarText {c : UInt8} {s t : Str} {v : JsonValue}
    (h : ScalarRead c s v t) (ht : t ≠ []) : ∃ x, c :: s = x ++ t ∧ ScalarText x ∧
      ∀ k, v = .string k → StringText x ∧ (k = [] ↔ x = [chr '"', chr '"']) := by
  cases h with
  | @number c x t v hx hv =>
    refine ⟨c :: x, rfl, .number hx, ?_⟩
    rintro k rfl
    rcases stringToNumber_value hv with ⟨n, hn⟩ | ⟨d, hd⟩
    · contradiction
    · contradiction
  | @string b d t hb =>
    have htext : StringText (chr '"' :: (b ++ [chr '"'])) := stringText_iff.mpr ⟨b, d, hb, rfl⟩
    refine ⟨chr '"' :: (b ++ [chr '"']), by simp, .string htext, ?_⟩
    intro k hk
    rw [← JsonValue.string.inj hk, hb.read_eq_nil]
    exact ⟨htext, by simp⟩
  | unclosed => exact absurd rfl ht
  | isTrue => exact ⟨str "true", rfl, .word (by decide), by simp⟩
  | isFalse => exact ⟨str "false", rfl, .word (by decide), by simp⟩
  | isNull => exact ⟨str "null", rfl, .word (by decide), by simp⟩

/-! ### What the grammar has is accepted -/

/-- The reading succeeds from here. -/
def Accepts (b : Bool) (levels : List Level) (s : Str) : Prop :=
  ∃ json, readFrom b levels s = .ok json

theorem Accepts.spaces {b : Bool} {levels : List Level} {w s : Str} (hw : Spaces w)
    (h : Accepts b levels s) : Accepts b levels (w ++ s) := by
  obtain ⟨json, h⟩ := h
  have hs : s ≠ [] := by
    rintro rfl
    rw [readFrom_nil] at h
    contradiction
  exact ⟨json, (readFrom_spaces hw hs b levels).trans h⟩

theorem Accepts.token {b b' : Bool} {levels levels' : List Level} {c : UInt8} {s t : Str}
    (htoken : TokenRead b levels c s b' levels' t) (h : Accepts b' levels' t) :
    Accepts b levels (c :: s) := by
  obtain ⟨json, h⟩ := h
  exact ⟨json, htoken.readFrom_eq.trans h⟩

theorem frame_addValue (l : Level) (v : JsonValue) : (l.addValue v).frame = l.frame.filled := by
  cases l with
  | array values => rfl
  | object entries key => rfl

theorem ready_iff {l : Level} : Ready l ↔ l.frame ≠ .object false := by
  cases l with
  | array values => simp [Ready, Level.frame]
  | object entries key => simp [Ready, Level.frame]

theorem eq_array_of_frame {l : Level} (h : l.frame = .array) : ∃ values, l = .array values := by
  cases l with
  | array values => exact ⟨values, rfl⟩
  | object entries key => contradiction

theorem eq_object_of_frame {l : Level} {pending : Bool} (h : l.frame = .object pending) :
    ∃ entries key, l = .object entries key ∧ (pending = true ↔ key ≠ []) := by
  cases l with
  | array values => contradiction
  | object entries key =>
    rw [Level.frame, Frame.object.injEq] at h
    refine ⟨entries, key, rfl, ?_⟩
    rw [← h, decide_eq_true_eq]

theorem key_eq_nil_of_frame {l : Level} (h : l.frame ≠ .object true) : l.key = [] := by
  cases l with
  | array values => rfl
  | object entries key =>
    by_contra hkey
    exact h (congrArg Frame.object (decide_eq_true hkey))

theorem Inside.ne_nil {ls : List Liberty} {p : Point} {f : Frame} {x : Str}
    (h : Inside ls p f x) : x ≠ [] := by
  induction h with
  | token _ _ _ ih => exact List.append_ne_nil_of_right_ne_nil _ ih
  | space | close | separator | bracket => exact List.cons_ne_nil _ _

theorem delimited_append {y : Str} (hy : y ≠ []) (t : Str) :
    Delimited (y ++ t) ↔ Delimited y := by
  cases y with
  | nil => exact absurd rfl hy
  | cons c y => exact Iff.rfl

/-- A string where an object waits for a key. -/
theorem TokenRead.key {x t : Str} (hx : StringText x) (ht : Delimited t) (b : Bool)
    (entries : JsonObject) (levels : List Level) :
    ∃ c u d, x ++ t = c :: u ∧
      (Level.object entries d).frame = .object (decide (x ≠ [chr '"', chr '"'])) ∧
      TokenRead b (.object entries [] :: levels) c u false (.object entries d :: levels) t := by
  obtain ⟨k, d, hb, rfl⟩ := stringText_iff.mp hx
  refine ⟨chr '"', k ++ chr '"' :: t, d, by simp, ?_, .scalar (.string hb) ht rfl⟩
  have hempty : d ≠ [] ↔ chr '"' :: (k ++ [chr '"']) ≠ [chr '"', chr '"'] := by
    rw [Ne, hb.read_eq_nil]
    simp
  rw [Level.frame]
  exact congrArg Frame.object (decide_eq_decide.mpr hempty)

/-- A scalar where a bracket can take a value. -/
theorem TokenRead.value {l : Level} (hready : Ready l) {x t : Str} (hx : ScalarText x)
    (ht : Delimited t) (b : Bool) (levels : List Level) :
    ∃ c u v, x ++ t = c :: u ∧
      TokenRead b (l :: levels) c u false (l.addValue v :: levels) t := by
  obtain ⟨c, z, v, rfl, hread⟩ := hx.scalarRead ht
  exact ⟨c, z ++ t, v, rfl, .scalar hread ht (addScalar_ready hready levels v)⟩

/-- A token where it may stand. -/
theorem Frame.Takes.tokenRead {l : Level} {x t : Str} (hx : l.frame.Takes x) (ht : Delimited t)
    (b : Bool) (levels : List Level) :
    ∃ c u l', x ++ t = c :: u ∧ l'.frame = l.frame.after x ∧
      TokenRead b (l :: levels) c u false (l' :: levels) t := by
  by_cases hf : l.frame = .object false
  · rw [hf] at hx ⊢
    obtain ⟨entries, key, rfl, hkey⟩ := eq_object_of_frame hf
    obtain rfl : key = [] := by simpa using hkey
    obtain ⟨c, u, d, hcu, hframe, htoken⟩ := TokenRead.key hx ht b entries levels
    exact ⟨c, u, .object entries d, hcu, hframe, htoken⟩
  · have htext : ScalarText x := (Frame.takes_iff hf x).mp hx
    obtain ⟨c, u, v, hcu, htoken⟩ := TokenRead.value (ready_iff.mpr hf) htext ht b levels
    refine ⟨c, u, l.addValue v, hcu, ?_, htoken⟩
    rw [frame_addValue, Frame.after_eq hf]

/-- A closing bracket where it may stand. -/
theorem readFrom_close {l : Level} {c : UInt8} (hc : l.frame.closing = some c) (b : Bool)
    (levels : List Level) (t : Str) :
    ∃ node, readFrom b (l :: levels) (c :: t) = closed node levels t := by
  rcases l with values | ⟨entries, key⟩
  · obtain rfl := Option.some.inj hc
    exact ⟨.array values, readFrom_closeArray b values levels t⟩
  · by_cases hkey : key = []
    · subst hkey
      obtain rfl := Option.some.inj hc
      exact ⟨.object entries, readFrom_closeObject b entries levels t⟩
    · rw [Level.frame, decide_eq_true hkey] at hc
      cases hc

/-- A separator where it may stand. -/
theorem TokenRead.separator (l : Level) (levels : List Level) (t : Str) :
    TokenRead false (l :: levels) l.frame.separator t true (l :: levels) t := by
  rcases l with values | ⟨entries, key⟩
  · exact .comma (by simp [Level.key])
  · by_cases hkey : key = []
    · subst hkey
      exact .comma (by simp [Level.key])
    · rw [Level.frame, decide_eq_true hkey]
      exact .colon hkey

/-- An opening bracket. -/
theorem TokenRead.opening {f : Frame} {c : UInt8} (hc : f.opening = some c) (b : Bool)
    (levels : List Level) (t : Str) :
    ∃ l, l.frame = f ∧ TokenRead b levels c t true (l :: levels) t := by
  rcases f with _ | ⟨_ | _⟩
  · obtain rfl := Option.some.inj hc
    exact ⟨.array [], rfl, .openArray⟩
  · obtain rfl := Option.some.inj hc
    exact ⟨.object [] [], rfl, .openObject⟩
  · cases hc

/-- From a point between two brackets the reading reaches the closing one. -/
theorem Inside.accepts {ls : List Liberty} {p : Point} {f : Frame} {x : Str}
    (h : Inside ls p f x) :
    ∀ (l : Level) (levels : List Level) (t : Str), l.frame = f →
      (∀ node, ∃ json, closed node levels t = .ok json) →
      Accepts p.separator (l :: levels) (x ++ t) := by
  induction h with
  | @space ls p f c x hc _ ih =>
    intro l levels t hl hclosed
    have hw : Spaces [c] := by
      intro d hd
      rwa [List.mem_singleton.mp hd]
    have h := Accepts.spaces hw (ih l levels t hl hclosed)
    exact h
  | @close p f c hc =>
    rintro l levels t rfl hclosed
    obtain ⟨node, hread⟩ := readFrom_close hc p.separator levels t
    obtain ⟨json, h⟩ := hclosed node
    exact ⟨json, hread.trans h⟩
  | separator _ ih =>
    rintro l levels t rfl hclosed
    exact (ih l levels t rfl hclosed).token (.separator l levels _)
  | @token ls p f x y hx hy hin ih =>
    rintro l levels t rfl hclosed
    have ht : Delimited (y ++ t) := (delimited_append hin.ne_nil t).mpr hy
    obtain ⟨c, u, l', hcu, hframe, htoken⟩ := hx.tokenRead ht p.separator levels
    rw [List.append_assoc, hcu]
    exact (ih l' levels t hframe hclosed).token htoken
  | @bracket ks ls p f g c x y hc _ _ ih ih' =>
    rintro l levels t rfl hclosed
    have hinner : ∀ node, ∃ json, closed node (l :: levels) (y ++ t) = .ok json := by
      intro node
      exact ih' (l.addValue node) levels t (frame_addValue l node) hclosed
    obtain ⟨l', hl', htoken⟩ := TokenRead.opening hc p.separator (l :: levels) (x ++ (y ++ t))
    have hnext := (ih l' (l :: levels) (y ++ t) hl' hinner).token htoken
    rwa [List.cons_append, List.append_assoc]

theorem Written.accepts {ls : List Liberty} {s : Str} (h : Written ls s) : Accepts true [] s := by
  obtain ⟨w, ks, x, t, hw, ⟨hc, hin⟩, rfl, -⟩ := h
  apply Accepts.spaces hw
  obtain ⟨l, hl, htoken⟩ := TokenRead.opening hc true [] (_ ++ t)
  exact (hin.accepts l [] t hl fun node => ⟨node, rfl⟩).token htoken

/-! ### What is accepted the grammar has -/

/-- The text ends the innermost bracket, whichever the point with this flag is. -/
def Ends (b : Bool) (f : Frame) (x : Str) : Prop :=
  ∀ p : Point, p.separator = b → ∃ ls, Inside ls p f x

theorem Ends.spaces {b : Bool} {f : Frame} {w x : Str} (hw : Spaces w) (h : Ends b f x) :
    Ends b f (w ++ x) := by
  induction w with
  | nil => exact h
  | cons c w ih =>
    intro p hp
    obtain ⟨ls, hin⟩ := ih (fun d hd => hw d (List.mem_cons_of_mem c hd)) p hp
    exact ⟨_, .space (hw c List.mem_cons_self) hin⟩

theorem ends_close {f : Frame} {c : UInt8} (hc : f.closing = some c) (b : Bool) : Ends b f [c] :=
  fun _ _ => ⟨_, .close hc⟩

theorem Ends.separator {f : Frame} {x : Str} (h : Ends true f x) :
    Ends false f (f.separator :: x) := by
  intro p hp
  obtain ⟨ls, hin⟩ := h .separated rfl
  cases p with
  | opened | separated => cases hp
  | filled => exact ⟨ls, .separator hin⟩

theorem Ends.token {f : Frame} {x t : Str} (hx : f.Takes x) (ht : Delimited t)
    (h : Ends false (f.after x) t) (b : Bool) : Ends b f (x ++ t) := by
  intro p _
  obtain ⟨ls, hin⟩ := h .filled rfl
  exact ⟨_, .token hx ht hin⟩

theorem Ends.bracket {f g : Frame} {c : UInt8} {x t : Str} (hc : g.opening = some c)
    (hx : Ends true g x) (h : Ends false f.filled t) (b : Bool) : Ends b f (c :: (x ++ t)) := by
  intro p _
  obtain ⟨ks, hinner⟩ := hx .opened rfl
  obtain ⟨ls, hin⟩ := h .filled rfl
  exact ⟨_, .bracket hc hinner hin⟩

theorem Ends.ne_nil {b : Bool} {f : Frame} {x : Str} (h : Ends b f x) : x ≠ [] := by
  cases b with
  | true =>
    obtain ⟨ls, hin⟩ := h .opened rfl
    exact hin.ne_nil
  | false =>
    obtain ⟨ls, hin⟩ := h .filled rfl
    exact hin.ne_nil

/-- A text that closes the brackets that are open: the innermost one, and those around it. -/
def Closes : List Frame → Bool → Frame → Str → Prop
  | [], b, f, s => ∃ x t, s = x ++ t ∧ Ends b f x
  | g :: gs, b, f, s => ∃ x t, s = x ++ t ∧ Ends b f x ∧ Closes gs false g.filled t

/-- What stands before the rest of the innermost bracket stands before the whole. -/
theorem Closes.before {fs : List Frame} {b b' : Bool} {f f' : Frame} {z s : Str}
    (h : Closes fs b' f' s)
    (hz : ∀ x t, s = x ++ t → Ends b' f' x → Ends b f (z ++ x)) :
    Closes fs b f (z ++ s) := by
  cases fs with
  | nil =>
    obtain ⟨x, t, rfl, hx⟩ := h
    exact ⟨z ++ x, t, (List.append_assoc z x t).symm, hz x t rfl hx⟩
  | cons g gs =>
    obtain ⟨x, t, rfl, hx, ht⟩ := h
    exact ⟨z ++ x, t, (List.append_assoc z x t).symm, hz x t rfl hx, ht⟩

theorem Closes.spaces {fs : List Frame} {b : Bool} {f : Frame} {w s : Str} (hw : Spaces w)
    (h : Closes fs b f s) : Closes fs b f (w ++ s) :=
  h.before fun _ _ _ hx => hx.spaces hw

theorem Closes.ne_nil {fs : List Frame} {b : Bool} {f : Frame} {s : Str}
    (h : Closes fs b f s) : s ≠ [] := by
  cases fs with
  | nil =>
    obtain ⟨x, t, rfl, hx⟩ := h
    exact List.append_ne_nil_of_left_ne_nil hx.ne_nil t
  | cons g gs =>
    obtain ⟨x, t, rfl, hx, -⟩ := h
    exact List.append_ne_nil_of_left_ne_nil hx.ne_nil t

/-- A scalar inside a bracket is a token that may stand there. -/
theorem ScalarRead.takes {l : Level} {ls levels' : List Level} {c : UInt8} {s t : Str}
    {v : JsonValue} (hs : ScalarRead c s v t) (ht : t ≠ [])
    (ha : addScalar (l :: ls) v = .ok levels') :
    ∃ x, c :: s = x ++ t ∧ l.frame.Takes x ∧
      levels'.map Level.frame = l.frame.after x :: ls.map Level.frame := by
  obtain ⟨x, hx, htext, hstring⟩ := hs.scalarText ht
  refine ⟨x, hx, ?_⟩
  by_cases hready : Ready l
  · rw [addScalar_ready hready, Except.ok.injEq] at ha
    subst ha
    have hframe : l.frame ≠ .object false := ready_iff.mp hready
    rw [List.map_cons, frame_addValue, Frame.takes_iff hframe, Frame.after_eq hframe]
    exact ⟨htext, rfl⟩
  · have hframe : l.frame = .object false := by
      by_contra hne
      exact hready (ready_iff.mpr hne)
    obtain ⟨entries, key, rfl, hkey⟩ := eq_object_of_frame hframe
    obtain rfl : key = [] := by simpa using hkey
    cases v with
    | string k =>
      obtain rfl := Except.ok.inj ha
      obtain ⟨hx', hempty⟩ := hstring k rfl
      refine ⟨hx', congrArg (· :: ls.map Level.frame) ?_⟩
      exact congrArg Frame.object (decide_eq_decide.mpr (not_congr hempty))
    | _ => contradiction

/-- One token in front of a text that closes the brackets. -/
theorem TokenRead.closes {b b' : Bool} {l : Level} {ls : List Level} {f' : Frame}
    {fs' : List Frame} {levels' : List Level} {c : UInt8} {s t : Str}
    (h : TokenRead b (l :: ls) c s b' levels' t) (hl : levels'.map Level.frame = f' :: fs')
    (hc : Closes fs' b' f' t) : Closes (ls.map Level.frame) b l.frame (c :: s) := by
  have hopen : ∀ {g : Frame} {c : UInt8} {s : Str}, g.opening = some c →
      Closes (l.frame :: ls.map Level.frame) true g s →
      Closes (ls.map Level.frame) b l.frame (c :: s) := by
    rintro g c s hg ⟨x, t, rfl, hx, ht⟩
    exact ht.before (z := c :: x) fun y _ _ hy => hx.bracket hg hy b
  cases h with
  | @scalar _ _ _ _ _ _ v hs ht ha =>
    obtain ⟨x, hx, htakes, hmap⟩ := hs.takes hc.ne_nil ha
    rw [hx]
    obtain ⟨rfl, rfl⟩ := List.cons.inj (hl.symm.trans hmap)
    refine hc.before fun y u hy hin => hin.token htakes ?_ b
    exact (delimited_append hin.ne_nil u).mp (hy ▸ ht)
  | openArray =>
    obtain ⟨rfl, rfl⟩ := List.cons.inj hl
    exact hopen rfl hc
  | openObject =>
    obtain ⟨rfl, rfl⟩ := List.cons.inj hl
    exact hopen rfl hc
  | @closeArray _ values m ms =>
    obtain ⟨rfl, rfl⟩ := List.cons.inj hl
    rw [frame_addValue] at hc
    exact ⟨[chr ']'], s, rfl, ends_close rfl b, hc⟩
  | @closeObject _ entries m ms =>
    obtain ⟨rfl, rfl⟩ := List.cons.inj hl
    rw [frame_addValue] at hc
    exact ⟨[chr '}'], s, rfl, ends_close rfl b, hc⟩
  | @colon key entries _ _ hk =>
    obtain ⟨rfl, rfl⟩ := List.cons.inj hl
    have hframe : (Level.object entries key).frame = .object true :=
      congrArg Frame.object (decide_eq_true hk)
    rw [hframe] at hc ⊢
    exact hc.before (z := [chr ':']) fun _ _ _ hin => hin.separator
  | comma hk =>
    obtain ⟨rfl, rfl⟩ := List.cons.inj hl
    have hcomma : l.frame.separator = chr ',' := by
      rcases l with values | ⟨entries, key⟩
      · rfl
      · have hkey : key = [] := hk _ rfl
        rw [hkey]
        rfl
    rw [← hcomma]
    exact hc.before (z := [l.frame.separator]) fun _ _ _ hin => hin.separator

theorem addScalar_ne_nil {levels levels' : List Level} {v : JsonValue}
    (h : addScalar levels v = .ok levels') : levels' ≠ [] := by
  unfold addScalar at h
  split at h
  · contradiction
  · rw [← Except.ok.inj h]
    exact List.cons_ne_nil _ _
  · split_ifs at h
    · split at h
      · rw [← Except.ok.inj h]
        exact List.cons_ne_nil _ _
      · contradiction
    · rw [← Except.ok.inj h]
      exact List.cons_ne_nil _ _

/-- Only the closing bracket of the root leaves no bracket open. -/
theorem TokenRead.levels_ne_nil {b b' : Bool} {l : Level} {ls levels' : List Level} {c : UInt8}
    {s t : Str} (h : TokenRead b (l :: ls) c s b' levels' t) : levels' ≠ [] := by
  cases h with
  | scalar _ _ ha => exact addScalar_ne_nil ha
  | openArray | openObject | closeArray | closeObject | colon | comma => exact List.cons_ne_nil _ _

/-- What has to be left of a text that is accepted: it closes the brackets that are open, or it
is a text of the grammar when none is. -/
def Demand : Bool → List Level → Str → Prop
  | b, [], s => b = true → ∃ ls, Written ls s
  | b, l :: ls, s => Closes (ls.map Level.frame) b l.frame s

theorem demand_open {f : Frame} {c : UInt8} (hc : f.opening = some c) {w s : Str} (hw : Spaces w)
    (h : Closes [] true f s) : ∃ ls, Written ls (w ++ c :: s) := by
  obtain ⟨x, t, rfl, hx⟩ := h
  obtain ⟨ks, hin⟩ := hx .opened rfl
  exact ⟨_, w, ks, c :: x, t, hw, .intro hc hin, rfl, rfl⟩

theorem Accepts.demand {b : Bool} {levels : List Level} {s : Str} (h : Accepts b levels s) :
    Demand b levels s := by
  obtain ⟨json, h⟩ := h
  refine readFrom_induct (motive := Demand) ?_ ?_ h
  · intro w c u b levels hw hroot
    cases hroot with
    | array => exact Closes.spaces hw ⟨[chr ']'], u, rfl, ends_close rfl b⟩
    | object => exact Closes.spaces hw ⟨[chr '}'], u, rfl, ends_close rfl b⟩
  · intro w c u b levels b' levels' t hw htoken _ ih
    cases levels with
    | nil =>
      rintro rfl
      cases htoken with
      | scalar _ _ ha => contradiction
      | openArray => exact demand_open rfl hw ih
      | openObject => exact demand_open rfl hw ih
    | cons l ls =>
      obtain ⟨l', ls', rfl⟩ := List.exists_cons_of_ne_nil htoken.levels_ne_nil
      have hcloses : Closes (ls.map Level.frame) b l.frame (c :: u) := htoken.closes rfl ih
      exact Closes.spaces hw hcloses

/-- The reader accepts the texts of the grammar, whatever liberties they take, and no others. -/
theorem accepts_iff_written (s : Str) : Accepts true [] s ↔ ∃ ls, Written ls s := by
  constructor
  · intro h
    exact h.demand rfl
  · rintro ⟨ls, h⟩
    exact h.accepts

end TarotClub.JsonReader
