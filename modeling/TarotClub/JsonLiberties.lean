import TarotClub.JsonGrammar

namespace TarotClub.JsonReader

open JsonText (Blank Derives Document Symbol Tokens standard)

/-! ### Each text takes its liberties in one way -/

/-- What a byte begins, where neither a token nor white space is under way. -/
inductive Kind where
  | space
  | close
  | separator
  | token
  | bracket
  deriving DecidableEq

def kind (c : UInt8) : Kind :=
  if isSpace c then .space
  else if c = chr ']' ∨ c = chr '}' then .close
  else if c = chr ',' ∨ c = chr ':' then .separator
  else if c = chr '[' ∨ c = chr '{' then .bracket
  else .token

theorem kind_space {c : UInt8} (hc : isSpace c = true) : kind c = .space := if_pos hc

theorem kind_closing {f : Frame} {c : UInt8} (hc : f.closing = some c) : kind c = .close := by
  rcases f with _ | ⟨_ | _⟩
  · obtain rfl := Option.some.inj hc
    decide
  · obtain rfl := Option.some.inj hc
    decide
  · cases hc

theorem kind_separator (f : Frame) : kind f.separator = .separator := by
  rcases f with _ | ⟨_ | _⟩
  all_goals decide

theorem kind_opening {f : Frame} {c : UInt8} (hc : f.opening = some c) : kind c = .bracket := by
  rcases f with _ | ⟨_ | _⟩
  · obtain rfl := Option.some.inj hc
    decide
  · obtain rfl := Option.some.inj hc
    decide
  · cases hc

theorem opening_inj {f g : Frame} {c : UInt8} (hf : f.opening = some c) (hg : g.opening = some c) :
    f = g := by
  rw [← hg] at hf
  rcases f with _ | ⟨_ | _⟩ <;> rcases g with _ | ⟨_ | _⟩ <;> revert hf <;> decide

theorem Frame.Takes.scalarText {f : Frame} {x : Str} (hx : f.Takes x) : ScalarText x := by
  rcases f with _ | ⟨_ | _⟩
  · exact hx
  · exact .string hx
  · exact hx

theorem kind_token {f : Frame} {x t : Str} (hx : f.Takes x) (ht : Delimited t) :
    ∃ c u, x ++ t = c :: u ∧ kind c = .token := by
  have hdigit : ∀ c : UInt8, isDigit c = true → kind c = .token := forall_byte (by decide +kernel)
  obtain ⟨c, y, v, rfl, hread⟩ := hx.scalarText.scalarRead ht
  refine ⟨c, y ++ t, rfl, ?_⟩
  generalize y ++ t = u at hread
  cases hread with
  | number hx =>
    rcases hx.2 with hd | ⟨d, z, hz, -⟩
    · exact hdigit c hd
    · rw [(List.cons.inj hz).1]
      decide
  | string | unclosed | isTrue | isFalse | isNull => decide

/-- A token ends where a delimiter begins. -/
theorem Frame.Takes.unique {f : Frame} {x x' t t' : Str} (hx : f.Takes x) (hx' : f.Takes x')
    (ht : Delimited t) (ht' : Delimited t') (heq : x ++ t = x' ++ t') : x = x' ∧ t = t' := by
  obtain ⟨c, y, v, rfl, hread⟩ := hx.scalarText.scalarRead ht
  obtain ⟨c', y', v', rfl, hread'⟩ := hx'.scalarText.scalarRead ht'
  obtain ⟨rfl, hy⟩ : c = c' ∧ y ++ t = y' ++ t' := List.cons.inj heq
  have hscalar := hread.readScalar_eq ht
  rw [hy, hread'.readScalar_eq ht', Option.some.injEq, Except.ok.injEq, Prod.mk.injEq] at hscalar
  obtain ⟨-, rfl⟩ := hscalar
  exact ⟨List.append_cancel_right heq, rfl⟩

/-- The rule that a text inside a bracket begins with, by the kind of its first byte. -/
def Begins (ls : List Liberty) (p : Point) (f : Frame) (c : UInt8) (x : Str) : Kind → Prop
  | .space => ∃ ks y, ls = onSpaces [c] ++ ks ∧ x = c :: y ∧ Inside ks p f y
  | .close => ls = p.onClose ∧ x = [c]
  | .separator => p = .filled ∧ ∃ y, x = c :: y ∧ Inside ls .separated f y
  | .token => ∃ ks y z, ls = p.onValue f ++ (f.onToken y ++ ks) ∧ x = y ++ z ∧ f.Takes y ∧
      Delimited z ∧ Inside ks .filled (f.after y) z
  | .bracket => ∃ ks ms g y z, ls = p.onValue f ++ (f.onBracket ++ (ks ++ ms)) ∧
      x = c :: (y ++ z) ∧ g.opening = some c ∧ Inside ks .opened g y ∧ Inside ms .filled f.filled z

theorem Inside.begins {ls : List Liberty} {p : Point} {f : Frame} {c : UInt8} {x t u : Str}
    (h : Inside ls p f x) (hx : x ++ t = c :: u) : Begins ls p f c x (kind c) := by
  cases h with
  | space hc hin =>
    obtain ⟨rfl, -⟩ := List.cons.inj hx
    rw [kind_space hc]
    exact ⟨_, _, rfl, rfl, hin⟩
  | close hc =>
    obtain ⟨rfl, -⟩ := List.cons.inj hx
    rw [kind_closing hc]
    exact ⟨rfl, rfl⟩
  | separator hin =>
    obtain ⟨rfl, -⟩ := List.cons.inj hx
    rw [kind_separator]
    exact ⟨rfl, _, rfl, hin⟩
  | @token ks _ _ y z hy hz hin =>
    obtain ⟨d, v, hd, hkind⟩ := kind_token hy ((delimited_append hin.ne_nil t).mpr hz)
    rw [List.append_assoc, hd] at hx
    obtain ⟨rfl, -⟩ := List.cons.inj hx
    rw [hkind]
    exact ⟨_, y, z, rfl, rfl, hy, hz, hin⟩
  | bracket hc hin hrest =>
    obtain ⟨rfl, -⟩ := List.cons.inj hx
    rw [kind_opening hc]
    exact ⟨_, _, _, _, _, rfl, rfl, hc, hin, hrest⟩

/-- Where a text inside a bracket ends, and which liberties it takes, is read off it. -/
theorem Inside.unique {ls : List Liberty} {p : Point} {f : Frame} {x : Str} (h : Inside ls p f x) :
    ∀ {ls' : List Liberty} {x' t t' : Str}, Inside ls' p f x' → x ++ t = x' ++ t' →
      ls = ls' ∧ x = x' := by
  induction h with
  | space hc _ ih =>
    intro ls' x' t t' h' heq
    have hbegins := h'.begins heq.symm
    rw [kind_space hc] at hbegins
    obtain ⟨ks, y, rfl, rfl, hin⟩ := hbegins
    obtain ⟨rfl, rfl⟩ := ih hin (List.cons.inj heq).2
    exact ⟨rfl, rfl⟩
  | close hc =>
    intro ls' x' t t' h' heq
    have hbegins := h'.begins heq.symm
    rw [kind_closing hc] at hbegins
    obtain ⟨rfl, rfl⟩ := hbegins
    exact ⟨rfl, rfl⟩
  | @separator ls f y _ ih =>
    intro ls' x' t t' h' heq
    have hbegins := h'.begins heq.symm
    rw [kind_separator] at hbegins
    obtain ⟨-, y, rfl, hin⟩ := hbegins
    obtain ⟨rfl, rfl⟩ := ih hin (List.cons.inj heq).2
    exact ⟨rfl, rfl⟩
  | @token ls p f y z hy hz hin ih =>
    intro ls' x' t t' h' heq
    have hzt := (delimited_append hin.ne_nil t).mpr hz
    obtain ⟨c, u, hcu, hkind⟩ := kind_token hy hzt
    have hbegins := h'.begins (heq.symm.trans (List.append_assoc y z t ▸ hcu))
    rw [hkind] at hbegins
    obtain ⟨ks, y', z', rfl, rfl, hy', hz', hin'⟩ := hbegins
    rw [List.append_assoc, List.append_assoc] at heq
    obtain ⟨rfl, hrest⟩ := hy.unique hy' hzt ((delimited_append hin'.ne_nil t').mpr hz') heq
    obtain ⟨rfl, rfl⟩ := ih hin' hrest
    exact ⟨rfl, rfl⟩
  | @bracket ks ls p f g c y z hc _ _ ih ih' =>
    intro ls' x' t t' h' heq
    have hbegins := h'.begins heq.symm
    rw [kind_opening hc] at hbegins
    obtain ⟨ks', ms, g', y', z', rfl, rfl, hc', hin, hrest⟩ := hbegins
    obtain rfl := opening_inj hc hc'
    have htail : y ++ z ++ t = y' ++ z' ++ t' := (List.cons.inj heq).2
    rw [List.append_assoc, List.append_assoc] at htail
    obtain ⟨rfl, rfl⟩ := ih hin htail
    obtain ⟨rfl, rfl⟩ := ih' hrest (List.append_cancel_left htail)
    exact ⟨rfl, rfl⟩

/-- White space ends where an opening bracket stands. -/
theorem spaces_unique {w w' x x' : Str} {c c' : UInt8} (hw : Spaces w) (hw' : Spaces w')
    (hc : isSpace c = false) (hc' : isSpace c' = false) (heq : w ++ c :: x = w' ++ c' :: x') :
    w = w' ∧ c :: x = c' :: x' := by
  have htake : ∀ {w x : Str} {c : UInt8}, Spaces w → isSpace c = false →
      (w ++ c :: x).takeWhile isSpace = w := by
    intro w x c hw hc
    rw [List.takeWhile_append_of_pos hw, List.takeWhile_cons_of_neg (by simp [hc]), List.append_nil]
  have hww : w = w' := by rw [← htake hw hc (x := x), heq, htake hw' hc']
  subst hww
  exact ⟨rfl, List.append_cancel_left heq⟩

theorem Written.unique {ls ls' : List Liberty} {s : Str} (h : Written ls s) (h' : Written ls' s) :
    ls = ls' := by
  obtain ⟨w, ks, -, t, hw, @⟨f, c, y, hc, hin⟩, rfl, rfl⟩ := h
  obtain ⟨w', ks', -, t', hw', @⟨f', c', y', hc', hin'⟩, heq, rfl⟩ := h'
  have hspace : ∀ {f : Frame} {c : UInt8}, f.opening = some c → isSpace c = false := by
    intro f c hc
    by_contra hspace
    rw [Bool.not_eq_false] at hspace
    exact absurd ((kind_opening hc).symm.trans (kind_space hspace)) (by decide)
  obtain ⟨rfl, hbrackets⟩ := spaces_unique hw hw' (hspace hc) (hspace hc') heq
  obtain ⟨rfl, hrest⟩ := List.cons.inj hbrackets
  obtain rfl := opening_inj hc hc'
  obtain ⟨rfl, rfl⟩ := hin.unique hin' hrest
  rw [List.append_cancel_left hrest]

/-! ### Texts without liberties -/

theorem onSpaces_eq_nil {w : Str} : onSpaces w = [] ↔ Blank w := by
  unfold onSpaces
  split_ifs with hw <;> simp [hw]

theorem onTrailing_eq_nil {t : Str} : onTrailing t = [] ↔ Blank t := by
  unfold onTrailing
  split_ifs with ht <;> simp [ht]

theorem Point.onClose_eq_nil {p : Point} : p.onClose = [] ↔ p ≠ .separated := by
  cases p <;> simp [Point.onClose]

theorem Point.onValue_eq_nil {p : Point} {f : Frame} : p.onValue f = [] ↔ p ≠ .filled := by
  rcases f with _ | ⟨_ | _⟩ <;> cases p <;> simp [Point.onValue]

theorem Frame.onBracket_eq_nil {f : Frame} : f.onBracket = [] ↔ f ≠ .object false := by
  rcases f with _ | ⟨_ | _⟩ <;> simp [Frame.onBracket]

theorem Frame.onToken_key {x : Str} :
    (Frame.object false).onToken x = [] ↔ x ≠ [chr '"', chr '"'] ∧ standard.key x := by
  rw [Frame.onToken]
  by_cases hempty : x = [chr '"', chr '"']
  · simp [hempty]
  · by_cases hkey : standard.key x <;> simp [hempty, hkey]

theorem Frame.onToken_value {f : Frame} (hf : f ≠ .object false) {x : Str} :
    f.onToken x = [] ↔ Derives standard .value x := by
  have hvalue : f.onToken x = Frame.array.onToken x := by
    rcases f with _ | ⟨_ | _⟩
    · rfl
    · exact absurd rfl hf
    · rfl
  rw [hvalue]
  simp only [Frame.onToken]
  by_cases hx : Derives standard .value x
  · simp [hx]
  · by_cases hquote : x.head? = some (chr '"') <;> simp [hx, hquote]

theorem blank_nil : Blank [] := by
  intro c hc
  cases hc

theorem blank_append {w w' : Str} (hw : Blank w) (hw' : Blank w') : Blank (w ++ w') := by
  intro c hc
  rcases List.mem_append.mp hc with hc | hc
  · exact hw c hc
  · exact hw' c hc

/-! White space around the parts of a document belongs to them. -/

theorem element_before {T : Tokens} {w x : Str} (hw : Blank w) (h : Derives T .element x) :
    Derives T .element (w ++ x) := by
  cases h with
  | element hw₀ hx hw₁ =>
    rw [← List.append_assoc]
    exact .element (blank_append hw hw₀) hx hw₁

theorem element_behind {T : Tokens} {w x : Str} (hw : Blank w) (h : Derives T .element x) :
    Derives T .element (x ++ w) := by
  cases h with
  | element hw₀ hx hw₁ =>
    rw [List.append_assoc, List.append_assoc]
    exact .element hw₀ hx (blank_append hw₁ hw)

theorem member_before {T : Tokens} {w x : Str} (hw : Blank w) (h : Derives T .member x) :
    Derives T .member (w ++ x) := by
  cases h with
  | member hw₀ hk hw₁ hx =>
    rw [← List.append_assoc]
    exact .member (blank_append hw hw₀) hk hw₁ hx

theorem member_behind {T : Tokens} {w x : Str} (hw : Blank w) (h : Derives T .member x) :
    Derives T .member (x ++ w) := by
  cases h with
  | member hw₀ hk hw₁ hx =>
    simp only [List.append_assoc, List.cons_append]
    exact .member hw₀ hk hw₁ (element_behind hw hx)

namespace Frame

/-- What stands between the brackets, what it is made of, and the closing bracket. -/
def items : Frame → Symbol
  | array => .elements
  | object _ => .members

def item : Frame → Symbol
  | array => .element
  | object _ => .member

def last : Frame → UInt8
  | array => chr ']'
  | object _ => chr '}'

theorem items_before (f : Frame) {w x : Str} (hw : Blank w) (h : Derives standard f.items x) :
    Derives standard f.items (w ++ x) := by
  cases f with
  | array =>
    cases h with
    | lastElement hx => exact .lastElement (element_before hw hx)
    | elements hx hy =>
      rw [← List.append_assoc]
      exact .elements (element_before hw hx) hy
  | object pending =>
    cases h with
    | lastMember hx => exact .lastMember (member_before hw hx)
    | members hx hy =>
      rw [← List.append_assoc]
      exact .members (member_before hw hx) hy

/-- What is left behind an item: white space, and the closing bracket or a comma and more items. -/
def Tail (f : Frame) (x : Str) : Prop :=
  ∃ w, Blank w ∧ (x = w ++ [f.last] ∨
    ∃ y, Derives standard f.items y ∧ x = w ++ chr ',' :: (y ++ [f.last]))

theorem Tail.items {f : Frame} {x t : Str} (ht : f.Tail t) (hx : Derives standard f.item x) :
    ∃ y, Derives standard f.items y ∧ x ++ t = y ++ [f.last] := by
  obtain ⟨w, hw, rfl | ⟨y, hy, rfl⟩⟩ := ht
  · refine ⟨x ++ w, ?_, (List.append_assoc x w _).symm⟩
    cases f with
    | array => exact .lastElement (element_behind hw hx)
    | object => exact .lastMember (member_behind hw hx)
  · refine ⟨(x ++ w) ++ chr ',' :: y, ?_, by simp⟩
    cases f with
    | array => exact .elements (element_behind hw hx) hy
    | object => exact .members (member_behind hw hx) hy

theorem Tail.before {f : Frame} {w x : Str} (hw : Blank w) (h : f.Tail x) : f.Tail (w ++ x) := by
  obtain ⟨w', hw', rfl | ⟨y, hy, rfl⟩⟩ := h
  · exact ⟨w ++ w', blank_append hw hw', .inl (List.append_assoc w w' _).symm⟩
  · exact ⟨w ++ w', blank_append hw hw', .inr ⟨y, hy, (List.append_assoc w w' _).symm⟩⟩

end Frame

/-- The rest of an array or of an object of the standard from some point on. -/
inductive Rest : Point → Frame → Str → Prop
  | tail {f : Frame} {x : Str} : f ≠ .object true → f.Tail x → Rest .filled f x
  | items {p : Point} {f : Frame} {x : Str} : f ≠ .object true → p ≠ .filled →
      Derives standard f.items x → Rest p f (x ++ [f.last])
  | blank {f : Frame} {w : Str} : f ≠ .object true → Blank w → Rest .opened f (w ++ [f.last])
  | value {p : Point} {x t : Str} : p ≠ .filled → Derives standard .element x →
      (Frame.object false).Tail t → Rest p (.object true) (x ++ t)
  | colon {w x t : Str} : Blank w → Derives standard .element x →
      (Frame.object false).Tail t → Rest .filled (.object true) (w ++ chr ':' :: (x ++ t))

theorem Rest.space {p : Point} {f : Frame} {c : UInt8} {x : Str} (hc : Blank [c])
    (h : Rest p f x) : Rest p f (c :: x) := by
  cases h with
  | tail hf ht => exact .tail hf (ht.before hc)
  | items hf hp hx => exact .items hf hp (f.items_before hc hx)
  | blank hf hw => exact .blank hf (blank_append hc hw)
  | value hp hx ht => exact .value hp (element_before hc hx) ht
  | colon hw hx ht => exact .colon (blank_append hc hw) hx ht

theorem rest_close {p : Point} {f : Frame} {c : UInt8} (hc : f.closing = some c)
    (hp : p ≠ .separated) : Rest p f [c] := by
  have hf : f ≠ .object true := by
    rintro rfl
    cases hc
  have hlast : c = f.last := by
    rcases f with _ | ⟨_ | _⟩
    · exact (Option.some.inj hc).symm
    · exact (Option.some.inj hc).symm
    · cases hc
  subst hlast
  cases p with
  | opened => exact .blank hf blank_nil
  | separated => exact absurd rfl hp
  | filled => exact .tail hf ⟨[], blank_nil, .inl rfl⟩

theorem Rest.separator {f : Frame} {x : Str} (h : Rest .separated f x) :
    Rest .filled f (f.separator :: x) := by
  cases h with
  | items hf _ hx =>
    have hcomma : f.separator = chr ',' := by
      rcases f with _ | ⟨_ | _⟩
      · rfl
      · rfl
      · exact absurd rfl hf
    rw [hcomma]
    exact .tail hf ⟨[], blank_nil, .inr ⟨_, hx, rfl⟩⟩
  | value _ hx ht => exact .colon blank_nil hx ht

/-- A value in front of the rest behind it. -/
theorem Rest.before {p : Point} {f : Frame} {x t : Str} (hp : p ≠ .filled)
    (hf : f ≠ .object false) (hx : Derives standard .value x) (h : Rest .filled f.filled t) :
    Rest p f (x ++ t) := by
  have helement : Derives standard .element x := by
    have helement := Derives.element blank_nil hx blank_nil
    rwa [List.nil_append, List.append_nil] at helement
  have htail : f.filled.Tail t := by
    have hfilled : f.filled ≠ .object true := by
      rcases f with _ | ⟨_ | _⟩
      all_goals decide
    generalize f.filled = g at h hfilled
    cases h with
    | tail _ ht => exact ht
    | items _ hp => exact absurd rfl hp
    | value hp => exact absurd rfl hp
    | colon => exact absurd rfl hfilled
  rcases f with _ | ⟨_ | _⟩
  · obtain ⟨y, hy, heq⟩ := htail.items helement
    rw [heq]
    exact .items (by decide) hp hy
  · exact absurd rfl hf
  · exact .value hp helement htail

theorem Rest.key {p : Point} {x t : Str} (hp : p ≠ .filled) (hx : standard.key x)
    (h : Rest .filled (.object true) t) : Rest p (.object false) (x ++ t) := by
  cases h with
  | tail hf => exact absurd rfl hf
  | items hf => exact absurd rfl hf
  | value hp => exact absurd rfl hp
  | @colon w y t hw hy ht =>
    obtain ⟨z, hz, heq⟩ := ht.items (Derives.member blank_nil hx hw hy)
    have hrest : x ++ (w ++ chr ':' :: (y ++ t)) = z ++ [(Frame.object false).last] := by
      rw [← heq]
      simp only [List.nil_append, List.append_assoc, List.cons_append]
      rfl
    rw [hrest]
    exact .items (by decide) hp hz

/-- From its opening bracket on, it is an array or an object of the standard. -/
theorem Rest.container {f : Frame} {c : UInt8} {x : Str} (hc : f.opening = some c)
    (h : Rest .opened f x) : Derives standard .container (c :: x) := by
  cases h with
  | items hf _ hx =>
    rcases f with _ | ⟨_ | _⟩
    · obtain rfl := Option.some.inj hc
      exact .array hx
    · obtain rfl := Option.some.inj hc
      exact .object hx
    · cases hc
  | blank hf hw =>
    rcases f with _ | ⟨_ | _⟩
    · obtain rfl := Option.some.inj hc
      exact .emptyArray hw
    · obtain rfl := Option.some.inj hc
      exact .emptyObject hw
    · cases hc
  | value => cases hc

/-- Without a liberty the rules are those of the standard. -/
theorem Inside.rest {ls : List Liberty} {p : Point} {f : Frame} {x : Str} (h : Inside ls p f x)
    (hls : ls = []) : Rest p f x := by
  induction h with
  | space _ _ ih =>
    obtain ⟨hc, hls⟩ := List.append_eq_nil_iff.mp hls
    exact (ih hls).space (onSpaces_eq_nil.mp hc)
  | close hc => exact rest_close hc (Point.onClose_eq_nil.mp hls)
  | separator _ ih => exact (ih hls).separator
  | @token ls p f x t hx _ _ ih =>
    obtain ⟨hp, hrest⟩ := List.append_eq_nil_iff.mp hls
    obtain ⟨htoken, hnil⟩ := List.append_eq_nil_iff.mp hrest
    have hfilled := Point.onValue_eq_nil.mp hp
    by_cases hf : f = .object false
    · subst hf
      obtain ⟨hempty, hkey⟩ := Frame.onToken_key.mp htoken
      have hkeyed := ih hnil
      rw [Frame.after, decide_eq_true hempty] at hkeyed
      exact hkeyed.key hfilled hkey
    · have hrest := Frame.after_eq hf x ▸ ih hnil
      exact Rest.before hfilled hf ((Frame.onToken_value hf).mp htoken) hrest
  | @bracket ks ls p f g c x t hc _ _ ih ih' =>
    obtain ⟨hp, hls⟩ := List.append_eq_nil_iff.mp hls
    obtain ⟨hbracket, hls⟩ := List.append_eq_nil_iff.mp hls
    obtain ⟨hks, hls⟩ := List.append_eq_nil_iff.mp hls
    have hvalue : Derives standard .value (c :: x) := .container ((ih hks).container hc)
    exact Rest.before (Point.onValue_eq_nil.mp hp) (Frame.onBracket_eq_nil.mp hbracket) hvalue
      (ih' hls)

/-- A text that takes no liberty is a document. -/
theorem document_of_written {s : Str} (h : Written [] s) : Document standard s := by
  obtain ⟨w, ks, -, t, hw, @⟨f, c, y, hc, hin⟩, rfl, hls⟩ := h
  obtain ⟨hw', hls⟩ := List.append_eq_nil_iff.mp hls.symm
  obtain ⟨hks, ht⟩ := List.append_eq_nil_iff.mp hls
  exact ⟨w, c :: y, t, onSpaces_eq_nil.mp hw', (hin.rest hks).container hc, onTrailing_eq_nil.mp ht,
    rfl⟩

end TarotClub.JsonReader
