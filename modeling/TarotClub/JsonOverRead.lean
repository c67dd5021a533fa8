import TarotClub.JsonCursor

namespace TarotClub.JsonReader

/-- Tokens are read one after another, none of them the closing bracket of the root, until a
text of `P` is left. The flag says that a separator or an opening bracket has just been read;
the brackets are the open ones, the innermost first. -/
inductive Reaches (P : Str → Prop) : Bool → List Frame → Str → Prop
  | here {b : Bool} {fs : List Frame} {t : Str} : P t → Reaches P b fs t
  | space {b : Bool} {fs : List Frame} {c : UInt8} {t : Str} : isSpace c = true →
      Reaches P b fs t → Reaches P b fs (c :: t)
  | openArray {b : Bool} {fs : List Frame} {t : Str} : Reaches P true (.array :: fs) t →
      Reaches P b fs (chr '[' :: t)
  | openObject {b : Bool} {fs : List Frame} {t : Str} :
      Reaches P true (.object false :: fs) t → Reaches P b fs (chr '{' :: t)
  | closeArray {b : Bool} {f : Frame} {fs : List Frame} {t : Str} :
      Reaches P false (f.filled :: fs) t → Reaches P b (.array :: f :: fs) (chr ']' :: t)
  | closeObject {b : Bool} {f : Frame} {fs : List Frame} {t : Str} :
      Reaches P false (f.filled :: fs) t → Reaches P b (.object false :: f :: fs) (chr '}' :: t)
  | colon {fs : List Frame} {t : Str} : Reaches P true (.object true :: fs) t →
      Reaches P false (.object true :: fs) (chr ':' :: t)
  | comma {fs : List Frame} {t : Str} : fs.head? ≠ some (.object true) → Reaches P true fs t →
      Reaches P false fs (chr ',' :: t)
  | key {b : Bool} {fs : List Frame} {x t : Str} : StringText x → Delimited t →
      Reaches P false (.object (decide (x ≠ [chr '"', chr '"'])) :: fs) t →
      Reaches P b (.object false :: fs) (x ++ t)
  | scalar {b : Bool} {f : Frame} {fs : List Frame} {x t : Str} : f ≠ .object false →
      ScalarText x → Delimited t → Reaches P false (f.filled :: fs) t →
      Reaches P b (f :: fs) (x ++ t)

/-- White space up to the end of the text. -/
def Trailing (s : Str) : Prop := s ≠ [] ∧ Spaces s

/-- The texts on which a turn leaves the input or the integers of the reader. -/
def Fatal (s : Str) : Prop := Trailing s ∨ ∃ w x, Spaces w ∧ Oversized x ∧ s = w ++ x

/-- The call does not end with a status: it has read behind the NUL, or an integer has
overflowed. -/
def Undefined (o : ParseOutcome) : Prop := o = .overRead ∨ o = .overflow

/-! ### Reaching a fatal text -/

theorem Trailing.parseTurn_eq {s : Str} (h : Trailing s) (b : Bool) (levels : List Level) :
    parseTurn b levels s = .stop .overRead := by
  have hturn := parseTurn_spaces h.2 b levels []
  rw [List.append_nil] at hturn
  rw [hturn]
  rfl

theorem Oversized.parseTurn_eq {s : Str} (h : Oversized s) (b : Bool) (levels : List Level) :
    parseTurn b levels s = .stop .overflow := by
  have hstart := h.startsNumber
  obtain ⟨c, s, rfl⟩ := List.exists_cons_of_ne_nil hstart.ne_nil
  have hread := readScalar_number hstart []
  rw [List.append_nil, h.stringToNumber_eq] at hread
  rw [parseTurn_cons hstart.isSpace_eq, hread]

theorem Fatal.undefined {s : Str} (h : Fatal s) (b : Bool) (levels : List Level) :
    Undefined (readFrom b levels s) := by
  rcases h with htrail | ⟨w, x, hw, hx, rfl⟩
  · exact .inl (readFrom_stop htrail.1 (htrail.parseTurn_eq b levels))
  · have hne : x ≠ [] := hx.startsNumber.ne_nil
    rw [readFrom_spaces hw hne]
    exact .inr (readFrom_stop hne (hx.parseTurn_eq b levels))

theorem Undefined.ne_nil {b : Bool} {levels : List Level} {s : Str}
    (h : Undefined (readFrom b levels s)) : s ≠ [] := by
  rintro rfl
  rw [readFrom_nil] at h
  rcases h with h | h
  all_goals contradiction

theorem Undefined.token {b b' : Bool} {levels levels' : List Level} {c : UInt8} {s t : Str}
    (h : Undefined (readFrom b' levels' t)) (htoken : TokenRead b levels c s b' levels' t) :
    Undefined (readFrom b levels (c :: s)) := by
  rwa [htoken.readFrom_eq]

/-- A text that reaches a fatal one makes the reader do what it does there. -/
theorem Reaches.undefined {b : Bool} {fs : List Frame} {s : Str} (h : Reaches Fatal b fs s) :
    ∀ levels : List Level, levels.map Level.frame = fs → Undefined (readFrom b levels s) := by
  induction h with
  | @here b fs t ht =>
    intro levels _
    exact ht.undefined b levels
  | @space b fs c t hc _ ih =>
    intro levels hl
    have hw : Spaces [c] := by
      intro d hd
      rwa [List.mem_singleton.mp hd]
    have hrest := ih levels hl
    rwa [← readFrom_spaces hw hrest.ne_nil] at hrest
  | openArray _ ih =>
    intro levels hl
    exact (ih (.array [] :: levels) (congrArg (Frame.array :: ·) hl)).token .openArray
  | openObject _ ih =>
    intro levels hl
    exact (ih (.object [] [] :: levels) (congrArg (Frame.object false :: ·) hl)).token
      .openObject
  | @closeArray b f fs t _ ih =>
    intro levels hl
    obtain ⟨l, ls, rfl, hframe, hrest⟩ := List.map_eq_cons_iff.mp hl
    obtain ⟨m, ms, rfl, rfl, rfl⟩ := List.map_eq_cons_iff.mp hrest
    obtain ⟨values, rfl⟩ := eq_array_of_frame hframe
    refine (ih (m.addValue (.array values) :: ms) ?_).token .closeArray
    rw [List.map_cons, frame_addValue]
  | @closeObject b f fs t _ ih =>
    intro levels hl
    obtain ⟨l, ls, rfl, hframe, hrest⟩ := List.map_eq_cons_iff.mp hl
    obtain ⟨m, ms, rfl, rfl, rfl⟩ := List.map_eq_cons_iff.mp hrest
    obtain ⟨entries, key, rfl, hkey⟩ := eq_object_of_frame hframe
    obtain rfl : key = [] := by simpa using hkey
    refine (ih (m.addValue (.object entries) :: ms) ?_).token .closeObject
    rw [List.map_cons, frame_addValue]
  | @colon fs t _ ih =>
    intro levels hl
    obtain ⟨l, ls, rfl, hframe, hrest⟩ := List.map_eq_cons_iff.mp hl
    have hnext := ih (l :: ls) hl
    obtain ⟨entries, key, rfl, hkey⟩ := eq_object_of_frame hframe
    exact hnext.token (.colon (hkey.mp rfl))
  | @comma fs t hfs _ ih =>
    intro levels hl
    have hkey : ∀ l ∈ levels.head?, l.key = [] := by
      intro l hmem
      apply key_eq_nil_of_frame
      intro hframe
      apply hfs
      rw [← hl, List.head?_map, hmem, Option.map_some, hframe]
    exact (ih levels hl).token (.comma hkey)
  | @key b fs x t hx ht _ ih =>
    intro levels hl
    obtain ⟨l, ls, rfl, hframe, hrest⟩ := List.map_eq_cons_iff.mp hl
    obtain ⟨entries, key, rfl, hkey⟩ := eq_object_of_frame hframe
    obtain rfl : key = [] := by simpa using hkey
    obtain ⟨c, u, d, hcu, hd, htoken⟩ := TokenRead.key hx ht b entries ls
    rw [hcu]
    refine (ih (.object entries d :: ls) ?_).token htoken
    rw [List.map_cons, hd, hrest]
  | @scalar b f fs x t hf hx ht _ ih =>
    intro levels hl
    obtain ⟨l, ls, rfl, rfl, rfl⟩ := List.map_eq_cons_iff.mp hl
    obtain ⟨c, u, v, hcu, htoken⟩ := TokenRead.value (ready_iff.mpr hf) hx ht b ls
    rw [hcu]
    refine (ih (l.addValue v :: ls) ?_).token htoken
    rw [List.map_cons, frame_addValue]

/-! ### What is undefined reaches a fatal text -/

theorem Reaches.spaces {P : Str → Prop} {b : Bool} {fs : List Frame} {w t : Str}
    (hw : Spaces w) (h : Reaches P b fs t) : Reaches P b fs (w ++ t) := by
  induction w with
  | nil => exact h
  | cons c w ih =>
    exact .space (hw c List.mem_cons_self) (ih fun d hd => hw d (List.mem_cons_of_mem c hd))

theorem Stops.fatal {s : Str} {o : ParseOutcome} (h : Stops s o) (hs : s ≠ [])
    (ho : Undefined o) : Fatal s := by
  cases h with
  | status =>
    rcases ho with ho | ho
    all_goals contradiction
  | overRead hw => exact .inl ⟨hs, hw⟩
  | overflow hw hx => exact .inr ⟨_, _, hw, hx, rfl⟩

/-- One token in front of a text that reaches one of `P`. -/
theorem TokenRead.reaches {P : Str → Prop} {b b' : Bool} {levels levels' : List Level}
    {c : UInt8} {s t : Str} (h : TokenRead b levels c s b' levels' t) (ht : t ≠ [])
    (hr : Reaches P b' (levels'.map Level.frame) t) :
    Reaches P b (levels.map Level.frame) (c :: s) := by
  cases h with
  | scalar hs hdelim ha =>
    cases levels with
    | nil => contradiction
    | cons l ls =>
      obtain ⟨x, hx, htakes, hmap⟩ := hs.takes ht ha
      rw [hmap] at hr
      rw [hx, List.map_cons]
      by_cases hframe : l.frame = .object false
      · rw [hframe] at htakes hr ⊢
        exact .key htakes hdelim hr
      · rw [Frame.after_eq hframe] at hr
        exact .scalar hframe ((Frame.takes_iff hframe x).mp htakes) hdelim hr
  | openArray => exact .openArray hr
  | openObject => exact .openObject hr
  | closeArray =>
    rw [List.map_cons, frame_addValue] at hr
    exact .closeArray hr
  | closeObject =>
    rw [List.map_cons, frame_addValue] at hr
    exact .closeObject hr
  | @colon key entries ls _ hk =>
    have hframe : (Level.object entries key).frame = .object true :=
      congrArg Frame.object (decide_eq_true hk)
    rw [List.map_cons, hframe] at hr ⊢
    exact .colon hr
  | comma hk =>
    refine .comma ?_ hr
    rw [List.head?_map]
    intro hhead
    obtain ⟨l, hl, hframe⟩ := Option.map_eq_some_iff.mp hhead
    obtain ⟨entries, key, rfl, hkey⟩ := eq_object_of_frame hframe
    exact hkey.mp rfl (hk _ hl)

theorem Undefined.reaches {b : Bool} {levels : List Level} {s : Str}
    (h : Undefined (readFrom b levels s)) : Reaches Fatal b (levels.map Level.frame) s := by
  -- on the length of the text: every token takes a character of it
  induction hn : s.length using Nat.strong_induction_on generalizing b levels s with
  | _ n ih =>
    have hs := h.ne_nil
    rcases parseTurn_cases b levels s with ⟨w, c, u, b', levels', t, rfl, hw, htoken, hgo⟩ |
      ⟨w, c, u, json, rfl, hw, hroot, hstop⟩ | ⟨o, hstop, ho⟩
    · rw [readFrom_go hgo] at h
      have hlength := parseTurn_length hgo
      exact .spaces hw (htoken.reaches h.ne_nil (ih t.length (hn ▸ hlength) h rfl))
    · rw [readFrom_stop hs hstop] at h
      rcases h with h | h
      all_goals contradiction
    · rw [readFrom_stop hs hstop] at h
      exact .here (ho.fatal hs h)

/-- The reader leaves its input or its integers on the texts that reach a fatal one, and on no
others. -/
theorem undefined_iff_reaches (s : Str) : Undefined (parse s) ↔ Reaches Fatal true [] s := by
  constructor
  · exact Undefined.reaches
  · intro h
    exact h.undefined [] rfl

/-- The copy is read up to its NUL and no further, and the call ends with a status, unless the
text reaches white space at its end or an exponent that no `int` holds. -/
theorem reader_stays_inside_iff (source : Source) :
    ((∃ json, source.parse = .ok json) ∨ ∃ status, source.parse = .error status) ↔
      ¬ Reaches Fatal true [] source.chars := by
  rw [← undefined_iff_reaches, source.parse_eq]
  cases parse source.chars with
  | ok json => simp [Undefined]
  | error status => simp [Undefined]
  | overRead => simp [Undefined]
  | overflow => simp [Undefined]

/-- A text of one blank: the loop steps over the NUL and reads on. -/
theorem blank_over_read : (Source.ofData (str " ")).parse = .overRead := by
  rw [Source.parse_eq]
  rfl

end TarotClub.JsonReader
