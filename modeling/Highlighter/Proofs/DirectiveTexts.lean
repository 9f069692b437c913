import Mathlib.Tactic.Tauto
import Highlighter.Proofs.Conditionals

/-! Texts of directives, character by character. A directive goes on behind a newline that a
backslash stands in front of or that a block comment holds. A scanner that takes line comments
and the names of included files with all of their line does not see what a newline behind them
is. Proved: each portion of a directive that such a scanner takes holds no newline that ends
the directive, and behind it the directive reads as if it began there. -/

namespace Highlighter

/-! ### Comments and file names -/

/-- What is behind the end of a block comment. -/
def behindComment? : List Char → Option (List Char)
  | [] => none
  | '*' :: '/' :: cs => some cs
  | _ :: cs => behindComment? cs

/-- What is behind the sign that closes the name of a file, which stands in its line. -/
def behindName? (close : Char) : List Char → Option (List Char)
  | [] => none
  | c :: cs => if c = close then some cs else if c = '\n' then none else behindName? close cs

/-- What is behind the name of a file, between quotes or angle brackets. -/
def behindFile? : List Char → Option (List Char)
  | [] => none
  | c :: cs => if c = '"' then behindName? '"' cs else if c = '<' then behindName? '>' cs else none

/-- What is behind `include` and the name of a file. -/
def behindTarget? (cs : List Char) : Option (List Char) :=
  let ds := cs.dropWhile isBlank
  if startsWith "include" ds then
    behindFile? ((ds.drop "include".length).dropWhile isBlank)
  else none

theorem behindComment?_cons {c : Char} {cs : List Char} (h : c = '*' → cs.head? ≠ some '/') :
    behindComment? (c :: cs) = behindComment? cs := by
  rw [behindComment?]
  rintro ds rfl rfl
  exact h rfl rfl

theorem behindComment?_append {w ds : List Char} (h : behindComment? w = some ds)
    (cs : List Char) : behindComment? (w ++ cs) = some (ds ++ cs) := by
  induction w using behindComment?.induct with
  | case1 => cases h
  | case2 es =>
    cases h
    rfl
  | case3 c es hne ih =>
    have hskip : c = '*' → es.head? ≠ some '/' := fun hc hhead => by
      obtain ⟨fs, rfl⟩ := List.head?_eq_some_iff.1 hhead
      exact hne fs hc rfl
    rw [behindComment?_cons hskip] at h
    rw [List.cons_append, behindComment?_cons, ih h]
    cases es with
    | nil => cases h
    | cons d es => exact hskip

theorem getLast?_of_behindComment? {w : List Char} (h : behindComment? w = some []) :
    w.getLast? = some '/' := by
  induction w using behindComment?.induct with
  | case1 => cases h
  | case2 es =>
    cases h
    rfl
  | case3 c es hne ih =>
    rw [behindComment?_cons fun hc hhead => by
      obtain ⟨fs, rfl⟩ := List.head?_eq_some_iff.1 hhead
      exact hne fs hc rfl] at h
    rw [List.getLast?_cons, ih h, Option.getD_some]

theorem behindName?_append_newline {close : Char} (hc : close ≠ '\n') (w cs : List Char) :
    (behindName? close (w ++ '\n' :: cs)).isSome = (behindName? close w).isSome := by
  induction w with
  | nil => simp [behindName?, Ne.symm hc]
  | cons c w ih =>
    rw [List.cons_append, behindName?, behindName?]
    split_ifs
    · rfl
    · rfl
    · exact ih

theorem behindFile?_append_newline (w cs : List Char) :
    (behindFile? (w ++ '\n' :: cs)).isSome = (behindFile? w).isSome := by
  cases w with
  | nil => rfl
  | cons c w =>
    rw [List.cons_append, behindFile?, behindFile?]
    split_ifs
    · exact behindName?_append_newline (by decide) w cs
    · exact behindName?_append_newline (by decide) w cs
    · rfl

theorem dropWhile_isBlank_append_newline (w cs : List Char) :
    (w ++ '\n' :: cs).dropWhile isBlank = w.dropWhile isBlank ++ '\n' :: cs := by
  induction w with
  | nil => rfl
  | cons c w ih =>
    rw [List.cons_append, List.dropWhile_cons, List.dropWhile_cons]
    split_ifs
    · exact ih
    · rfl

theorem isPrefixOf_append_newline {v : List Char} (hv : '\n' ∉ v) (w cs : List Char) :
    v.isPrefixOf (w ++ '\n' :: cs) = v.isPrefixOf w := by
  induction v generalizing w with
  | nil => simp
  | cons c v ih =>
    rw [List.mem_cons, not_or] at hv
    cases w with
    | nil => simp [List.isPrefixOf, Ne.symm hv.1]
    | cons d w => simp only [List.cons_append, List.isPrefixOf, ih hv.2]

/-- A newline does not hide the name of a file, and none reaches over it. -/
theorem behindTarget?_append_newline (w cs : List Char) :
    (behindTarget? (w ++ '\n' :: cs)).isSome = (behindTarget? w).isSome := by
  unfold behindTarget? startsWith
  simp only [dropWhile_isBlank_append_newline,
    isPrefixOf_append_newline (show '\n' ∉ "include".toList by decide)]
  split_ifs with h
  · have hlength := (List.isPrefixOf_iff_prefix.1 h).length_le
    rw [String.length_toList] at hlength
    rw [List.drop_append_of_le_length hlength, dropWhile_isBlank_append_newline]
    exact behindFile?_append_newline _ cs
  · rfl

theorem isSome_behindName?_iff {close : Char} {cs : List Char} :
    (behindName? close cs).isSome ↔
      ∃ w ds, (∀ c ∈ w, c ≠ close ∧ c ≠ '\n') ∧ cs = w ++ close :: ds := by
  constructor
  · intro h
    induction cs with
    | nil => cases h
    | cons c cs ih =>
      rw [behindName?] at h
      split_ifs at h with hc hnewline
      · exact ⟨[], cs, by simp, by rw [hc]; rfl⟩
      · cases h
      · obtain ⟨w, ds, hw, rfl⟩ := ih h
        exact ⟨c :: w, ds, List.forall_mem_cons.2 ⟨⟨hc, hnewline⟩, hw⟩, rfl⟩
  · rintro ⟨w, ds, hw, rfl⟩
    induction w with
    | nil => simp [behindName?]
    | cons c w ih =>
      obtain ⟨hc, hw⟩ := List.forall_mem_cons.1 hw
      rw [List.cons_append, behindName?, if_neg hc.1, if_neg hc.2]
      exact ih hw

inductive IsFile : List Char → Prop
  | quoted {w : List Char} (h : ∀ c ∈ w, c ≠ '"' ∧ c ≠ '\n') : IsFile ('"' :: (w ++ ['"']))
  | angled {w : List Char} (h : ∀ c ∈ w, c ≠ '>' ∧ c ≠ '\n') : IsFile ('<' :: (w ++ ['>']))

theorem IsFile.newline_notMem {f : List Char} (h : IsFile f) : '\n' ∉ f := by
  cases h with
  | quoted h | angled h =>
    simp only [List.mem_cons, List.mem_append, List.not_mem_nil, or_false, not_or]
    exact ⟨by decide, fun hmem => (h _ hmem).2 rfl, by decide⟩

theorem IsFile.dropWhile_isBlank {f : List Char} (h : IsFile f) (cs : List Char) :
    (f ++ cs).dropWhile isBlank = f ++ cs := by
  cases h <;> rfl

theorem isSome_behindFile?_iff {cs : List Char} :
    (behindFile? cs).isSome ↔ ∃ f ds, IsFile f ∧ cs = f ++ ds := by
  constructor
  · intro h
    cases cs with
    | nil => cases h
    | cons c cs =>
      rw [behindFile?] at h
      split_ifs at h with hquote hangle
      · obtain ⟨w, ds, hw, rfl⟩ := isSome_behindName?_iff.1 h
        exact ⟨_, ds, .quoted hw, by simp [hquote]⟩
      · obtain ⟨w, ds, hw, rfl⟩ := isSome_behindName?_iff.1 h
        exact ⟨_, ds, .angled hw, by simp [hangle]⟩
      · cases h
  · rintro ⟨f, ds, hf, rfl⟩
    cases hf with
    | @quoted w h => exact isSome_behindName?_iff.2 ⟨w, ds, h, by simp⟩
    | @angled w h => exact isSome_behindName?_iff.2 ⟨w, ds, h, by simp⟩

inductive IsTarget : List Char → Prop
  | intro {bs bs' f : List Char} (hbs : ∀ c ∈ bs, isBlank c) (hbs' : ∀ c ∈ bs', isBlank c)
      (hf : IsFile f) : IsTarget (bs ++ ("include".toList ++ (bs' ++ f)))

theorem IsTarget.newline_notMem {w : List Char} (h : IsTarget w) : '\n' ∉ w := by
  cases h with
  | intro hbs hbs' hf =>
    simp only [List.mem_append]
    rintro (h | h | h | h)
    · cases hbs _ h
    · revert h
      decide
    · cases hbs' _ h
    · exact hf.newline_notMem h

theorem isSome_behindTarget?_iff {cs : List Char} :
    (behindTarget? cs).isSome ↔ ∃ w ds, IsTarget w ∧ cs = w ++ ds := by
  unfold behindTarget? startsWith
  simp only
  constructor
  · intro h
    split_ifs at h with hword
    · obtain ⟨es, hes⟩ := List.isPrefixOf_iff_prefix.1 hword
      rw [← hes, ← String.length_toList, List.drop_left] at h
      obtain ⟨f, ds, hf, hfile⟩ := isSome_behindFile?_iff.1 h
      have hcs : cs = cs.takeWhile isBlank ++
          ("include".toList ++ (es.takeWhile isBlank ++ (f ++ ds))) := by
        rw [← hfile, List.takeWhile_append_dropWhile, hes, List.takeWhile_append_dropWhile]
      refine ⟨cs.takeWhile isBlank ++ ("include".toList ++ (es.takeWhile isBlank ++ f)), ds, ?_, ?_⟩
      · exact .intro (fun _ => List.mem_takeWhile_imp) (fun _ => List.mem_takeWhile_imp) hf
      · simpa only [List.append_assoc] using hcs
    · cases h
  · rintro ⟨_, ds, ⟨hbs, hbs', hf⟩, rfl⟩
    have hword (x : List Char) :
        ("include".toList ++ x).dropWhile isBlank = "include".toList ++ x := rfl
    have hfile : (_ ++ ds).dropWhile isBlank = _ ++ ds := hf.dropWhile_isBlank ds
    simp only [List.append_assoc, List.dropWhile_append_of_pos hbs, hword]
    rw [if_pos (List.isPrefixOf_iff_prefix.2 ⟨_, rfl⟩), ← String.length_toList, List.drop_left,
      List.dropWhile_append_of_pos hbs', hfile]
    exact isSome_behindFile?_iff.2 ⟨_, ds, hf, rfl⟩

/-! ### Reading a directive -/

/-- Whether a character of a directive stands for itself, whatever stands behind it. -/
def isOrdinary (c : Char) : Bool := c != '/' && c != '\\' && c != '\n'

structure Reading where
  /-- A line comment or the name of a file stands somewhere in front of the place. -/
  tailed : Bool
  /-- The place is inside of a block comment. -/
  isOpen : Bool
  deriving DecidableEq, Repr

/-- Reads a text of a directive. Of its characters the first ones, as many as are given, belong
to what has been read. An `include` stands at its beginning or behind a comment, a slash, a
backslash or a newline. Nothing begins within a line comment. -/
def reading : Nat → List Char → Reading
  | _, [] => ⟨false, false⟩
  | n + 1, _ :: cs => reading n cs
  | 0, c :: cs =>
    match behindTarget? (c :: cs) with
    | some ds => { reading (cs.length - ds.length) cs with tailed := true }
    | none =>
      if isOrdinary c then reading (cs.takeWhile isOrdinary).length cs
      else if c = '/' ∧ cs.head? = some '/' then ⟨true, false⟩
      else if c = '/' ∧ cs.head? = some '*' then
        match behindComment? cs.tail with
        | some ds => reading (cs.length - ds.length) cs
        | none => ⟨false, true⟩
      else reading 0 cs

/-- Whether a newline behind the text ends the directive that the text begins. -/
def EndsDirective (cs : List Char) : Prop := cs.getLast? ≠ some '\\' ∧ ¬ (reading 0 cs).isOpen
deriving Decidable

theorem reading_skip (w cs : List Char) : reading w.length (w ++ cs) = reading 0 cs := by
  induction w with
  | nil => rfl
  | cons c w ih => exact ih

theorem behindTarget?_of_head {c : Char} (hc : ¬ isOrdinary c) (cs : List Char) :
    behindTarget? (c :: cs) = none := by
  have hsign : c = '/' ∨ c = '\\' ∨ c = '\n' := by
    simp only [isOrdinary, Bool.and_eq_true, bne_iff_ne] at hc
    tauto
  rcases hsign with rfl | rfl | rfl <;> rfl

theorem tailed_of_target {cs : List Char} (h : (behindTarget? cs).isSome) :
    (reading 0 cs).tailed := by
  cases cs with
  | nil => cases h
  | cons c cs =>
    obtain ⟨ds, hds⟩ := Option.isSome_iff_exists.1 h
    rw [reading, hds]

theorem reading_ordinary {w cs : List Char} (hw : ∀ c ∈ w, isOrdinary c)
    (hcs : ∀ c ∈ cs.head?, ¬ isOrdinary c) (ht : behindTarget? (w ++ cs) = none) :
    reading 0 (w ++ cs) = reading 0 cs := by
  cases w with
  | nil => rfl
  | cons c w =>
    obtain ⟨hc, hw⟩ := List.forall_mem_cons.1 hw
    have htake : (w ++ cs).takeWhile isOrdinary = w := by
      rw [List.takeWhile_append_of_pos hw]
      cases cs with
      | nil => simp
      | cons d cs => simp [hcs d rfl]
    rw [List.cons_append] at ht ⊢
    rw [reading, ht]
    simp only [hc, if_true, htake, reading_skip]

theorem reading_sign {c : Char} {cs : List Char} (hc : ¬ isOrdinary c)
    (h : c = '/' → cs.head? ≠ some '/' ∧ cs.head? ≠ some '*') :
    reading 0 (c :: cs) = reading 0 cs := by
  rw [reading, behindTarget?_of_head hc]
  simp only [hc]
  rw [if_neg (by simp), if_neg fun h' => (h h'.1).1 h'.2, if_neg fun h' => (h h'.1).2 h'.2]

theorem reading_lineComment (cs : List Char) : reading 0 ('/' :: '/' :: cs) = ⟨true, false⟩ := rfl

theorem reading_comment {w : List Char} (h : behindComment? w = some []) (cs : List Char) :
    reading 0 ('/' :: '*' :: (w ++ cs)) = reading 0 cs := by
  have hcs := behindComment?_append h cs
  have hlength : ('*' :: (w ++ cs)).length - cs.length = ('*' :: w).length := by
    simp only [List.length_cons, List.length_append]
    omega
  rw [reading, behindTarget?_of_head (by decide)]
  simp only [List.tail_cons, hcs, List.nil_append, hlength]
  exact reading_skip ('*' :: w) cs

theorem reading_open {w : List Char} (h : behindComment? w = none) :
    reading 0 ('/' :: '*' :: w) = ⟨false, true⟩ := by
  rw [reading, behindTarget?_of_head (by decide)]
  simp only [List.tail_cons, h]
  rfl

/-! ### First newlines -/

/-- The text holds of the predicate, and none of its parts in front of a newline does. -/
def IsFirst (P : List Char → Prop) (cs : List Char) : Prop :=
  P cs ∧ ∀ b ds, cs = b ++ '\n' :: ds → ¬ P b

/-- Of the newlines with such a text in front, there is a first one. -/
theorem exists_isFirst {P : List Char → Prop} {rest b ds : List Char}
    (hr : rest = b ++ '\n' :: ds) (hb : P b) : ∃ c es, rest = c ++ '\n' :: es ∧ IsFirst P c := by
  by_cases hfirst : IsFirst P b
  · exact ⟨b, ds, hr, hfirst⟩
  · simp only [IsFirst, not_and, not_forall, not_not] at hfirst
    obtain ⟨c, es, hc, hP⟩ := hfirst hb
    have hr' : rest = c ++ '\n' :: (es ++ '\n' :: ds) := by
      rw [hr, hc, List.append_assoc, List.cons_append]
    exact exists_isFirst hr' hP
termination_by b.length
decreasing_by
  rw [hc, List.length_append, List.length_cons]
  omega

/-- A newline stands in the first part of a text or behind it. -/
theorem append_eq_append_newline {w rest b ds : List Char} (h : w ++ rest = b ++ '\n' :: ds) :
    (∃ c, b = w ++ c ∧ rest = c ++ '\n' :: ds) ∨ ∃ x, w = b ++ '\n' :: x ∧ ds = x ++ rest := by
  rcases List.append_eq_append_iff.1 h with ⟨c, hb, hrest⟩ | ⟨x, hw, hds⟩
  · exact .inl ⟨c, hb, hrest⟩
  · cases x with
    | nil => exact .inl ⟨[], by simpa using hw.symm, by simpa using hds.symm⟩
    | cons d x =>
      obtain ⟨rfl, htail⟩ := List.cons.inj hds
      exact .inr ⟨x, hw, htail⟩

/-- Two predicates, one of which is the stronger one, have the same first newlines exactly if
the stronger one holds no later than the other one. -/
theorem isFirst_iff_isFirst_iff {P Q : List Char → Prop} (hPQ : ∀ cs, P cs → Q cs)
    {rest : List Char} :
    (∀ b ds, rest = b ++ '\n' :: ds → (IsFirst Q b ↔ IsFirst P b)) ↔
      ∀ b ds, rest = b ++ '\n' :: ds → Q b → P b ∨ ∃ c es, b = c ++ '\n' :: es ∧ P c := by
  constructor
  · intro h b ds hb hQ
    obtain ⟨c, es, hc, hfirst⟩ := exists_isFirst hb hQ
    have hP := ((h c es hc).1 hfirst).1
    rcases append_eq_append_newline (hb.symm.trans hc) with ⟨x, rfl, hx⟩ | ⟨x, hx, -⟩
    · cases x with
      | nil => exact .inl (by simpa using hP)
      | cons d x =>
        obtain ⟨rfl, -⟩ := List.cons.inj hx
        exact absurd hQ (hfirst.2 b x rfl)
    · exact .inr ⟨c, x, hx, hP⟩
  · intro h b ds hb
    constructor
    · rintro ⟨hQ, hall⟩
      refine ⟨(h b ds hb hQ).resolve_right ?_, fun c es hc hP => hall c es hc (hPQ c hP)⟩
      rintro ⟨c, es, hc, hP⟩
      exact hall c es hc (hPQ c hP)
    · rintro ⟨hP, hall⟩
      refine ⟨hPQ b hP, fun c es hc hQ => ?_⟩
      have hrest : rest = c ++ '\n' :: (es ++ '\n' :: ds) := by
        rw [hb, hc, List.append_assoc, List.cons_append]
      rcases h c _ hrest hQ with hP | ⟨x, fs, rfl, hP⟩
      · exact hall c es hc hP
      · exact hall x (fs ++ '\n' :: es) (by rw [hc, List.append_assoc, List.cons_append]) hP

theorem isFirst_iff {P : List Char → Prop} {cs : List Char} :
    IsFirst P cs ↔ P cs ∧ ∀ i < cs.length, cs[i]? = some '\n' → ¬ P (cs.take i) := by
  refine and_congr_right fun _ => ⟨fun h i hi hc => ?_, fun h b ds hb => ?_⟩
  · obtain ⟨_, hc⟩ := List.getElem?_eq_some_iff.1 hc
    refine h (cs.take i) (cs.drop (i + 1)) ?_
    rw [← hc, ← List.drop_eq_getElem_cons hi, List.take_append_drop]
  · have hlt : b.length < cs.length := by rw [hb]; simp
    have hnot := h b.length hlt (by rw [hb]; simp)
    rwa [hb, List.take_left] at hnot

instance (P : List Char → Prop) [DecidablePred P] (cs : List Char) : Decidable (IsFirst P cs) :=
  decidable_of_iff _ isFirst_iff.symm

/-! ### Portions of a directive -/

/-- What a scanner takes of a directive in one step, in front of some text. -/
inductive Portion : List Char → List Char → Prop
  | ordinary {w rest : List Char} (hw : ∀ c ∈ w, isOrdinary c)
      (hrest : ∀ c ∈ rest.head?, ¬ isOrdinary c) (ht : behindTarget? (w ++ rest) = none) :
      Portion w rest
  /-- A slash or a backslash that nothing begins with. -/
  | sign {c : Char} {rest : List Char} (hc : c = '/' ∨ c = '\\')
      (hslash : c = '/' → rest.head? ≠ some '/' ∧ rest.head? ≠ some '*')
      (hbackslash : c = '\\' → rest.head? ≠ some '\n') : Portion [c] rest
  | continued (rest : List Char) : Portion ['\\', '\n'] rest
  | comment {w : List Char} (h : behindComment? w = some []) (rest : List Char) :
      Portion ('/' :: '*' :: w) rest
  | openComment {w : List Char} (h : behindComment? w = none) : Portion ('/' :: '*' :: w) []
  /-- All of the line, from a line comment or the name of a file on. -/
  | tail {w rest : List Char} (hw : '\n' ∉ w) (hrest : ∀ c ∈ rest.head?, c = '\n')
      (ht : (reading 0 w).tailed) : Portion w rest

/-- Whether the scanner leaves the directive at a newline behind the text. -/
def Leaves (cs : List Char) : Prop := EndsDirective cs ∨ (reading 0 cs).tailed
deriving Decidable

theorem leaves_nil : Leaves [] := .inl ⟨by simp, by simp [reading]⟩

theorem not_leaves_open {w : List Char} (h : behindComment? w = none) :
    ¬ Leaves ('/' :: '*' :: w) := by
  rintro (⟨-, hopen⟩ | htailed)
  · rw [reading_open h] at hopen
    exact hopen rfl
  · rw [reading_open h] at htailed
    cases htailed

/-- A newline in a comment is no end of the directive. -/
theorem not_leaves_comment {w b x : List Char}
    (h : behindComment? w = none ∨ behindComment? w = some [])
    (he : '/' :: '*' :: w = b ++ '\n' :: x) : ¬ Leaves b := by
  match b, he with
  | [_], he => cases he
  | _ :: _ :: b, he =>
    cases he
    refine not_leaves_open ?_
    cases hb : behindComment? b with
    | none => rfl
    | some ds =>
      have happend := behindComment?_append hb ('\n' :: x)
      rcases h with h | h
      · cases happend.symm.trans h
      · simpa using happend.symm.trans h

namespace Portion

variable {w rest : List Char}

/-- A newline that a portion holds is no end of the directive, for the scanner neither. -/
theorem not_leaves (h : Portion w rest) {b x : List Char} (he : w = b ++ '\n' :: x) :
    ¬ Leaves b := by
  cases h with
  | ordinary hw =>
    have hnewline := hw '\n' (by simp [he])
    cases hnewline
  | sign hc =>
    cases b with
    | nil =>
      cases he
      simp at hc
    | cons => simp at he
  | continued =>
    match b, he with
    | [_], he =>
      cases he
      decide
    | _ :: _ :: b, he => simp at he
  | comment hcomment => exact not_leaves_comment (.inr hcomment) he
  | openComment hopen => exact not_leaves_comment (.inl hopen) he
  | tail hw => exact absurd (by simp [he]) hw

theorem leaves_append {b : List Char} (hreading : reading 0 (w ++ b) = reading 0 b)
    (hlast : b = [] → w.getLast? ≠ some '\\') : Leaves (w ++ b) ↔ Leaves b := by
  have hend : (w ++ b).getLast? ≠ some '\\' ↔ b.getLast? ≠ some '\\' := by
    cases hb : b.getLast? with
    | none => simpa [List.getLast?_eq_none_iff.1 hb] using hlast
    | some c => simp [hb]
  rw [Leaves, Leaves, EndsDirective, EndsDirective, hreading, hend]

/-- Behind a portion the directive reads as if it began there, unless the scanner has taken all
of the line. -/
theorem leaves_append_iff (h : Portion w rest) {b cs : List Char} (hr : rest = b ++ '\n' :: cs) :
    (Leaves (w ++ b) ↔ Leaves b) ∨ Leaves w ∧ ∃ ds, rest = '\n' :: ds := by
  have hhead {c : Char} (hc : c ≠ '\n') (hb : b.head? = some c) : rest.head? = some c := by
    rw [hr, List.head?_append, hb, Option.some_or]
  cases h with
  | ordinary hw hrest ht =>
    have ht' : behindTarget? (w ++ b) = none := by
      rw [hr, ← List.append_assoc] at ht
      rw [← Option.isNone_iff_eq_none, ← Option.not_isSome] at ht ⊢
      rwa [behindTarget?_append_newline] at ht
    have hb : ∀ c ∈ b.head?, ¬ isOrdinary c := fun c hc hord => by
      have hne : c ≠ '\n' := fun he => by simp [he, isOrdinary] at hord
      exact hrest c (hhead hne hc) hord
    refine .inl (leaves_append (reading_ordinary hw hb ht') fun _ hlast => ?_)
    have hord := hw _ (List.mem_of_getLast? hlast)
    cases hord
  | @sign c _ hc hslash hbackslash =>
    have hsign : ¬ isOrdinary c := by rcases hc with rfl | rfl <;> decide
    refine .inl (leaves_append (reading_sign hsign fun he => ⟨fun hb => ?_, fun hb => ?_⟩) ?_)
    · exact (hslash he).1 (hhead (by decide) hb)
    · exact (hslash he).2 (hhead (by decide) hb)
    · rintro rfl hlast
      exact hbackslash (by simpa using hlast) (by rw [hr]; rfl)
  | continued =>
    refine .inl (leaves_append ?_ fun _ => by decide)
    change reading 0 ('\\' :: '\n' :: b) = reading 0 b
    rw [reading_sign (by decide) fun he => absurd he (by decide),
      reading_sign (by decide) fun he => absurd he (by decide)]
  | comment hcomment =>
    refine .inl (leaves_append (reading_comment hcomment b) fun _ => ?_)
    rw [List.getLast?_cons_cons, List.getLast?_cons, getLast?_of_behindComment? hcomment]
    decide
  | openComment => cases b <;> cases hr
  | tail _ hrest ht =>
    refine .inr ⟨.inr ht, ?_⟩
    cases b with
    | nil => exact ⟨cs, hr⟩
    | cons c b =>
      rw [hrest c (by rw [hr]; rfl)] at hr
      exact ⟨_, hr⟩

/-- A portion does not move the first newline at which the scanner leaves the directive. -/
theorem isFirst_append_iff (h : Portion w rest) {b cs : List Char} (hr : rest = b ++ '\n' :: cs) :
    IsFirst Leaves (w ++ b) ↔ IsFirst Leaves b := by
  by_cases hw : Leaves w ∧ ∃ ds, rest = '\n' :: ds
  · -- both newlines are the one behind the portion, or neither is
    obtain ⟨hw, ds, hds⟩ := hw
    cases b with
    | nil =>
      refine iff_of_true ⟨by simpa using hw, fun c es hc => ?_⟩ ⟨leaves_nil, by simp⟩
      exact h.not_leaves ((List.append_nil w).symm.trans hc)
    | cons c b =>
      obtain ⟨rfl, -⟩ := List.cons.inj (hds.symm.trans hr)
      exact iff_of_false (fun hfirst => hfirst.2 w b rfl hw) fun hfirst =>
        hfirst.2 [] b rfl leaves_nil
  · have hiff {c es : List Char} (hc : rest = c ++ '\n' :: es) : Leaves (w ++ c) ↔ Leaves c :=
      (h.leaves_append_iff hc).resolve_right hw
    have hrest {c es : List Char} (hc : b = c ++ '\n' :: es) :
        rest = c ++ '\n' :: (es ++ '\n' :: cs) := by
      rw [hr, hc, List.append_assoc, List.cons_append]
    refine and_congr (hiff hr) ⟨fun hall c es hc => ?_, fun hall c es hc => ?_⟩
    · rw [← hiff (hrest hc)]
      exact hall (w ++ c) es (by rw [hc, List.append_assoc])
    · rcases append_eq_append_newline hc with ⟨d, rfl, hb⟩ | ⟨x, hx, -⟩
      · rw [hiff (hrest hb)]
        exact hall d es hb
      · exact h.not_leaves hx

end Portion

end Highlighter
