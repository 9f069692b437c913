import Highlighter.Proofs.DirectiveTexts
import Highlighter.Proofs.Directives
import Highlighter.Proofs.PreferredEnds

/-! Ends of directives. Seven rules take what a directive holds, and the last one leaves it at a
newline. Proved: each of the others takes a portion of the directive, so the scanner leaves at
the first newline that ends the directive or has a line comment or the name of an included file
in front of it. That is the end of the directive unless a newline behind such a comment or name
belongs to it. -/

namespace Highlighter

open Pattern Rules.EngineCpp

/-! ### Block comments -/

namespace Pattern

variable {r m : Reach}

def commentEnd : Pattern := alts [lit "*/", edge .textEnd]

theorem mem_ways_commentEnd :
    m ∈ commentEnd.ways r ↔ r.Takes ['*', '/'] m ∨ r.rest = [] ∧ m = r := by
  simp only [commentEnd, alts, mem_ways_alt, mem_ways_lit, mem_ways_edge, Reach.atEdge,
    Edge.holds, Option.isNone_iff_eq_none, List.head?_eq_none_iff]
  rfl

/-- What is left of a comment goes up to its first end, or to the end of the text. -/
theorem takes_of_commentRest {r m : Reach}
    (h : ((seqs [lazyStar (one .all), commentEnd]).ways r).head? = some m) :
    ∃ w, r.Takes w m ∧ (behindComment? w = some [] ∨ behindComment? w = none ∧ m.rest = []) := by
  change (((lazyStar (one .all)).ways r).flatMap commentEnd.ways).head? = some m at h
  rw [ways_lazyStar_one, List.flatMap_cons, List.head?_append] at h
  cases hend : (commentEnd.ways r).head? with
  | some x =>
    rw [hend] at h
    cases h
    rcases mem_ways_commentEnd.1 (List.mem_of_head? hend) with htakes | ⟨hnil, rfl⟩
    · exact ⟨_, htakes, .inl rfl⟩
    · exact ⟨[], Reach.takes_nil.2 rfl, .inr ⟨rfl, hnil⟩⟩
  | none =>
    -- the comment goes on behind one character more
    rw [hend, Option.none_or] at h
    have hnone : ∀ x, ¬ (r.Takes ['*', '/'] x ∨ r.rest = [] ∧ x = r) := fun x hx =>
      List.ne_nil_of_mem (mem_ways_commentEnd.2 hx) (List.head?_eq_none_iff.1 hend)
    obtain ⟨c, cs, hr⟩ := List.exists_cons_of_ne_nil fun hnil => hnone r (.inr ⟨hnil, rfl⟩)
    obtain ⟨x, hx, hrest⟩ := Reach.exists_takes (show r.rest = [c] ++ cs from hr)
    have hone : (one .all).ways r = [x] := by
      rw [ways, Reach.take?_eq_some_iff.2 ⟨c, rfl, hx⟩]
      rfl
    rw [hone, List.flatMap_singleton] at h
    obtain ⟨w, hw, hbehind⟩ := takes_of_commentRest (r := x) h
    have hskip : c = '*' → w.head? ≠ some '/' := by
      rintro rfl hhead
      obtain ⟨ds, rfl⟩ := List.head?_eq_some_iff.1 hhead
      obtain ⟨y, hy, -⟩ := (Reach.takes_cons _ _).1 hw
      exact hnone y (.inl ((Reach.takes_cons _ _).2 ⟨x, hx, hy⟩))
    refine ⟨c :: w, (Reach.takes_cons _ _).2 ⟨x, hx, hw⟩, ?_⟩
    rwa [behindComment?_cons hskip]
termination_by r.rest.length
decreasing_by
  rw [hr, hrest]
  exact Nat.lt_succ_self _

theorem takes_of_blockComment (h : (blockComment.ways r).head? = some m) :
    ∃ w, r.Takes ('/' :: '*' :: w) m ∧
      (behindComment? w = some [] ∨ behindComment? w = none ∧ m.rest = []) := by
  obtain ⟨x, hx, h⟩ := exists_of_head?_flatMap
    (show (((lit "/*").ways r).flatMap (seqs [lazyStar (one .all), commentEnd]).ways).head? =
      some m from h)
  obtain ⟨w, hw, hbehind⟩ := takes_of_commentRest h
  exact ⟨w, (Reach.takes_append _ _).2 ⟨x, mem_ways_lit.1 hx, hw⟩, hbehind⟩

theorem exists_mem_blockComment {cs : List Char} (hr : r.rest = '/' :: '*' :: cs) :
    ∃ m, m ∈ blockComment.ways r := by
  obtain ⟨x, hx, hxr⟩ := Reach.exists_takes (show r.rest = "/*".toList ++ cs from hr)
  obtain ⟨m, hm, hmr⟩ := Reach.exists_takes (List.append_nil x.rest).symm
  refine ⟨m, mem_ways_seqs_cons.2 ⟨x, mem_ways_lit.2 hx, mem_ways_seqs_cons.2 ⟨m, ?_, ?_⟩⟩⟩
  · exact mem_ways_lazyStar_one.2 ⟨x.rest, fun _ _ => rfl, hm⟩
  · exact mem_ways_commentEnd.2 (.inr ⟨hmr, rfl⟩)

/-! ### Included files -/

theorem mem_ways_enclosed {o c : Char} {s : CharSet} :
    m ∈ (seqs [char o, star (one s), char c]).ways r ↔
      ∃ w, (∀ d ∈ w, s.has d) ∧ r.Takes (o :: (w ++ [c])) m := by
  simp only [mem_ways_seqs_cons, mem_ways_seqs_nil, mem_ways_char, mem_ways_star_one]
  constructor
  · rintro ⟨x, hx, y, ⟨w, hw, hy⟩, _, hm, rfl⟩
    exact ⟨w, hw, (Reach.takes_cons _ _).2 ⟨x, hx, (Reach.takes_append _ _).2 ⟨y, hy, hm⟩⟩⟩
  · rintro ⟨w, hw, h⟩
    obtain ⟨x, hx, h⟩ := (Reach.takes_cons _ _).1 h
    obtain ⟨y, hy, hm⟩ := (Reach.takes_append _ _).1 h
    exact ⟨x, hx, y, ⟨w, hw, hy⟩, m, hm, rfl⟩

theorem mem_ways_includeTarget :
    m ∈ includeTarget.ways r ↔ ∃ f, IsFile f ∧ r.Takes f m := by
  have hquote (c : Char) : (CharSet.except [.of "\"\n"]).has c ↔ c ≠ '"' ∧ c ≠ '\n' := by simp
  have hangle (c : Char) : (CharSet.except [.of ">\n"]).has c ↔ c ≠ '>' ∧ c ≠ '\n' := by simp
  simp only [includeTarget, doubleQuoted, alts, mem_ways_alt, mem_ways_enclosed, hquote, hangle]
  constructor
  · rintro (⟨w, hw, h⟩ | ⟨w, hw, h⟩)
    · exact ⟨_, .quoted hw, h⟩
    · exact ⟨_, .angled hw, h⟩
  · rintro ⟨f, hf, h⟩
    cases hf with
    | quoted hw => exact .inl ⟨_, hw, h⟩
    | angled hw => exact .inr ⟨_, hw, h⟩

def includeHead : List Pattern :=
  numbered 1 [optBlanks, lit "include", optBlanks, includeTarget]

theorem isTarget_of_mem_includeHead (h : m ∈ (seqs includeHead).ways r) :
    ∃ t, IsTarget t ∧ r.rest = t ++ m.rest := by
  simp only [includeHead, numbered, mem_ways_seqs_cons, mem_ways_seqs_nil, mem_ways_group,
    mem_ways_optBlanks, mem_ways_lit, mem_ways_includeTarget] at h
  obtain ⟨_, ⟨x, ⟨bs, hbs, hx⟩, rfl⟩, _, ⟨y, hy, rfl⟩, _, ⟨z, ⟨bs', hbs', hz⟩, rfl⟩, _,
    ⟨m, ⟨f, hf, hm⟩, rfl⟩, rfl⟩ := h
  refine ⟨_, .intro hbs hbs' hf, ?_⟩
  have hy' : x.rest = "include".toList ++ y.rest := hy.rest_eq
  have hz' : y.rest = bs' ++ z.rest := hz.rest_eq
  have hm' : z.rest = f ++ m.rest := hm.rest_eq
  change r.rest = _ ++ m.rest
  rw [hx.rest_eq, hy', hz', hm']
  simp only [List.append_assoc]

theorem exists_mem_includeHead {t ds : List Char} (ht : IsTarget t) (hr : r.rest = t ++ ds) :
    ∃ m, m ∈ (seqs includeHead).ways r := by
  cases ht with
  | @intro bs bs' f hbs hbs' hf =>
    simp only [List.append_assoc] at hr
    obtain ⟨x, hx, hxr⟩ := Reach.exists_takes hr
    obtain ⟨y, hy, hyr⟩ := Reach.exists_takes (show (x.record 1 r.taken).rest = _ from hxr)
    obtain ⟨z, hz, hzr⟩ := Reach.exists_takes (show (y.record 2 x.taken).rest = _ from hyr)
    obtain ⟨m, hm, -⟩ := Reach.exists_takes (show (z.record 3 y.taken).rest = _ from hzr)
    simp only [includeHead, numbered, mem_ways_seqs_cons, mem_ways_seqs_nil, mem_ways_group,
      mem_ways_optBlanks, mem_ways_lit, mem_ways_includeTarget]
    exact ⟨_, _, ⟨x, ⟨bs, hbs, hx⟩, rfl⟩, _, ⟨y, hy, rfl⟩, _, ⟨z, ⟨bs', hbs', hz⟩, rfl⟩, _,
      ⟨m, ⟨f, hf, hm⟩, rfl⟩, rfl⟩

/-! ### Lines -/

def lineRest : Pattern := star (one (.except [.newline]))

theorem takes_of_lineRest (h : (lineRest.ways r).head? = some m) :
    ∃ u, '\n' ∉ u ∧ r.Takes u m ∧ ∀ c ∈ m.rest.head?, c = '\n' := by
  obtain ⟨u, hu, htakes⟩ := mem_ways_star_one.1 (List.mem_of_head? h)
  refine ⟨u, fun hmem => ?_, htakes, fun c hc => ?_⟩
  · have hnewline := hu _ hmem
    cases hnewline
  · simpa [CharSet.newline] using not_has_of_head?_star h c hc

theorem exists_mem_lineRest (r : Reach) : ∃ m, m ∈ lineRest.ways r :=
  ⟨r, mem_ways_star_one.2 ⟨[], by simp⟩⟩

end Pattern

/-! ### Rules of the state -/

/-- The rule for the name of an included file and all that stands behind it. -/
def includeRule : Rule :=
  .groups (.seqs (includeHead ++ [group 5 lineRest]))
    [.text, .commentPreproc, .text, .commentPreprocFile, .commentSingle]

def ordinaryChars : CharSet := .except [.of "/\n\\"]

theorem rules_directive : Rules.engineCpp.rules directive =
    [includeRule, .token blockComment .commentMultiline,
      .token (seqs [lit "//", lineRest]) .commentSingle, .token (lit "\\\n") .commentPreproc,
      .token (plus (one ordinaryChars)) .commentPreproc,
      .token (one (.of "/\\")) .commentPreproc, (Rule.token (char '\n') .text).pop 1] := rfl

theorem has_ordinaryChars (c : Char) : ordinaryChars.has c = isOrdinary c := by
  rw [Bool.eq_iff_iff]
  simp [ordinaryChars, isOrdinary]
  tauto

/-- Between two places stands a portion of a directive. -/
def TakesPortion (r m : Reach) : Prop := ∃ w, r.rest = w ++ m.rest ∧ Portion w m.rest

variable {r m : Reach}

theorem takesPortion_of_include (h : includeRule.pattern.match? r = some m) :
    TakesPortion r m := by
  rw [match?_eq_head? rfl] at h
  obtain ⟨x, hx, h⟩ := exists_of_head?_seqs (l := includeHead) h
  obtain ⟨t, ht, hr⟩ := isTarget_of_mem_includeHead hx
  rw [ways, List.head?_map] at h
  obtain ⟨y, hy, rfl⟩ := Option.map_eq_some_iff.1 h
  obtain ⟨u, hu, htakes, hend⟩ := takes_of_lineRest hy
  refine ⟨t ++ u, ?_, .tail ?_ hend ?_⟩
  · rw [hr, htakes.rest_eq, List.append_assoc]
    rfl
  · rw [List.mem_append, not_or]
    exact ⟨ht.newline_notMem, hu⟩
  · exact tailed_of_target (isSome_behindTarget?_iff.2 ⟨t, u, ht, rfl⟩)

theorem exists_mem_include (h : (behindTarget? r.rest).isSome) :
    ∃ m, m ∈ includeRule.pattern.ways r := by
  obtain ⟨t, ds, ht, hr⟩ := isSome_behindTarget?_iff.1 h
  obtain ⟨x, hx⟩ := exists_mem_includeHead ht hr
  obtain ⟨m, hm⟩ := exists_mem_lineRest x
  exact ⟨m.record 5 x.taken, mem_ways_seqs_append.2 ⟨x, hx, mem_ways_group.2 ⟨m, hm, rfl⟩⟩⟩

theorem takesPortion_of_blockComment (h : blockComment.match? r = some m) :
    TakesPortion r m := by
  rw [match?_eq_head? rfl] at h
  obtain ⟨w, hw, hclosed | ⟨hopen, hend⟩⟩ := takes_of_blockComment h
  · exact ⟨_, hw.rest_eq, .comment hclosed _⟩
  · exact ⟨_, hw.rest_eq, by rw [hend]; exact .openComment hopen⟩

theorem takesPortion_of_lineComment (h : (seqs [lit "//", lineRest]).match? r = some m) :
    TakesPortion r m := by
  rw [match?_eq_head? rfl] at h
  obtain ⟨x, hx, h⟩ := exists_of_head?_seqs (l := [lit "//"]) h
  obtain ⟨u, hu, htakes, hend⟩ := takes_of_lineRest h
  have hx : r.rest = '/' :: '/' :: x.rest := (mem_ways_lit.1 hx).rest_eq
  refine ⟨'/' :: '/' :: u, by rw [hx, htakes.rest_eq]; rfl, .tail ?_ hend ?_⟩
  · simpa using hu
  · rw [reading_lineComment]

theorem exists_mem_lineComment {cs : List Char} (hr : r.rest = '/' :: '/' :: cs) :
    ∃ m, m ∈ (seqs [lit "//", lineRest]).ways r := by
  obtain ⟨x, hx, -⟩ := Reach.exists_takes (show r.rest = "//".toList ++ cs from hr)
  obtain ⟨m, hm⟩ := exists_mem_lineRest x
  exact ⟨m, mem_ways_seqs_cons.2 ⟨x, mem_ways_lit.2 hx, hm⟩⟩

theorem takesPortion_of_ordinary (h : (plus (one ordinaryChars)).match? r = some m)
    (hinclude : ∀ x, x ∉ includeRule.pattern.ways r) : TakesPortion r m := by
  rw [match?_eq_head? rfl] at h
  obtain ⟨w, -, hw, htakes⟩ := mem_ways_plus_one.1 (List.mem_of_head? h)
  refine ⟨w, htakes.rest_eq, .ordinary ?_ ?_ ?_⟩
  · exact fun c hc => (has_ordinaryChars c).symm.trans (hw c hc)
  · intro c hc
    rw [← has_ordinaryChars, not_has_of_head?_plus h c hc]
    decide
  · rw [← htakes.rest_eq, ← Option.not_isSome_iff_eq_none]
    intro hsome
    obtain ⟨x, hx⟩ := exists_mem_include hsome
    exact hinclude x hx

/-- A slash or a backslash is taken by itself where nothing begins with it. -/
theorem takesPortion_of_sign (h : (one (.of "/\\")).match? r = some m)
    (hblock : ∀ x, x ∉ blockComment.ways r) (hline : ∀ x, x ∉ (seqs [lit "//", lineRest]).ways r)
    (hsplice : ∀ x, x ∉ (lit "\\\n").ways r) : TakesPortion r m := by
  obtain ⟨c, hc, htakes⟩ := mem_ways_one.1 (mem_ways_of_match? rfl h)
  have hcons {d : Char} (hd : m.rest.head? = some d) : ∃ cs, r.rest = c :: d :: cs := by
    obtain ⟨cs, hcs⟩ := List.head?_eq_some_iff.1 hd
    exact ⟨cs, by rw [htakes.rest_eq, hcs]; rfl⟩
  refine ⟨[c], htakes.rest_eq, .sign (by simpa using hc) ?_ ?_⟩
  · rintro rfl
    constructor
    · intro hd
      obtain ⟨cs, hcs⟩ := hcons hd
      obtain ⟨x, hx⟩ := exists_mem_lineComment hcs
      exact hline x hx
    · intro hd
      obtain ⟨cs, hcs⟩ := hcons hd
      obtain ⟨x, hx⟩ := exists_mem_blockComment hcs
      exact hblock x hx
  · rintro rfl hd
    obtain ⟨cs, hcs⟩ := hcons hd
    obtain ⟨x, hx, -⟩ := Reach.exists_takes (show r.rest = "\\\n".toList ++ cs from hcs)
    exact hsplice x (mem_ways_lit.2 hx)

/-- There is a rule for each character. -/
theorem exists_mem_directive (hr : r.rest ≠ []) : ∃ x, x ∈ (plus (one ordinaryChars)).ways r ∨
    x ∈ (one (.of "/\\")).ways r ∨ x ∈ (char '\n').ways r := by
  obtain ⟨c, cs, hcs⟩ := List.exists_cons_of_ne_nil hr
  obtain ⟨x, hx, -⟩ := Reach.exists_takes (show r.rest = [c] ++ cs from hcs)
  refine ⟨x, ?_⟩
  simp only [mem_ways_plus_one, mem_ways_one, mem_ways_char]
  by_cases hord : isOrdinary c
  · exact .inl ⟨[c], by simp, by simpa [has_ordinaryChars] using hord, hx⟩
  · have hsign : (c = '/' ∨ c = '\\') ∨ c = '\n' := by
      simp only [isOrdinary, Bool.and_eq_true, bne_iff_ne] at hord
      tauto
    rcases hsign with hc | rfl
    · exact .inr (.inl ⟨c, by simpa using hc, hx⟩)
    · exact .inr (.inr hx)

/-! ### Steps in a directive -/

namespace Scanner

variable {s : Scanner} {st : Stack}

/-- What the rule takes that is selected in a directive. -/
theorem select_directive (hst : s.stack.top = directive) (hr : s.rest ≠ []) :
    ∃ r m, s.select Rules.engineCpp = some (r, m) ∧
      (r.move = .pop 1 ∧ s.rest = '\n' :: m.rest ∨
        r.move = .stay ∧ TakesPortion (.start s.before s.rest) m) := by
  rw [select, hst, rules_directive]
  have hmatch {r : Rule} {m : Reach} (h : s.effect? r = some m) (hp : r.action ≠ .peek) :
      r.pattern.match? (.start s.before s.rest) = some m :=
    Rule.pattern_match? (effect?_eq_some h).1 hp
  -- the rules are tried in their order
  cases hinclude : s.effect? includeRule with
  | some m =>
    have hm := takesPortion_of_include (hmatch hinclude (by decide))
    exact ⟨_, m, findSome?_of_effect? hinclude, .inr ⟨rfl, hm⟩⟩
  | none =>
  rw [findSome?_of_effect?_eq_none hinclude]
  cases hblock : s.effect? (.token blockComment .commentMultiline) with
  | some m =>
    have hm := takesPortion_of_blockComment (hmatch hblock (by decide))
    exact ⟨_, m, findSome?_of_effect? hblock, .inr ⟨rfl, hm⟩⟩
  | none =>
  rw [findSome?_of_effect?_eq_none hblock]
  cases hline : s.effect? (.token (seqs [lit "//", lineRest]) .commentSingle) with
  | some m =>
    have hm := takesPortion_of_lineComment (hmatch hline (by decide))
    exact ⟨_, m, findSome?_of_effect? hline, .inr ⟨rfl, hm⟩⟩
  | none =>
  rw [findSome?_of_effect?_eq_none hline]
  cases hsplice : s.effect? (.token (lit "\\\n") .commentPreproc) with
  | some m =>
    have hm := mem_ways_lit.1 (mem_ways_of_match? rfl (hmatch hsplice (by decide)))
    exact ⟨_, m, findSome?_of_effect? hsplice, .inr ⟨rfl, _, hm.rest_eq, .continued _⟩⟩
  | none =>
  rw [findSome?_of_effect?_eq_none hsplice]
  rw [effect?_eq_none_iff rfl (by decide) rfl rfl] at hinclude hblock hline hsplice
  cases hordinary : s.effect? (.token (plus (one ordinaryChars)) .commentPreproc) with
  | some m =>
    have hm := takesPortion_of_ordinary (hmatch hordinary (by decide)) hinclude
    exact ⟨_, m, findSome?_of_effect? hordinary, .inr ⟨rfl, hm⟩⟩
  | none =>
  rw [findSome?_of_effect?_eq_none hordinary]
  cases hsign : s.effect? (.token (one (.of "/\\")) .commentPreproc) with
  | some m =>
    have hm := takesPortion_of_sign (hmatch hsign (by decide)) hblock hline hsplice
    exact ⟨_, m, findSome?_of_effect? hsign, .inr ⟨rfl, hm⟩⟩
  | none =>
  rw [findSome?_of_effect?_eq_none hsign]
  cases hnewline : s.effect? ((Rule.token (char '\n') .text).pop 1) with
  | some m =>
    have hm := mem_ways_char.1 (mem_ways_of_match? rfl (hmatch hnewline (by decide)))
    exact ⟨_, m, findSome?_of_effect? hnewline, .inl ⟨rfl, hm.rest_eq⟩⟩
  | none =>
  rw [effect?_eq_none_iff rfl (by decide) rfl rfl] at hordinary hsign hnewline
  obtain ⟨x, h | h | h⟩ := exists_mem_directive (r := .start s.before s.rest) hr
  · exact absurd h (hordinary x)
  · exact absurd h (hsign x)
  · exact absurd h (hnewline x)

/-- A step in a directive leaves it at a newline, or takes a portion of it. -/
theorem step_directive (hst : s.stack = st.push directive) (hr : s.rest ≠ []) :
    (s.rest = '\n' :: (s.step Rules.engineCpp).rest ∧ (s.step Rules.engineCpp).stack = st) ∨
    (s.step Rules.engineCpp).stack = st.push directive ∧
      (s.step Rules.engineCpp).rest.length < s.rest.length ∧
      ∃ w, s.rest = w ++ (s.step Rules.engineCpp).rest ∧
        Portion w (s.step Rules.engineCpp).rest := by
  obtain ⟨r, m, hsel, h⟩ := select_directive (by rw [hst]; rfl) hr
  have hmatch := match?_of_select hsel
  have hadd : m.taken + m.rest.length = 0 + s.rest.length :=
    (r.leads_of_match? hmatch).taken_add
  have hpos : 0 < m.taken := by
    rcases (effect?_eq_some (select_eq_some hsel).2).2 with hpos | hchanges
    · exact hpos
    · rcases h with ⟨-, hnewline⟩ | ⟨hmove, -⟩
      · rw [hnewline, List.length_cons] at hadd
        omega
      · rw [hmove] at hchanges
        cases hchanges
  have hrest : (s.step Rules.engineCpp).rest = m.rest := by
    rw [step_of_select hsel hpos]
    exact (place_apply hmatch).1
  have hstack : (s.step Rules.engineCpp).stack = r.move.apply s.stack := by
    rw [step_of_select hsel hpos]
    rfl
  rw [hrest, hstack, hst]
  rcases h with ⟨hmove, hnewline⟩ | ⟨hmove, w, hw, hportion⟩
  · exact .inl ⟨hnewline, by rw [hmove]; rfl⟩
  · refine .inr ⟨by rw [hmove]; rfl, ?_, w, hw, hportion⟩
    omega

/-! ### Runs through a directive -/

/-- The run of the scanner is in the directive up to a step that leaves it in front of the
text. -/
def LeavesAt (s : Scanner) (st : Stack) (after : List Char) : Prop :=
  ∃ n, (s.run Rules.engineCpp n).rest = after ∧ (s.run Rules.engineCpp n).stack = st ∧
    ∀ k < n, (s.run Rules.engineCpp k).stack = st.push directive

/-- The run of the scanner is in the directive up to the end of the text. -/
def Stays (s : Scanner) (st : Stack) : Prop :=
  ∀ n, (s.run Rules.engineCpp n).stack = st.push directive

theorem push_ne (st : Stack) (q : Nat) : st.push q ≠ st := fun h =>
  List.cons_ne_self st.top st.below (congrArg Stack.below h)

theorem LeavesAt.unique {a b : List Char} (ha : s.LeavesAt st a) (hb : s.LeavesAt st b) :
    a = b := by
  obtain ⟨n, rfl, hn, hbefore⟩ := ha
  obtain ⟨k, rfl, hk, hbefore'⟩ := hb
  rcases Nat.lt_trichotomy n k with h | rfl | h
  · exact absurd ((hbefore' n h).symm.trans hn) (push_ne st directive)
  · rfl
  · exact absurd ((hbefore k h).symm.trans hk) (push_ne st directive)

theorem leavesAt_step_iff {after : List Char} (hst : s.stack = st.push directive)
    (hr : s.rest ≠ []) : (s.step Rules.engineCpp).LeavesAt st after ↔ s.LeavesAt st after := by
  constructor
  · rintro ⟨n, hafter, hn, hbefore⟩
    refine ⟨n + 1, ?_, ?_, fun k hk => ?_⟩
    · rwa [run_succ hr]
    · rwa [run_succ hr]
    · cases k with
      | zero => exact hst
      | succ k =>
        rw [run_succ hr]
        exact hbefore k (Nat.lt_of_succ_lt_succ hk)
  · rintro ⟨n, hafter, hn, hbefore⟩
    cases n with
    | zero => exact absurd (hst.symm.trans hn) (push_ne st directive)
    | succ n =>
      rw [run_succ hr] at hafter hn
      refine ⟨n, hafter, hn, fun k hk => ?_⟩
      rw [← hbefore (k + 1) (Nat.succ_lt_succ hk), run_succ hr]

theorem not_leavesAt_of_rest_eq_nil {after : List Char} (hst : s.stack = st.push directive)
    (hr : s.rest = []) : ¬ s.LeavesAt st after := by
  rintro ⟨n, -, hn, -⟩
  rw [run_of_rest_eq_nil hr] at hn
  exact push_ne st directive (hst.symm.trans hn)

theorem leavesAt_of_step (hst : s.stack = st.push directive) (hr : s.rest ≠ [])
    (hleft : (s.step Rules.engineCpp).stack = st) :
    s.LeavesAt st (s.step Rules.engineCpp).rest := by
  refine ⟨1, by rw [run_succ hr]; rfl, by rw [run_succ hr]; exact hleft, fun k hk => ?_⟩
  rw [Nat.lt_one_iff.1 hk]
  exact hst

/-- A directive is left behind a newline of the text. -/
theorem LeavesAt.exists_newline {s : Scanner} {after : List Char} (h : s.LeavesAt st after)
    (hst : s.stack = st.push directive) : ∃ body, s.rest = body ++ '\n' :: after := by
  have hr : s.rest ≠ [] := fun hr => not_leavesAt_of_rest_eq_nil hst hr h
  rcases step_directive hst hr with ⟨hnewline, hleft⟩ | ⟨hstay, _, w, hw, -⟩
  · rw [h.unique (leavesAt_of_step hst hr hleft)]
    exact ⟨[], hnewline⟩
  · obtain ⟨body, hbody⟩ := exists_newline ((leavesAt_step_iff hst hr).2 h) hstay
    exact ⟨w ++ body, by rw [hw, hbody, List.append_assoc]⟩
termination_by s.rest.length

/-- The scanner leaves a directive at the first newline that it leaves one at. -/
theorem leavesAt_iff {s : Scanner} {body after : List Char} (hst : s.stack = st.push directive)
    (hs : s.rest = body ++ '\n' :: after) : s.LeavesAt st after ↔ IsFirst Leaves body := by
  have hr : s.rest ≠ [] := by simp [hs]
  rcases step_directive hst hr with ⟨hnewline, hleft⟩ | ⟨hstay, _, w, hw, hportion⟩
  · have hleaves := leavesAt_of_step hst hr hleft
    cases body with
    | nil =>
      have hafter := (List.cons.inj (hnewline.symm.trans hs)).2
      rw [hafter] at hleaves
      exact iff_of_true hleaves ⟨leaves_nil, by simp⟩
    | cons c body =>
      obtain ⟨hc, htail⟩ := List.cons.inj (hnewline.symm.trans hs)
      refine iff_of_false (fun h => ?_) fun h => h.2 [] body (by rw [hc]; rfl) leaves_nil
      have hlength := congrArg List.length (htail.symm.trans (h.unique hleaves).symm)
      simp only [List.append_eq, List.length_append, List.length_cons] at hlength
      omega
  · rw [← leavesAt_step_iff hst hr]
    rcases append_eq_append_newline (hw.symm.trans hs) with ⟨b, rfl, hb⟩ | ⟨x, hx, hafter⟩
    · rw [leavesAt_iff hstay hb, hportion.isFirst_append_iff hb]
    · refine iff_of_false (fun h => ?_) fun h => hportion.not_leaves hx h.1
      obtain ⟨b, hb⟩ := h.exists_newline hstay
      have hlength := congrArg List.length hb
      simp only [hafter, List.length_append, List.length_cons] at hlength
      omega
termination_by s.rest.length

/-- The run comes to a newline where it leaves the directive, or stays in it. -/
theorem stays_or_exists_leavesAt {s : Scanner} (hst : s.stack = st.push directive) :
    s.Stays st ∨ ∃ after, s.LeavesAt st after := by
  by_cases hr : s.rest = []
  · exact .inl fun n => by rwa [run_of_rest_eq_nil hr]
  rcases step_directive hst hr with ⟨-, hleft⟩ | ⟨hstay, _, -⟩
  · exact .inr ⟨_, leavesAt_of_step hst hr hleft⟩
  rcases stays_or_exists_leavesAt hstay with hstays | ⟨after, hleaves⟩
  · refine .inl fun n => ?_
    cases n with
    | zero => exact hst
    | succ n =>
      rw [run_succ hr]
      exact hstays n
  · exact .inr ⟨after, (leavesAt_step_iff hst hr).1 hleaves⟩
termination_by s.rest.length

theorem stays_iff (hst : s.stack = st.push directive) :
    s.Stays st ↔ ∀ body after, s.rest = body ++ '\n' :: after → ¬ Leaves body := by
  constructor
  · intro hstays body after hs hleaves
    obtain ⟨b, ds, hb, hfirst⟩ := exists_isFirst hs hleaves
    obtain ⟨n, -, hn, -⟩ := (leavesAt_iff hst hb).2 hfirst
    exact push_ne st directive ((hstays n).symm.trans hn)
  · intro hnone
    refine (stays_or_exists_leavesAt hst).resolve_right ?_
    rintro ⟨after, hleaves⟩
    obtain ⟨body, hs⟩ := hleaves.exists_newline hst
    exact hnone body after hs ((leavesAt_iff hst hs).1 hleaves).1

/-- The scanner leaves the directive at the first newline with such a text between the beginning
of the directive and itself, and stays in it if there is none. -/
def LeavesAtFirst (s : Scanner) (st : Stack) (P : List Char → Prop) : Prop :=
  (∀ body after, s.rest = body ++ '\n' :: after → (s.LeavesAt st after ↔ IsFirst P body)) ∧
  (s.Stays st ↔ ∀ body after, s.rest = body ++ '\n' :: after → ¬ P body)

end Scanner

/-- A directive is left at the first newline that ends it or has a line comment or the name of an
included file in front of it. This is where the directive ends exactly if each newline behind
such a comment or name ends it, or stands behind one that does. -/
theorem directive_leavesAtFirst {s : Scanner} {st : Stack} (hst : s.stack = st.push directive) :
    s.LeavesAtFirst st Leaves ∧
    (s.LeavesAtFirst st EndsDirective ↔
      ∀ body after, s.rest = body ++ '\n' :: after → (reading 0 body).tailed →
        EndsDirective body ∨ ∃ b ds, body = b ++ '\n' :: ds ∧ EndsDirective b) := by
  have hleaves : s.LeavesAtFirst st Leaves :=
    ⟨fun _ _ => Scanner.leavesAt_iff hst, Scanner.stays_iff hst⟩
  have hsame : s.LeavesAtFirst st EndsDirective ↔ ∀ body after, s.rest = body ++ '\n' :: after →
      (IsFirst Leaves body ↔ IsFirst EndsDirective body) := by
    refine ⟨fun h body after hs => (hleaves.1 body after hs).symm.trans (h.1 body after hs),
      fun h => ⟨fun body after hs => (hleaves.1 body after hs).trans (h body after hs), ?_⟩⟩
    refine hleaves.2.trans ⟨fun hnone body after hs hend => hnone body after hs (.inl hend),
      fun hnone body after hs hbody => ?_⟩
    obtain ⟨b, ds, hb, hfirst⟩ := exists_isFirst hs hbody
    exact hnone b ds hb ((h b ds hb).1 hfirst).1
  refine ⟨hleaves, hsame.trans ((isFirst_iff_isFirst_iff fun _ => .inl).trans ?_)⟩
  refine forall_congr' fun body => forall_congr' fun after => imp_congr_right fun _ => ?_
  exact ⟨fun h htailed => h (.inr htailed), fun h hbody => hbody.elim .inl h⟩

/-- A directive with a comment over two lines and a line that is continued. -/
theorem directive_leavesAtFirst_continued :
    let s := (Scanner.start "#if A /* B\n */ \\\n && C\nint x;".toList).run Rules.engineCpp 1
    s.stack = Stack.root.push directive ∧ s.LeavesAt .root "int x;".toList := by
  intro s
  have hst : s.stack = Stack.root.push directive := by decide +kernel
  have hs : s.rest = "if A /* B\n */ \\\n && C".toList ++ '\n' :: "int x;".toList := by
    decide +kernel
  exact ⟨hst, ((directive_leavesAtFirst hst).1.1 _ _ hs).2 (by decide +kernel)⟩

/-- A backslash behind a line comment does not carry the directive into the next line. -/
theorem directive_leaves_continuedComment :
    let s := (Scanner.start "#define A 1 // one \\\nint x;".toList).run Rules.engineCpp 1
    s.stack = Stack.root.push directive ∧ s.LeavesAt .root "int x;".toList ∧
      ¬ s.LeavesAtFirst .root EndsDirective := by
  intro s
  have hst : s.stack = Stack.root.push directive := by decide +kernel
  have hs : s.rest = "define A 1 // one \\".toList ++ '\n' :: "int x;".toList := by
    decide +kernel
  have hleaves : s.LeavesAt .root "int x;".toList :=
    (Scanner.leavesAt_iff hst hs).2 (by decide +kernel)
  refine ⟨hst, hleaves, fun h => ?_⟩
  have hfirst := (h.1 _ _ hs).1 hleaves
  revert hfirst
  decide +kernel

end Highlighter
