import Highlighter.Proofs.Conditionals
import Highlighter.Proofs.Ends
import Highlighter.Proofs.Frames
import Highlighter.Rules.EngineCpp

/-! Directives in a skipped block. Three rules look for the lines that nest or end a block,
and a fourth takes any other line. Proved: each of the three takes exactly the lines that are
directives of its form, and takes them whole, so the rule that is selected for a line is told
by the role of the line. -/

namespace Highlighter

open Pattern Rules.EngineCpp

/-! ### Rules and roles -/

theorem has_blank (c : Char) : CharSet.blank.has c = isBlank c := by
  rw [CharSet.blank, CharSet.has_of, Bool.eq_iff_iff]
  simp [isBlank]

theorem has_dot (c : Char) : (CharSet.compl .newline).has c = (c != '\n') := by
  simp [CharSet.has, CharSet.newline, bne]

def conditional (form : List Pattern) (mv : Move) : Rule :=
  ⟨.line (optBlanks :: char '#' :: optBlanks :: (form ++ [toLineEnd])), none,
    .emit .commentPreproc, mv⟩

def elseOrElif : Pattern := seqs [lit "el", oneOf ["se", "if"]]

theorem rules_skipped : Rules.engineCpp.rules skipped =
    [conditional [lit "if"] (.push skipped), conditional [lit "endif"] (.pop 1),
      conditional [elseOrElif, boundary] (.pop 1),
      .token (plus dot) .comment, .token (char '\n') .text] := rfl

/-- The pattern finds the form behind the blanks of a directive. -/
structure Finds (form : List Pattern) (test : List Char → Bool) : Prop where
  exists_mem : ∀ x, (∃ y, y ∈ (seqs form).ways x) ↔ test x.rest
  head_not_blank : ∀ cs, test cs → ¬ cs.head?.any isBlank
  unmarked : (seqs form).unmarked

theorem mem_ways_optBlanks {r m : Reach} :
    m ∈ optBlanks.ways r ↔ ∃ bs, (∀ c ∈ bs, isBlank c) ∧ r.Takes bs m := by
  simp [optBlanks, has_blank]

theorem mem_ways_head {form : List Pattern} {r m : Reach} :
    m ∈ (seqs (optBlanks :: char '#' :: optBlanks :: form)).ways r ↔
      ∃ bs bs' x, (∀ c ∈ bs, isBlank c) ∧ (∀ c ∈ bs', isBlank c) ∧
        r.Takes (bs ++ '#' :: bs') x ∧ m ∈ (seqs form).ways x := by
  simp only [mem_ways_seqs_cons, mem_ways_optBlanks, mem_ways_char]
  constructor
  · rintro ⟨x, ⟨bs, hbs, hx⟩, y, hy, z, ⟨bs', hbs', hz⟩, hm⟩
    refine ⟨bs, bs', z, hbs, hbs', ?_, hm⟩
    exact (Reach.takes_append _ _).2 ⟨x, hx, (Reach.takes_cons _ _).2 ⟨y, hy, hz⟩⟩
  · rintro ⟨bs, bs', z, hbs, hbs', hz, hm⟩
    obtain ⟨x, hx, hz⟩ := (Reach.takes_append _ _).1 hz
    obtain ⟨y, hy, hz⟩ := (Reach.takes_cons _ _).1 hz
    exact ⟨x, ⟨bs, hbs, hx⟩, y, hy, z, ⟨bs', hbs', hz⟩, hm⟩

theorem mem_ways_lineRest {r m : Reach} : m ∈ (seqs [toLineEnd, lineEnd]).ways r ↔
    ∃ cs, (∀ c ∈ cs, c ≠ '\n') ∧ r.Takes cs m ∧ m.atEdge .lineEnd := by
  simp only [mem_ways_seqs_cons, mem_ways_seqs_nil, toLineEnd, dot, mem_ways_star_one, has_dot,
    lineEnd, mem_ways_edge, bne_iff_ne]
  constructor
  · rintro ⟨x, ⟨cs, hcs, hx⟩, _, ⟨hend, rfl⟩, rfl⟩
    exact ⟨cs, hcs, hx, hend⟩
  · rintro ⟨cs, hcs, hx, hend⟩
    exact ⟨m, ⟨cs, hcs, hx⟩, m, ⟨hend, rfl⟩, rfl⟩

theorem mem_ways_conditional {form : List Pattern} {mv : Move} {r m : Reach} :
    m ∈ (conditional form mv).pattern.ways r ↔ r.atEdge .lineStart ∧
      ∃ x ∈ (seqs (optBlanks :: char '#' :: optBlanks :: form)).ways r,
        m ∈ (seqs [toLineEnd, lineEnd]).ways x := by
  have hpattern : (conditional form mv).pattern = seqs (lineStart ::
      ((optBlanks :: char '#' :: optBlanks :: form) ++ [toLineEnd, lineEnd])) := by
    simp [conditional, Pattern.line]
  rw [hpattern, mem_ways_seqs_cons]
  constructor
  · rintro ⟨x, hx, hm⟩
    obtain ⟨h, rfl⟩ := mem_ways_edge.1 hx
    exact ⟨h, mem_ways_seqs_append.1 hm⟩
  · rintro ⟨h, hm⟩
    exact ⟨r, mem_ways_edge.2 ⟨h, rfl⟩, mem_ways_seqs_append.2 hm⟩

/-- The rule takes exactly the lines that are directives of its form. -/
theorem exists_mem_conditional {form : List Pattern} {test : List Char → Bool}
    (h : Finds form test) (mv : Move) (l : Line) :
    (∃ m, m ∈ (conditional form mv).pattern.ways (.start none l.chars)) ↔ l.directs test := by
  rw [Line.directs, Option.any_eq_true]
  constructor
  · rintro ⟨m, hm⟩
    obtain ⟨-, y, hy, -⟩ := mem_ways_conditional.1 hm
    obtain ⟨bs, bs', x, hbs, hbs', hx, hy⟩ := mem_ways_head.1 hy
    have htest := (h.exists_mem x).1 ⟨y, hy⟩
    refine ⟨x.rest, directive?_eq_some.2 ⟨bs, bs', ?_, hbs, hbs', ?_⟩, htest⟩
    · rw [show l.chars = _ from hx.rest_eq]
      simp
    · exact h.head_not_blank _ htest
  · rintro ⟨ds, hds, htest⟩
    obtain ⟨bs, bs', hl, hbs, hbs', -⟩ := directive?_eq_some.1 hds
    have hrest : (Reach.start none l.chars).rest = (bs ++ '#' :: bs') ++ ds := by
      simp [Reach.start, hl]
    obtain ⟨x, hx, rfl⟩ := Reach.exists_takes hrest
    obtain ⟨y, hy⟩ := (h.exists_mem x).2 htest
    obtain ⟨m, hm, hend⟩ := Reach.exists_takes (List.append_nil y.rest).symm
    refine ⟨m, mem_ways_conditional.2 ⟨rfl, y, mem_ways_head.2 ⟨bs, bs', x, hbs, hbs', hx, hy⟩,
      mem_ways_lineRest.2 ⟨y.rest, ?_, hm, by simp [Reach.atEdge, hend, Edge.holds]⟩⟩⟩
    -- what is left of the line has no newline in it either
    rintro c hc rfl
    obtain ⟨cs, hcs, -, -⟩ := (leads_of_mem_ways h.unmarked hy).exists_taken
    refine l.newline_free ?_
    rw [hl, hcs]
    simp [hc]

/-- A match of the rule takes the whole line. -/
theorem taken_of_mem_conditional {form : List Pattern} {mv : Move} {l : Line} {m : Reach}
    (hu : (conditional form mv).pattern.unmarked)
    (hm : m ∈ (conditional form mv).pattern.ways (.start none l.chars)) :
    m.taken = l.chars.length := by
  have hlead := leads_of_mem_ways hu hm
  obtain ⟨-, y, -, hy⟩ := mem_ways_conditional.1 hm
  obtain ⟨-, -, -, hend⟩ := mem_ways_lineRest.1 hy
  have hrest : m.rest = [] := by
    obtain ⟨cs, hcs, -, -⟩ := hlead.exists_taken
    cases hr : m.rest with
    | nil => rfl
    | cons c ds =>
      have hc : c = '\n' := by simpa [Reach.atEdge, hr, Edge.holds] using hend
      refine absurd ?_ l.newline_free
      rw [show l.chars = _ from hcs, hr, hc]
      simp
  have hadd := hlead.taken_add
  rw [hrest] at hadd
  simpa [Reach.start] using hadd

/-! ### The forms -/

theorem startsWith_iff {w : String} {cs : List Char} :
    startsWith w cs ↔ ∃ ds, cs = w.toList ++ ds := by
  rw [startsWith, List.isPrefixOf_iff_prefix]
  exact ⟨fun ⟨ds, h⟩ => ⟨ds, h.symm⟩, fun ⟨ds, h⟩ => ⟨ds, h.symm⟩⟩

theorem head_not_blank {w : String} (hw : w.toList.head?.any (!isBlank ·)) {cs : List Char}
    (h : startsWith w cs) : ¬ cs.head?.any isBlank := by
  obtain ⟨ds, rfl⟩ := startsWith_iff.1 h
  obtain ⟨c, hc, hb⟩ := (Option.any_eq_true _ _).1 hw
  rw [List.head?_append, hc]
  simpa using hb

theorem finds_lit {w : String} (hw : w.toList.head?.any (!isBlank ·)) (hu : (lit w).unmarked) :
    Finds [lit w] (startsWith w) := by
  refine ⟨fun x => ?_, fun _ h => head_not_blank hw h, hu⟩
  · simp only [mem_ways_seqs_cons, mem_ways_seqs_nil, mem_ways_lit, startsWith_iff]
    constructor
    · rintro ⟨_, y, hy, -⟩
      exact ⟨y.rest, hy.rest_eq⟩
    · rintro ⟨ds, hds⟩
      obtain ⟨y, hy, -⟩ := Reach.exists_takes hds
      exact ⟨y, y, hy, rfl⟩

theorem mem_ways_elseOrElif {r m : Reach} :
    m ∈ elseOrElif.ways r ↔ ∃ w ∈ ["else", "elif"], r.Takes w.toList m := by
  have helse : "else".toList = "el".toList ++ "se".toList := rfl
  have helif : "elif".toList = "el".toList ++ "if".toList := rfl
  simp only [elseOrElif, mem_ways_seqs_cons, mem_ways_seqs_nil, oneOf, alts, List.map_cons,
    List.map_nil, mem_ways_alt, mem_ways_lit, List.mem_cons, List.not_mem_nil, or_false,
    exists_eq_or_imp, exists_eq_left, helse, helif, Reach.takes_append]
  constructor
  · rintro ⟨x, hx, _, hm | hm, rfl⟩
    · exact .inl ⟨x, hx, hm⟩
    · exact .inr ⟨x, hx, hm⟩
  · rintro (⟨x, hx, hm⟩ | ⟨x, hx, hm⟩)
    · exact ⟨x, hx, m, .inl hm, rfl⟩
    · exact ⟨x, hx, m, .inr hm, rfl⟩

theorem isBranch_iff {cs : List Char} :
    isBranch cs ↔ ∃ w ∈ ["else", "elif"], startsWithWord w cs := by
  simp [isBranch]

theorem finds_branch : Finds [elseOrElif, boundary] isBranch := by
  have hword : ∀ w ∈ ["else", "elif"], w.toList.getLast?.any Text.isWord ∧
      w.toList.head?.any (!isBlank ·) := by decide +kernel
  refine ⟨fun x => ?_, fun cs h => ?_, rfl⟩
  · rw [isBranch_iff]
    simp only [mem_ways_seqs_cons, mem_ways_seqs_nil, mem_ways_elseOrElif, boundary,
      mem_ways_edge, startsWithWord, Bool.and_eq_true, startsWith_iff, Bool.not_eq_true']
    constructor
    · rintro ⟨_, y, ⟨w, hw, hy⟩, _, ⟨hedge, -⟩, -⟩
      refine ⟨w, hw, ⟨y.rest, hy.rest_eq⟩, ?_⟩
      rw [hy.rest_eq, ← String.length_toList, List.drop_left]
      simpa using (Reach.atEdge_wordBoundary hy (hword w hw).1).1 hedge
    · rintro ⟨w, hw, ⟨ds, hds⟩, hnone⟩
      obtain ⟨y, hy, rfl⟩ := Reach.exists_takes hds
      rw [hds, ← String.length_toList, List.drop_left] at hnone
      have hedge := (Reach.atEdge_wordBoundary hy (hword w hw).1).2 (by simpa using hnone)
      exact ⟨y, y, ⟨w, hw, hy⟩, y, ⟨hedge, rfl⟩, rfl⟩
  · obtain ⟨w, hw, h⟩ := isBranch_iff.1 h
    rw [startsWithWord, Bool.and_eq_true] at h
    exact head_not_blank (hword w hw).2 h.1

/-! ### The rule for a line -/

theorem match?_conditional {form : List Pattern} {test : List Char → Bool} (h : Finds form test)
    (mv : Move) (hstay : (conditional form mv).staysInLine) (l : Line) (cs : List Char) :
    if l.directs test then
      ∃ m, (conditional form mv).match? (some '\n') (l.chars ++ '\n' :: cs) = some m ∧
        m.taken = l.chars.length
    else (conditional form mv).match? (some '\n') (l.chars ++ '\n' :: cs) = none := by
  have hu : (conditional form mv).pattern.unmarked := by
    rw [Rule.staysInLine, Bool.and_eq_true] at hstay
    exact unmarked_of_staysWithin (staysWithin_of_staysInLine hstay.1 .last)
  have halone : (conditional form mv).match? none l.chars =
      ((conditional form mv).pattern.ways (.start none l.chars)).head? := by
    rw [← match?_eq_head? hu, Rule.match?_of_guard_eq_none rfl (by simp [conditional])]
  have hframe := Rule.match?_within hstay none l.chars (.between cs)
  simp only [Frame.between, Option.none_or] at hframe
  rw [hframe, halone]
  have hiff := exists_mem_conditional h mv l
  split_ifs with hd
  · obtain ⟨x, hx⟩ := hiff.2 hd
    obtain ⟨m, ms, hm⟩ := List.exists_cons_of_ne_nil (List.ne_nil_of_mem hx)
    have ht := taken_of_mem_conditional hu (hm ▸ List.mem_cons_self)
    rw [hm]
    exact ⟨_, rfl, ht⟩
  · have hnil : (conditional form mv).pattern.ways (.start none l.chars) = [] :=
      List.eq_nil_iff_forall_not_mem.2 fun m hm => hd (hiff.1 ⟨m, hm⟩)
    rw [hnil]
    rfl

theorem match?_plain {l : Line} (hne : l.chars ≠ []) (before : Option Char) (cs : List Char) :
    ∃ m, (Rule.token (plus dot) .comment).match? before (l.chars ++ '\n' :: cs) = some m ∧
      m.taken = l.chars.length := by
  have hdot : ∀ c ∈ l.chars, (CharSet.compl .newline).has c := by
    intro c hc
    rw [has_dot, bne_iff_ne]
    rintro rfl
    exact l.newline_free hc
  obtain ⟨c, ds, hl⟩ := List.exists_cons_of_ne_nil hne
  have hrest : (Reach.start before (l.chars ++ '\n' :: cs)).rest = c :: (ds ++ '\n' :: cs) := by
    rw [hl]; rfl
  obtain ⟨m, hm, ht⟩ := match?_plus_one hrest (hdot c (hl ▸ List.mem_cons_self))
  have hline : (l.chars ++ '\n' :: cs).takeWhile (CharSet.compl .newline).has = l.chars := by
    rw [List.takeWhile_append_of_pos hdot, List.takeWhile_cons_of_neg (by decide),
      List.append_nil]
  refine ⟨m, ?_, ?_⟩
  · rw [Rule.match?_of_guard_eq_none rfl (by simp [Rule.token])]
    exact hm
  · rw [ht.taken_eq]
    simp only [Reach.start, hline, Nat.zero_add]

namespace Role

def kind : Role → Category
  | plain => .comment
  | opens | closes | branches => .commentPreproc

theorem kind_ne (r : Role) : r.kind ≠ .text ∧ r.kind ≠ .genericOutput := by
  cases r <;> decide

def move : Role → Move
  | opens => .push skipped
  | closes | branches => .pop 1
  | plain => .stay

end Role

namespace Scanner

variable {s : Scanner}

/-- The rule that is selected for a line in a skipped block goes by the role of the line. -/
theorem select_line {l : Line} {cs : List Char} (hne : l.chars ≠ [])
    (hst : s.stack.top = skipped) (hb : s.before = some '\n')
    (hr : s.rest = l.chars ++ '\n' :: cs) :
    ∃ r m, s.select Rules.engineCpp = some (r, m) ∧ m.taken = l.chars.length ∧
      r.action = .emit l.role.kind ∧ r.move = l.role.move := by
  have hsome {r : Rule} {rs : List Rule} {m : Reach}
      (hm : r.match? (some '\n') (l.chars ++ '\n' :: cs) = some m)
      (ht : m.taken = l.chars.length) :
      (r :: rs).findSome? (fun r => (s.effect? r).map (r, ·)) = some (r, m) := by
    refine findSome?_of_effect? ?_
    rw [effect?, hb, hr, hm]
    simp [Option.filter, ht, List.length_pos_iff.2 hne]
  have hnone {r : Rule} {rs : List Rule}
      (hm : r.match? (some '\n') (l.chars ++ '\n' :: cs) = none) :
      (r :: rs).findSome? (fun r => (s.effect? r).map (r, ·)) =
        rs.findSome? fun r => (s.effect? r).map (r, ·) := by
    refine findSome?_of_effect?_eq_none ?_
    rw [effect?, hb, hr, hm]
    rfl
  have hif := match?_conditional (finds_lit (w := "if") rfl rfl) (.push skipped) rfl l cs
  have hendif := match?_conditional (finds_lit (w := "endif") rfl rfl) (.pop 1) rfl l cs
  have hbranch := match?_conditional finds_branch (.pop 1) rfl l cs
  rw [select, hst, rules_skipped]
  -- the rules are tried in the order in which the role asks for the forms
  by_cases h1 : l.directs (startsWith "if")
  · have hrole : l.role = .opens := if_pos h1
    rw [if_pos h1] at hif
    obtain ⟨m, hm, ht⟩ := hif
    exact ⟨_, m, hsome hm ht, ht, by rw [hrole]; rfl, by rw [hrole]; rfl⟩
  rw [if_neg h1] at hif
  rw [hnone hif]
  by_cases h2 : l.directs (startsWith "endif")
  · have hrole : l.role = .closes := (if_neg h1).trans (if_pos h2)
    rw [if_pos h2] at hendif
    obtain ⟨m, hm, ht⟩ := hendif
    exact ⟨_, m, hsome hm ht, ht, by rw [hrole]; rfl, by rw [hrole]; rfl⟩
  rw [if_neg h2] at hendif
  rw [hnone hendif]
  by_cases h3 : l.directs isBranch
  · have hrole : l.role = .branches := (if_neg h1).trans ((if_neg h2).trans (if_pos h3))
    rw [if_pos h3] at hbranch
    obtain ⟨m, hm, ht⟩ := hbranch
    exact ⟨_, m, hsome hm ht, ht, by rw [hrole]; rfl, by rw [hrole]; rfl⟩
  rw [if_neg h3] at hbranch
  rw [hnone hbranch]
  have hrole : l.role = .plain := (if_neg h1).trans ((if_neg h2).trans (if_neg h3))
  obtain ⟨m, hm, ht⟩ := match?_plain hne (some '\n') cs
  exact ⟨_, m, hsome hm ht, ht, by rw [hrole]; rfl, by rw [hrole]; rfl⟩

end Scanner

end Highlighter
