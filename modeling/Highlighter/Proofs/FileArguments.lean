import Highlighter.Proofs.Locations
import Highlighter.Proofs.Transcripts
import Highlighter.Proofs.WordLists

/-! File names in command lines. Compiler drivers and commands are tried before paths and file
names, so a name that begins with one of them up to a boundary is cut behind it. Proved: in a
line such as `$ cat name` a name that the pattern for file names or the one for paths takes as
a whole comes out as one token exactly if it does not begin in this way. -/

namespace Highlighter

open Pattern Rules Rules.Terminal Lexicon.Shell

/-! ### File names and paths -/

def Pattern.takesAll (p : Pattern) (text : String) : Bool :=
  (p.ways (.start none text.toList)).any (·.rest.isEmpty)

/-- Whether the text is a file name or a path that begins with a name. -/
def IsFileArgument (f : String) : Prop := fileName.takesAll f ∨ barePath.takesAll f
deriving Decidable

/-- The characters of a file name in front of its dot, behind the first one. -/
def nameChars : CharSet := .anyOf [.letter, .asciiDigit, .of "_+-"]

/-- The characters of a path in front of its first slash, behind the first one. -/
def dirChars : CharSet := .anyOf [.letter, .asciiDigit, .of "_.+-"]

def pathChars : CharSet := .except [.space, .of ";|&>"]

def suffixChars : CharSet := .anyOf [.letter, .asciiDigit]

theorem exists_of_takesAll_fileName {f : String} (h : fileName.takesAll f) :
    ∃ c as e bs, f.toList = c :: (as ++ '.' :: e :: bs) ∧ CharSet.identHead.has c ∧
      (∀ a ∈ as, nameChars.has a) ∧ CharSet.letter.has e ∧ ∀ b ∈ bs, suffixChars.has b := by
  obtain ⟨m, hm, hrest⟩ := List.any_eq_true.1 h
  simp only [fileName, mem_ways_seqs_cons, mem_ways_seqs_nil, mem_ways_one, mem_ways_char,
    mem_ways_star_one] at hm
  obtain ⟨x, ⟨c, hc, hx⟩, y, ⟨as, has, hy⟩, z, hz, u, ⟨e, he, hu⟩, _, ⟨bs, hbs, hv⟩, rfl⟩ := hm
  refine ⟨c, as, e, bs, ?_, hc, has, he, hbs⟩
  have hall : f.toList = [c] ++ x.rest := hx.rest_eq
  rw [hall, hy.rest_eq, hz.rest_eq, hu.rest_eq, hv.rest_eq, List.isEmpty_iff.1 hrest]
  simp

theorem exists_of_mem_plus_path {r m : Reach}
    (h : m ∈ (plus (seqs [char '/', plus (one pathChars)])).ways r) :
    ∃ ds, ds ≠ [] ∧ (∀ d ∈ ds, pathChars.has d) ∧ r.Takes ('/' :: ds) m := by
  have hslash : pathChars.has '/' := by decide
  -- a slash is one of the characters behind a slash, so all repetitions are one
  have hkeeps : Preserves (fun x => x = r ∨ ∃ ds, ds ≠ [] ∧ (∀ d ∈ ds, pathChars.has d) ∧
      r.Takes ('/' :: ds) x) (seqs [char '/', plus (one pathChars)]).ways := by
    intro x hx y hy
    simp only [mem_ways_seqs_cons, mem_ways_seqs_nil, mem_ways_char, mem_ways_plus_one] at hy
    obtain ⟨z, hz, _, ⟨ds, hne, hds, hy⟩, rfl⟩ := hy
    have htakes := (Reach.takes_cons _ _).2 ⟨z, hz, hy⟩
    right
    rcases hx with rfl | ⟨ds', -, hds', hx⟩
    · exact ⟨ds, hne, hds, htakes⟩
    · exact ⟨ds' ++ '/' :: ds, by simp,
        List.forall_mem_append.2 ⟨hds', List.forall_mem_cons.2 ⟨hslash, hds⟩⟩,
        (Reach.takes_append _ _).2 ⟨x, hx, htakes⟩⟩
  refine (hkeeps.rep 1 none true r (.inl rfl) m h).resolve_left ?_
  rintro rfl
  exact rest_ne_of_mem_ways rfl rfl h rfl

theorem exists_of_takesAll_barePath {f : String} (h : barePath.takesAll f) :
    ∃ c as ds, f.toList = c :: (as ++ '/' :: ds) ∧ CharSet.identHead.has c ∧
      (∀ a ∈ as, dirChars.has a) ∧ ds ≠ [] ∧ ∀ d ∈ ds, pathChars.has d := by
  obtain ⟨m, hm, hrest⟩ := List.any_eq_true.1 h
  simp only [barePath, mem_ways_seqs_cons, mem_ways_seqs_nil, mem_ways_one,
    mem_ways_star_one] at hm
  obtain ⟨x, ⟨c, hc, hx⟩, y, ⟨as, has, hy⟩, _, hz, rfl⟩ := hm
  obtain ⟨ds, hne, hds, hz⟩ := exists_of_mem_plus_path hz
  refine ⟨c, as, ds, ?_, hc, has, hne, hds⟩
  have hall : f.toList = [c] ++ x.rest := hx.rest_eq
  rw [hall, hy.rest_eq, hz.rest_eq, List.isEmpty_iff.1 hrest]
  simp

theorem Text.not_isSpace_of_has {s : CharSet} (hs : spaceChars.all (!s.has ·)) {c : Char}
    (hc : s.has c) : ¬ isSpace c := by
  intro hspace
  have hnot := List.all_eq_true.1 hs c (mem_spaceChars hspace)
  rw [hc] at hnot
  cases hnot

theorem Text.isSpace_of_blank {c : Char} (h : CharSet.blank.has c) : isSpace c := by
  have hmem : c ∈ [' ', '\t'] := by simpa [CharSet.blank] using h
  have hspace : [' ', '\t'].all isSpace := by decide
  exact List.all_eq_true.1 hspace c hmem

theorem not_isSpace_of_isFileArgument {f : String} (hf : IsFileArgument f) :
    ∀ c ∈ f.toList, ¬ Text.isSpace c := by
  have hhead {c : Char} (h : CharSet.identHead.has c) : ¬ Text.isSpace c :=
    Text.not_isSpace_of_has (by decide) h
  rcases hf with h | h
  · obtain ⟨c, as, e, bs, hall, hc, has, he, hbs⟩ := exists_of_takesAll_fileName h
    have hname {a : Char} (h : nameChars.has a) : ¬ Text.isSpace a :=
      Text.not_isSpace_of_has (by decide) h
    have hletter : ¬ Text.isSpace e := Text.not_isSpace_of_has (by decide) he
    have hsuffix {b : Char} (h : suffixChars.has b) : ¬ Text.isSpace b :=
      Text.not_isSpace_of_has (by decide) h
    rw [hall]
    simp only [List.forall_mem_cons, List.forall_mem_append]
    exact ⟨hhead hc, fun a ha => hname (has a ha), by decide, hletter,
      fun b hb => hsuffix (hbs b hb)⟩
  · obtain ⟨c, as, ds, hall, hc, has, -, hds⟩ := exists_of_takesAll_barePath h
    have hdir {a : Char} (h : dirChars.has a) : ¬ Text.isSpace a :=
      Text.not_isSpace_of_has (by decide) h
    have hpath {d : Char} (h : pathChars.has d) : ¬ Text.isSpace d :=
      Text.not_isSpace_of_has (by decide) h
    rw [hall]
    simp only [List.forall_mem_cons, List.forall_mem_append]
    exact ⟨hhead hc, fun a ha => hdir (has a ha), by decide, fun d hd => hpath (hds d hd)⟩

theorem exists_cons_of_isFileArgument {f : String} (hf : IsFileArgument f) :
    ∃ c cs, f.toList = c :: cs ∧ CharSet.identHead.has c := by
  rcases hf with h | h
  · obtain ⟨c, as, e, bs, hall, hc, -⟩ := exists_of_takesAll_fileName h
    exact ⟨c, _, hall, hc⟩
  · obtain ⟨c, as, ds, hall, hc, -⟩ := exists_of_takesAll_barePath h
    exact ⟨c, _, hall, hc⟩

/-! ### The preferred ends of file names and paths -/

theorem exists_match?_fileName {f : String} (h : fileName.takesAll f) {r : Reach}
    (hr : r.rest = f.toList) : ∃ m, fileName.match? r = some m ∧ r.Takes f.toList m := by
  obtain ⟨c, as, e, bs, hall, hc, has, he, hbs⟩ := exists_of_takesAll_fileName h
  rw [hall] at hr ⊢
  obtain ⟨x, hx, hrest⟩ := Reach.exists_takes (show r.rest = [c] ++ _ from hr)
  obtain ⟨y, hy, htakes, hrest⟩ := exists_head?_star_one (s := nameChars) hrest has
    (by rintro d ⟨⟩; decide)
  obtain ⟨z, hz, hrest⟩ := Reach.exists_takes (show y.rest = ['.'] ++ _ from hrest)
  obtain ⟨u, hu, hrest⟩ := Reach.exists_takes (show z.rest = [e] ++ _ from hrest)
  obtain ⟨m, hm, hlast, -⟩ := exists_head?_star_one (s := suffixChars)
    (hrest.trans (List.append_nil bs).symm) hbs (by simp)
  refine ⟨m, ?_, ?_⟩
  · rw [match?_eq_head? rfl]
    exact head?_seqs_cons (head?_one hc hx) (head?_seqs_cons hy (head?_seqs_cons
      (head?_one (by decide) hz) (head?_seqs_cons (head?_one he hu) hm)))
  · exact (Reach.takes_cons _ _).2 ⟨x, hx, (Reach.takes_append _ _).2 ⟨y, htakes,
      (Reach.takes_cons _ _).2 ⟨z, hz, (Reach.takes_cons _ _).2 ⟨u, hu, hlast⟩⟩⟩⟩

theorem exists_match?_barePath {f : String} (h : barePath.takesAll f) {r : Reach}
    (hr : r.rest = f.toList) : ∃ m, barePath.match? r = some m ∧ r.Takes f.toList m := by
  obtain ⟨c, as, ds, hall, hc, has, hne, hds⟩ := exists_of_takesAll_barePath h
  rw [hall] at hr ⊢
  obtain ⟨x, hx, hrest⟩ := Reach.exists_takes (show r.rest = [c] ++ _ from hr)
  obtain ⟨y, hy, htakes, hrest⟩ := exists_head?_star_one (s := dirChars) hrest has
    (by rintro d ⟨⟩; decide)
  obtain ⟨z, hz, hrest⟩ := Reach.exists_takes (show y.rest = ['/'] ++ _ from hrest)
  obtain ⟨m, hm, hlast, hnil⟩ := exists_head?_plus_one (s := pathChars)
    (hrest.trans (List.append_nil ds).symm) hne hds (by simp)
  have hslash := (Reach.takes_cons _ _).2 ⟨z, hz, hlast⟩
  refine ⟨m, ?_, ?_⟩
  · have hfirst : ((seqs [char '/', plus (one pathChars)]).ways y).head? = some m :=
      head?_seqs_cons (head?_one (by decide) hz) hm
    rw [match?_eq_head? rfl]
    exact head?_seqs_cons (head?_one hc hx) (head?_seqs_cons hy
      (head?_plus_of_rest_eq_nil hfirst hslash.taken_lt hnil))
  · exact (Reach.takes_cons _ _).2 ⟨x, hx, (Reach.takes_append _ _).2 ⟨y, htakes, hslash⟩⟩

/-- A path has a slash in it. -/
theorem mem_of_mem_ways_barePath {r m : Reach} (h : m ∈ barePath.ways r) : '/' ∈ r.rest := by
  simp only [barePath, mem_ways_seqs_cons, mem_ways_seqs_nil, mem_ways_one,
    mem_ways_star_one] at h
  obtain ⟨x, ⟨c, -, hx⟩, y, ⟨as, -, hy⟩, _, hz, rfl⟩ := h
  obtain ⟨ds, -, -, hz⟩ := exists_of_mem_plus_path hz
  rw [hx.rest_eq, hy.rest_eq, hz.rest_eq]
  simp

theorem not_mem_of_takesAll_fileName {f : String} (h : fileName.takesAll f) : '/' ∉ f.toList := by
  obtain ⟨c, as, e, bs, hall, hc, has, he, hbs⟩ := exists_of_takesAll_fileName h
  have hnot {s : CharSet} (hs : s.has '/' = false) {c : Char} (hc : s.has c) : '/' ≠ c := by
    rintro rfl
    rw [hs] at hc
    cases hc
  rw [hall]
  simp only [List.mem_cons, List.mem_append, not_or]
  exact ⟨hnot (by decide) hc, fun ha => hnot (s := nameChars) (by decide) (has _ ha) rfl, by decide,
    hnot (by decide) he, fun hb => hnot (s := suffixChars) (by decide) (hbs _ hb) rfl⟩

/-! ### Names that begin as commands -/

/-- Whether a name begins with a compiler driver and a hyphen, or with a command and a word
boundary behind it. -/
def BeginsAsCommand (f : String) : Prop :=
  (∃ d ∈ compilerDrivers, (d ++ "-").toList <+: f.toList) ∨
    ∃ w ∈ shellCommands, Text.beginsWith f.toList w
deriving Decidable

namespace Scanner

variable {s : Scanner} {f : String}

theorem effect?_driverRule_iff (hf : IsFileArgument f) (hrest : s.rest = f.toList) :
    s.effect? driverRule = none ↔ ∀ d ∈ compilerDrivers, ¬ (d ++ "-").toList <+: f.toList := by
  rw [effect?_driverRule_eq_none_iff, hrest]
  refine forall₂_congr fun d hd => ?_
  rw [String.toList_append]
  constructor
  · rintro h ⟨after, hafter⟩
    exact h ('-' :: after) (by rw [← hafter]; simp) (by simp [mayEndDriver])
  · intro h after hafter hend
    cases after with
    | nil =>
      -- a driver alone is no file name
      have hnames : ∀ d ∈ compilerDrivers, ¬ IsFileArgument d := by decide
      rw [List.append_nil, String.toList_inj] at hafter
      exact hnames d hd (hafter ▸ hf)
    | cons c after =>
      have hspace := not_isSpace_of_isFileArgument hf c (by rw [hafter]; simp)
      have hnewline : c ≠ '\n' := by
        rintro rfl
        exact hspace (by decide)
      obtain rfl : c = '-' := by simpa [mayEndDriver, hspace, hnewline] using hend
      exact h ⟨after, by rw [hafter]; simp⟩

theorem ne_newline_of_identHead {c : Char} (hc : CharSet.identHead.has c) : c ≠ '\n' := by
  rintro rfl
  exact absurd hc (by decide)

/-- The rules for options and for other paths ask for a sign in front. -/
theorem skips_identHead {c : Char} (hc : CharSet.identHead.has c) :
    ∀ r ∈ (commandLine.take 7).drop 3, r.skips c := by
  have hascii : ∀ n : Fin 128, CharSet.identHead.has (Char.ofNat n) →
      ∀ r ∈ (commandLine.take 7).drop 3, r.skips (Char.ofNat n) := by
    decide
  have hlt := Names.toNat_lt_of_isIdentTail (Names.isIdentTail_of_identHead hc)
  have hskips := hascii ⟨c.toNat, hlt⟩
  rw [Char.ofNat_toNat] at hskips
  exact hskips hc

/-- In front of a name that no command begins, no rule before those for names has an effect. -/
theorem effect?_beforePaths {c : Char} {cs : List Char} (hc : CharSet.identHead.has c)
    (hr : s.rest = c :: cs) (hdriver : s.effect? driverRule = none)
    (hlist : (wholeWord shellCommands).match? (.start s.before s.rest) = none) :
    ∀ r ∈ commandLine.take 7, s.effect? r = none := by
  have hcommand : s.effect? commandRule = none := by
    rw [effect?, Rule.match?_of_guard_eq_none rfl (by simp [commandRule, Rule.token])]
    simp [commandRule, Rule.token, hlist]
  change ∀ r ∈ newlineRule :: driverRule :: commandRule :: (commandLine.take 7).drop 3,
    s.effect? r = none
  simp only [List.forall_mem_cons]
  exact ⟨effect?_of_skips (skips_newlineRule (ne_newline_of_identHead hc)) hr, hdriver, hcommand,
    fun r h => effect?_of_skips (skips_identHead hc r h) hr⟩

/-- A name that no command begins comes out as one token. -/
theorem takesText_path (hst : s.stack.top = command) (hf : IsFileArgument f)
    (hrest : s.rest = f.toList) (hfront : ∀ r ∈ commandLine.take 7, s.effect? r = none) :
    TakesText .nameNamespace f.toList s.stack s (s.step Rules.terminal) := by
  have hne : f.toList ≠ [] := by
    obtain ⟨c, cs, hcons, -⟩ := exists_cons_of_isFileArgument hf
    simp [hcons]
  by_cases hpath : barePath.takesAll f
  · obtain ⟨m, hm, htakes⟩ := exists_match?_barePath hpath (r := .start s.before s.rest) hrest
    have hrules : Rules.terminal.rules s.stack.top =
        commandLine.take 7 ++ .token barePath .nameNamespace :: commandLine.drop 8 := by
      rw [hst]
      rfl
    exact takesText_token hrules hfront hm htakes hne
  · have hname := hf.resolve_right hpath
    have hnone : s.effect? (.token barePath .nameNamespace) = none := by
      rw [effect?_eq_none_iff rfl (by simp [Rule.token]) rfl rfl]
      intro m hm
      have hslash := mem_of_mem_ways_barePath hm
      exact not_mem_of_takesAll_fileName hname (by rwa [← hrest])
    obtain ⟨m, hm, htakes⟩ := exists_match?_fileName hname (r := .start s.before s.rest) hrest
    have hrules : Rules.terminal.rules s.stack.top =
        (commandLine.take 7 ++ [.token barePath .nameNamespace]) ++
          .token fileName .nameNamespace :: commandLine.drop 9 := by
      rw [hst]
      rfl
    refine takesText_token hrules ?_ hm htakes hne
    simp only [List.forall_mem_append, List.forall_mem_singleton]
    exact ⟨hfront, hnone⟩

/-- A name begins as a command where one of the two rules for commands has a match. -/
theorem beginsAsCommand_iff (hf : IsFileArgument f) (hrest : s.rest = f.toList)
    (hb : s.before.any Text.isWord = false)
    (hedge : (Reach.start s.before s.rest).atEdge .wordBoundary) :
    BeginsAsCommand f ↔ s.effect? driverRule ≠ none ∨
      (wholeWord shellCommands).match? (.start s.before s.rest) ≠ none := by
  refine or_congr ?_ ?_
  · rw [Ne, effect?_driverRule_iff hf hrest]
    simp
  · rw [Ne, match?_wholeWord_eq_none_iff (by decide) hedge hb, Reach.start, hrest]
    simp

/-- Behind a blank a file name comes out whole, or what comes out first is a command. -/
theorem takesText_fileArgument (hst : s.stack.top = command) (hb : s.before.all Text.isSpace)
    (hf : IsFileArgument f) (hrest : s.rest = f.toList) :
    ∃ kind w, TakesText kind w s.stack s (s.step Rules.terminal) ∧
      if BeginsAsCommand f then kind = .nameBuiltin
      else kind = .nameNamespace ∧ w = f.toList := by
  obtain ⟨c, cs, hcons, hc⟩ := exists_cons_of_isFileArgument hf
  have hr : s.rest = c :: cs := hrest.trans hcons
  have hbefore := Text.not_any_isWord_of_all_isSpace hb
  have hword := Names.isWord_of_isIdentTail (Names.isIdentTail_of_identHead hc)
  have hedge : (Reach.start s.before s.rest).atEdge .wordBoundary :=
    atEdge_of_isWord hbefore (by simp [Reach.start, hr, hword])
  have hbegins := beginsAsCommand_iff hf hrest hbefore hedge
  cases hdriver : s.effect? driverRule with
  | some m =>
    obtain ⟨d, hstep⟩ := exists_takesText_driver hst hr (ne_newline_of_identHead hc) hdriver
    exact ⟨.nameBuiltin, d.toList, hstep, by rw [if_pos (hbegins.2 (.inl (by simp [hdriver])))]⟩
  | none =>
    cases hlist : (wholeWord shellCommands).match? (.start s.before s.rest) with
    | some m =>
      obtain ⟨v, -, hstep⟩ := exists_takesText_command hst hdriver hedge hlist
      exact ⟨.nameBuiltin, v.toList, hstep, by rw [if_pos (hbegins.2 (.inr (by simp [hlist])))]⟩
    | none =>
      have hnot : ¬ BeginsAsCommand f := by simp [hbegins, hdriver, hlist]
      refine ⟨.nameNamespace, f.toList, takesText_path hst hf hrest ?_, ?_⟩
      · exact effect?_beforePaths hc hr hdriver hlist
      · rw [if_neg hnot]
        exact ⟨rfl, rfl⟩

/-! ### The line up to the name -/

theorem unmarked_problemLine (words : List String) : (problemLine words).unmarked := by
  change (true && (true && (true && ((oneOf words).unmarked && true)))) = true
  rw [unmarked_oneOf]
  rfl

/-- A line that names a problem has a colon and a blank in it. -/
theorem exists_of_problemLine {words : List String} {r m : Reach}
    (h : m ∈ (problemLine words).ways r) :
    ∃ as b bs, r.rest = as ++ ':' :: b :: bs ∧ Text.isSpace b := by
  have hparts : problemLine words = seqs ([lineStart, toLineEnd, boundary, oneOf words] ++
      [char ':', blanks, toLineEnd, lineEnd]) := rfl
  rw [hparts, mem_ways_seqs_append] at h
  obtain ⟨x, hx, h⟩ := h
  have hu : (seqs [lineStart, toLineEnd, boundary, oneOf words]).unmarked := unmarked_oneOf words
  obtain ⟨as, hrest, -⟩ := (leads_of_mem_ways hu hx).exists_taken
  simp only [blanks, mem_ways_seqs_cons, mem_ways_char, mem_ways_plus_one] at h
  obtain ⟨y, hy, z, ⟨bs, hne, hbs, hz⟩, -⟩ := h
  obtain ⟨b, bs, rfl⟩ := List.exists_cons_of_ne_nil hne
  refine ⟨as, b, bs ++ z.rest, ?_, ?_⟩
  · rw [hrest, hy.rest_eq, hz.rest_eq]
    rfl
  · exact Text.isSpace_of_blank (hbs b List.mem_cons_self)

theorem exists_append_of_not_mem {α : Type} {y : α} {xs ys as bs : List α} (hy : y ∉ xs)
    (h : xs ++ ys = as ++ y :: bs) : ∃ as', ys = as' ++ y :: bs := by
  rcases List.append_eq_append_iff.1 h with ⟨as', -, hys⟩ | ⟨cs, rfl, hcs⟩
  · exact ⟨as', hys⟩
  · cases cs with
    | nil => exact ⟨[], hcs.symm⟩
    | cons c cs =>
      cases hcs
      simp at hy

theorem effect?_problemLine {words : List String} {kind : Category}
    (h : ∀ as b bs, s.rest = as ++ ':' :: b :: bs → ¬ Text.isSpace b) :
    s.effect? (.token (problemLine words) kind) = none := by
  have he : (problemLine words).canBeEmpty = false := by
    change (true && (true && (true && ((oneOf words).canBeEmpty && false)))) = false
    simp
  rw [effect?_eq_none_iff rfl (by simp [Rule.token]) he (unmarked_problemLine words)]
  intro m hm
  obtain ⟨as, b, bs, hline, hb⟩ := exists_of_problemLine hm
  exact h as b bs hline hb

/-- The prompt is taken, and the scanner stands in a command line. -/
theorem step_prompt {cs : List Char} (hcs : ∀ c ∈ cs, ¬ Text.isSpace c) :
    (start ("$ cat ".toList ++ cs)).step Rules.terminal =
      ⟨⟨command, [0]⟩, some ' ', "cat ".toList ++ cs, ⟨0, 2⟩, 0,
        [.enter command, .token ⟨⟨0, 0⟩, .genericPrompt, "$ "⟩]⟩ := by
  set s := start ("$ cat ".toList ++ cs)
  have hcolon : ∀ as b bs, s.rest = as ++ ':' :: b :: bs → ¬ Text.isSpace b := by
    intro as b bs hrest
    obtain ⟨as', rfl⟩ := exists_append_of_not_mem (show ':' ∉ "$ cat ".toList by decide) hrest
    exact hcs b (by simp)
  have hfront : ∀ r ∈ root.take 10, s.effect? r = none := by
    have hskips : ∀ r ∈ root.take 10, r.skips '$' ∨
        r = .token (problemLine ["error", "Error", "ERROR"]) .genericError ∨
        r = .token (problemLine ["warning", "Warning", "WARNING"]) .genericEmph := by
      decide
    intro r hr
    rcases hskips r hr with h | rfl | rfl
    · exact effect?_of_skips h (show s.rest = '$' :: (" cat ".toList ++ cs) from rfl)
    · exact effect?_problemLine hcolon
    · exact effect?_problemLine hcolon
  have hsel : s.select Rules.terminal =
      some ((prompt '$').push command, ⟨some ' ', "cat ".toList ++ cs, 2, [⟨1, 0, 2⟩]⟩) := by
    change (root.take 10 ++ (prompt '$').push command :: root.drop 11).findSome? _ = _
    rw [findSome?_append_of_forall hfront]
    exact findSome?_of_effect? rfl
  rw [step_of_select hsel Nat.zero_lt_two]
  rfl

/-! ### The tokens of a line -/

namespace Reached

variable {rs : RuleSet} {source : String}

theorem keeps (h : Reached rs source s) : s.Keeps := by
  induction h with
  | start => exact .start _
  | step _ hr ih => exact ih.step hr

/-- The tokens of a scanner stay to the end of the scan. -/
theorem exists_tokens_scan (h : Reached rs source s) :
    ∃ more, (rs.scan source).tokens = s.tokens ++ more := by
  have hrun : ∃ n, s.run rs n = rs.scan source := by
    induction h with
    | start => exact ⟨_, rfl⟩
    | @step s h hr ih =>
      obtain ⟨n, hn⟩ := ih
      refine ⟨n, ?_⟩
      rw [← run_succ hr, run_add, hn, run_of_rest_eq_nil (rest_scan rs source)]
  obtain ⟨n, hn⟩ := hrun
  rw [← hn]
  exact exists_tokens_run rs s n

end Reached

/-- A scan stands in a command line behind some tokens and in front of some text. -/
structure InCommand (source : String) (ts : List Token) (rest : List Char) (s : Scanner) :
    Prop where
  reached : Reached Rules.terminal source s
  top_eq : s.stack.top = command
  tokens_eq : s.tokens = ts
  rest_eq : s.rest = rest

namespace InCommand

variable {source : String} {ts : List Token} {w rest : List Char}

theorem before_eq (h : InCommand source ts rest s) : s.before = (Token.joined ts).getLast? := by
  rw [h.reached.before_eq, h.tokens_eq]

theorem step (h : InCommand source ts (w ++ rest) s) (hne : w ≠ []) {kind : Category}
    (hstep : TakesText kind w s.stack s (s.step Rules.terminal)) :
    InCommand source (ts ++ [⟨Location.start.after (Token.joined ts), kind, String.ofList w⟩]) rest
      (s.step Rules.terminal) where
  reached := h.reached.step (by simp [h.rest_eq, hne])
  top_eq := by rw [hstep.stack_eq, h.top_eq]
  tokens_eq := by rw [hstep.tokens_eq, h.reached.keeps.location_eq, h.tokens_eq]
  rest_eq := List.append_cancel_left (hstep.rest_eq.symm.trans h.rest_eq)

end InCommand

/-- A blank comes out alone if no other one is behind it. -/
theorem takesText_blank {c : Char} {cs : List Char} (hst : s.stack.top = command)
    (hrest : s.rest = ' ' :: c :: cs) (hc : ¬ Text.isSpace c) :
    TakesText .text [' '] s.stack s (s.step Rules.terminal) := by
  have hskips : ∀ r ∈ commandLine.take 16, r.skips ' ' := by decide
  have hnot : CharSet.blank.has c = false := by
    rw [← Bool.not_eq_true]
    exact mt Text.isSpace_of_blank hc
  obtain ⟨m, hm, htakes, -⟩ := exists_head?_plus_one (s := .blank)
    (show (Reach.start s.before s.rest).rest = [' '] ++ _ from hrest) (by simp)
    (List.forall_mem_singleton.2 (by decide)) (by rintro d ⟨⟩; exact hnot)
  have hrules : Rules.terminal.rules s.stack.top =
      commandLine.take 16 ++ .token blanks .text :: commandLine.drop 17 := by
    rw [hst]
    rfl
  exact takesText_token hrules (fun r hr => effect?_of_skips (hskips r hr) hrest)
    ((match?_eq_head? rfl _).trans hm) htakes (by simp)

end Scanner

open Scanner

/-- The tokens of a line up to a file name, and the one that begins there. -/
theorem exists_tokens_fileArgument {f : String} (hf : IsFileArgument f) :
    ∃ t more, (Rules.terminal.scan ("$ cat " ++ f)).tokens =
        ⟨⟨0, 0⟩, .genericPrompt, "$ "⟩ :: ⟨⟨0, 2⟩, .nameBuiltin, "cat"⟩ ::
          ⟨⟨0, 5⟩, .text, " "⟩ :: t :: more ∧
      (t = ⟨⟨0, 6⟩, .nameNamespace, f⟩ ↔ ¬ BeginsAsCommand f) := by
  have hspace := not_isSpace_of_isFileArgument hf
  obtain ⟨c, cs, hcons, hc⟩ := exists_cons_of_isFileArgument hf
  have hsource : ("$ cat " ++ f).toList = "$ cat ".toList ++ f.toList := String.toList_append
  have hprompt := step_prompt hspace
  rw [← hsource] at hprompt
  -- behind the prompt, the command and the blank
  have h₁ : InCommand ("$ cat " ++ f) [⟨⟨0, 0⟩, .genericPrompt, "$ "⟩]
      ("cat".toList ++ ' ' :: f.toList) ((start ("$ cat " ++ f).toList).step Rules.terminal) := by
    refine ⟨Reached.start.step ?_, ?_, ?_, ?_⟩
    · simp [start, hsource]
    · rw [hprompt]
    · rw [hprompt]
      rfl
    · rw [hprompt]
      rfl
  obtain ⟨v, hcat, hv⟩ := takesText_command (w := "cat") (by decide) h₁.top_eq
    (by rw [h₁.before_eq]; rfl) h₁.rest_eq rfl
  obtain rfl : v = "cat" := hv.2 (by decide)
  have h₂ := h₁.step (by decide) hcat
  have h₃ := InCommand.step (w := [' ']) h₂ (by simp) (takesText_blank h₂.top_eq
    (h₂.rest_eq.trans (congrArg _ hcons)) (hspace c (by simp [hcons])))
  obtain ⟨kind, w, hstep, hkind⟩ := takesText_fileArgument h₃.top_eq
    (by rw [h₃.before_eq]; rfl) hf h₃.rest_eq
  have hne : f.toList ≠ [] := by simp [hcons]
  obtain ⟨more, hmore⟩ := (h₃.reached.step (by rw [h₃.rest_eq]; exact hne)).exists_tokens_scan
  refine ⟨⟨⟨0, 6⟩, kind, String.ofList w⟩, more, ?_, ?_⟩
  · rw [hmore, hstep.tokens_eq, h₃.reached.keeps.location_eq, h₃.tokens_eq]
    rfl
  · split_ifs at hkind with hbegins
    · refine iff_of_false ?_ (not_not_intro hbegins)
      simp [hkind]
    · refine iff_of_true ?_ hbegins
      rw [hkind.1, hkind.2, String.ofList_toList]

/-- A file name or path behind `cat` is one token exactly if it does not begin as a command. -/
theorem scan_fileArgument_iff {f tail : String} (hf : IsFileArgument f)
    (ht : tail = "" ∨ ∃ text, tail = "\n" ++ text) :
    (Language.terminal.scan ("$ cat " ++ f ++ tail)).tokens.take 4 =
        [⟨⟨0, 0⟩, .genericPrompt, "$ "⟩, ⟨⟨0, 2⟩, .nameBuiltin, "cat"⟩, ⟨⟨0, 5⟩, .text, " "⟩,
          ⟨⟨0, 6⟩, .nameNamespace, f⟩] ↔
      ¬ BeginsAsCommand f := by
  obtain ⟨t, more, htokens, hiff⟩ := exists_tokens_fileArgument hf
  have hmore : ∃ more', (Language.terminal.scan ("$ cat " ++ f ++ tail)).tokens =
      (Rules.terminal.scan ("$ cat " ++ f)).tokens ++ more' := by
    rcases ht with rfl | ⟨text, rfl⟩
    · exact ⟨[], by rw [String.append_empty, List.append_nil]; rfl⟩
    · have hsplit := (RuleSet.splitsAtNewlines keepsLines_terminal ("$ cat " ++ f) text).1
      rw [String.append_assoc] at hsplit
      exact ⟨_, hsplit⟩
  obtain ⟨more', hmore'⟩ := hmore
  rw [hmore', htokens, ← hiff]
  simp

/-- `catalog.txt` begins with a command, but not up to a word boundary. -/
theorem scan_fileArgument_catalog :
    IsFileArgument "catalog.txt" ∧ ¬ BeginsAsCommand "catalog.txt" ∧
      (Language.terminal.scan ("$ cat " ++ "catalog.txt" ++ "\nDone: 1")).tokens.take 4 =
        [⟨⟨0, 0⟩, .genericPrompt, "$ "⟩, ⟨⟨0, 2⟩, .nameBuiltin, "cat"⟩, ⟨⟨0, 5⟩, .text, " "⟩,
          ⟨⟨0, 6⟩, .nameNamespace, "catalog.txt"⟩] := by
  have hf : IsFileArgument "catalog.txt" := by decide
  have hbegins : ¬ BeginsAsCommand "catalog.txt" := by decide +kernel
  exact ⟨hf, hbegins, (scan_fileArgument_iff hf (.inr ⟨"Done: 1", by decide⟩)).2 hbegins⟩

/-- The dot of `make.txt` ends the command in it. -/
theorem scan_makeTxt_cut : IsFileArgument "make.txt" ∧ BeginsAsCommand "make.txt" ∧
    (Language.terminal.scan "$ cat make.txt").tokens = [⟨⟨0, 0⟩, .genericPrompt, "$ "⟩,
      ⟨⟨0, 2⟩, .nameBuiltin, "cat"⟩, ⟨⟨0, 5⟩, .text, " "⟩, ⟨⟨0, 6⟩, .nameBuiltin, "make"⟩,
      ⟨⟨0, 10⟩, .genericOutput, "."⟩, ⟨⟨0, 11⟩, .genericOutput, "txt"⟩] := by
  decide

end Highlighter
