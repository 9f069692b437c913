import Highlighter.CommandLine.Run
import Highlighter.Proofs.Divergences
import Highlighter.Proofs.Locations

/-! Checks of files. Tokens that join to a text do not diverge from it, and highlighting
loses nothing, so a file fails a check only if it holds no text. Proved: a check reports on
each file as if it were the only one, and the way it ends counts the files that fail. -/

namespace Highlighter

/-! ### One file -/

/-- The text of the file that a path leads to, if it leads to one that holds text. -/
def FileTree.text? (t : FileTree) (p : Path) : Option String :=
  match t.find p with
  | .ok (.file bytes) => String.fromUTF8? bytes
  | _ => none

namespace Session

theorem toOption_source (s : Session) (p : Path) : (s.source p).toOption = s.files.text? p := by
  cases hf : s.files.find p with
  | error r =>
    simp only [source, FileTree.contains, FileTree.text?, hf, Except.toBool]
    rfl
  | ok e =>
    cases e with
    | directory q =>
      simp only [source, FileTree.contains, FileTree.read, FileTree.text?, hf, Except.toBool]
      rfl
    | file bytes =>
      simp only [source, FileTree.contains, FileTree.read, FileTree.text?, hf, Except.toBool,
        FileTree.decode]
      cases String.fromUTF8? bytes <;> rfl

/-- A file that cannot be read is missing or refused. -/
theorem kind_of_source {s : Session} {p : Path} {f : Failure} (h : s.source p = .error f) :
    f.kind = "FileNotFound" ∨ f.kind = "IO" := by
  unfold source at h
  split_ifs at h
  · cases hr : s.files.read p with
    | error a => rw [hr] at h; cases h; exact .inr rfl
    | ok text => rw [hr] at h; cases h
  · cases h; exact .inl rfl

namespace Verdict

variable (s : Session) (l : Language) (p : Path)

/-- A file that can be read passes, with the number of tokens that its scan has. -/
theorem result_ofFile : (ofFile s l p).result =
    (s.source p).map fun text => (l.scan text).tokens.length := by
  unfold ofFile
  cases s.source p with
  | error f => rfl
  | ok text =>
    have hnone : firstDivergence text (l.highlight text) = none :=
      firstDivergence_of_joined (l.joined_highlight text)
    have hlen := l.length_highlight text
    simp only [Language.highlight] at hnone hlen
    simp only [Session.highlighted, Bool.false_eq_true, if_false, hnone, Except.map, hlen]

theorem kind_of_result_ofFile {f : Failure} (h : (ofFile s l p).result = .error f) :
    f.kind ≠ "RoundTrip" := by
  have hsource : s.source p = .error f := by
    rw [result_ofFile] at h
    cases hs : s.source p with
    | error f' => rw [hs] at h; cases h; rfl
    | ok text => rw [hs] at h; cases h
  rcases kind_of_source hsource with hk | hk <;> rw [hk] <;> decide

/-- What a check prints of a file, told by the text of the file. -/
def line (l : Language) (p : Path) : Option String → String
  | some text => s!"ok    {p.text} ({(l.scan text).tokens.length} tokens)\n"
  | none => s!"FAIL  {p.text}\n"

theorem report_ofFile : report p (ofFile s l p) = line l p (s.files.text? p) := by
  rw [report, result_ofFile, ← toOption_source]
  cases s.source p <;> rfl

theorem isFailure_ofFile : (ofFile s l p).isFailure = (s.files.text? p).isNone := by
  rw [isFailure, result_ofFile, ← toOption_source]
  cases s.source p <;> rfl

end Verdict

end Session

/-! ### Whole lines -/

namespace Text

/-- Whether a text is made of whole lines. -/
def isLines (s : String) : Bool := s.toList.getLast?.all (· == '\n')

theorem isLines_append {s t : String} (hs : isLines s) (ht : isLines t) : isLines (s ++ t) := by
  unfold isLines at *
  rw [String.toList_append, List.getLast?_append]
  cases h : t.toList.getLast? with
  | none => exact hs
  | some c => rw [h] at ht; exact ht

theorem isLines_append_of_end (s : String) {t : String} (h : t.toList.getLast? = some '\n') :
    isLines (s ++ t) := by
  simp [isLines, h]

theorem isLines_join {l : List String} (h : ∀ s ∈ l, isLines s) : isLines (String.join l) := by
  induction l with
  | nil => rfl
  | cons s l ih =>
    rw [List.forall_mem_cons] at h
    rw [String.join_cons]
    exact isLines_append h.1 (ih h.2)

end Text

open Text

theorem Log.render_append (f : Log.Filter) (lines lines' : List Log.Line) :
    Log.render f (lines ++ lines') = Log.render f lines ++ Log.render f lines' := by
  simp [Log.render]

theorem Log.isLines_render (f : Log.Filter) (lines : List Log.Line) :
    isLines (Log.render f lines) := by
  refine isLines_join fun s hs => ?_
  obtain ⟨l, -, rfl⟩ := List.mem_map.1 hs
  exact isLines_append_of_end _ rfl

theorem Failure.isLines_message (f : Failure) : isLines f.message := by
  cases f with
  | fileNotFound | access | config | json | pattern => exact isLines_append_of_end _ rfl
  | unknownLanguage name =>
    have hend : "' (run `tintlex lexers` for the list)\n".toList.getLast? = some '\n' := by cbv
    exact isLines_append_of_end _ hend
  | divergence path l offset =>
    have hend : " lexer output diverges from the input\n".toList.getLast? = some '\n' := by cbv
    exact isLines_append (isLines_append_of_end _ hend) (isLines_append_of_end _ rfl)

namespace Session.Verdict

theorem isLines_message (v : Verdict) : isLines v.message := by
  unfold message
  cases v.result with
  | ok n => rfl
  | error f => exact f.isLines_message

theorem isLines_messages (f : Log.Filter) (rs : RuleSet) (used : Bool) (vs : List Verdict) :
    isLines (messages f rs used vs) := by
  induction vs generalizing used with
  | nil => rfl
  | cons v vs ih =>
    exact isLines_append (isLines_append (Log.isLines_render f _) v.isLines_message) (ih _)

theorem message_of_passed {v : Verdict} (h : v.isFailure = false) : v.message = "" := by
  unfold message
  cases hr : v.result with
  | ok n => rfl
  | error f => simp [isFailure, hr, Except.toBool] at h

/-- Files that pass leave nothing but log lines. -/
theorem messages_of_passed (f : Log.Filter) (rs : RuleSet) (used : Bool) {vs : List Verdict}
    (h : ∀ v ∈ vs, v.isFailure = false) : ∃ lines, messages f rs used vs = Log.render f lines := by
  induction vs generalizing used with
  | nil => exact ⟨[], rfl⟩
  | cons v vs ih =>
    rw [List.forall_mem_cons] at h
    obtain ⟨lines, hlines⟩ := ih (used || !v.lines.isEmpty) h.2
    refine ⟨(if used || v.lines.isEmpty then v.lines else Log.ruleSetLine rs :: v.lines) ++ lines,
      ?_⟩
    rw [messages, hlines, message_of_passed h.1, Log.render_append, String.append_empty]

end Session.Verdict

/-! ### Checks -/

namespace Session

/-- The files that cannot be read as text. -/
def failing (s : Session) (files : List Path) : List Path :=
  files.filter fun p => (s.files.text? p).isNone

structure ChecksEach (s : Session) (name : Option String) (l : Language) (files : List Path)
    (o : Outcome) : Prop where
  /-- It prints what checks of the single files print, in their order. -/
  out_eq : o.out = String.join (files.map fun p => (s.run (.check name [p])).out)
  /-- A file passes exactly if it can be read as text, with the tokens of its scan. -/
  out_single : ∀ p ∈ files, (s.run (.check name [p])).out = Verdict.line l p (s.files.text? p)
  /-- No file fails for tokens that do not make up its text. -/
  kind_ne : ∀ p ∈ files, ∀ f, (Verdict.ofFile s l p).result = .error f → f.kind ≠ "RoundTrip"
  code_eq : o.code = if s.failing files = [] then 0 else 1
  /-- The last line of the errors counts the files that fail. -/
  err_of_failing : s.failing files ≠ [] → ∃ before, isLines before ∧
    o.err = before ++ s!"{(s.failing files).length} of {files.length} files failed\n"
  /-- Where no file fails, there are no errors but only log lines. -/
  err_of_passed : s.failing files = [] → ∃ lines, o.err = Log.render s.environment.filter lines
  files_eq : o.files = s.files

variable {s : Session} {name : Option String} {c : Config} {l : Language}

/-- The messages and the log lines of a check, in front of its last line. -/
def checkMessages (s : Session) (l : Language) (files : List Path) : String :=
  Verdict.messages s.environment.filter l.rules false (files.map (Verdict.ofFile s l))

theorem countP_isFailure (s : Session) (l : Language) (files : List Path) :
    (files.map (Verdict.ofFile s l)).countP Verdict.isFailure = (s.failing files).length := by
  rw [List.countP_map, failing, ← List.countP_eq_length_filter]
  exact congrArg (List.countP · files) (funext (Verdict.isFailure_ofFile s l))

theorem zipWith_report (s : Session) (l : Language) (files : List Path) :
    List.zipWith Verdict.report files (files.map (Verdict.ofFile s l)) =
      files.map fun p => Verdict.line l p (s.files.text? p) := by
  rw [List.zipWith_map_right, List.zipWith_self]
  exact congrArg (List.map · files) (funext (Verdict.report_ofFile s l))

theorem run_check (hc : s.config = .ok c) (hl : c.language name = .ok l) (files : List Path) :
    s.run (.check name files) =
      ⟨if s.failing files = [] then 0 else 1,
        String.join (files.map fun p => Verdict.line l p (s.files.text? p)),
        s.checkMessages l files ++ if s.failing files = [] then "" else
          s!"{(s.failing files).length} of {files.length} files failed\n", s.files⟩ := by
  have hlanguage : s.language name = .ok l := by
    simp only [language, hc, bind, Except.bind, hl]
  change s.settle (s.check name files) = _
  rw [check, hlanguage]
  change s.settle (if _ = 0 then _ else _) = _
  rw [countP_isFailure, zipWith_report]
  by_cases h : s.failing files = []
  · rw [if_pos (List.length_eq_zero_iff.2 h), if_pos h, if_pos h, String.append_empty]
    rfl
  · rw [if_neg (mt List.length_eq_zero_iff.1 h), if_neg h, if_neg h]
    rfl

/-- A check of files reports on each of them as if it were the only one. -/
theorem run_check_each (hc : s.config = .ok c) (hl : c.language name = .ok l)
    (files : List Path) : s.ChecksEach name l files (s.run (.check name files)) := by
  have hsingle (p : Path) :
      (s.run (.check name [p])).out = Verdict.line l p (s.files.text? p) := by
    simp [run_check hc hl]
  rw [run_check hc hl]
  constructor
  case out_eq => simp only [hsingle]
  case out_single => exact fun p _ => hsingle p
  case kind_ne => exact fun p _ f hf => Verdict.kind_of_result_ofFile s l p hf
  case code_eq => rfl
  case err_of_failing =>
    exact fun h => ⟨_, Verdict.isLines_messages _ _ _ _, congrArg (_ ++ ·) (if_neg h)⟩
  case err_of_passed =>
    intro h
    have hpassed : ∀ v ∈ files.map (Verdict.ofFile s l), v.isFailure = false := by
      rw [← List.length_eq_zero_iff, ← countP_isFailure s l, List.countP_eq_zero] at h
      simpa using h
    obtain ⟨lines, hlines⟩ :=
      Verdict.messages_of_passed s.environment.filter l.rules false hpassed
    refine ⟨lines, ?_⟩
    change s.checkMessages l files ++ _ = _
    rw [if_pos h, String.append_empty, checkMessages, hlines]
  case files_eq => rfl

/-- A directory with a text and with bytes that encode none, and no configuration. -/
def mixedFiles : Session where
  environment := ⟨none, none, none⟩
  input := .empty
  files := ⟨[["work"]], [(["a", "work"], "\n".toUTF8), (["b", "work"], ⟨#[0xff]⟩)], ["work"]⟩

/-- The text passes in front of files that fail and behind them. -/
theorem run_check_each_mixedFiles :
    let o := mixedFiles.run (.check (some "c++") [⟨"a"⟩, ⟨"b"⟩, ⟨"c"⟩, ⟨"a"⟩])
    mixedFiles.config = .ok .default ∧ Config.default.language (some "c++") = .ok .engineCpp ∧
      mixedFiles.ChecksEach (some "c++") .engineCpp [⟨"a"⟩, ⟨"b"⟩, ⟨"c"⟩, ⟨"a"⟩] o ∧
      o.code = 1 ∧ o.out = "ok    a (1 tokens)\nFAIL  b\nFAIL  c\nok    a (1 tokens)\n" ∧
      o.err = "IOError: stream did not contain valid UTF-8\nFileNotFoundError: c\n" ++
        "2 of 4 files failed\n" := by
  intro o
  have hc : mixedFiles.config = .ok .default := by rfl
  have hl : Config.default.language (some "c++") = .ok .engineCpp := by rfl
  refine ⟨hc, hl, run_check_each hc hl _, ?_, ?_, ?_⟩
  all_goals decide +kernel

end Session

end Highlighter
