import Highlighter.CommandLine.Run
import Highlighter.Proofs.ConfigText
import Highlighter.Proofs.FileTrees

/-! Invocations one after the other on the same files. Only the command that sets up the
configuration file writes anything, and it looks for the file before it makes the directories
of its path. Proved: a configuration is read back from what is printed and saved of it; what
an invocation does to the contents of files, which place it writes to, and that the place is
a new one unless the path leaves a directory again. -/

namespace Highlighter

theorem fromUTF8?_toUTF8 (s : String) : String.fromUTF8? s.toUTF8 = some s := dif_pos s.isValidUTF8

theorem exists_eq_ok_of_bind {ε α β : Type} {x : Except ε α} {f : α → Except ε β} {b : β}
    (h : x >>= f = .ok b) : ∃ a, x = .ok a ∧ f a = .ok b := by
  cases x with
  | error e => cases h
  | ok a => exact ⟨a, rfl, h⟩

/-! ### A new file -/

def Config.defaultContents : ByteArray := Config.default.text.toUTF8

namespace FileTree

variable {t t' : FileTree} {path : Path} {target : Option Place} {p : Place}

/-- Makes the directories that a path lies in, as far as they are missing. -/
def makeParents (t : FileTree) (path : Path) : FileTree × Option FileRefusal :=
  match path.parent? with
  | some names => t.makeDirectories path.isAbsolute names.reverse
  | none => (t, none)

theorem grows_makeParents (t : FileTree) (path : Path) : t.Grows (t.makeParents path).1 := by
  unfold makeParents
  split
  · exact t.grows_makeDirectories _ _
  · exact .refl

theorem read_of_find {text : String} (h : t.find path = .ok (.file text.toUTF8)) :
    t.read path = .ok text := by
  simp only [read, h, decode, fromUTF8?_toUTF8]

inductive Receives (t : FileTree) (path : Path) : Option Place → FileTree → Prop
  | kept {t' : FileTree} (hg : t.Grows t') : Receives t path none t'
  | written {t' : FileTree} {p : Place} (hg : t.Grows t') (hp : t'.place? path = some p) :
      Receives t path (some p) (t'.setContents p Config.defaultContents)

namespace Receives

theorem contents?_eq (h : t.Receives path target t') (p : Place) :
    t'.contents? p = if target = some p then some Config.defaultContents else t.contents? p := by
  cases h with
  | kept hg => rw [hg.contents?_eq]; rfl
  | written hg hp => simp [contents?_setContents, hg.contents?_eq, eq_comm]

theorem rooted (h : t.Receives path target t') (ht : t.Rooted) : t'.Rooted := by
  cases h with
  | kept hg => exact ht.grows hg
  | written hg hp =>
    obtain ⟨names, name, d, -, -, hd, -, rfl⟩ := place?_eq_some_iff.1 hp
    exact (ht.grows hg).setContents ((ht.grows hg).directoryAt hd) _

theorem place?_eq (h : t.Receives path (some p) t') : t'.place? path = some p := by
  cases h with
  | written hg hp => rw [place?_setContents, hp]

theorem find_eq (h : t.Receives path (some p) t') :
    t'.find path = .ok (.file Config.defaultContents) := by
  cases h with
  | written hg hp => exact find_setContents hp _

/-- A path that does not leave a directory again names no old file, where it leads to none. -/
theorem contents?_eq_none (h : t.Receives path (some p) t') (ht : t.Rooted)
    (hup : Path.up ∉ path.names) (hc : t.contains path = false) : t.contents? p = none := by
  cases h with
  | @written t' _ hg hp =>
    cases hb : t.contents? p with
    | none => rfl
    | some bytes =>
      have hold := ht.place?_of_grows hg hup hp (ht.tail_of_contents? hb)
      rw [contains, find_eq_file_iff.2 ⟨p, hold, hb⟩] at hc
      cases hc

end Receives

end FileTree

/-! ### Commands -/

namespace Session

variable {s : Session}

theorem files_settle {r : Except Failure Outcome} (h : ∀ o, r = .ok o → o.files = s.files) :
    (s.settle r).files = s.files := by
  cases r with
  | error f => rfl
  | ok o => exact h o rfl

/-- All other commands leave the files as they are. -/
theorem files_run (s : Session) {c : Command} (hc : c ≠ .initConfig) :
    (s.run c).files = s.files := by
  cases c with
  | version | languages | categories | configPath => rfl
  | initConfig => exact absurd rfl hc
  | tokens language raw format file =>
    refine files_settle fun o ho => ?_
    obtain ⟨config, -, ho⟩ := exists_eq_ok_of_bind ho
    obtain ⟨l, -, ho⟩ := exists_eq_ok_of_bind ho
    obtain ⟨source, -, ho⟩ := exists_eq_ok_of_bind ho
    cases ho
    rfl
  | check language files =>
    refine files_settle fun o ho => ?_
    obtain ⟨l, -, ho⟩ := exists_eq_ok_of_bind ho
    simp only at ho
    split_ifs at ho <;> cases ho <;> rfl
  | showConfig =>
    refine files_settle fun o ho => ?_
    obtain ⟨config, -, ho⟩ := exists_eq_ok_of_bind ho
    cases ho
    rfl

/-- The place that a new configuration file is written to. -/
def target? (s : Session) : Option Place :=
  if s.files.contains s.environment.configPath then none
  else match s.files.makeParents s.environment.configPath with
    | (t, none) => t.place? s.environment.configPath
    | (_, some _) => none

theorem files_initConfig_of_contains (h : s.files.contains s.environment.configPath) :
    s.initConfig.files = s.files := by
  rw [initConfig]
  simp only [h, if_true]
  rfl

theorem files_initConfig (h : s.files.contains s.environment.configPath = false) :
    s.initConfig.files = (s.save .default).1 := by
  simp only [initConfig, h, Bool.false_eq_true, if_false]
  cases (s.save .default).2 <;> rfl

/-- The place that a configuration is saved to, once the directories of its path are made. -/
def savePlace? (s : Session) : Option Place :=
  match s.files.makeParents s.environment.configPath with
  | (t, none) => t.place? s.environment.configPath
  | (_, some _) => none

theorem save_eq (s : Session) (c : Config) : s.save c =
    match s.files.makeParents s.environment.configPath with
    | (t, some r) => (t, some r)
    | (t, none) => match t.write s.environment.configPath c.text.toUTF8 with
      | .ok t => (t, none)
      | .error r => (t, some r) := by
  dsimp only [save, FileTree.makeParents]
  cases s.environment.configPath.parent? with
  | none => rfl
  | some names =>
    dsimp only
    cases s.files.makeDirectories s.environment.configPath.isAbsolute names.reverse with
    | mk t refusal => cases refusal <;> rfl

/-- All that saving can do: with a place to save to, the text gets there; without one, it is
refused and only directories are made. -/
theorem save_cases (s : Session) (c : Config) :
    (∃ t p, s.savePlace? = some p ∧ s.files.Grows t ∧
      t.place? s.environment.configPath = some p ∧
      s.save c = (t.setContents p c.text.toUTF8, none)) ∨
    ∃ t r, s.savePlace? = none ∧ s.files.Grows t ∧ s.save c = (t, some r) := by
  have hgrows := s.files.grows_makeParents s.environment.configPath
  rw [save_eq, savePlace?]
  cases hm : s.files.makeParents s.environment.configPath with
  | mk t refusal =>
    rw [hm] at hgrows
    cases refusal with
    | some r => exact .inr ⟨t, r, rfl, hgrows, rfl⟩
    | none =>
      have hwrite := t.toOption_write s.environment.configPath c.text.toUTF8
      simp only
      cases hw : t.write s.environment.configPath c.text.toUTF8 with
      | ok t' =>
        rw [hw] at hwrite
        obtain ⟨p, hp, rfl⟩ := Option.map_eq_some_iff.1 hwrite.symm
        exact .inl ⟨t, p, hp, hgrows, hp, rfl⟩
      | error r =>
        rw [hw] at hwrite
        exact .inr ⟨t, r, Option.map_eq_none_iff.1 hwrite.symm, hgrows, rfl⟩

theorem target?_of_not_contains (h : s.files.contains s.environment.configPath = false) :
    s.target? = s.savePlace? := by
  rw [target?, if_neg (by simp [h]), savePlace?]

theorem receives_initConfig (s : Session) :
    s.files.Receives s.environment.configPath s.target? s.initConfig.files := by
  cases hc : s.files.contains s.environment.configPath with
  | true =>
    rw [files_initConfig_of_contains hc, target?, if_pos hc]
    exact .kept .refl
  | false =>
    rw [files_initConfig hc, target?_of_not_contains hc]
    obtain ⟨t, p, hplace, hgrows, hp, hsave⟩ | ⟨t, r, hplace, hgrows, hsave⟩ :=
      s.save_cases .default
    · rw [hplace, hsave]
      exact .written hgrows hp
    · rw [hplace, hsave]
      exact .kept hgrows

/-! ### Configurations shown and saved -/

theorem config_of_find {c : Config} (h : s.files.find s.environment.configPath =
    .ok (.file c.text.toUTF8)) : s.config = .ok c := by
  have hcontains : s.files.contains s.environment.configPath = true := by
    rw [FileTree.contains, h]; rfl
  simp only [config, hcontains, if_true, FileTree.read_of_find h, c.ofText_text]
  rfl

theorem run_showConfig {c : Config} (h : s.config = .ok c) :
    s.run .showConfig = s.succeed (c.text ++ "\n") "" := by
  simp only [run, showConfig, h]
  rfl

theorem save_eq_none_iff (s : Session) (c : Config) :
    (s.save c).2 = none ↔ s.savePlace?.isSome := by
  obtain ⟨t, p, hplace, -, -, hsave⟩ | ⟨t, r, hplace, -, hsave⟩ := s.save_cases c <;>
    simp [hplace, hsave]

/-- What is saved is found where the path of the configuration file leads. -/
theorem find_of_save {c : Config} {t : FileTree} (h : s.save c = (t, none)) :
    t.find s.environment.configPath = .ok (.file c.text.toUTF8) := by
  obtain ⟨t', p, -, -, hp, hsave⟩ | ⟨t', r, -, -, hsave⟩ := s.save_cases c
  · rw [hsave] at h
    cases h
    exact FileTree.find_setContents hp _
  · rw [hsave] at h
    cases h

/-- A configuration with its aliases in any order is the same one, and it is read back from its
text, from what is printed where it is shown, and from the file that it is saved to. Saving
succeeds wherever there is a place to save to. -/
theorem config_shown_saved (c : Config) (a : Aliases) (h : a.entries.Perm c.aliases.entries) :
    let written : Config := { c with aliases := a }
    written.Same c ∧ Config.ofText written.text = .ok written ∧
      (∀ s : Session, s.config = .ok written → (s.run .showConfig).code = 0 ∧
        Config.ofText (s.run .showConfig).out = .ok written) ∧
      ∀ s : Session, ((s.save written).2 = none ↔ s.savePlace?.isSome) ∧
        ∀ t, s.save written = (t, none) →
          (∃ text, t.read s.environment.configPath = .ok text ∧
            Config.ofText text = .ok written) ∧
          Session.config { s with files := t } = .ok written := by
  intro written
  refine ⟨c.same_of_perm h, written.ofText_text, fun s hs => ?_, fun s => ?_⟩
  · rw [run_showConfig hs]
    exact ⟨rfl, written.ofText_line⟩
  · refine ⟨s.save_eq_none_iff written, fun t ht => ?_⟩
    have hfind := find_of_save ht
    exact ⟨⟨written.text, FileTree.read_of_find hfind, written.ofText_text⟩, config_of_find hfind⟩

/-- Quotes, backslashes, control characters and one beyond the first plane, with two aliases in
the other order, saved to a directory that is not there yet and shown from there. -/
theorem config_shown_saved_swapped :
    let c : Config := ⟨"\"\\\n\x01", .json, ⟨[("a\"", "\\"), ("\x00𝄞", "b")], by decide⟩⟩
    let a : Aliases := ⟨[("\x00𝄞", "b"), ("a\"", "\\")], by decide⟩
    let written : Config := { c with aliases := a }
    let s : Session := ⟨⟨some "made/config.json", none, none⟩, .empty, ⟨[], [], []⟩⟩
    let saved : Session := { s with files := (s.save written).1 }
    a.entries.Perm c.aliases.entries ∧ written.Same c ∧ (s.save written).2 = none ∧
      saved.config = .ok written ∧ (saved.run .showConfig).code = 0 ∧
      Config.ofText (saved.run .showConfig).out = .ok written := by
  intro c a written s saved
  have h : a.entries.Perm c.aliases.entries := List.Perm.swap _ _ _
  obtain ⟨hsame, -, hshow, hsave⟩ := config_shown_saved c a h
  have hplace : s.savePlace?.isSome := by decide +kernel
  have hnone : (s.save written).2 = none := (hsave s).1.2 hplace
  have hconfig : saved.config = .ok written := ((hsave s).2 _ (Prod.ext rfl hnone)).2
  exact ⟨h, hsame, hnone, hconfig, hshow saved hconfig⟩

end Session

/-! ### Invocations -/

structure Invocation where
  arguments : List String
  environment : Environment
  input : ByteArray

namespace Invocation

def configPath (i : Invocation) : Path := i.environment.configPath

def session (i : Invocation) (t : FileTree) : Session := ⟨i.environment, i.input, t⟩

def isInit (i : Invocation) : Bool := Command.ofArguments i.arguments = some .initConfig

/-- The files after an invocation. Arguments that spell no command change nothing. -/
def files (i : Invocation) (t : FileTree) : FileTree :=
  match Command.ofArguments i.arguments with
  | some c => ((i.session t).run c).files
  | none => t

/-- The place that an invocation writes to. -/
def target? (i : Invocation) (t : FileTree) : Option Place :=
  if i.isInit then (i.session t).target? else none

theorem files_of_isInit {i : Invocation} (h : i.isInit) (t : FileTree) :
    i.files t = (i.session t).initConfig.files := by
  rw [isInit, decide_eq_true_eq] at h
  rw [files, h]
  rfl

theorem files_of_not_isInit {i : Invocation} (h : i.isInit = false) (t : FileTree) :
    i.files t = t := by
  rw [isInit, decide_eq_false_iff_not] at h
  unfold files
  split
  · next c hc => exact Session.files_run _ (by rintro rfl; exact h hc)
  · rfl

/-- The step of a run: all that an invocation does to a tree. -/
theorem receives_files (i : Invocation) (t : FileTree) :
    t.Receives i.configPath (i.target? t) (i.files t) := by
  unfold target?
  split_ifs with h
  · rw [files_of_isInit h]
    exact (i.session t).receives_initConfig
  · rw [files_of_not_isInit (by simpa using h)]
    exact .kept .refl

structure WritesTo (i : Invocation) (t : FileTree) (p : Place) : Prop where
  isInit : i.isInit
  /-- The path of the configuration file leads to nothing. -/
  not_contains : t.contains i.configPath = false
  /-- Behind the invocation it leads to the default configuration at the place. -/
  place?_eq : (i.files t).place? i.configPath = some p
  find_eq : (i.files t).find i.configPath = .ok (.file Config.defaultContents)
  config_eq : ∀ input, Session.config ⟨i.environment, input, i.files t⟩ = .ok .default
  /-- To set it up again changes nothing. -/
  files_again : ∀ j : Invocation, j.isInit → j.environment = i.environment →
    j.files (i.files t) = i.files t

theorem writesTo_of_target? {i : Invocation} {t : FileTree} {p : Place}
    (h : i.target? t = some p) : i.WritesTo t p := by
  have hreceives := i.receives_files t
  rw [h] at hreceives
  have hfind := hreceives.find_eq
  simp only [target?, Session.target?] at h
  split_ifs at h with hinit hc
  constructor
  case isInit => exact hinit
  case not_contains => exact Bool.eq_false_iff.2 hc
  case place?_eq => exact hreceives.place?_eq
  case find_eq => exact hfind
  case config_eq => exact fun input => Session.config_of_find hfind
  case files_again =>
    intro j hj he
    rw [files_of_isInit hj]
    refine Session.files_initConfig_of_contains ?_
    change (i.files t).contains j.environment.configPath
    rw [he, FileTree.contains]
    exact congrArg Except.toBool hfind

end Invocation

namespace FileTree

def after (t : FileTree) (is : List Invocation) : FileTree := is.foldl (fun t i => i.files t) t

/-- A run keeps a tree rooted. -/
theorem Rooted.after {t : FileTree} (h : t.Rooted) (is : List Invocation) :
    (t.after is).Rooted := by
  induction is generalizing t with
  | nil => exact h
  | cons i is ih => exact ih ((i.receives_files t).rooted h)

/-- An invocation behind others changes no contents but those of the place that it writes to.
That is the place of its configuration file, which is not found before and holds the default
configuration from then on; an old file can be there only if the path leaves a directory. -/
theorem contents_files_after (t₀ : FileTree) (earlier : List Invocation) (i : Invocation) :
    let t := t₀.after earlier
    (∀ p, (i.files t).contents? p =
        if i.target? t = some p then some Config.defaultContents else t.contents? p) ∧
      (∀ p, i.target? t = some p → i.WritesTo t p) ∧
      (t₀.Rooted → Path.up ∉ i.configPath.names →
        ∀ p, i.target? t = some p → t.contents? p = none) := by
  intro t
  have hreceives := i.receives_files t
  refine ⟨hreceives.contents?_eq, fun p hp => Invocation.writesTo_of_target? hp, ?_⟩
  intro hrooted hup p hp
  rw [hp] at hreceives
  exact hreceives.contents?_eq_none (hrooted.after earlier) hup
    (Invocation.writesTo_of_target? hp).not_contains

/-- A working directory with a file of the user in it. -/
def precious : FileTree := ⟨[["work"]], [(["config.json", "work"], "precious".toUTF8)], ["work"]⟩

/-- A path to the file by way of a missing directory: it leads to nothing until the directory
is made. -/
def throughMissing : Invocation :=
  ⟨["config", "init"], ⟨some "a/../config.json", none, none⟩, .empty⟩

/-- The file of the user is lost, although a configuration file is only made where there is
none. -/
theorem contents_files_precious :
    precious.Rooted ∧ precious.contents? ["config.json", "work"] = some "precious".toUTF8 ∧
      (throughMissing.files precious).contents? ["config.json", "work"] ≠
        some "precious".toUTF8 := by
  refine ⟨⟨by decide, by decide, by decide⟩, ?_, ?_⟩ <;> decide +kernel

end FileTree

end Highlighter
