import Mathlib.Tactic.SplitIfs
import Highlighter.Files.Tree

/-! Trees that grow. Directories are made one by one in directories that exist, and no file
changes by it. Proved: whether a path leads to a directory depends on the directories alone, a
file is found exactly at the place that its path names, and a name that stays or goes down
leads to an old place only along old directories. -/

namespace Highlighter

namespace FileTree

variable {t t' t'' : FileTree} {absolute : Bool} {names : List String} {name : String}
  {p q : Place}

/-! ### Following paths -/

theorem hasDirectory_iff : t.hasDirectory p ↔ p = [] ∨ p ∈ t.directories := by
  simp [hasDirectory]

theorem same_ne_up : Path.same ≠ Path.up := by decide

theorem child_eq_directory_iff : t.child p name = .ok (.directory q) ↔
    (name = Path.same ∧ p = q) ∨ (name = Path.up ∧ p.tail = q) ∨
      (name ≠ Path.same ∧ name ≠ Path.up ∧ t.hasDirectory (name :: p) ∧ name :: p = q) := by
  unfold child
  split_ifs with hs hu hd
  · simp [hs, same_ne_up]
  · simp [hu, same_ne_up.symm]
  · simp [hs, hu, hd]
  · cases t.contents? (name :: p) <;> simp [hs, hu, hd]

theorem child_eq_file_iff {bytes : ByteArray} : t.child p name = .ok (.file bytes) ↔
    t.canHoldFile p name ∧ t.contents? (name :: p) = some bytes := by
  unfold child canHoldFile
  split_ifs with hs hu hd
  · simp [hs]
  · simp [hu]
  · simp [hd]
  · cases t.contents? (name :: p) <;> simp [hs, hu, hd]

theorem follow_append (t : FileTree) (e : Entry) (names names' : List String) :
    t.follow e (names ++ names') = (t.follow e names).bind fun e => t.follow e names' := by
  induction names generalizing e with
  | nil => rfl
  | cons name names ih =>
    cases e with
    | file bytes => rfl
    | directory p =>
      rw [List.cons_append, follow, follow]
      cases t.child p name with
      | error r => rfl
      | ok e => exact ih e

/-- Only directories lie on the way to a directory. -/
theorem follow_cons_eq_directory_iff :
    t.follow (.directory p) (name :: names) = .ok (.directory q) ↔
      ∃ d, t.child p name = .ok (.directory d) ∧
        t.follow (.directory d) names = .ok (.directory q) := by
  rw [follow]
  cases t.child p name with
  | error r => simp [Except.bind]
  | ok e =>
    cases e with
    | directory d => simp [Except.bind]
    | file bytes => cases names <;> simp [Except.bind, follow]

/-- A file is the last thing on a way. -/
theorem follow_concat_eq_file_iff {e : Entry} {bytes : ByteArray} :
    t.follow e (names ++ [name]) = .ok (.file bytes) ↔
      ∃ d, t.follow e names = .ok (.directory d) ∧ t.child d name = .ok (.file bytes) := by
  rw [follow_append]
  cases t.follow e names with
  | error r => simp [Except.bind]
  | ok e =>
    cases e with
    | file b => rw [Except.bind, follow]; simp
    | directory d =>
      simp only [Except.ok.injEq, Entry.directory.injEq, exists_eq_left']
      change (t.child d name).bind (fun e => t.follow e []) = _ ↔ _
      cases t.child d name <;> simp [Except.bind, follow]

/-- The way to a directory depends on the directories alone. -/
theorem follow_congr (h : t'.directories = t.directories) :
    t'.follow (.directory p) names = .ok (.directory q) ↔
      t.follow (.directory p) names = .ok (.directory q) := by
  induction names generalizing p with
  | nil => rfl
  | cons name names ih =>
    simp only [follow_cons_eq_directory_iff, child_eq_directory_iff, hasDirectory_iff, h, ih]

theorem directoryAt_eq_ok_iff : t.directoryAt absolute names = .ok p ↔
    t.follow (.directory (t.start absolute)) names = .ok (.directory p) := by
  unfold directoryAt
  split <;> simp_all

/-! ### Files at the end of paths -/

/-- The place of the file that a path names, if there can be a file. -/
def place? (t : FileTree) (path : Path) : Option Place :=
  match path.names.getLast? with
  | none => none
  | some name =>
    match t.directoryAt path.isAbsolute path.names.dropLast with
    | .error _ => none
    | .ok d => if path.endsInSlash || !t.canHoldFile d name then none else some (name :: d)

theorem place?_eq_some_iff {path : Path} : t.place? path = some p ↔
    ∃ names name d, path.names = names ++ [name] ∧ path.endsInSlash = false ∧
      t.directoryAt path.isAbsolute names = .ok d ∧ t.canHoldFile d name ∧ name :: d = p := by
  constructor
  · intro h
    unfold place? at h
    split at h
    · cases h
    · next name hl =>
      obtain ⟨names, hn⟩ := List.getLast?_eq_some_iff.1 hl
      rw [hn, List.dropLast_concat] at h
      split at h
      · cases h
      · next d hd =>
        split_ifs at h with hc
        simp only [Bool.or_eq_true, Bool.not_eq_true', not_or, Bool.not_eq_false] at hc
        exact ⟨names, name, d, hn, by simpa using hc.1, hd, hc.2, Option.some.inj h⟩
  · rintro ⟨names, name, d, hn, hs, hd, hc, rfl⟩
    simp [place?, hn, hd, hs, hc]

/-- A path leads to a file exactly if there is one at the place that it names. -/
theorem find_eq_file_iff {path : Path} {bytes : ByteArray} : t.find path = .ok (.file bytes) ↔
    ∃ p, t.place? path = some p ∧ t.contents? p = some bytes := by
  simp only [place?_eq_some_iff, directoryAt_eq_ok_iff]
  constructor
  · intro h
    unfold find at h
    split_ifs at h with he
    unfold Path.steps at h
    split_ifs at h with hs
    · -- a slash at the end does not lead to a file
      obtain ⟨d, -, hc⟩ := follow_concat_eq_file_iff.1 h
      simp [child_eq_file_iff, canHoldFile] at hc
    · rcases List.eq_nil_or_concat path.names with hn | ⟨names, name, hn⟩
      · rw [hn] at h; cases h
      · rw [List.concat_eq_append] at hn
        rw [hn] at h
        obtain ⟨d, hd, hc⟩ := follow_concat_eq_file_iff.1 h
        obtain ⟨hc, hb⟩ := child_eq_file_iff.1 hc
        exact ⟨name :: d, ⟨names, name, d, hn, by simpa using hs, hd, hc, rfl⟩, hb⟩
  · rintro ⟨-, ⟨names, name, d, hn, hs, hd, hc, rfl⟩, hb⟩
    have he : ¬ path.text.isEmpty := by
      intro he
      rw [String.isEmpty_iff] at he
      simp [Path.names, he, Text.parts, Text.pieces] at hn
    rw [find, if_neg he, Path.steps, if_neg (by simp [hs]), hn]
    exact follow_concat_eq_file_iff.2 ⟨d, hd, child_eq_file_iff.2 ⟨hc, hb⟩⟩

theorem toOption_write (t : FileTree) (path : Path) (bytes : ByteArray) :
    (t.write path bytes).toOption = (t.place? path).map fun p => t.setContents p bytes := by
  unfold write place?
  cases path.names.getLast? with
  | none => rfl
  | some name =>
    simp only
    cases t.directoryAt path.isAbsolute path.names.dropLast with
    | error r => rfl
    | ok d =>
      simp only [Except.bind]
      split_ifs <;> rfl

theorem place?_congr (h : t'.directories = t.directories) (hw : t'.working = t.working)
    (path : Path) : t'.place? path = t.place? path := by
  have hstart : t'.start path.isAbsolute = t.start path.isAbsolute := by rw [start, start, hw]
  ext p
  simp only [place?_eq_some_iff, directoryAt_eq_ok_iff, hstart, follow_congr h, canHoldFile,
    hasDirectory, h]

theorem place?_setContents (t : FileTree) (p : Place) (bytes : ByteArray) (path : Path) :
    (t.setContents p bytes).place? path = t.place? path := by
  have hdirectories : (t.setContents p bytes).directories = t.directories := rfl
  exact place?_congr hdirectories rfl path

/-- What is written to the place of a path is found there. -/
theorem find_setContents {path : Path} (h : t.place? path = some p) (bytes : ByteArray) :
    (t.setContents p bytes).find path = .ok (.file bytes) := by
  refine find_eq_file_iff.2 ⟨p, ?_, ?_⟩
  · rw [place?_setContents, h]
  · rw [contents?_setContents, if_pos rfl]

/-! ### Rooted trees -/

/-- All directories and files lie in directories. -/
structure Rooted (t : FileTree) : Prop where
  working : t.hasDirectory t.working
  directories : ∀ p ∈ t.directories, t.hasDirectory p.tail
  files : ∀ p ∈ t.files.map Prod.fst, t.hasDirectory p.tail

namespace Rooted

theorem tail (h : t.Rooted) (hp : t.hasDirectory p) : t.hasDirectory p.tail := by
  rcases hasDirectory_iff.1 hp with rfl | hp
  · exact hasDirectory_iff.2 (.inl rfl)
  · exact h.directories p hp

theorem suffix (h : t.Rooted) (hq : t.hasDirectory q) (hp : p <:+ q) : t.hasDirectory p := by
  induction q with
  | nil => rw [List.suffix_nil.1 hp]; exact hq
  | cons name q ih =>
    rcases List.suffix_cons_iff.1 hp with rfl | hp
    · exact hq
    · exact ih (h.tail hq) hp

theorem start (h : t.Rooted) (absolute : Bool) : t.hasDirectory (t.start absolute) := by
  cases absolute
  · exact h.working
  · exact hasDirectory_iff.2 (.inl rfl)

theorem follow (h : t.Rooted) (hp : t.hasDirectory p)
    (hf : t.follow (.directory p) names = .ok (.directory q)) : t.hasDirectory q := by
  induction names generalizing p with
  | nil => cases hf; exact hp
  | cons name names ih =>
    obtain ⟨d, hd, hf⟩ := follow_cons_eq_directory_iff.1 hf
    refine ih ?_ hf
    rcases child_eq_directory_iff.1 hd with ⟨-, rfl⟩ | ⟨-, rfl⟩ | ⟨-, -, hc, rfl⟩
    · exact hp
    · exact h.tail hp
    · exact hc

theorem directoryAt (h : t.Rooted) (hd : t.directoryAt absolute names = .ok p) :
    t.hasDirectory p :=
  h.follow (h.start absolute) (directoryAt_eq_ok_iff.1 hd)

theorem setContents (h : t.Rooted) (hp : t.hasDirectory p.tail) (bytes : ByteArray) :
    (t.setContents p bytes).Rooted where
  working := h.working
  directories := h.directories
  files q hq := by
    rcases Assoc.mem_keys_put.1 hq with rfl | hq
    · exact hp
    · exact h.files q hq

theorem tail_of_contents? (h : t.Rooted) {bytes : ByteArray} (hp : t.contents? p = some bytes) :
    t.hasDirectory p.tail := by
  obtain ⟨l₁, l₂, hl, -⟩ := List.lookup_eq_some_iff.1 hp
  exact h.files p (by simp [hl])

end Rooted

/-! ### Making directories -/

inductive Grows (t : FileTree) : FileTree → Prop
  | refl : Grows t t
  | make {t' t'' : FileTree} {absolute : Bool} {names : List String} {name : String}
      (h : Grows t t') (hm : t'.makeDirectory absolute names name = .ok t'') : Grows t t''

theorem makeDirectory_eq_ok (h : t.makeDirectory absolute names name = .ok t') :
    ∃ p, t.directoryAt absolute names = .ok p ∧
      t' = { t with directories := (name :: p) :: t.directories } := by
  unfold makeDirectory at h
  cases hd : t.directoryAt absolute names with
  | error r => rw [hd] at h; cases h
  | ok p =>
    rw [hd] at h
    simp only [Except.bind] at h
    split at h
    · cases h
    · cases h; exact ⟨p, rfl, rfl⟩

namespace Grows

theorem trans (h : t.Grows t') (h' : t'.Grows t'') : t.Grows t'' := by
  induction h' with
  | refl => exact h
  | make _ hm ih => exact .make ih hm

theorem files_eq (h : t.Grows t') : t'.files = t.files := by
  induction h with
  | refl => rfl
  | make _ hm ih =>
    obtain ⟨p, -, rfl⟩ := makeDirectory_eq_ok hm
    exact ih

theorem working_eq (h : t.Grows t') : t'.working = t.working := by
  induction h with
  | refl => rfl
  | make _ hm ih =>
    obtain ⟨p, -, rfl⟩ := makeDirectory_eq_ok hm
    exact ih

theorem contents?_eq (h : t.Grows t') (p : Place) : t'.contents? p = t.contents? p := by
  rw [contents?, contents?, h.files_eq]

theorem hasDirectory (h : t.Grows t') (hp : t.hasDirectory p) : t'.hasDirectory p := by
  induction h with
  | refl => exact hp
  | make _ hm ih =>
    obtain ⟨q, -, rfl⟩ := makeDirectory_eq_ok hm
    rw [hasDirectory_iff] at ih ⊢
    exact ih.imp_right (List.mem_cons_of_mem _)

end Grows

theorem Rooted.makeDirectory (h : t.Rooted) (hm : t.makeDirectory absolute names name = .ok t') :
    t'.Rooted := by
  have hgrows : t.Grows t' := .make .refl hm
  obtain ⟨p, hp, rfl⟩ := makeDirectory_eq_ok hm
  constructor
  · exact hgrows.hasDirectory h.working
  · exact List.forall_mem_cons.2 ⟨hgrows.hasDirectory (h.directoryAt hp),
      fun q hq => hgrows.hasDirectory (h.directories q hq)⟩
  · exact fun q hq => hgrows.hasDirectory (h.files q hq)

theorem Rooted.grows (h : t.Rooted) (hg : t.Grows t') : t'.Rooted := by
  induction hg with
  | refl => exact h
  | make _ hm ih => exact ih.makeDirectory hm

theorem grows_ensureDirectory (t : FileTree) (absolute : Bool) (names : List String)
    (name : String) : t.Grows (t.ensureDirectory absolute names name).1 := by
  unfold ensureDirectory
  split
  · next hm => exact .make .refl hm
  · split <;> exact .refl

theorem grows_makeDirectories (t : FileTree) (absolute : Bool) (names : List String) :
    t.Grows (t.makeDirectories absolute names).1 := by
  induction names with
  | nil => exact .refl
  | cons name outer ih =>
    unfold makeDirectories
    split
    · split
      · next t' hm =>
        rw [hm] at ih
        exact ih.trans (t'.grows_ensureDirectory _ _ _)
      · next t' r hm => rw [hm] at ih; exact ih
    · exact t.grows_ensureDirectory _ _ _

/-! ### Old places -/

/-- Names that do not leave a directory lead to places in it. -/
theorem suffix_of_follow (hup : Path.up ∉ names)
    (h : t.follow (.directory p) names = .ok (.directory q)) : p <:+ q := by
  induction names generalizing p with
  | nil => cases h; exact List.suffix_rfl
  | cons name names ih =>
    rw [List.mem_cons, not_or] at hup
    obtain ⟨d, hd, h⟩ := follow_cons_eq_directory_iff.1 h
    have hdq := ih hup.2 h
    rcases child_eq_directory_iff.1 hd with ⟨-, rfl⟩ | ⟨rfl, -⟩ | ⟨-, -, -, rfl⟩
    · exact hdq
    · exact absurd rfl hup.1
    · exact (List.suffix_cons name p).trans hdq

/-- Names that do not leave a directory lead to an old directory only along old ones. -/
theorem Rooted.follow_of_follow (h : t.Rooted) (hup : Path.up ∉ names) (hq : t.hasDirectory q)
    (hf : t'.follow (.directory p) names = .ok (.directory q)) :
    t.follow (.directory p) names = .ok (.directory q) := by
  induction names generalizing p with
  | nil => exact hf
  | cons name names ih =>
    rw [List.mem_cons, not_or] at hup
    obtain ⟨d, hd, hf⟩ := follow_cons_eq_directory_iff.1 hf
    refine follow_cons_eq_directory_iff.2 ⟨d, ?_, ih hup.2 hf⟩
    rw [child_eq_directory_iff] at hd ⊢
    refine hd.imp_right (Or.imp_right ?_)
    rintro ⟨hs, hu, -, rfl⟩
    exact ⟨hs, hu, h.suffix hq (suffix_of_follow hup.2 hf), rfl⟩

/-- A path that does not leave a directory names a place in an old directory only if it did
before other directories were made. -/
theorem Rooted.place?_of_grows (h : t.Rooted) (hg : t.Grows t') {path : Path}
    (hup : Path.up ∉ path.names) (hp : t'.place? path = some p) (hd : t.hasDirectory p.tail) :
    t.place? path = some p := by
  rw [place?_eq_some_iff] at hp ⊢
  obtain ⟨names, name, d, hn, hs, hat, hc, rfl⟩ := hp
  refine ⟨names, name, d, hn, hs, ?_, ?_, rfl⟩
  · have hstart : t'.start path.isAbsolute = t.start path.isAbsolute := by
      rw [FileTree.start, FileTree.start, hg.working_eq]
    rw [hn, List.mem_append, not_or] at hup
    rw [directoryAt_eq_ok_iff, hstart] at hat
    exact directoryAt_eq_ok_iff.2 (h.follow_of_follow hup.1 hd hat)
  · have hold : t.hasDirectory (name :: d) → t'.hasDirectory (name :: d) := hg.hasDirectory
    revert hc
    simp only [canHoldFile, Bool.and_eq_true, Bool.not_eq_true', ← Bool.not_eq_true]
    exact And.imp_right (mt hold)

end FileTree

end Highlighter
