import Highlighter.Assoc

/-! Names that a user gives to languages: a finite map from names to tags. -/

namespace Highlighter

/-- A name occurs once. -/
structure Aliases where
  entries : List (String × String)
  nodup : (entries.map Prod.fst).Nodup
  deriving DecidableEq, Repr

namespace Aliases

def empty : Aliases := ⟨[], List.nodup_nil⟩

def get? (a : Aliases) (name : String) : Option String := a.entries.lookup name

/-- Gives a name a tag; an earlier tag of the name is lost. -/
def insert (a : Aliases) (name tag : String) : Aliases :=
  ⟨Assoc.put name tag a.entries, Assoc.nodup_put a.nodup⟩

@[simp] theorem get?_empty (n : String) : empty.get? n = none := rfl

theorem get?_insert (a : Aliases) (name tag n : String) :
    (a.insert name tag).get? n = if n = name then some tag else a.get? n :=
  Assoc.lookup_put name n tag a.entries

end Aliases

end Highlighter
