import Highlighter.Text.Pieces

/-! Which log lines are wanted: a list of directives, each for the sources whose
names begin in a given way. -/

namespace Highlighter.Log

inductive Level where
  | error | warn | info | debug | trace
  deriving DecidableEq, Repr

namespace Level

def all : List Level := [error, warn, info, debug, trace]

def name : Level → String
  | error => "ERROR"
  | warn => "WARN"
  | info => "INFO"
  | debug => "DEBUG"
  | trace => "TRACE"

/-- The more detailed a level is, the higher its rank. -/
def rank : Level → Nat
  | error => 1
  | warn => 2
  | info => 3
  | debug => 4
  | trace => 5

end Level

/-- The most detailed level that is wanted, if any is, from the sources whose names
begin with the target. -/
structure Directive where
  target : List Char
  limit : Option Level
  deriving DecidableEq, Repr

namespace Directive

/-- A limit by its name in any letters; `off` is none at all. -/
def limitOf? (cs : List Char) : Option (Option Level) :=
  let name := cs.map Char.toUpper
  if name = "OFF".toList then some none
  else (Level.all.find? (·.name.toList = name)).map some

/-- A level for all sources, a target with its level, or a target of which
everything is wanted. -/
def ofText? (cs : List Char) : Option Directive :=
  match Text.pieces '=' cs with
  | [target, limit] => (limitOf? limit).map (⟨target, ·⟩)
  | [cs] =>
    match limitOf? cs with
    | some limit => some ⟨[], limit⟩
    | none => some ⟨cs, some .trace⟩
  | _ => none

end Directive

abbrev Filter := List Directive

namespace Filter

/-- Directives between commas. What is no directive is left out. -/
def ofText (s : String) : Filter := (Text.parts ',' s.toList).filterMap Directive.ofText?

/-- The directive with the longest target that a source begins with, the last one of
equal targets. -/
def directive? (f : Filter) (source : String) : Option Directive :=
  f.foldl (fun best d =>
    if d.target.isPrefixOf source.toList && best.all (·.target.length ≤ d.target.length) then some d
    else best) none

def allows (f : Filter) (level : Level) (source : String) : Bool :=
  match f.directive? source with
  | some d => d.limit.any (level.rank ≤ ·.rank)
  | none => false

end Filter

end Highlighter.Log
