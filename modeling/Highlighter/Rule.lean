import Highlighter.Pattern.Match
import Highlighter.Pattern.Reader
import Highlighter.Token

/-! Rules and rule sets: what a scanner does where a pattern matches. -/

namespace Highlighter

/-- What becomes of the text of a match. -/
inductive Action where
  /-- One token covers it. -/
  | emit (kind : Category)
  /-- One token for each group, in the order of their numbers. -/
  | groups (kinds : List Category)
  /-- It is only looked at. -/
  | peek
  deriving DecidableEq, Repr

/-- What becomes of the stack of states. -/
inductive Move where
  | stay
  | push (state : Nat)
  | pop (count : Nat)
  deriving DecidableEq, Repr

structure Rule where
  pattern : Pattern
  /-- What has to match right after the pattern. -/
  guard : Option Pattern
  action : Action
  move : Move
  deriving DecidableEq, Repr

namespace Rule

def token (p : Pattern) (kind : Category) : Rule := ⟨p, none, .emit kind, .stay⟩

def groups (p : Pattern) (kinds : List Category) : Rule := ⟨p, none, .groups kinds, .stay⟩

def peek (p : Pattern) : Rule := ⟨p, none, .peek, .stay⟩

def push (r : Rule) (state : Nat) : Rule := { r with move := .push state }

def pop (r : Rule) (count : Nat) : Rule := { r with move := .pop count }

def followedBy (r : Rule) (p : Pattern) : Rule := { r with guard := some p }

end Rule

structure State where
  name : String
  rules : List Rule
  deriving DecidableEq, Repr

/-- The rules of a language by state. Scanning starts in the first one. -/
structure RuleSet where
  name : String
  states : List State
  deriving DecidableEq, Repr

namespace RuleSet

/-- A state that does not exist has no rules. -/
def rules (rs : RuleSet) (state : Nat) : List Rule := rs.states[state]?.elim [] (·.rules)

def stateName (rs : RuleSet) (state : Nat) : String := rs.states[state]?.elim "?" (·.name)

def ruleCount (rs : RuleSet) : Nat := (rs.states.map (·.rules.length)).foldr (· + ·) 0

end RuleSet

/-! ### Faults of rules -/

/-- Why a rule or a rule set is refused. -/
inductive RuleFault where
  /-- The text is no pattern. -/
  | malformed (pattern : String)
  | groupCount (pattern : String) (groups kinds : Nat)
  | noStates (ruleSet : String)
  | unknownState (state : String) (target : Nat)
  deriving DecidableEq, Repr

namespace RuleFault

/-- The text that is at fault: a pattern, or the name of a rule set or a state. -/
def subject : RuleFault → String
  | malformed p | groupCount p _ _ | noStates p | unknownState p _ => p

def message? : RuleFault → Option String
  | malformed _ => none
  | groupCount _ groups kinds => some s!"{groups} capture groups but {kinds} categories"
  | noStates _ => some "rule set has no states"
  | unknownState _ target => some s!"push to unknown state #{target}"

end RuleFault

/-- The pattern that a text describes, or the fault. -/
def Pattern.ofText (text : String) : Except RuleFault Pattern :=
  match read text with
  | some p => .ok p
  | none => .error (.malformed text)

/-- A rule whose patterns are given as texts. A rule with groups names a category
for each of them. -/
def Rule.ofText (pattern : String) (action : Action) (guard : Option String) (move : Move) :
    Except RuleFault Rule := do
  let p ← Pattern.ofText pattern
  if let .groups kinds := action then
    if p.groupCount ≠ kinds.length then
      throw (.groupCount pattern p.groupCount kinds.length)
  let g ← guard.mapM Pattern.ofText
  return ⟨p, g, action, move⟩

/-- The states that the rules of a state push. -/
def State.targets (s : State) : List Nat :=
  s.rules.filterMap fun r => match r.move with
    | .push target => some target
    | _ => none

/-- The first fault of a rule set: that it has no states, or a push to a state
that it does not have. -/
def RuleSet.fault? (rs : RuleSet) : Option RuleFault :=
  if rs.states.isEmpty then some (.noStates rs.name)
  else rs.states.findSome? fun s =>
    (s.targets.find? (rs.states.length ≤ ·)).map (.unknownState s.name)

end Highlighter
