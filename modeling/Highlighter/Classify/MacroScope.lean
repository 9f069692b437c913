/-! The argument list of a reflection macro, followed by its parentheses. -/

namespace Highlighter

/-- Outside any macro, or after the name of one with a number of open parentheses. -/
abbrev MacroScope := Option Nat

namespace MacroScope

/-- A macro inside the arguments of another opens no scope of its own. -/
def enter (s : MacroScope) : MacroScope := some (s.getD 0)

/-- The scope ends with the parenthesis that closes the list. -/
def track : MacroScope → Char → MacroScope
  | some d, '(' => some (d + 1)
  | some d, ')' => if d ≤ 1 then none else some (d - 1)
  | s, _ => s

def trackAll (s : MacroScope) (punctuation : String) : MacroScope :=
  punctuation.toList.foldl track s

def insideArguments (s : MacroScope) : Bool := s.any (0 < ·)

end MacroScope

end Highlighter
