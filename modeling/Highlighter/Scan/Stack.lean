/-! The stack of scanner states. It is never empty, because its lowest state stays. -/

namespace Highlighter

structure Stack where
  top : Nat
  /-- The states below, the nearest first. -/
  below : List Nat
  deriving DecidableEq, Repr

namespace Stack

/-- Only the first state. -/
def root : Stack := ⟨0, []⟩

def depth (s : Stack) : Nat := s.below.length + 1

/-- All states, the active one first. -/
def toList (s : Stack) : List Nat := s.top :: s.below

def push (s : Stack) (state : Nat) : Stack := ⟨state, s.toList⟩

/-- Removes up to `n` states and stops above the lowest one. -/
def pop (s : Stack) : Nat → Stack
  | 0 => s
  | n + 1 => match s.below with
    | [] => s
    | t :: below => pop ⟨t, below⟩ n

/-- The states that `pop` removes, in the order of removal. -/
def popped (s : Stack) (n : Nat) : List Nat := s.toList.take (min n s.below.length)

@[simp] theorem toList_push (s : Stack) (state : Nat) : (s.push state).toList = state :: s.toList :=
  rfl

theorem length_toList (s : Stack) : s.toList.length = s.depth := rfl

theorem toList_pop (s : Stack) (n : Nat) :
    (s.pop n).toList = s.toList.drop (min n s.below.length) := by
  induction n generalizing s with
  | zero => simp [pop]
  | succ n ih =>
    obtain ⟨t, below⟩ := s
    cases below with
    | nil => simp [pop]
    | cons u below =>
      change (pop ⟨u, below⟩ n).toList = _
      rw [ih]
      simp [toList, Nat.add_min_add_right]

/-- Popping splits the stack: what is removed and what stays make up the whole. -/
theorem popped_append_pop (s : Stack) (n : Nat) : s.popped n ++ (s.pop n).toList = s.toList := by
  rw [toList_pop, popped, List.take_append_drop]

end Stack

end Highlighter
