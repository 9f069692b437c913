import Highlighter.Language
import Highlighter.Proofs.Progress

/-! The shapes of the stack. A state can only stand directly above one whose rules push it, so
what stands on a stack is told by which states push which. Proved: each shipped rule set has a
regular language of stacks, and its rules never pop more states than stand above the first one. -/

namespace Highlighter

namespace RuleSet

variable {rs : RuleSet} {p q n : Nat} {r : Rule}

def opened (rs : RuleSet) (state : Nat) : List Nat := rs.states[state]?.elim [] (·.targets)

theorem mem_opened (hr : r ∈ rs.rules p) (hm : r.move = .push q) : q ∈ rs.opened p := by
  obtain ⟨s, hs, hmem⟩ := exists_state_of_mem_rules hr
  rw [opened, hs]
  exact List.mem_filterMap.2 ⟨r, hmem, by rw [hm]⟩

theorem lt_of_mem_opened (h : q ∈ rs.opened p) : p < rs.states.length := by
  refine Nat.lt_of_not_le fun hp => ?_
  rw [opened, List.getElem?_eq_none hp] at h
  cases h

def popsAtMost (rs : RuleSet) (state n : Nat) : Bool :=
  (rs.rules state).all fun r => match r.move with
    | .pop k => k ≤ n
    | _ => true

theorem le_of_popsAtMost (h : rs.popsAtMost p n) (hr : r ∈ rs.rules p) {k : Nat}
    (hm : r.move = .pop k) : k ≤ n := by
  have hrule := List.all_eq_true.1 h r hr
  rw [hm] at hrule
  exact of_decide_eq_true hrule

/-- The names of the states on a stack, the lowest first. -/
def stackNames (rs : RuleSet) (s : Stack) : List String := (s.toList.map rs.stateName).reverse

end RuleSet

/-! ### Nested states -/

inductive Nested (rs : RuleSet) : List Nat → Prop
  | root : Nested rs [0]
  | push {p q : Nat} {below : List Nat} (h : Nested rs (p :: below)) (hq : q ∈ rs.opened p) :
      Nested rs (q :: p :: below)

namespace Nested

variable {rs : RuleSet} {s : Stack}

theorem tail {p q : Nat} {below : List Nat} (h : Nested rs (q :: p :: below)) :
    Nested rs (p :: below) := by
  cases h with
  | push h _ => exact h

theorem pop (h : Nested rs s.toList) (n : Nat) : Nested rs (s.pop n).toList := by
  induction n generalizing s with
  | zero => exact h
  | succ n ih =>
    obtain ⟨top, below⟩ := s
    cases below with
    | nil => exact h
    | cons t below => exact ih (s := ⟨t, below⟩) h.tail

theorem move (h : Nested rs s.toList) {r : Rule} (hr : r ∈ rs.rules s.top) :
    Nested rs (r.move.apply s).toList := by
  cases hm : r.move with
  | stay => exact h
  | push q => exact .push h (RuleSet.mem_opened hr hm)
  | pop n => exact h.pop n

theorem step {s : Scanner} (h : Nested rs s.stack.toList) (hr : s.rest ≠ []) :
    Nested rs (s.step rs).stack.toList := by
  generalize s.step rs = s', Scanner.steps rs hr = hstep
  cases hstep with
  | take hsel _ | look hsel _ _ => exact h.move (Scanner.select_eq_some hsel).1
  | skip _ _ => rwa [Scanner.stack_giveUp]

theorem run (rs : RuleSet) (source : List Char) (n : Nat) :
    Nested rs ((Scanner.start source).run rs n).stack.toList :=
  Scanner.run_induction (P := fun s => Nested rs s.stack.toList) (fun _ hr h => h.step hr) .root n

/-- A list of stacks that is closed under the pushes of the rules holds all stacks. -/
theorem mem_of_closed {shapes : List (List Nat)} (hroot : [0] ∈ shapes)
    (hpush : ∀ l ∈ shapes, ∀ q ∈ l.head?.elim [] rs.opened, q :: l ∈ shapes) {l : List Nat}
    (h : Nested rs l) : l ∈ shapes := by
  induction h with
  | root => exact hroot
  | push _ hq ih => exact hpush _ ih _ hq

/-- A state stands on at least as many others as its height says, if a push goes up by at most
one. -/
theorem height_le {height : Nat → Nat} (hroot : height 0 = 0)
    (hpush : ∀ p < rs.states.length, ∀ q ∈ rs.opened p, height q ≤ height p + 1) {q : Nat}
    {below : List Nat} (h : Nested rs (q :: below)) : height q ≤ below.length := by
  generalize hl : q :: below = l at h
  induction h generalizing q below with
  | root =>
    cases hl
    exact Nat.le_of_eq hroot
  | push h hq ih =>
    cases hl
    exact Nat.le_trans (hpush _ (RuleSet.lt_of_mem_opened hq) _ hq) (Nat.succ_le_succ (ih rfl))

end Nested

/-- A pop that asks for no more states than stand above the first one removes as many. -/
theorem Stack.popped_of_le {s : Stack} {n : Nat} (h : n ≤ s.below.length) :
    (s.popped n).length = n ∧ (s.pop n).depth + n = s.depth := by
  have hlen : (s.popped n).length = n := by
    rw [popped, Nat.min_eq_left h, List.length_take, length_toList, depth]
    omega
  have hsum := congrArg List.length (s.popped_append_pop n)
  rw [List.length_append, hlen, length_toList, length_toList] at hsum
  omega

/-! ### The shipped rule sets -/

namespace Language

/-- The shapes of the stack, by the names of the states from the lowest up. -/
def StackShape : Language → List String → Prop
  | terminal, names => names ∈ [["root"], ["root", "command"]]
  | console, names => names ∈ [["root"], ["root", "cmd_command"], ["root", "ps_command"]]
  | output, names => names ∈ [["root"], ["root", "message"], ["root", "message", "quoted_type"],
      ["root", "code_snippet"], ["root", "annotation"]]
  | engineCpp, names => ∃ n inner, names = "statements" :: List.replicate n "template" ++ inner ∧
      (inner ∈ [[], ["string"], ["macro"], ["classname"]] ∨
        ∃ k, inner = List.replicate (k + 1) "if_0")

open Rules

/-- Only a quoted type needs two states below it. -/
def height (l : Language) (state : Nat) : Nat :=
  if l = output ∧ state = Output.quotedType then 2 else min state 1

theorem height_root (l : Language) : l.height 0 = 0 := by
  cases l <;> rfl

theorem height_opened (l : Language) :
    ∀ p < l.rules.states.length, ∀ q ∈ l.rules.opened p, l.height q ≤ l.height p + 1 := by
  cases l <;> decide

theorem popsAtMost_height (l : Language) :
    ∀ p < l.rules.states.length, l.rules.popsAtMost p (l.height p) := by
  cases l <;> decide

theorem nested_terminal {l : List Nat} (h : Nested Rules.terminal l) :
    l ∈ [[0], [Terminal.command, 0]] :=
  h.mem_of_closed (by decide) (by decide)

theorem nested_console {l : List Nat} (h : Nested Rules.console l) :
    l ∈ [[0], [Console.promptLine, 0], [Console.shellLine, 0]] :=
  h.mem_of_closed (by decide) (by decide)

theorem nested_output {l : List Nat} (h : Nested Rules.output l) :
    l ∈ [[0], [Output.message, 0], [Output.quotedType, Output.message, 0], [Output.excerpt, 0],
      [Output.annotation, 0]] :=
  h.mem_of_closed (by decide) (by decide)

section EngineCpp

open EngineCpp

/-- Template lists over statements, and over them nothing, a state that pushes no other, or
skipped blocks. -/
def IsLayered (l : List Nat) : Prop :=
  ∃ n inner, l = inner ++ (List.replicate n template ++ [0]) ∧
    (inner ∈ [[], [string], [directive], [className]] ∨
      ∃ k, inner = List.replicate (k + 1) skipped)

/-- Statements and template lists push each of the other states. -/
theorem isLayered_push_live {n q : Nat}
    (hq : q ∈ [template, string, directive, className, skipped]) :
    IsLayered (q :: (List.replicate n template ++ [0])) := by
  simp only [List.mem_cons, List.not_mem_nil, or_false] at hq
  rcases hq with rfl | rfl | rfl | rfl | rfl
  · exact ⟨n + 1, [], rfl, .inl (by decide)⟩
  · exact ⟨n, [string], rfl, .inl (by decide)⟩
  · exact ⟨n, [directive], rfl, .inl (by decide)⟩
  · exact ⟨n, [className], rfl, .inl (by decide)⟩
  · exact ⟨n, [skipped], rfl, .inr ⟨0, rfl⟩⟩

theorem isLayered_of_nested {l : List Nat} (h : Nested Rules.engineCpp l) : IsLayered l := by
  have hlive : ∀ p ∈ [0, template], ∀ q ∈ Rules.engineCpp.opened p,
      q ∈ [template, string, directive, className, skipped] := by decide
  have hclosed : ∀ p ∈ [string, directive, className], Rules.engineCpp.opened p = [] := by decide
  have hskipped : ∀ q ∈ Rules.engineCpp.opened skipped, q = skipped := by decide
  induction h with
  | root => exact ⟨0, [], rfl, .inl List.mem_cons_self⟩
  | @push p q below _ hq ih =>
    obtain ⟨n, inner, hl, hinner⟩ := ih
    rcases hinner with hinner | ⟨k, rfl⟩
    · -- a push needs statements or a template list on top, so nothing is over them yet
      simp only [List.mem_cons, List.not_mem_nil, or_false] at hinner
      rcases hinner with rfl | rfl | rfl | rfl
      · have hp : p ∈ [0, template] := by
          cases n with
          | zero => cases hl; exact List.mem_cons_self
          | succ n => cases hl; exact List.mem_cons_of_mem _ List.mem_cons_self
        rw [hl]
        exact isLayered_push_live (hlive p hp q hq)
      all_goals
        cases hl
        rw [hclosed _ (by decide)] at hq
        cases hq
    · rw [List.replicate_succ, List.cons_append, List.cons.injEq] at hl
      obtain ⟨rfl, rfl⟩ := hl
      rw [hskipped q hq]
      exact ⟨n, List.replicate (k + 2) skipped, rfl, .inr ⟨k + 1, rfl⟩⟩

end EngineCpp

theorem stackShape_of_nested (l : Language) {s : Stack} (h : Nested l.rules s.toList) :
    l.StackShape (l.rules.stackNames s) := by
  rw [RuleSet.stackNames]
  generalize s.toList = states at h
  cases l with
  | terminal =>
    have hnames : ∀ t ∈ [[0], [Terminal.command, 0]],
        (t.map Rules.terminal.stateName).reverse ∈ [["root"], ["root", "command"]] := by decide
    exact hnames _ (nested_terminal h)
  | console =>
    have hnames : ∀ t ∈ [[0], [Console.promptLine, 0], [Console.shellLine, 0]],
        (t.map Rules.console.stateName).reverse ∈
          [["root"], ["root", "cmd_command"], ["root", "ps_command"]] := by decide
    exact hnames _ (nested_console h)
  | output =>
    have hnames : ∀ t ∈ [[0], [Output.message, 0], [Output.quotedType, Output.message, 0],
        [Output.excerpt, 0], [Output.annotation, 0]],
        (t.map Rules.output.stateName).reverse ∈ [["root"], ["root", "message"],
          ["root", "message", "quoted_type"], ["root", "code_snippet"],
          ["root", "annotation"]] := by decide
    exact hnames _ (nested_output h)
  | engineCpp =>
    obtain ⟨n, inner, rfl, hinner⟩ := isLayered_of_nested h
    refine ⟨n, (inner.map Rules.engineCpp.stateName).reverse, ?_, ?_⟩
    · calc ((inner ++ (List.replicate n EngineCpp.template ++ [0])).map
            Rules.engineCpp.stateName).reverse
        _ = Rules.engineCpp.stateName 0 ::
              List.replicate n (Rules.engineCpp.stateName EngineCpp.template) ++
              (inner.map Rules.engineCpp.stateName).reverse := by
            simp only [List.map_append, List.map_replicate, List.map_cons, List.map_nil,
              List.reverse_append, List.reverse_replicate, List.reverse_singleton,
              List.singleton_append]
        _ = _ := rfl
    · have hnames : ∀ t ∈ [[], [EngineCpp.string], [EngineCpp.directive], [EngineCpp.className]],
          (t.map Rules.engineCpp.stateName).reverse ∈
            [[], ["string"], ["macro"], ["classname"]] := by decide
      refine hinner.imp (hnames inner) ?_
      rintro ⟨k, rfl⟩
      exact ⟨k, by rw [List.map_replicate, List.reverse_replicate]; rfl⟩

/-- In a run over any text each language keeps its stack in one of its shapes, and no rule that
can be applied there pops more states than stand above the first one. -/
theorem stacks_shaped (l : Language) (source : String) (n : Nat) :
    let s := (Scanner.start source.toList).run l.rules n
    l.StackShape (l.rules.stackNames s.stack) ∧
      ∀ r ∈ l.rules.rules s.stack.top, ∀ k, r.move = .pop k →
        (s.stack.popped k).length = k ∧ (s.stack.pop k).depth + k = s.stack.depth := by
  intro s
  have hnested : Nested l.rules s.stack.toList := .run l.rules source.toList n
  refine ⟨l.stackShape_of_nested hnested, fun r hr k hk => Stack.popped_of_le ?_⟩
  obtain ⟨_, htop, _⟩ := RuleSet.exists_state_of_mem_rules hr
  have hlt : s.stack.top < l.rules.states.length := (List.getElem?_eq_some_iff.1 htop).1
  calc k
    _ ≤ l.height s.stack.top := RuleSet.le_of_popsAtMost (l.popsAtMost_height _ hlt) hr hk
    _ ≤ s.stack.below.length :=
      hnested.height_le l.height_root l.height_opened

/-- A line ends inside a quote of a message, and the pop there goes back to the first state. -/
theorem stacks_shaped_quoted :
    let s := (Scanner.start "error: 'x\n".toList).run output.rules 4
    output.StackShape (output.rules.stackNames s.stack) ∧
      output.rules.stackNames s.stack = ["root", "message", "quoted_type"] ∧
      (Rule.token (Pattern.char '\n') .text).pop 2 ∈ output.rules.rules s.stack.top ∧
      (s.stack.popped 2).length = 2 ∧ (s.stack.pop 2).depth + 2 = s.stack.depth := by
  intro s
  have hstack : s.stack = ⟨Output.quotedType, [Output.message, 0]⟩ := by decide +kernel
  have hrule : (Rule.token (Pattern.char '\n') .text).pop 2 ∈ output.rules.rules s.stack.top := by
    rw [hstack]
    exact List.mem_cons_of_mem _ List.mem_cons_self
  obtain ⟨hshape, hpops⟩ := stacks_shaped output "error: 'x\n" 4
  exact ⟨hshape, by rw [hstack]; decide, hrule, hpops _ hrule 2 rfl⟩

end Language

end Highlighter
