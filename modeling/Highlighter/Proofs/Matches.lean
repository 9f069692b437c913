import Mathlib.Tactic.SplitIfs
import Highlighter.Pattern.Marks
import Highlighter.Pattern.Match

/-! Where a match can come to. A search of a pattern moves over the text ahead one
character at a time and records groups on the way, whatever the marks that it has come
through. Proved: each answer of a search is an answer of what follows the pattern, at a
place that is reached in this way; so a match takes a prefix of the text ahead, its
groups lie inside of it, and it is not empty if the pattern cannot be. -/

namespace Highlighter

namespace Reach

inductive Leads : Reach → Reach → Prop
  | refl (r : Reach) : Leads r r
  | take {r r' r'' : Reach} {s : CharSet} (h : Leads r r') (ht : r'.take? s = some r'') :
      Leads r r''
  | record {r r' : Reach} {start : Nat} (h : Leads r r') (i : Nat) (hs : start ≤ r'.taken) :
      Leads r (r'.record i start)

theorem take?_eq_some {r r' : Reach} {s : CharSet} (h : r.take? s = some r') :
    ∃ c cs, r.rest = c :: cs ∧ s.has c ∧ r' = ⟨some c, cs, r.taken + 1, r.spans⟩ := by
  unfold take? at h
  split at h
  · next c cs hr =>
    split_ifs at h with hc
    exact ⟨c, cs, hr, hc, (Option.some.inj h).symm⟩
  · cases h

namespace Leads

variable {r r' r'' : Reach}

theorem trans (h : Leads r r') (h' : Leads r' r'') : Leads r r'' := by
  induction h' with
  | refl => exact h
  | take _ ht ih => exact .take ih ht
  | record _ i hs ih => exact .record ih i hs

/-- The characters between two places. -/
theorem exists_taken (h : Leads r r') : ∃ cs, r.rest = cs ++ r'.rest ∧
    r'.taken = r.taken + cs.length ∧ r'.before = cs.getLast?.or r.before := by
  induction h with
  | refl => exact ⟨[], rfl, rfl, rfl⟩
  | take _ ht ih =>
    obtain ⟨cs, hrest, htaken, -⟩ := ih
    obtain ⟨c, ds, hr, -, rfl⟩ := take?_eq_some ht
    refine ⟨cs ++ [c], by simp [hrest, hr], ?_, by simp⟩
    rw [htaken, List.length_append, List.length_singleton, Nat.add_assoc]
  | record _ _ _ ih => exact ih

theorem taken_le (h : Leads r r') : r.taken ≤ r'.taken := by
  obtain ⟨cs, -, htaken, -⟩ := h.exists_taken
  omega

/-- What is taken and what is left make up the same text at both places. -/
theorem taken_add (h : Leads r r') :
    r'.taken + r'.rest.length = r.taken + r.rest.length := by
  obtain ⟨cs, hrest, htaken, -⟩ := h.exists_taken
  rw [hrest, htaken, List.length_append, Nat.add_assoc]

end Leads

/-- The recorded groups lie inside of what is taken. -/
def Holds (r : Reach) : Prop := ∀ g ∈ r.spans, g.start ≤ g.stop ∧ g.stop ≤ r.taken

theorem holds_start (before : Option Char) (rest : List Char) : (start before rest).Holds := by
  simp [Holds, start]

theorem Leads.holds {r r' : Reach} (h : Leads r r') (hr : r.Holds) : r'.Holds := by
  induction h with
  | refl => exact hr
  | take _ ht ih =>
    obtain ⟨c, cs, -, -, rfl⟩ := take?_eq_some ht
    intro g hg
    obtain ⟨hle, hin⟩ := ih g hg
    exact ⟨hle, Nat.le_succ_of_le hin⟩
  | record _ i hs ih => exact List.forall_mem_cons.2 ⟨⟨hs, Nat.le_refl _⟩, ih⟩

theorem mem_of_span? {r : Reach} {i : Nat} {g : Span} (h : r.span? i = some g) : g ∈ r.spans :=
  List.mem_of_find?_eq_some h

end Reach

/-! ### Answers of a search -/

namespace Search

variable {β : Type} {s t : Search β} {b : β}

/-- The search can answer `b`, with some marks passed before it. -/
def Gives (s : Search β) (b : β) : Prop := ∃ passed passed', s passed = (some b, passed')

theorem not_gives_fail : ¬ (fail : Search β).Gives b := by
  rintro ⟨_, _, h⟩; cases h

theorem gives_answer {b' : β} (h : (answer b').Gives b) : b' = b := by
  obtain ⟨_, _, h⟩ := h
  cases h; rfl

theorem gives_orElse (h : (s.orElse t).Gives b) : s.Gives b ∨ t.Gives b := by
  obtain ⟨passed, passed', h⟩ := h
  simp only [orElse] at h
  split at h
  · exact .inr ⟨_, _, h⟩
  · next hs => cases h; exact .inl ⟨_, _, hs⟩

theorem gives_once {number taken : Nat} (h : (s.once number taken).Gives b) : s.Gives b := by
  obtain ⟨passed, passed', h⟩ := h
  simp only [once] at h
  split_ifs at h
  · cases h
  · exact ⟨_, _, h⟩

end Search

namespace Pattern

open Reach (Leads)

variable {β : Type}

theorem gives_prefer {greedy : Bool} {more stop : Search β} {b : β}
    (h : (prefer greedy more stop).Gives b) : more.Gives b ∨ stop.Gives b := by
  cases greedy with
  | true => exact Search.gives_orElse h
  | false => exact (Search.gives_orElse h).symm

/-- Each answer of the trial is one of its continuation, at a place that it leads to. -/
def Sound (m : Trial β) : Prop :=
  ∀ r k b, (m r k).Gives b → ∃ r', Leads r r' ∧ (k r').Gives b

namespace Sound

variable {m : Trial β}

theorem times (hm : Sound m) (n : Nat) : Sound (runTimes m n) := by
  induction n with
  | zero => intro r k b h; exact ⟨r, .refl r, h⟩
  | succ n ih =>
    intro r k b h
    obtain ⟨r', hr', h'⟩ := hm _ _ _ h
    obtain ⟨r'', hr'', h''⟩ := ih _ _ _ h'
    exact ⟨r'', hr'.trans hr'', h''⟩

theorem upTo (hm : Sound m) (greedy : Bool) (n : Nat) : Sound (runUpTo m greedy n) := by
  induction n with
  | zero => intro r k b h; exact ⟨r, .refl r, h⟩
  | succ n ih =>
    intro r k b h
    rcases gives_prefer h with h | h
    · obtain ⟨r', hr', h'⟩ := hm _ _ _ h
      obtain ⟨r'', hr'', h''⟩ := ih _ _ _ h'
      exact ⟨r'', hr'.trans hr'', h''⟩
    · exact ⟨r, .refl r, h⟩

theorem on (hm : Sound m) (greedy : Bool) (n : Nat) : Sound (runOn m greedy n) := by
  induction n with
  | zero => intro r k b h; exact ⟨r, .refl r, h⟩
  | succ n ih =>
    intro r k b h
    rcases gives_prefer h with h | h
    · obtain ⟨r', hr', h'⟩ := hm _ _ _ h
      split_ifs at h'
      · obtain ⟨r'', hr'', h''⟩ := ih _ _ _ h'
        exact ⟨r'', hr'.trans hr'', h''⟩
      · exact absurd h' Search.not_gives_fail
    · exact ⟨r, .refl r, h⟩

theorem plus (hm : Sound m) (greedy : Bool) : Sound (runPlus m greedy) := by
  intro r k b h
  obtain ⟨r', hr', h'⟩ := hm _ _ _ h
  split_ifs at h'
  · obtain ⟨r'', hr'', h''⟩ := hm.on greedy _ _ _ _ h'
    exact ⟨r'', hr'.trans hr'', h''⟩
  · exact ⟨r', hr', h'⟩

/-- One trial in front of another. -/
theorem andThen {n : Trial β} (hm : Sound m) (hn : Sound n) :
    Sound fun r k => m r fun r' => n r' k := by
  intro r k b h
  obtain ⟨r', hr', h'⟩ := hm _ _ _ h
  obtain ⟨r'', hr'', h''⟩ := hn _ _ _ h'
  exact ⟨r'', hr'.trans hr'', h''⟩

theorem rep (hm : Sound m) (least : Nat) (most : Option Nat) (greedy : Bool) :
    Sound (runRep m least most greedy) := by
  match least, most with
  | 0, none =>
    intro r k b h
    rcases gives_prefer h with h | h
    · exact hm.plus greedy _ _ _ h
    · exact ⟨r, .refl r, h⟩
  | n + 1, none => exact (hm.times n).andThen (hm.plus greedy)
  | 0, some top => exact (hm.times 0).andThen (hm.upTo greedy _)
  | n + 1, some top => exact (hm.times (n + 1)).andThen (hm.upTo greedy _)

end Sound

theorem sound_run (p : Pattern) : @Sound β p.run := by
  induction p with
  | empty => intro r k b h; exact ⟨r, .refl r, h⟩
  | one s =>
    intro r k b h
    cases hr : r.take? s with
    | none => rw [run, hr] at h; exact absurd h Search.not_gives_fail
    | some r' => rw [run, hr] at h; exact ⟨r', .take (.refl r) hr, h⟩
  | edge e =>
    intro r k b h
    rw [run] at h
    split_ifs at h
    · exact ⟨r, .refl r, h⟩
    · exact absurd h Search.not_gives_fail
  | seq p q ihp ihq => exact ihp.andThen ihq
  | alt p q ihp ihq =>
    intro r k b h
    rcases Search.gives_orElse h with h | h
    · exact ihp _ _ _ h
    · exact ihq _ _ _ h
  | group i p ih =>
    intro r k b h
    obtain ⟨r', hr', h'⟩ := ih _ _ _ h
    exact ⟨_, .record hr' i hr'.taken_le, h'⟩
  | rep p least most greedy ih => exact ih.rep least most greedy
  | mark i => intro r k b h; exact ⟨r, .refl r, Search.gives_once h⟩

/-- Like a sound trial, and something is taken before the continuation. -/
def Strict (m : Trial β) : Prop :=
  ∀ r k b, (m r k).Gives b → ∃ r', Leads r r' ∧ r.taken < r'.taken ∧ (k r').Gives b

theorem Sound.strict {m n : Trial β} (hm : Sound m) (hn : Strict n) :
    Strict fun r k => m r fun r' => n r' k := by
  intro r k b h
  obtain ⟨r', hr', h'⟩ := hm _ _ _ h
  obtain ⟨r'', hr'', hlt, h''⟩ := hn _ _ _ h'
  exact ⟨r'', hr'.trans hr'', Nat.lt_of_le_of_lt hr'.taken_le hlt, h''⟩

namespace Strict

variable {m n : Trial β}

theorem sound (hm : Strict m) : Sound m := by
  intro r k b h
  obtain ⟨r', hr', -, h'⟩ := hm _ _ _ h
  exact ⟨r', hr', h'⟩

theorem andThen (hm : Strict m) (hn : Sound n) : Strict fun r k => m r fun r' => n r' k := by
  intro r k b h
  obtain ⟨r', hr', hlt, h'⟩ := hm _ _ _ h
  obtain ⟨r'', hr'', h''⟩ := hn _ _ _ h'
  exact ⟨r'', hr'.trans hr'', Nat.lt_of_lt_of_le hlt hr''.taken_le, h''⟩

theorem plus (hm : Strict m) (greedy : Bool) : Strict (runPlus m greedy) := by
  intro r k b h
  obtain ⟨r', hr', hlt, h'⟩ := hm _ _ _ h
  rw [if_pos hlt] at h'
  obtain ⟨r'', hr'', h''⟩ := hm.sound.on greedy _ _ _ _ h'
  exact ⟨r'', hr'.trans hr'', Nat.lt_of_lt_of_le hlt hr''.taken_le, h''⟩

theorem rep (hm : Strict m) (n : Nat) (most : Option Nat) (greedy : Bool) :
    Strict (runRep m (n + 1) most greedy) := by
  cases most with
  | none => exact (hm.sound.times n).strict (hm.plus greedy)
  | some top => exact hm.andThen ((hm.sound.times n).andThen (hm.sound.upTo greedy _))

end Strict

/-- A pattern that cannot be empty takes something. -/
theorem strict_run {p : Pattern} (hp : p.canBeEmpty = false) : @Strict β p.run := by
  induction p with
  | empty | edge | mark => cases hp
  | one s =>
    intro r k b h
    cases hr : r.take? s with
    | none => rw [run, hr] at h; exact absurd h Search.not_gives_fail
    | some r' =>
      rw [run, hr] at h
      obtain ⟨c, cs, -, -, rfl⟩ := Reach.take?_eq_some hr
      exact ⟨_, .take (.refl r) hr, Nat.lt_succ_self _, h⟩
  | seq p q ihp ihq =>
    simp only [canBeEmpty, Bool.and_eq_false_iff] at hp
    rcases hp with hp | hp
    · exact (ihp hp).andThen (sound_run q)
    · exact (sound_run p).strict (ihq hp)
  | alt p q ihp ihq =>
    simp only [canBeEmpty, Bool.or_eq_false_iff] at hp
    intro r k b h
    rcases Search.gives_orElse h with h | h
    · exact ihp hp.1 _ _ _ h
    · exact ihq hp.2 _ _ _ h
  | group i p ih =>
    intro r k b h
    obtain ⟨r', hr', hlt, h'⟩ := ih hp _ _ _ h
    exact ⟨_, .record hr' i hr'.taken_le, hlt, h'⟩
  | rep p least most greedy ih =>
    simp only [canBeEmpty, Bool.or_eq_false_iff] at hp
    cases least with
    | zero => simp at hp
    | succ n => exact (ih hp.2).rep n most greedy

theorem gives_of_match? {p : Pattern} {r m : Reach} (h : p.match? r = some m) :
    (p.run r .answer).Gives m := by
  unfold match? at h
  exact ⟨∅, (p.run r .answer ∅).2, by rw [← h]⟩

/-- A match leads from where it begins to where it ends. -/
theorem leads_of_match? {p : Pattern} {r m : Reach} (h : p.match? r = some m) : Leads r m := by
  obtain ⟨r', hr', h'⟩ := sound_run p _ _ _ (gives_of_match? h)
  rwa [Search.gives_answer h'] at hr'

theorem taken_lt_of_match? {p : Pattern} {r m : Reach} (hp : p.canBeEmpty = false)
    (h : p.match? r = some m) : r.taken < m.taken := by
  obtain ⟨r', -, hlt, h'⟩ := strict_run hp _ _ _ (gives_of_match? h)
  rwa [Search.gives_answer h'] at hlt

end Pattern

end Highlighter
