import Highlighter.Language
import Highlighter.Proofs.Ends
import Highlighter.Proofs.Lossless
import Highlighter.Proofs.QualifiedNames

/-! The argument lists of macros. The pass over C++ tokens tracks one list at a time with a
number of open parentheses; a macro in the arguments of another one opens no list of its own.
Proved: where parentheses stand alone, as they do in each scan, the pass sees a single name
in an argument list exactly if a parenthesis behind the name of a macro is still open there. -/

namespace Highlighter

open Token Context

namespace Token

/-- Whether the token names a macro with an argument list. -/
def isMacroName (t : Token) : Bool :=
  (t.kind.isOpenName || t.kind = .nameDecorator) && Names.isCoreMacro t.text

def isOpening (t : Token) : Bool := t.is .punctuation "("

def isClosing (t : Token) : Bool := t.is .punctuation ")"

/-- Whether the token holds a parenthesis only if it is one. -/
def IsPlain (t : Token) : Prop :=
  t.kind = .punctuation → '(' ∈ t.text.toList ∨ ')' ∈ t.text.toList → t.text.length = 1

theorem isA_name_of_isMacroName {t : Token} (h : t.isMacroName) : t.kind.isA .name := by
  simp only [isMacroName, Bool.and_eq_true, Bool.or_eq_true, decide_eq_true_eq] at h
  rcases h.1 with ho | hd
  · exact Category.isA_name_of_isOpenName ho
  · rw [hd]; rfl

theorem kind_ne_of_name {t : Token} (h : t.kind.isA .name) :
    t.kind ≠ .punctuation ∧ t.kind ≠ .text := by
  constructor <;> (rintro he; rw [he] at h; cases h)

theorem isOpening_iff {t : Token} : t.isOpening ↔ t.kind = .punctuation ∧ t.text = "(" := by
  simp [isOpening, is]

theorem isClosing_iff {t : Token} : t.isClosing ↔ t.kind = .punctuation ∧ t.text = ")" := by
  simp [isClosing, is]

theorem not_isClosing_of_isOpening {t : Token} (h : t.isOpening) : t.isClosing = false := by
  rw [← Bool.not_eq_true, isClosing_iff, (isOpening_iff.1 h).2]
  simp

end Token

/-! ### Tracking tokens -/

namespace MacroScope

def trackToken (s : MacroScope) (t : Token) : MacroScope :=
  if t.kind = .punctuation then s.trackAll t.text else s

def trackTokens (s : MacroScope) (ts : List Token) : MacroScope := ts.foldl trackToken s

@[simp] theorem trackTokens_nil (s : MacroScope) : s.trackTokens [] = s := rfl

@[simp] theorem trackTokens_cons (s : MacroScope) (t : Token) (ts : List Token) :
    s.trackTokens (t :: ts) = (s.trackToken t).trackTokens ts := rfl

theorem trackTokens_append (s : MacroScope) (ts us : List Token) :
    s.trackTokens (ts ++ us) = (s.trackTokens ts).trackTokens us := List.foldl_append

theorem foldl_track_none (cs : List Char) : cs.foldl track none = none := by
  induction cs with
  | nil => rfl
  | cons c cs ih => exact ih

theorem trackToken_none (t : Token) : trackToken none t = none := by
  unfold trackToken
  split_ifs
  · exact foldl_track_none _
  · rfl

theorem trackTokens_none (ts : List Token) : trackTokens none ts = none := by
  induction ts with
  | nil => rfl
  | cons t ts ih => rw [trackTokens_cons, trackToken_none, ih]

/-- Text without parentheses is not tracked. -/
theorem trackAll_of_not_mem {text : String} (ho : '(' ∉ text.toList) (hc : ')' ∉ text.toList)
    (s : MacroScope) : s.trackAll text = s := by
  unfold trackAll
  generalize text.toList = cs at ho hc
  induction cs generalizing s with
  | nil => rfl
  | cons c cs ih =>
    rw [List.mem_cons, not_or] at ho hc
    rw [List.foldl_cons, show s.track c = s by unfold track; split <;> simp_all, ih s ho.2 hc.2]

/-- A token without a stuck parenthesis opens one, closes one, or does nothing. -/
theorem trackToken_eq {t : Token} (h : t.IsPlain) (s : MacroScope) :
    s.trackToken t =
      if t.isOpening then s.track '(' else if t.isClosing then s.track ')' else s := by
  unfold trackToken
  split_ifs with hk ho hc ho hc
  · rw [(isOpening_iff.1 ho).2]; rfl
  · rw [(isClosing_iff.1 hc).2]; rfl
  · -- a text of one character that is no parenthesis holds none
    have hsingle (c : Char) (hp : c = '(' ∨ c = ')') : c ∉ t.text.toList := by
      intro hmem
      have hlen := h hk (by rcases hp with rfl | rfl <;> simp [hmem])
      rw [← String.length_toList] at hlen
      obtain ⟨d, hd⟩ := List.length_eq_one_iff.1 hlen
      rw [hd, List.mem_singleton] at hmem
      have htext : t.text = String.ofList [c] := by rw [hmem, ← hd, String.ofList_toList]
      rcases hp with rfl | rfl
      · exact ho (isOpening_iff.2 ⟨hk, htext⟩)
      · exact hc (isClosing_iff.2 ⟨hk, htext⟩)
    exact trackAll_of_not_mem (hsingle _ (.inl rfl)) (hsingle _ (.inr rfl)) s
  · exact absurd (isOpening_iff.1 ho).1 hk
  · exact absurd (isClosing_iff.1 hc).1 hk
  · rfl

/-- A scope with more open parentheses stays open longer. -/
theorem trackToken_mono {t : Token} (h : t.IsPlain) {d d' e : Nat} (hd : d ≤ d')
    (ht : trackToken (some d) t = some e) : ∃ e', trackToken (some d') t = some e' ∧ e ≤ e' := by
  rw [trackToken_eq h] at ht ⊢
  split_ifs at ht ⊢ with ho hc
  · cases ht; exact ⟨_, rfl, by omega⟩
  · simp only [track] at ht ⊢
    split_ifs at ht with h1
    cases ht
    exact ⟨d' - 1, if_neg (by omega), by omega⟩
  · cases ht; exact ⟨_, rfl, hd⟩

theorem trackToken_pos {t : Token} (h : t.IsPlain) {d e : Nat} (hd : 0 < d)
    (ht : trackToken (some d) t = some e) : 0 < e := by
  rw [trackToken_eq h] at ht
  split_ifs at ht with ho hc
  · cases ht; exact Nat.succ_pos d
  · simp only [track] at ht
    split_ifs at ht with h1
    cases ht; omega
  · cases ht; exact hd

theorem forall_prefix_cons_iff {t : Token} {ts : List Token} {P : List Token → Prop} :
    (∀ run, run <+: t :: ts → P run) ↔ P [] ∧ ∀ run, run <+: ts → P (t :: run) := by
  simp only [List.prefix_cons_iff, or_imp, forall_and, forall_eq]
  refine and_congr_right' ⟨fun h run hr => h _ ⟨run, rfl, hr⟩, ?_⟩
  rintro h _ ⟨run, rfl, hr⟩
  exact h run hr

/-- An argument list is open behind some tokens exactly if no run of them closes more
parentheses than were open. -/
theorem isSome_trackTokens_iff {ts : List Token} (h : ∀ t ∈ ts, t.IsPlain) {d : Nat} (hd : 0 < d) :
    (∃ e, 0 < e ∧ trackTokens (some d) ts = some e) ↔
      ∀ run, run <+: ts → run.countP isClosing < d + run.countP isOpening := by
  induction ts generalizing d with
  | nil =>
    refine iff_of_true ⟨d, hd, rfl⟩ fun run hrun => ?_
    rw [List.prefix_nil.1 hrun]
    simpa using hd
  | cons t ts ih =>
    obtain ⟨ht, hts⟩ := List.forall_mem_cons.1 h
    rw [trackTokens_cons, trackToken_eq ht, forall_prefix_cons_iff,
      and_iff_right (by simpa using hd)]
    by_cases ho : t.isOpening
    · have hc := not_isClosing_of_isOpening ho
      have hcount (run : List Token) :
          (t :: run).countP isClosing < d + (t :: run).countP isOpening ↔
            run.countP isClosing < (d + 1) + run.countP isOpening := by
        rw [List.countP_cons_of_neg (by simp [hc]), List.countP_cons_of_pos ho]
        omega
      simp only [hcount, if_pos ho]
      exact ih hts (Nat.succ_pos d)
    by_cases hc : t.isClosing
    · have hcount (run : List Token) :
          (t :: run).countP isClosing < d + (t :: run).countP isOpening ↔
            run.countP isClosing + 1 < d + run.countP isOpening := by
        rw [List.countP_cons_of_pos hc, List.countP_cons_of_neg ho]
      simp only [hcount, if_neg ho, if_pos hc, track]
      split_ifs with hlast
      · -- the parenthesis that closes the list
        rw [trackTokens_none]
        refine iff_of_false (by simp) fun hruns => ?_
        have hnil : 0 + 1 < d + 0 := hruns [] List.nil_prefix
        omega
      · rw [ih hts (by omega)]
        exact forall₂_congr fun run _ => by omega
    · have hcount (run : List Token) :
          (t :: run).countP isClosing < d + (t :: run).countP isOpening ↔
            run.countP isClosing < d + run.countP isOpening := by
        rw [List.countP_cons_of_neg hc, List.countP_cons_of_neg ho]
      simp only [hcount, if_neg ho, if_neg hc]
      exact ih hts hd

end MacroScope

/-! ### Open argument lists -/

/-- The tokens end with the name of a macro, but for plain text behind it. The name is no
later part of a qualified name. -/
def EndsInMacro (ts : List Token) : Prop :=
  ∃ front m blanks, ts = front ++ m :: blanks ∧ m.isMacroName ∧
    endsInJoint front.reverse = false ∧ ∀ b ∈ blanks, b.kind = .text

/-- The parenthesis behind the name of a macro is open behind the tokens: all runs from it
on have more opening parentheses than closing ones. -/
def InArguments (ts : List Token) : Prop :=
  ∃ front paren inner, ts = front ++ paren :: inner ∧ EndsInMacro front ∧ paren.isOpening ∧
    ∀ run, run <+: paren :: inner → run ≠ [] → run.countP isClosing < run.countP isOpening

/-- The parenthesis behind the name of a macro, with the number of parentheses that are open
behind the tokens from it on. -/
def OpenBehind (ts : List Token) (d : Nat) : Prop :=
  ∃ front paren inner, ts = front ++ paren :: inner ∧ EndsInMacro front ∧ paren.isOpening ∧
    MacroScope.trackTokens (some 1) inner = some d

theorem inArguments_iff {ts : List Token} (h : ∀ t ∈ ts, t.IsPlain) :
    InArguments ts ↔ ∃ d, 0 < d ∧ OpenBehind ts d := by
  have hruns {front inner : List Token} {paren : Token} (hts : ts = front ++ paren :: inner)
      (hp : paren.isOpening) :
      (∀ run, run <+: paren :: inner → run ≠ [] → run.countP isClosing < run.countP isOpening) ↔
        ∃ d, 0 < d ∧ MacroScope.trackTokens (some 1) inner = some d := by
    have hc := not_isClosing_of_isOpening hp
    rw [MacroScope.isSome_trackTokens_iff (fun t ht => h t (by simp [hts, ht])) Nat.one_pos]
    constructor
    · intro hr run hrun
      have := hr (paren :: run) ((List.prefix_cons_inj paren).2 hrun) (by simp)
      simpa [hp, hc, Nat.add_comm] using this
    · intro hr run hrun hne
      obtain ⟨u, run, rfl⟩ := List.exists_cons_of_ne_nil hne
      obtain ⟨rfl, hrest⟩ := List.cons_prefix_cons.1 hrun
      have := hr run hrest
      simpa [hp, hc, Nat.add_comm] using this
  constructor
  · rintro ⟨front, paren, inner, hts, hm, hp, hr⟩
    obtain ⟨d, hd, ht⟩ := (hruns hts hp).1 hr
    exact ⟨d, hd, front, paren, inner, hts, hm, hp, ht⟩
  · rintro ⟨d, hd, front, paren, inner, hts, hm, hp, ht⟩
    exact ⟨front, paren, inner, hts, hm, hp, (hruns hts hp).2 ⟨d, hd, ht⟩⟩

/-! ### The scope of the walk -/

section Walk

variable {before rest : List Token} {p : Cursor} {t : Token}

/-- A token with a category that is decided ahead is a joint or a name. -/
theorem Decides.isJoint_or_name {k : Category} {ks : List Category}
    (h : Decides before (k :: ks) (t :: rest)) : t.isJoint ∨ t.kind.isA .name := by
  generalize hks : k :: ks = ds, hts : t :: rest = ts at h
  cases h with
  | part _ k₀ =>
    subst hts
    have hne : segments (t :: rest) ≠ [] := by rintro he; rw [he] at hks; cases hks
    obtain ⟨-, -, -, hj, -⟩ := segments_ne_nil hne
    exact .inl hj
  | joint _ ht => cases hts; exact .inr ht
  | idle => cases hks

theorem kind_ne_of_isJoint {t : Token} (h : t.isJoint) :
    t.kind ≠ .punctuation ∧ t.kind ≠ .text := by
  simp only [isJoint, is, Bool.and_eq_true, decide_eq_true_eq] at h
  rw [h.1]
  exact ⟨by decide, by decide⟩

/-- The walk tracks the tokens that it has not decided ahead, but for plain text. -/
theorem scope_next (p : Cursor) (t : Token) (rest : List Token) : (p.next t rest).scope =
    if p.decided = [] ∧ t.kind ≠ .text then scopeAt p.scope t rest else p.scope := by
  generalize p.site t rest = site, hp : p.next t rest = p', p.walks t rest = hw
  cases hw with
  | ahead hd => rw [if_neg (by simp [hd])]
  | blank hd ht => rw [if_neg (by simp [ht])]
  | restored hd ht _ | other hd ht _ _ => rw [if_pos ⟨hd, ht⟩]
  | head hd ho _ _ | single hd ho _ _ =>
    rw [if_pos ⟨hd, Category.ne_text_of_isOpenName ho⟩]

theorem scopeAt_eq (s : MacroScope) (t : Token) (rest : List Token) : scopeAt s t rest =
    (if t.isMacroName && (next? rest).any isOpening then s.enter else s).trackToken t := rfl

/-- Inside of an argument list a token is tracked and nothing else. -/
theorem scope_next_some (h : Decides before p.decided (t :: rest)) {d : Nat}
    (hs : p.scope = some d) : (p.next t rest).scope = MacroScope.trackToken (some d) t := by
  have henter (c : Bool) : (if c then MacroScope.enter (some d) else some d) = some d := by
    cases c <;> rfl
  rw [scope_next, scopeAt_eq, hs, henter]
  split_ifs with hc
  · rfl
  · rw [MacroScope.trackToken, if_neg]
    rw [not_and_or, not_not] at hc
    rcases hc with hd | ht
    · obtain ⟨k, ks, hks⟩ := List.exists_cons_of_ne_nil hd
      rcases (hks ▸ h).isJoint_or_name with hj | hn
      · exact (kind_ne_of_isJoint hj).1
      · exact (kind_ne_of_name hn).1
    · rw [ht]; decide

/-- Outside, a list begins with the name of a macro in front of a parenthesis. -/
theorem scope_next_none (h : Decides before p.decided (t :: rest)) (hs : p.scope = none) :
    (p.next t rest).scope = if t.isMacroName ∧ endsInJoint before = false ∧
      (next? rest).any isOpening then some 0 else none := by
  rw [scope_next, scopeAt_eq, hs]
  by_cases hm : t.isMacroName
  · have hn := isA_name_of_isMacroName hm
    have htrack (s : MacroScope) : s.trackToken t = s := if_neg (kind_ne_of_name hn).1
    rw [htrack]
    simp only [hm, h.eq_nil_iff hn, (kind_ne_of_name hn).2, Bool.true_and, ne_eq,
      not_false_eq_true, and_true, true_and, MacroScope.enter, Option.getD_none]
    split_ifs <;> simp_all
  · simp only [hm, Bool.false_and, Bool.false_eq_true, if_false, false_and,
      MacroScope.trackToken_none, ite_self]

inductive Tracked (before rest : List Token) : MacroScope → Prop
  | outside : Tracked before rest none
  | ahead (hm : EndsInMacro before) (hn : (next? rest).any isOpening) : Tracked before rest (some 0)
  | inside {d : Nat} (h : OpenBehind before (d + 1)) : Tracked before rest (some (d + 1))

theorem tracked_next (h : Decides before.reverse p.decided (t :: rest)) (ht : t.IsPlain)
    (hs : Tracked before (t :: rest) p.scope) :
    Tracked (before ++ [t]) rest (p.next t rest).scope := by
  generalize hscope : p.scope = s at hs
  cases hs with
  | outside =>
    rw [scope_next_none h hscope]
    split_ifs with hc
    · exact .ahead ⟨before, t, [], rfl, hc.1, hc.2.1, by simp⟩ hc.2.2
    · exact .outside
  | ahead hm hn =>
    rw [scope_next_some h hscope]
    by_cases hk : t.kind = .text
    · obtain ⟨front, m, blanks, rfl, hmacro, hjoint, hblanks⟩ := hm
      rw [MacroScope.trackToken, if_neg (by rw [hk]; decide)]
      refine .ahead ⟨front, m, blanks ++ [t], by simp, hmacro, hjoint, ?_⟩ ?_
      · exact List.forall_mem_append.2 ⟨hblanks, by simpa using hk⟩
      · simpa [next?, skipText, hk] using hn
    · have ho : t.isOpening := by simpa [next?, skipText, hk] using hn
      rw [MacroScope.trackToken_eq ht, if_pos ho]
      exact .inside ⟨before, t, [], rfl, hm, ho, rfl⟩
  | @inside d hopen =>
    rw [scope_next_some h hscope]
    cases htrack : MacroScope.trackToken (some (d + 1)) t with
    | none => exact .outside
    | some e =>
      obtain ⟨e, rfl⟩ := Nat.exists_eq_succ_of_ne_zero
        (Nat.ne_of_gt (MacroScope.trackToken_pos ht (Nat.succ_pos d) htrack))
      obtain ⟨front, paren, inner, rfl, hm, ho, hinner⟩ := hopen
      refine .inside ⟨front, paren, inner ++ [t], by simp, hm, ho, ?_⟩
      rw [MacroScope.trackTokens_append, hinner]
      exact htrack

theorem decides_start (before rest : List Token) :
    Decides before.reverse (Cursor.start.through before rest).decided rest := by
  have hstart : Decides [] Cursor.start.decided (before ++ rest) :=
    .idle rfl (by simp [endsInJoint])
  simpa using decides_through hstart

theorem tracked_start (h : ∀ t ∈ before, t.IsPlain) (rest : List Token) :
    Tracked before rest (Cursor.start.through before rest).scope := by
  induction before using List.reverseRecOn generalizing rest with
  | nil => exact .outside
  | append_singleton before t ih =>
    rw [List.forall_mem_append] at h
    rw [Cursor.through_append]
    exact tracked_next (decides_start before (t :: rest)) (h.2 t (by simp)) (ih h.1 (t :: rest))

/-- Parentheses that are open from some token on are open in the scope. -/
theorem scope_through_some {ts : List Token} (h : Decides before p.decided (ts ++ rest))
    (hts : ∀ t ∈ ts, t.IsPlain) {d d' e : Nat} (hs : p.scope = some d') (hd : d ≤ d')
    (ht : MacroScope.trackTokens (some d) ts = some e) :
    ∃ e', (p.through ts rest).scope = some e' ∧ e ≤ e' := by
  induction ts generalizing before p d d' with
  | nil => cases ht; exact ⟨d', hs, hd⟩
  | cons t ts ih =>
    obtain ⟨hplain, hts⟩ := List.forall_mem_cons.1 hts
    rw [MacroScope.trackTokens_cons] at ht
    cases hfirst : MacroScope.trackToken (some d) t with
    | none => rw [hfirst, MacroScope.trackTokens_none] at ht; cases ht
    | some c =>
      rw [hfirst] at ht
      obtain ⟨c', hc', hle⟩ := MacroScope.trackToken_mono hplain hd hfirst
      exact ih (decides_next h) hts ((scope_next_some h hs).trans hc') hle ht

/-- Behind the name of a macro, in front of a parenthesis, there is a scope. -/
theorem scope_of_endsInMacro {paren : Token} (h : EndsInMacro before) (ho : paren.isOpening)
    (rest : List Token) : ∃ d, (Cursor.start.through before (paren :: rest)).scope = some d := by
  obtain ⟨front, m, blanks, rfl, hm, hj, hblanks⟩ := h
  have hnext : (next? (blanks ++ paren :: rest)).any isOpening := by
    have hk : paren.kind ≠ .text := by
      rw [(isOpening_iff.1 ho).1]
      decide
    have hskip : skipText (blanks ++ paren :: rest) = paren :: rest := by
      rw [skipText, List.dropWhile_append_of_pos (by simpa using hblanks)]
      exact List.dropWhile_cons_of_neg (by simpa using hk)
    rw [next?, hskip]
    simpa using ho
  have hd := decides_start front (m :: (blanks ++ paren :: rest))
  have hmacro : ∃ d, ((Cursor.start.through front (m :: (blanks ++ paren :: rest))).next m
      (blanks ++ paren :: rest)).scope = some d := by
    generalize Cursor.start.through front (m :: (blanks ++ paren :: rest)) = p at hd
    cases hs : p.scope with
    | none => exact ⟨0, by rw [scope_next_none hd hs, if_pos ⟨hm, hj, hnext⟩]⟩
    | some d =>
      refine ⟨d, ?_⟩
      rw [scope_next_some hd hs, MacroScope.trackToken,
        if_neg (kind_ne_of_name (isA_name_of_isMacroName hm)).1]
  obtain ⟨d, hs⟩ := hmacro
  -- plain text between the name and the parenthesis is not tracked
  have hblank : MacroScope.trackTokens (some d) blanks = some d := by
    clear hnext hd hs
    induction blanks with
    | nil => rfl
    | cons b blanks ih =>
      obtain ⟨hb, hblanks⟩ := List.forall_mem_cons.1 hblanks
      rw [MacroScope.trackTokens_cons, MacroScope.trackToken, if_neg (by rw [hb]; decide),
        ih hblanks]
  have hplain : ∀ b ∈ blanks, b.IsPlain := fun b hb hk => absurd (hblanks b hb ▸ hk) (by decide)
  rw [Cursor.through_append]
  obtain ⟨d', hd', -⟩ := scope_through_some (decides_next hd) hplain hs (Nat.le_refl d) hblank
  exact ⟨d', hd'⟩

theorem insideArguments_through_iff (h : ∀ t ∈ before, t.IsPlain) (rest : List Token) :
    (Cursor.start.through before rest).scope.insideArguments ↔ InArguments before := by
  rw [inArguments_iff h]
  constructor
  · intro hinside
    have htracked := tracked_start h rest
    generalize (Cursor.start.through before rest).scope = s at htracked hinside
    cases htracked with
    | outside | ahead => cases hinside
    | inside hopen => exact ⟨_, Nat.succ_pos _, hopen⟩
  · rintro ⟨d, hd, front, paren, inner, rfl, hm, ho, ht⟩
    rw [List.forall_mem_append, List.forall_mem_cons] at h
    obtain ⟨c, hc⟩ := scope_of_endsInMacro hm ho (inner ++ rest)
    have hfront := decides_start front (paren :: (inner ++ rest))
    have hparen := scope_next_some hfront hc
    rw [MacroScope.trackToken_eq h.2.1, if_pos ho] at hparen
    obtain ⟨e, he, hle⟩ := scope_through_some (decides_next hfront) h.2.2 hparen
      (Nat.succ_le_succ (Nat.zero_le c)) ht
    have hthrough : (Cursor.start.through (front ++ paren :: inner) rest).scope = some e := by
      rw [Cursor.through_append]
      exact he
    rw [hthrough]
    simpa [MacroScope.insideArguments] using Nat.lt_of_lt_of_le hd hle

/-- A name is not tracked, and a list that it begins has no open parenthesis yet. -/
theorem insideArguments_scopeAt (ht : t.kind.isA .name) (s : MacroScope) (rest : List Token) :
    (scopeAt s t rest).insideArguments = s.insideArguments := by
  rw [scopeAt_eq, MacroScope.trackToken, if_neg (kind_ne_of_name ht).1]
  split_ifs
  · cases s <;> rfl
  · rfl

end Walk

/-! ### The state of the pass -/

namespace Context

/-- The state of the pass behind some tokens, in front of the rest. -/
def through (s : Symbols) (c : Context) : List Token → List Token → Context
  | [], _ => c
  | t :: ts, rest => through s (c.step s t (ts ++ rest)).2 ts rest

theorem cursor_through (s : Symbols) (c : Context) (ts rest : List Token) :
    (c.through s ts rest).cursor = c.cursor.through ts rest := by
  induction ts generalizing c with
  | nil => rfl
  | cons t ts ih => rw [through, ih, cursor_step, Cursor.through_cons]

/-- In front of a name, the pass has something decided ahead exactly if the name is joined to
a part of a qualified name. -/
theorem decided_through_iff (s : Symbols) (before : List Token) {t : Token} (ht : t.kind.isA .name)
    (rest : List Token) : (Context.start.through s before (t :: rest)).decided = [] ↔
      endsInJoint before.reverse = false := by
  rw [← decided_through before ht rest]
  exact Eq.congr_left (congrArg Cursor.decided (cursor_through s .start before (t :: rest)))

theorem drop_reclassify (s : Symbols) (c : Context) (ts rest : List Token) :
    (reclassify s c (ts ++ rest)).drop ts.length = reclassify s (c.through s ts rest) rest := by
  induction ts generalizing c with
  | nil => rfl
  | cons t ts ih => exact ih _

/-- In front of a token that the pass decides on as a single name. -/
structure AtSingle (c : Context) (t : Token) (rest : List Token) : Prop where
  decided : c.decided = []
  isOpenName : t.kind.isOpenName
  noKeyword : keyword? t = none
  noChain : chainTail? t rest = none

/-- The neighbourhood that the pass sees of a single name. -/
def standingAt (c : Context) (t : Token) (rest : List Token) : Standing :=
  { c with scope := scopeAt c.scope t rest }.standing rest

theorem AtSingle.step_fst {c : Context} {t : Token} {rest : List Token} (h : c.AtSingle t rest)
    (s : Symbols) :
    (c.step s t rest).1 = (c.standingAt t rest).nameKind s c.last t := by
  simp only [Context.step, h.decided, if_neg (Category.ne_text_of_isOpenName h.isOpenName),
    h.noKeyword, if_pos h.isOpenName, h.noChain]
  rfl

end Context

/-! ### Parentheses of a scan -/

/-- What holds of the stray characters of a text and of the tokens of each match, holds of all
tokens of a scan. -/
theorem RuleSet.forall_mem_tokens_scan {rs : RuleSet} {P : Token → Prop}
    (hstray : ∀ l c, P ⟨l, if c = '\n' then .text else .genericOutput, String.ofList [c]⟩)
    (hmatch : ∀ i, ∀ r ∈ rs.rules i, ∀ before rest m, r.match? before rest = some m →
      ∀ l, ∀ t ∈ cut l rest (r.action.pieces m), P t) (source : String) :
    ∀ t ∈ (rs.scan source).tokens, P t := by
  refine Scanner.run_induction (P := fun s => ∀ t ∈ s.tokens, P t) ?_
    (by simp [Scanner.start, Scanner.tokens, Scanner.events]) _
  intro s hr hs
  generalize s.step rs = s', Scanner.steps rs hr = hstep
  cases hstep with
  | @take r m hsel _ | @look r m hsel _ _ =>
    change ∀ t ∈ (s.apply r m).tokens, P t
    rw [Scanner.tokens_apply]
    exact List.forall_mem_append.2 ⟨hs, hmatch _ r (Scanner.select_eq_some hsel).1 _ _ m
      (Scanner.match?_of_select hsel) _⟩
  | skip hc _ =>
    rw [Scanner.tokens_giveUp hc]
    exact List.forall_mem_append.2 ⟨hs, by simpa using hstray s.location _⟩

/-- Whether a rule takes a parenthesis as punctuation only if it takes nothing else. -/
def Rule.isPlain (r : Rule) : Bool :=
  .punctuation ∉ r.action.kinds || (r.action = .emit .punctuation &&
    match r.pattern with
    | .one _ => true
    | p => p = .lit "...")

theorem Rule.isPlain_of_mem_tokens {r : Rule} (hr : r.isPlain) {before : Option Char}
    {rest : List Char} {m : Reach} (h : r.match? before rest = some m) (l : Location) :
    ∀ t ∈ cut l rest (r.action.pieces m), t.IsPlain := by
  intro t ht hk hparen
  have hkinds := (r.action.kind_of_mem_tokens ht).resolve_left (by rw [hk]; decide)
  rw [hk] at hkinds
  simp only [isPlain, hkinds, not_true_eq_false, decide_false, Bool.false_or, Bool.and_eq_true,
    decide_eq_true_eq] at hr
  obtain ⟨ha, hp⟩ := hr
  have hpattern := r.pattern_match? h (by simp [ha])
  -- the only token is the text of the match
  have htext {cs : List Char} (htakes : (Reach.start before rest).Takes cs m) :
      t.text.toList = cs := by
    rw [ha, Action.pieces, piece] at ht
    split_ifs at ht
    · cases ht
    · rw [cut, cut, List.mem_singleton] at ht
      have hrest : rest = cs ++ m.rest := htakes.rest_eq
      have htaken : m.taken = cs.length := by rw [htakes.taken_eq]; exact Nat.zero_add _
      rw [ht, String.toList_ofList, htaken, hrest, List.take_left]
  split at hp
  · next s hs =>
    rw [hs] at hpattern
    obtain ⟨c, -, htakes⟩ := Pattern.mem_ways_one.1 (Pattern.mem_ways_of_match? rfl hpattern)
    rw [← String.length_toList, htext htakes]
    rfl
  · rw [decide_eq_true_eq] at hp
    rw [hp] at hpattern
    have htakes := Pattern.mem_ways_lit.1 (Pattern.mem_ways_of_match? (by decide) hpattern)
    rw [htext htakes] at hparen
    exact absurd hparen (by decide)

theorem isPlain_of_mem_states :
    ∀ s ∈ Rules.engineCpp.states, ∀ r ∈ s.rules, r.isPlain := by decide +kernel

theorem isPlain_of_mem_rules {i : Nat} : ∀ r ∈ Rules.engineCpp.rules i, r.isPlain := by
  intro r hr
  obtain ⟨s, hs, hmem⟩ := RuleSet.exists_state_of_mem_rules hr
  exact isPlain_of_mem_states s (List.mem_of_getElem? hs) r hmem

theorem isPlain_of_mem_scan (source : String) :
    ∀ t ∈ (Language.engineCpp.scan source).tokens, t.IsPlain := by
  refine RuleSet.forall_mem_tokens_scan ?_ ?_ source
  · intro l c hk
    simp only at hk
    split_ifs at hk
  · exact fun i r hr before rest m h l => r.isPlain_of_mem_tokens (isPlain_of_mem_rules r hr) h l

/-- The pass sees a single name inside the arguments of a macro exactly if a parenthesis behind
the name of a macro is still open there, however often others are opened and closed. The
parentheses of a scan stand alone, as this asks for. -/
theorem insideArguments_iff_inArguments :
    (∀ source, ∀ t ∈ (Language.engineCpp.scan source).tokens, t.IsPlain) ∧
      ∀ (before : List Token) (t : Token) (rest : List Token),
        (∀ u ∈ before ++ t :: rest, u.IsPlain) →
        let s := Symbols.collect (before ++ t :: rest)
        let c := Context.start.through s before (t :: rest)
        (classify (before ++ t :: rest))[before.length]? =
            some { t with kind := (c.step s t rest).1 } ∧
          (c.AtSingle t rest →
            (c.step s t rest).1 = (c.standingAt t rest).nameKind s c.last t ∧
            ((c.standingAt t rest).insideArguments ↔ InArguments before)) := by
  refine ⟨isPlain_of_mem_scan, ?_⟩
  intro before t rest h s c
  refine ⟨?_, fun hsingle => ⟨hsingle.step_fst s, ?_⟩⟩
  · rw [← Nat.add_zero before.length, ← List.getElem?_drop, classify, Context.drop_reclassify]
    rfl
  · have hscope : c.scope = (Cursor.start.through before (t :: rest)).scope :=
      congrArg Cursor.scope (Context.cursor_through s .start before (t :: rest))
    change (scopeAt c.scope t rest).insideArguments ↔ _
    rw [insideArguments_scopeAt (Category.isA_name_of_isOpenName hsingle.isOpenName), hscope]
    exact insideArguments_through_iff (fun u hu => h u (List.mem_append_left _ hu)) (t :: rest)

/-- A macro up to a name in its arguments, behind a pair of parentheses that is closed again. -/
def macroUpToName : List Token :=
  [⟨⟨1, 0⟩, .name, "UPROPERTY"⟩, ⟨⟨1, 9⟩, .text, " "⟩, ⟨⟨1, 10⟩, .punctuation, "("⟩,
    ⟨⟨1, 11⟩, .name, "Meta"⟩, ⟨⟨1, 15⟩, .punctuation, "("⟩, ⟨⟨1, 16⟩, .punctuation, ")"⟩,
    ⟨⟨1, 17⟩, .punctuation, ","⟩]

/-- The name is in the arguments of the macro, and the pass sees it there. -/
theorem insideArguments_iff_inArguments_macroUpToName :
    let t : Token := ⟨⟨1, 18⟩, .name, "Edit"⟩
    let rest : List Token := [⟨⟨1, 22⟩, .punctuation, ")"⟩]
    let s := Symbols.collect (macroUpToName ++ t :: rest)
    let c := Context.start.through s macroUpToName (t :: rest)
    (∀ u ∈ macroUpToName ++ t :: rest, u.IsPlain) ∧ c.AtSingle t rest ∧
      (c.standingAt t rest).insideArguments ∧ InArguments macroUpToName := by
  intro t rest s c
  have hplain : ∀ u ∈ macroUpToName ++ t :: rest, u.IsPlain := by
    unfold IsPlain
    decide
  have hsingle : c.AtSingle t rest := by
    constructor <;> decide +kernel
  have hinside : (c.standingAt t rest).insideArguments := by decide +kernel
  have hiff := ((insideArguments_iff_inArguments.2 macroUpToName t rest hplain).2 hsingle).2
  exact ⟨hplain, hsingle, hinside, hiff.1 hinside⟩

end Highlighter
