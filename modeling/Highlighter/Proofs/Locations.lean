import Highlighter.Language
import Highlighter.Proofs.Frames
import Highlighter.Proofs.Passes

/-! Where the tokens stand. A scanner counts lines and columns in step with the text that it
takes, whatever rules take it and into however many pieces they cut it. Proved: each token
of a scan carries the number of newlines before it and the number of characters since the
last of them, and classification leaves that as it is. -/

namespace Highlighter

namespace Location

/-- The column behind a text is the length of its last line. -/
theorem column_after (cs : List Char) :
    (start.after cs).column = (cs.reverse.takeWhile (· ≠ '\n')).length := by
  induction cs using List.reverseRecOn with
  | nil => rfl
  | append_singleton cs c ih =>
    rw [after_append, List.reverse_append, List.reverse_singleton, List.singleton_append]
    change ((start.after cs).next c).column = _
    by_cases hc : c = '\n'
    · simp [next, hc]
    · simpa [next, hc] using ih

end Location

namespace Token

/-! ### Consecutive tokens -/

/-- The tokens stand one behind the other from a location on. -/
def Consecutive : Location → List Token → Prop
  | _, [] => True
  | l, t :: ts => t.location = l ∧ Consecutive (l.after t.text.toList) ts

theorem consecutive_append {l : Location} {ts us : List Token} (h : Consecutive l ts)
    (h' : Consecutive (l.after (joined ts)) us) : Consecutive l (ts ++ us) := by
  induction ts generalizing l with
  | nil => exact h'
  | cons t ts ih =>
    rw [joined_cons, Location.after_append] at h'
    exact ⟨h.1, ih h.2 h'⟩

theorem consecutive_cut (l : Location) (cs : List Char) (ps : List Piece) :
    Consecutive l (cut l cs ps) := by
  induction ps generalizing l cs with
  | nil => trivial
  | cons p ps ih =>
    obtain ⟨kind, n⟩ := p
    rw [cut]
    refine ⟨rfl, ?_⟩
    simp only [String.toList_ofList]
    exact ih _ _

theorem location_of_consecutive {l : Location} {ts : List Token} (h : Consecutive l ts) {i : Nat}
    {t : Token} (ht : ts[i]? = some t) : t.location = l.after (joined (ts.take i)) := by
  induction ts generalizing l i with
  | nil => simp at ht
  | cons u ts ih =>
    cases i with
    | zero =>
      rw [List.getElem?_cons_zero, Option.some.injEq] at ht
      exact ht ▸ h.1
    | succ i =>
      rw [List.getElem?_cons_succ] at ht
      rw [List.take_succ_cons, joined_cons, Location.after_append]
      exact ih h.2 ht

/-- Categories have no part in where tokens stand. -/
theorem consecutive_congr {l : Location} {ts us : List Token}
    (hlocation : us.map (·.location) = ts.map (·.location))
    (htext : us.map (·.text) = ts.map (·.text)) (h : Consecutive l ts) : Consecutive l us := by
  induction ts generalizing l us with
  | nil =>
    rw [List.map_nil, List.map_eq_nil_iff] at htext
    rw [htext]; trivial
  | cons t ts ih =>
    cases us with
    | nil => trivial
    | cons u us =>
      simp only [List.map_cons, List.cons.injEq] at hlocation htext
      exact ⟨hlocation.1.trans h.1, ih hlocation.2 htext.2 (htext.1 ▸ h.2)⟩

/-- Each token carries the number of newlines in all text before it, and the number of
characters behind the last of them. -/
def Located (ts : List Token) : Prop :=
  ∀ i t, ts[i]? = some t → t.location.line = (joined (ts.take i)).count '\n' ∧
    t.location.column = ((joined (ts.take i)).reverse.takeWhile (· ≠ '\n')).length

theorem located_of_consecutive {ts : List Token} (h : Consecutive .start ts) : Located ts := by
  intro i t ht
  rw [location_of_consecutive h ht, Location.line_after, Location.column_after]
  exact ⟨Nat.zero_add _, rfl⟩

end Token

/-! ### Scanners -/

namespace Scanner

open Token (Consecutive joined)

variable {rs : RuleSet} {s : Scanner}

structure Keeps (s : Scanner) : Prop where
  consecutive : Consecutive .start s.tokens
  location_eq : s.location = Location.start.after (joined s.tokens)

namespace Keeps

theorem apply (h : s.Keeps) {r : Rule} {m : Reach} (hs : s.select rs = some (r, m)) :
    (s.apply r m).Keeps := by
  constructor
  · rw [tokens_apply]
    refine Token.consecutive_append h.consecutive ?_
    rw [← h.location_eq]
    exact Token.consecutive_cut _ _ _
  · rw [tokens_apply, Token.joined_append, joined_cut, r.width_pieces (match?_of_select hs),
      Location.after_append, ← h.location_eq]
    rfl

theorem giveUp (h : s.Keeps) {c : Char} {cs : List Char} (hr : s.rest = c :: cs) :
    s.giveUp.Keeps := by
  constructor
  · rw [tokens_giveUp hr]
    exact Token.consecutive_append h.consecutive ⟨h.location_eq, trivial⟩
  · rw [tokens_giveUp hr, Token.joined_append, Location.after_append, ← h.location_eq]
    simp [Scanner.giveUp, hr, happen, advance]

theorem step (h : s.Keeps) (hr : s.rest ≠ []) : (s.step rs).Keeps := by
  generalize s.step rs = s', steps rs hr = hstep
  cases hstep with
  | take hs _ => exact ⟨(h.apply hs).consecutive, (h.apply hs).location_eq⟩
  | look hs _ _ => exact ⟨(h.apply hs).consecutive, (h.apply hs).location_eq⟩
  | skip hc _ => exact h.giveUp hc

theorem start (source : List Char) : (Scanner.start source).Keeps := ⟨trivial, rfl⟩

end Keeps

theorem consecutive_scan (rs : RuleSet) (source : String) :
    Consecutive .start (rs.scan source).tokens :=
  (run_induction (P := Keeps) (fun _ hr h => h.step hr) (.start source.toList) _).consecutive

end Scanner

/-! ### Highlighting -/

/-- A pass changes nothing of a token but its category. -/
theorem map_classify {β : Type} {f : Token → β} (hf : ∀ t k, f { t with kind := k } = f t)
    (ts : List Token) : (classify ts).map f = ts.map f := by
  refine List.ext_getElem? fun i => ?_
  rw [List.getElem?_map, List.getElem?_map]
  cases ht : ts[i]? with
  | none =>
    have hi : ts.length ≤ i := by simpa using ht
    simp [hi]
  | some t =>
    have hi : i < (sites ts).length := by
      rw [length_sites]; exact (List.getElem?_eq_some_iff.1 ht).1
    obtain ⟨s, last, h⟩ := getElem?_classify ht (List.getElem?_eq_getElem hi)
    rw [h, Option.map_some, Option.map_some, hf]

namespace Language

theorem map_highlight {β : Type} {f : Token → β} (hf : ∀ t k, f { t with kind := k } = f t)
    (l : Language) (source : String) :
    (l.highlight source).map f = (l.scan source).tokens.map f := by
  unfold highlight refine
  split_ifs
  · exact map_classify hf _
  · rfl

theorem joined_highlight (l : Language) (source : String) :
    Token.joined (l.highlight source) = source.toList := by
  have hscan : (l.scan source).Covers source.toList := (Scanner.Covers.start source.toList).run _
  have htexts := l.map_highlight (f := Token.text) (fun _ _ => rfl) source
  have hrest : (l.scan source).rest = [] := Scanner.rest_scan l.rules source
  rw [Token.joined_congr htexts, ← hscan.joined_append, hrest, List.append_nil]

theorem length_highlight (l : Language) (source : String) :
    (l.highlight source).length = (l.scan source).tokens.length := by
  have h := congrArg List.length (l.map_highlight (f := Token.text) (fun _ _ => rfl) source)
  rwa [List.length_map, List.length_map] at h

end Language

/-- The tokens of each scan are located, and highlighting keeps their locations. -/
theorem tokens_located :
    (∀ (rs : RuleSet) (source : String), Token.Located (rs.scan source).tokens) ∧
    ∀ (l : Language) (source : String), Token.Located (l.highlight source) ∧
      (l.highlight source).map (·.location) = (l.scan source).tokens.map (·.location) := by
  refine ⟨fun rs source => Token.located_of_consecutive (Scanner.consecutive_scan rs source),
    fun l source => ?_⟩
  have hlocation : (l.highlight source).map (·.location) =
      (l.scan source).tokens.map (·.location) := l.map_highlight (fun _ _ => rfl) source
  have htext : (l.highlight source).map (·.text) = (l.scan source).tokens.map (·.text) :=
    l.map_highlight (fun _ _ => rfl) source
  exact ⟨Token.located_of_consecutive
    (Token.consecutive_congr hlocation htext (Scanner.consecutive_scan _ _)), hlocation⟩

end Highlighter
