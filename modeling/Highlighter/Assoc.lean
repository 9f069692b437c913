/-! Lists of keys with values. -/

namespace Highlighter.Assoc

variable {κ α : Type} [DecidableEq κ]

/-- Entries in which a key has a value, at its old place or at the end. -/
def put (k : κ) (a : α) : List (κ × α) → List (κ × α)
  | [] => [(k, a)]
  | e :: es => if e.1 = k then (k, a) :: es else e :: put k a es

theorem mem_keys_put {k x : κ} {a : α} {es : List (κ × α)} :
    x ∈ (put k a es).map Prod.fst ↔ x = k ∨ x ∈ es.map Prod.fst := by
  induction es with
  | nil => simp [put]
  | cons e es ih =>
    by_cases h : e.1 = k
    · simp [put, h]
    · simp [put, h, ih, or_left_comm]

/-- Keys that occur once still do. -/
theorem nodup_put {k : κ} {a : α} {es : List (κ × α)} (h : (es.map Prod.fst).Nodup) :
    ((put k a es).map Prod.fst).Nodup := by
  induction es with
  | nil => simp [put]
  | cons e es ih =>
    rw [List.map_cons, List.nodup_cons] at h
    by_cases he : e.1 = k
    · rw [put, if_pos he, List.map_cons, List.nodup_cons]
      exact he ▸ h
    · rw [put, if_neg he, List.map_cons, List.nodup_cons, mem_keys_put]
      exact ⟨by simp [he, h.1], ih h.2⟩

theorem lookup_put [BEq κ] [LawfulBEq κ] (k x : κ) (a : α) (es : List (κ × α)) :
    (put k a es).lookup x = if x = k then some a else es.lookup x := by
  induction es with
  | nil => grind [put]
  | cons e es ih =>
    obtain ⟨y, b⟩ := e
    by_cases hy : y = k <;> by_cases hx : x = y <;> grind [put]

end Highlighter.Assoc
