import Mathlib.Data.List.Basic

/-!
# Common prefixes

The length of the longest common prefix of two lists, and what becomes of it when both lists are cut.
-/

namespace CommonPrefix

variable {α : Type} [DecidableEq α]

/-- The length of the longest common prefix. -/
def commonLength : List α → List α → Nat
  | a :: l, b :: m => if a = b then commonLength l m + 1 else 0
  | _, _ => 0

@[simp] theorem commonLength_nil_left (m : List α) : commonLength [] m = 0 := rfl

@[simp] theorem commonLength_nil_right (l : List α) : commonLength l [] = 0 := by
  cases l <;> rfl

@[simp] theorem commonLength_self (l : List α) : commonLength l l = l.length := by
  induction l with
  | nil => rfl
  | cons a l ih => simp [commonLength, ih]

theorem commonLength_le_left : ∀ l m : List α, commonLength l m ≤ l.length := by
  intro l
  induction l with
  | nil => simp
  | cons a l ih =>
      intro m
      cases m with
      | nil => simp
      | cons b m =>
          rw [commonLength]
          split
          · simpa using ih m
          · exact Nat.zero_le _

theorem commonLength_comm : ∀ l m : List α, commonLength l m = commonLength m l := by
  intro l
  induction l with
  | nil => simp
  | cons a l ih =>
      intro m
      cases m with
      | nil => rfl
      | cons b m => simp only [commonLength, ih m, eq_comm]

theorem commonLength_le_right (l m : List α) : commonLength l m ≤ m.length :=
  commonLength_comm m l ▸ commonLength_le_left m l

/-- The common prefix is common. -/
theorem take_commonLength : ∀ l m : List α, l.take (commonLength l m) = m.take (commonLength l m) := by
  intro l
  induction l with
  | nil => simp
  | cons a l ih =>
      intro m
      cases m with
      | nil => simp
      | cons b m =>
          rw [commonLength]
          split
          · rename_i hab
            simp [hab, ih m]
          · rfl

/-- Two lists are the same if their common prefix is all of both. -/
theorem eq_of_commonLength {l m : List α} (hl : commonLength l m = l.length) (hm : commonLength l m = m.length) : l = m := by
  have htake := take_commonLength l m
  rwa [hl, List.take_length, ← hl, hm, List.take_length] at htake

/-- No prefix of one list has more in common with a prefix of the other. -/
theorem commonLength_prefix : ∀ {p q l m : List α}, p <+: l → q <+: m →
    commonLength p q = min (commonLength l m) (min p.length q.length) := by
  intro p
  induction p with
  | nil => simp
  | cons a p ih =>
      intro q l m hp hq
      cases q with
      | nil => simp
      | cons b q =>
          obtain ⟨l', rfl⟩ := hp
          obtain ⟨m', rfl⟩ := hq
          rw [List.cons_append, List.cons_append, commonLength, commonLength]
          split
          · have hcut := ih (List.prefix_append p l') (List.prefix_append q m')
            simp only [hcut, List.length_cons]
            omega
          · simp

end CommonPrefix
