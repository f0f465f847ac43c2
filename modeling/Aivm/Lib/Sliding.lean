import Mathlib

/-!
# Renumbering by sliding

The survivors of a compaction, listed in increasing order, slide together: each one's new number is its place in
that list, counted from one; `0` marks what did not survive.
-/

namespace Sliding

variable {α : Type} [DecidableEq α]

/-- The new number of `a`. -/
def place (order : List α) (a : α) : Nat :=
  if a ∈ order then order.idxOf a + 1 else 0

theorem place_pos {order : List α} {a} : 0 < place order a ↔ a ∈ order := by
  unfold place
  split <;> simp_all

theorem place_le {order : List α} {a} : place order a ≤ order.length := by
  unfold place
  split
  · rename_i h
    exact List.idxOf_lt_length_of_mem h
  · exact Nat.zero_le _

theorem getElem?_place {order : List α} {a} (h : a ∈ order) : order[place order a - 1]? = some a := by
  have hlt : order.idxOf a < order.length := List.idxOf_lt_length_of_mem h
  simp [place, h, List.getElem?_eq_getElem hlt]

theorem place_inj {order : List α} {a b} (ha : a ∈ order) (h : place order a = place order b) : a = b := by
  have hb : b ∈ order := by
    rw [← place_pos, ← h]
    exact place_pos.2 ha
  have h1 := getElem?_place ha
  rw [h, getElem?_place hb] at h1
  exact (Option.some.inj h1).symm

/-- Every new number is taken by a survivor. -/
theorem exists_place {order : List α} (hnd : order.Nodup) {k} (h0 : 0 < k) (hk : k ≤ order.length) :
    ∃ a ∈ order, place order a = k := by
  have hlt : k - 1 < order.length := by omega
  refine ⟨order[k - 1], List.getElem_mem hlt, ?_⟩
  simp only [place, List.getElem_mem hlt, ↓reduceIte, hnd.idxOf_getElem]
  omega

/-- Sliding keeps the order. -/
theorem place_lt {α : Type} [LinearOrder α] {order : List α} (hs : order.Pairwise (· < ·)) {a b} (ha : a ∈ order)
    (hb : b ∈ order) : place order a < place order b ↔ a < b := by
  have hmono : ∀ {x y}, x ∈ order → y ∈ order → x < y → place order x < place order y := by
    intro x y hx hy hxy
    rcases Nat.lt_trichotomy (place order x) (place order y) with h | h | h
    · exact h
    · exact absurd (place_inj hx h) (ne_of_lt hxy)
    · simp only [place, hx, hy, ↓reduceIte, Nat.add_lt_add_iff_right] at h
      have hlx : order.idxOf x < order.length := List.idxOf_lt_length_of_mem hx
      have := List.pairwise_iff_getElem.1 hs _ _ (by omega) hlx h
      simp only [List.getElem_idxOf] at this
      exact absurd (lt_trans this hxy) (lt_irrefl _)
  constructor
  · intro h
    rcases lt_trichotomy a b with hab | rfl | hab
    · exact hab
    · exact absurd h (Nat.lt_irrefl _)
    · exact absurd (hmono hb ha hab) (by omega)
  · exact hmono ha hb

end Sliding
