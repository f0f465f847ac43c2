import Mathlib

/-! # Disjoint index ranges fit side by side -/

namespace Intervals

variable {α : Type} {start count : α → Nat} {n : Nat}

/-- The indices `start a, …, start a + count a - 1`. -/
def cover (start count : α → Nat) (a : α) : Finset Nat := Finset.Ico (start a) (start a + count a)

theorem sum_count_le {l : List α} (hr : ∀ a ∈ l, start a + count a ≤ n)
    (hd : l.Pairwise fun a b => Disjoint (cover start count a) (cover start count b)) : (l.map count).sum ≤ n := by
  suffices h : ∃ U : Finset Nat, U ⊆ Finset.range n ∧ U.card = (l.map count).sum ∧
      ∀ a, (∀ b ∈ l, Disjoint (cover start count a) (cover start count b)) → Disjoint (cover start count a) U by
    obtain ⟨U, hU, hcard, -⟩ := h
    have := Finset.card_le_card hU
    rw [hcard, Finset.card_range] at this
    exact this
  induction l with
  | nil => exact ⟨∅, by simp⟩
  | cons a l ih =>
      obtain ⟨hal, hl⟩ := List.pairwise_cons.1 hd
      obtain ⟨U, hU, hcard, hdis⟩ := ih (fun b hb => hr b (List.mem_cons_of_mem _ hb)) hl
      refine ⟨cover start count a ∪ U, ?_, ?_, ?_⟩
      · refine Finset.union_subset ?_ hU
        intro i hi
        have hi' := (Finset.mem_Ico.1 hi).2
        have := hr a (List.mem_cons_self ..)
        exact Finset.mem_range.2 (by omega)
      · rw [Finset.card_union_of_disjoint (hdis a hal), hcard]
        simp [cover]
      · intro b hb
        rw [Finset.disjoint_union_right]
        exact ⟨hb a (List.mem_cons_self ..), hdis b fun c hc => hb c (List.mem_cons_of_mem _ hc)⟩

end Intervals

/-!
## Tables of slots

Lists that are read by a search and changed in one place.
-/

namespace Slots

variable {α : Type} {l : List α} {a : α} {i : Nat}

/-- The entries before and after a slot, and the table with that slot replaced. -/
theorem split (h : l[i]? = some a) : ∃ xs ys, l = xs ++ a :: ys ∧ xs.length = i ∧ ∀ b, l.set i b = xs ++ b :: ys := by
  obtain ⟨hi, rfl⟩ := List.getElem?_eq_some_iff.1 h
  refine ⟨l.take i, l.drop (i + 1), ?_, ?_, fun b => List.set_eq_take_append_cons_drop .. ▸ if_pos hi⟩
  · rw [← List.drop_eq_getElem_cons hi, List.take_append_drop]
  · rw [List.length_take]
    omega

theorem modify_eq_set (h : l[i]? = some a) (f : α → α) : l.modify i f = l.set i (f a) := by
  rw [List.modify_eq_set_getElem?, h]
  rfl

theorem find_some {p : α → Bool} (h : l.findIdx? p = some i) : ∃ a, l[i]? = some a ∧ p a = true := by
  obtain ⟨hi, hp, -⟩ := List.findIdx?_eq_some_iff_getElem.1 h
  exact ⟨l[i], List.getElem?_eq_getElem hi, hp⟩

/-- What a predicate selects grows by the entry put into a slot that was not selected. -/
theorem filter_take_slot {p : α → Bool} {b : α} (h : l[i]? = some a) (ha : p a = false) (hb : p b = true) :
    ((l.set i b).filter p).Perm (b :: l.filter p) := by
  obtain ⟨xs, ys, rfl, rfl, hset⟩ := split h
  rw [hset, List.filter_append, List.filter_append, List.filter_cons_of_pos hb, List.filter_cons_of_neg (by simp [ha])]
  exact List.perm_middle

/-- It shrinks by the entry of a slot whose new entry is not selected. -/
theorem filter_free_slot {p : α → Bool} {b : α} (h : l[i]? = some a) (ha : p a = true) (hb : p b = false) :
    (l.filter p).Perm (a :: (l.set i b).filter p) := by
  obtain ⟨xs, ys, rfl, rfl, hset⟩ := split h
  rw [hset, List.filter_append, List.filter_append, List.filter_cons_of_pos ha, List.filter_cons_of_neg (by simp [hb])]
  exact List.perm_middle

end Slots
