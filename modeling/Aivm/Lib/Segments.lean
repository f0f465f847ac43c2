import Mathlib

/-!
# Segments of a list

A rule that cuts a first segment off a list cuts the whole list into segments. Segments are counted from the left, and
the offset of a segment is the length of all segments before it. Where every word of a code is cut off whole, whatever
follows it, a list of words is cut into just these words.
-/

namespace Segments

variable {α : Type} {len : List α → Nat}

/-- A rule that cuts something off every list that is not empty, and never more than there is. -/
structure Cuts (len : List α → Nat) : Prop where
  pos : ∀ {l}, l ≠ [] → 0 < len l
  le : ∀ l, len l ≤ l.length

/-- The segments of a list, with fuel for its length. -/
def cut (len : List α → Nat) : Nat → List α → List (List α)
  | 0, _ => []
  | _, [] => []
  | fuel + 1, l => l.take (len l) :: cut len fuel (l.drop (len l))

/-- The segments of a list. -/
def segments (len : List α → Nat) (l : List α) : List (List α) := cut len l.length l

/-- Where a segment starts. -/
def offset (len : List α → Nat) (l : List α) (n : Nat) : Nat := ((segments len l).take n).flatten.length

/-! ## One segment after the other -/

section Cut

theorem Cuts.drop_length_lt (h : Cuts len) {l : List α} (hl : l ≠ []) : (l.drop (len l)).length < l.length := by
  have hp := h.pos hl
  have hn := List.length_pos_of_ne_nil hl
  simp only [List.length_drop]
  omega

/-- What holds of the empty list, and of a list if it holds behind the first segment, holds of every list. -/
theorem Cuts.induction (h : Cuts len) {P : List α → Prop} (nil : P [])
    (step : ∀ l, l ≠ [] → P (l.drop (len l)) → P l) (l : List α) : P l := by
  induction hn : l.length using Nat.strong_induction_on generalizing l with
  | _ n ih =>
      by_cases hl : l = []
      · exact hl ▸ nil
      · exact step l hl (ih _ (hn ▸ h.drop_length_lt hl) _ rfl)

theorem cut_nil (fuel : Nat) : cut len fuel ([] : List α) = [] := by
  cases fuel <;> rfl

theorem cut_succ {fuel : Nat} {l : List α} (hl : l ≠ []) :
    cut len (fuel + 1) l = l.take (len l) :: cut len fuel (l.drop (len l)) := by
  cases l with
  | nil => exact absurd rfl hl
  | cons a l => rfl

/-- More fuel than the length of the list changes nothing. -/
theorem cut_eq (h : Cuts len) (l : List α) : ∀ {fuel}, l.length ≤ fuel → cut len fuel l = segments len l := by
  have key : ∀ fuel fuel', l.length ≤ fuel → l.length ≤ fuel' → cut len fuel l = cut len fuel' l := by
    refine h.induction (P := fun l => ∀ fuel fuel', l.length ≤ fuel → l.length ≤ fuel' →
      cut len fuel l = cut len fuel' l) ?_ ?_ l
    · intro fuel fuel' _ _
      simp [cut_nil]
    · intro l hl ih fuel fuel' hf hf'
      have hlt := h.drop_length_lt hl
      cases fuel with
      | zero => omega
      | succ fuel =>
          cases fuel' with
          | zero => omega
          | succ fuel' => rw [cut_succ hl, cut_succ hl, ih fuel fuel' (by omega) (by omega)]
  intro fuel hf
  exact key _ _ hf (Nat.le_refl _)

@[simp] theorem segments_nil : segments len ([] : List α) = [] := rfl

theorem segments_of_ne (h : Cuts len) {l : List α} (hl : l ≠ []) :
    segments len l = l.take (len l) :: segments len (l.drop (len l)) := by
  have hlt := h.drop_length_lt hl
  rw [← cut_eq h l (Nat.le_succ _), cut_succ hl, cut_eq h _ (Nat.le_of_lt hlt)]

/-- The segments make up the list. -/
theorem flatten_segments (h : Cuts len) (l : List α) : (segments len l).flatten = l := by
  refine h.induction (P := fun l => (segments len l).flatten = l) rfl (fun l hl ih => ?_) l
  rw [segments_of_ne h hl, List.flatten_cons, ih, List.take_append_drop]

theorem segments_eq_nil (h : Cuts len) {l : List α} : segments len l = [] ↔ l = [] := by
  constructor
  · intro hs
    rw [← flatten_segments h l, hs]
    rfl
  · rintro rfl
    rfl

end Cut

theorem segment_ne_nil (h : Cuts len) {l s : List α} (hs : s ∈ segments len l) : s ≠ [] := by
  refine h.induction (P := fun l => s ∈ segments len l → s ≠ []) (by simp) (fun l hl ih hs => ?_) l hs
  rw [segments_of_ne h hl, List.mem_cons] at hs
  obtain rfl | hs := hs
  · have hp := h.pos hl
    simp [hl]
    omega
  · exact ih hs

theorem length_segments_le (h : Cuts len) (l : List α) : (segments len l).length ≤ l.length := by
  refine h.induction (P := fun l => (segments len l).length ≤ l.length) (by simp) (fun l hl ih => ?_) l
  have hlt := h.drop_length_lt hl
  rw [segments_of_ne h hl, List.length_cons]
  omega

/-! ## Offsets -/

@[simp] theorem offset_zero (l : List α) : offset len l 0 = 0 := by
  simp [offset]

theorem offset_succ (h : Cuts len) {l : List α} (hl : l ≠ []) (n : Nat) :
    offset len l (n + 1) = len l + offset len (l.drop (len l)) n := by
  have := h.le l
  rw [offset, segments_of_ne h hl]
  simp [offset, this]

theorem offset_le (h : Cuts len) (l : List α) (n : Nat) : offset len l n ≤ l.length := by
  have hf := congrArg List.length (flatten_segments h l)
  have hs := congrArg (List.length ∘ List.flatten) (List.take_append_drop n (segments len l))
  simp only [Function.comp_apply, List.flatten_append, List.length_append] at hs
  simp only [offset]
  omega

/-- The segments before an offset, and those behind it. -/
theorem split_offset (h : Cuts len) (l : List α) (n : Nat) :
    l = ((segments len l).take n).flatten ++ ((segments len l).drop n).flatten := by
  rw [← List.flatten_append, List.take_append_drop, flatten_segments h]

theorem take_offset (h : Cuts len) (l : List α) (n : Nat) :
    l.take (offset len l n) = ((segments len l).take n).flatten := by
  conv_lhs => arg 2; rw [split_offset h l n]
  exact List.take_left

theorem drop_offset (h : Cuts len) (l : List α) (n : Nat) :
    l.drop (offset len l n) = ((segments len l).drop n).flatten := by
  conv_lhs => arg 2; rw [split_offset h l n]
  exact List.drop_left

/-- From an offset on, a list is cut as it was. -/
theorem segments_drop (h : Cuts len) (l : List α) : ∀ n,
    segments len (l.drop (offset len l n)) = (segments len l).drop n := by
  refine h.induction (P := fun l => ∀ n, segments len (l.drop (offset len l n)) = (segments len l).drop n) ?_ ?_ l
  · intro n
    simp
  · intro l hl ih n
    cases n with
    | zero => simp
    | succ n =>
        rw [offset_succ h hl, ← List.drop_drop, ih, segments_of_ne h hl]
        rfl

/-- Offsets add up. -/
theorem offset_add (h : Cuts len) (l : List α) (m n : Nat) :
    offset len l (m + n) = offset len l m + offset len (l.drop (offset len l m)) n := by
  have hd := segments_drop h l m
  simp only [offset] at hd ⊢
  rw [hd, List.take_add, List.flatten_append, List.length_append]

/-- Behind the last segment there is nothing. -/
theorem offset_of_ge (h : Cuts len) {l : List α} {n : Nat} (hn : (segments len l).length ≤ n) :
    offset len l n = l.length := by
  rw [offset, List.take_of_length_le hn, flatten_segments h]

/-! ## Words -/

/-- Every word is cut off whole, whatever follows it. -/
structure Reads (len : List α → Nat) (word : List α → Prop) : Prop where
  ne_nil : ∀ {w}, word w → w ≠ []
  len : ∀ {w}, word w → ∀ rest, len (w ++ rest) = w.length

variable {word : List α → Prop}

/-- A list of words is cut into these words. -/
theorem segments_words (h : Cuts len) (hr : Reads len word) {ws : List (List α)} (hw : ∀ w ∈ ws, word w)
    (rest : List α) : segments len (ws.flatten ++ rest) = ws ++ segments len rest := by
  induction ws with
  | nil => rfl
  | cons w ws ih =>
      simp only [List.mem_cons, forall_eq_or_imp] at hw
      have hne : w ++ (ws.flatten ++ rest) ≠ [] := by
        simp [hr.ne_nil hw.1]
      rw [List.flatten_cons, List.append_assoc, segments_of_ne h hne, hr.len hw.1, List.take_left, List.drop_left,
        ih hw.2]
      rfl

theorem segments_flatten (h : Cuts len) (hr : Reads len word) {ws : List (List α)} (hw : ∀ w ∈ ws, word w) :
    segments len ws.flatten = ws := by
  simpa using segments_words h hr hw []

/-- Words occur at an offset if and only if their list does. -/
theorem prefix_iff (h : Cuts len) (hr : Reads len word) {ts ps : List (List α)} (ht : ∀ t ∈ ts, word t)
    (hp : ∀ p ∈ ps, word p) (n : Nat) :
    ps.flatten <+: ts.flatten.drop (offset len ts.flatten n) ↔ ps <+: ts.drop n := by
  rw [drop_offset h, segments_flatten h hr ht]
  constructor
  · rintro ⟨rest, hrest⟩
    refine ⟨segments len rest, ?_⟩
    rw [← segments_words h hr hp, hrest, segments_flatten h hr fun t hm => ht t (List.mem_of_mem_drop hm)]
  · rintro ⟨rest, hrest⟩
    exact ⟨rest.flatten, by rw [← hrest, List.flatten_append]⟩

end Segments
