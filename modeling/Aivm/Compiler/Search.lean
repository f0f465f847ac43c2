import Aivm.Compiler.BytecodeAos

/-!
# Searches

What `strstr` finds: the first occurrence of a marker. A marker without a certain byte does not go across that byte, so
that a text can be searched line by line.
-/

namespace Aivm

variable {marker text rest : Text}

theorem strstr_absent {b : Byte} (hmarker : b ∈ marker) (htext : b ∉ text) : strstr marker text = none := by
  induction text with
  | nil => rw [strstr, if_neg (List.ne_nil_of_mem hmarker)]
  | cons c text ih =>
      have hstart : ¬ marker.isPrefixOf (c :: text) := by
        rw [List.isPrefixOf_iff_prefix]
        exact fun hstarts => htext (hstarts.subset hmarker)
      rw [strstr, if_neg hstart]
      exact ih fun hb => htext (List.mem_cons_of_mem _ hb)

/-- A marker does not go across a byte that it does not have. -/
theorem strstr_skip {b : Byte} (hmarker : b ∉ marker) (hne : marker ≠ []) (h : strstr marker text = none) :
    strstr marker (text ++ b :: rest) = strstr marker rest := by
  induction text with
  | nil =>
      have hstart : ¬ marker.isPrefixOf (b :: rest) := by
        cases marker with
        | nil => exact absurd rfl hne
        | cons c marker =>
            simp only [List.isPrefixOf, Bool.and_eq_true, beq_iff_eq, not_and]
            exact fun heq => absurd (by simp [heq]) hmarker
      rw [List.nil_append, strstr, if_neg hstart]
  | cons c text ih =>
      rw [strstr] at h
      by_cases hhere : marker.isPrefixOf (c :: text)
      · rw [if_pos hhere] at h
        cases h
      · rw [if_neg hhere] at h
        have hstart : ¬ marker.isPrefixOf (c :: text ++ b :: rest) := by
          intro hstart
          obtain ⟨t, ht⟩ := List.isPrefixOf_iff_prefix.1 hstart
          rcases List.append_eq_append_iff.1 ht with ⟨more, hmore, -⟩ | ⟨more, hmore, htail⟩
          · exact hhere (List.isPrefixOf_iff_prefix.2 ⟨more, hmore.symm⟩)
          · cases more with
            | nil => exact hhere (List.isPrefixOf_iff_prefix.2 ⟨[], by simp [hmore]⟩)
            | cons x more =>
                simp only [List.cons_append, List.cons.injEq] at htail
                exact hmarker (by simp [hmore, htail.1])
        rw [List.cons_append] at hstart ⊢
        rw [strstr, if_neg hstart]
        exact ih h

/-- What is found ends the text and starts with the marker. -/
theorem strstr_some {found : Text} (h : strstr marker text = some found) : found <:+ text ∧ marker <+: found := by
  induction text with
  | nil =>
      have hmarker : marker = [] := by
        by_contra hne
        simp [strstr, hne] at h
      have hfound : found = [] := by simpa [strstr, hmarker] using h.symm
      rw [hmarker, hfound]
      exact ⟨List.suffix_refl _, List.prefix_refl _⟩
  | cons b text ih =>
      rw [strstr] at h
      by_cases hhere : marker.isPrefixOf (b :: text)
      · rw [if_pos hhere, Option.some.injEq] at h
        rw [← h]
        exact ⟨List.suffix_refl _, List.isPrefixOf_iff_prefix.1 hhere⟩
      · rw [if_neg hhere] at h
        exact ⟨(ih h).1.trans (List.suffix_cons b text), (ih h).2⟩

theorem strstr_found {found : Text} (h : strstr marker text = some found) :
    strstr marker (text ++ rest) = some (found ++ rest) := by
  induction text with
  | nil =>
      have hmarker : marker = [] := List.prefix_nil.1 ((List.suffix_nil.1 (strstr_some h).1) ▸ (strstr_some h).2)
      rw [List.suffix_nil.1 (strstr_some h).1, hmarker, List.nil_append]
      cases rest <;> rfl
  | cons b text ih =>
      rw [strstr] at h
      by_cases hhere : marker.isPrefixOf (b :: text)
      · rw [if_pos hhere, Option.some.injEq] at h
        have hstart : marker.isPrefixOf (b :: (text ++ rest)) :=
          List.isPrefixOf_iff_prefix.2 ((List.isPrefixOf_iff_prefix.1 hhere).trans (List.prefix_append _ rest))
        rw [List.cons_append, strstr, if_pos hstart, ← h, List.cons_append]
      · rw [if_neg hhere] at h
        -- an earlier occurrence that reaches into `rest` would be longer than the marker
        have hlength := (strstr_some h).2.length_le.trans (strstr_some h).1.length_le
        have hstart : ¬ marker.isPrefixOf (b :: (text ++ rest)) := by
          intro hstart
          have hshort : marker <+: b :: text :=
            List.prefix_of_prefix_length_le (List.isPrefixOf_iff_prefix.1 hstart) (List.prefix_append (b :: text) rest)
              (Nat.le_succ_of_le hlength)
          exact hhere (List.isPrefixOf_iff_prefix.2 hshort)
        rw [List.cons_append, strstr, if_neg hstart]
        exact ih h

theorem strstr_eq_none : strstr marker text = none ↔ ¬ marker <:+: text := by
  induction text with
  | nil =>
      rw [strstr, List.infix_nil]
      by_cases hmarker : marker = []
      · simp [hmarker]
      · simp [hmarker]
  | cons b text ih =>
      rw [strstr, List.infix_cons_iff, not_or, ← List.isPrefixOf_iff_prefix]
      by_cases hhere : marker.isPrefixOf (b :: text)
      · simp [hhere]
      · simp [hhere, ih]

/-- A text is searched up to a byte that the marker does not have, and then behind it. -/
theorem strstr_past {b : Byte} (hmarker : b ∉ marker) (hne : marker ≠ []) :
    strstr marker (text ++ b :: rest) = (strstr marker text).elim (strstr marker rest) fun found => some (found ++ b :: rest) := by
  cases h : strstr marker text with
  | none => exact strstr_skip hmarker hne h
  | some found => exact strstr_found h

theorem strstr_isSome_past {b : Byte} (hmarker : b ∉ marker) (hne : marker ≠ []) :
    (strstr marker (text ++ b :: rest)).isSome = ((strstr marker text).isSome || (strstr marker rest).isSome) := by
  rw [strstr_past hmarker hne]
  cases strstr marker text with
  | none => simp
  | some found => simp

/-- Bytes with which a marker does not begin are passed over. -/
theorem strstr_pass {b : Byte} (htext : b ∉ text) : strstr (b :: marker) (text ++ rest) = strstr (b :: marker) rest := by
  induction text with
  | nil => rfl
  | cons c text ih =>
      simp only [List.mem_cons, not_or] at htext
      rw [List.cons_append, strstr, if_neg (by simp [List.isPrefixOf, htext.1]), ih htext.2]

end Aivm
