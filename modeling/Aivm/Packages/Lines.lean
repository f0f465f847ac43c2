import Aivm.Compiler.Search

/-!
# Texts of lines

A marker without a line break stands in a text of lines just if it stands in one of them, so that a search is one for the
first of these lines.
-/

namespace Aivm

def linesText (lines : List Text) : Text := lines.flatMap fun line => line ++ [10]

/-- The lines from the first occurrence of a marker on. -/
def linesFrom (marker : Text) : List Text → Option (List Text)
  | [] => none
  | line :: lines =>
      match strstr marker line with
      | some found => some (found :: lines)
      | none => linesFrom marker lines

variable {marker line rest : Text} {lines before after : List Text}

@[simp] theorem linesText_cons (line : Text) (lines : List Text) : linesText (line :: lines) = line ++ 10 :: linesText lines := by
  simp [linesText]

theorem linesText_append (before after : List Text) : linesText (before ++ after) = linesText before ++ linesText after :=
  List.flatMap_append

theorem strstr_linesText (hmarker : (10 : Byte) ∉ marker) (hne : marker ≠ [])
    (h : ∀ line ∈ lines, strstr marker line = none) : strstr marker (linesText lines ++ rest) = strstr marker rest := by
  induction lines with
  | nil => rfl
  | cons line lines ih =>
      have hline := h line List.mem_cons_self
      have hrest := ih fun other hother => h other (List.mem_cons_of_mem line hother)
      rw [linesText_cons, List.append_assoc, List.cons_append, strstr_past hmarker hne, hline]
      exact hrest

/-- A search in a text of lines is a search for the first line with the marker. -/
theorem strstr_lines (hmarker : (10 : Byte) ∉ marker) (hne : marker ≠ []) :
    strstr marker (linesText lines) = (linesFrom marker lines).map linesText := by
  induction lines with
  | nil =>
      simp only [linesText, List.flatMap_nil, linesFrom, Option.map_none]
      exact strstr_absent (List.head_mem hne) List.not_mem_nil
  | cons line lines ih =>
      rw [linesText_cons, strstr_past hmarker hne, linesFrom]
      cases hline : strstr marker line with
      | none => exact ih
      | some found => simp

theorem linesFrom_none : linesFrom marker lines = none ↔ ∀ line ∈ lines, strstr marker line = none := by
  induction lines with
  | nil => simp [linesFrom]
  | cons line lines ih =>
      rw [linesFrom, List.forall_mem_cons]
      cases hline : strstr marker line with
      | none => simpa using ih
      | some found => simp

theorem linesFrom_append (h : ∀ line ∈ before, strstr marker line = none) :
    linesFrom marker (before ++ after) = linesFrom marker after := by
  induction before with
  | nil => rfl
  | cons line before ih =>
      rw [List.forall_mem_cons] at h
      rw [List.cons_append, linesFrom, h.1]
      exact ih h.2

/-- A marker in an earlier line is found there. -/
theorem linesFrom_earlier (h : ¬ ∀ line ∈ before, strstr marker line = none) :
    ∃ found between, linesFrom marker (before ++ after) = some (found :: (between ++ after)) := by
  induction before with
  | nil => simp at h
  | cons line before ih =>
      rw [List.cons_append, linesFrom]
      cases hline : strstr marker line with
      | some found => exact ⟨found, before, rfl⟩
      | none =>
          rw [List.forall_mem_cons, not_and] at h
          exact ih (h hline)

theorem strstr_start (h : marker <+: line) : strstr marker line = some line := by
  have hstart := List.isPrefixOf_iff_prefix.2 h
  cases line with
  | nil => simp [strstr, List.prefix_nil.1 h]
  | cons b line => rw [strstr, if_pos hstart]

/-- A search ends at a line that starts with the marker just if no earlier line has it. -/
theorem strstr_line (hmarker : (10 : Byte) ∉ marker) (hne : marker ≠ []) (hline : marker <+: line) :
    strstr marker (linesText (before ++ line :: after)) = some (linesText (line :: after)) ↔
      ∀ other ∈ before, strstr marker other = none := by
  constructor
  · intro h
    by_contra hearlier
    obtain ⟨found, between, hfound⟩ := @linesFrom_earlier _ before (line :: after) hearlier
    rw [strstr_lines hmarker hne, hfound, Option.map_some, Option.some.injEq] at h
    have hlength := congrArg List.length h
    rw [← List.cons_append, linesText_append, linesText_cons, List.length_append, List.length_append,
      List.length_cons] at hlength
    omega
  · intro h
    rw [strstr_lines hmarker hne, linesFrom_append h, linesFrom, strstr_start hline]
    rfl

/-- What ends a text of lines is one of lines. -/
theorem linesText_suffix {found : Text} (h : found <:+ linesText lines) : ∃ passed, found = linesText passed := by
  induction lines with
  | nil => exact ⟨[], List.suffix_nil.1 h⟩
  | cons line lines ih =>
      rw [linesText_cons] at h
      induction line with
      | nil =>
          rw [List.nil_append, List.suffix_cons_iff] at h
          rcases h with hall | hrest
          · exact ⟨[[]] ++ lines, by simpa using hall⟩
          · exact ih hrest
      | cons b line ihline =>
          rw [List.cons_append, List.suffix_cons_iff] at h
          rcases h with hall | hrest
          · exact ⟨(b :: line) :: lines, by simpa using hall⟩
          · exact ihline hrest

end Aivm
