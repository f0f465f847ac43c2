import Aivm.Compiler.Search

/-!
# Values behind markers

The package manager reads its files by searching for a marker and taking what stands between it and the next byte of a
kind, such as a quote.
-/

namespace Aivm

/-- What a search for the next value finds. -/
inductive NextValue where
  | absent
  | unterminated
  | value (v rest : Text)
deriving DecidableEq, Repr

/-- The value between a marker and the next stop, and the text behind the stop. -/
def nextValue (marker : Text) (stop : Byte) (text : Text) : NextValue :=
  match strstr marker text with
  | none => .absent
  | some found =>
      let start := found.drop marker.length
      if stop ∈ start then .value (start.takeWhile (· ≠ stop)) ((start.dropWhile (· ≠ stop)).drop 1) else .unterminated

/-- All values, and whether each of them is terminated. Every round but the last consumes something. -/
def valuesFrom (marker : Text) (stop : Byte) : Nat → Text → List Text × Bool
  | 0, _ => ([], true)
  | fuel + 1, text =>
      match nextValue marker stop text with
      | .absent => ([], true)
      | .unterminated => ([], false)
      | .value v rest => (v :: (valuesFrom marker stop fuel rest).1, (valuesFrom marker stop fuel rest).2)

/-- All values of a text. -/
def markedValues (marker : Text) (stop : Byte) (text : Text) : List Text × Bool :=
  valuesFrom marker stop (text.length + 1) text

variable {marker text rest v : Text} {stop : Byte}

theorem nextValue_rest (h : nextValue marker stop text = .value v rest) :
    strstr marker text = some (marker ++ v ++ stop :: rest) ∧ stop ∉ v := by
  rw [nextValue] at h
  split at h
  · cases h
  · rename_i found hfound
    simp only at h
    split at h
    · rename_i hstop
      cases h
      obtain ⟨tail, htail⟩ := (strstr_some hfound).2
      have hstart : found.drop marker.length = tail := by rw [← htail, List.drop_left]
      rw [hstart] at hstop ⊢
      have hclosed : tail.dropWhile (· ≠ stop) ≠ [] := by
        intro hnil
        have hall := List.dropWhile_eq_nil_iff.1 hnil stop hstop
        simp at hall
      obtain ⟨b, after, hafter⟩ := List.exists_cons_of_ne_nil hclosed
      have hb : b = stop := by
        have hhead := List.head_dropWhile_not (fun b => decide (b ≠ stop)) hclosed
        have hfirst : (tail.dropWhile (· ≠ stop)).head hclosed = b := by simp only [hafter, List.head_cons]
        rw [hfirst] at hhead
        simpa using hhead
      have hsplit := @List.takeWhile_append_dropWhile _ (fun b => decide (b ≠ stop)) tail
      rw [hafter] at hsplit ⊢
      rw [hb] at hsplit
      refine ⟨?_, fun hmem => by simpa using List.mem_takeWhile_imp hmem⟩
      rw [hfound, List.drop_one, List.tail_cons, List.append_assoc, hsplit, htail]
    · cases h

/-- A value behind a marker is found. -/
theorem nextValue_found (h : strstr marker text = some (marker ++ (v ++ stop :: rest))) (hv : stop ∉ v) :
    nextValue marker stop text = .value v rest := by
  have hall : ∀ b ∈ v, decide (b ≠ stop) = true := by
    intro b hb
    simp only [ne_eq, decide_eq_true_eq]
    rintro rfl
    exact hv hb
  rw [nextValue, h]
  simp only [List.drop_left]
  rw [if_pos (by simp), List.takeWhile_append_of_pos hall, List.dropWhile_append_of_pos hall]
  simp

theorem nextValue_length (h : nextValue marker stop text = .value v rest) : rest.length < text.length := by
  have hlength := (strstr_some (nextValue_rest h).1).1.length_le
  simp only [List.length_append, List.length_cons] at hlength
  omega

theorem nextValue_absent (h : strstr marker text = none) : nextValue marker stop text = .absent := by
  rw [nextValue, h]

theorem valuesFrom_fuel : ∀ {fuel other : Nat} {text : Text}, text.length < fuel → text.length < other →
    valuesFrom marker stop fuel text = valuesFrom marker stop other text := by
  intro fuel
  induction fuel with
  | zero =>
      intro other text h
      omega
  | succ fuel ih =>
      intro other text h hother
      cases other with
      | zero => omega
      | succ other =>
          rw [valuesFrom, valuesFrom]
          cases hnext : nextValue marker stop text with
          | absent => rfl
          | unterminated => rfl
          | value v rest =>
              have hlength := nextValue_length hnext
              have hsame := @ih other rest (by omega) (by omega)
              simp only [hsame]

theorem markedValues_value (h : nextValue marker stop text = .value v rest) :
    markedValues marker stop text = (v :: (markedValues marker stop rest).1, (markedValues marker stop rest).2) := by
  have hlength := nextValue_length h
  have hfuel : valuesFrom marker stop text.length rest = markedValues marker stop rest :=
    valuesFrom_fuel hlength (Nat.lt_succ_self _)
  rw [markedValues, valuesFrom, h]
  simp only [hfuel]

theorem markedValues_absent (h : nextValue marker stop text = .absent) : markedValues marker stop text = ([], true) := by
  rw [markedValues, valuesFrom, h]

theorem markedValues_unterminated (h : nextValue marker stop text = .unterminated) :
    markedValues marker stop text = ([], false) := by
  rw [markedValues, valuesFrom, h]

end Aivm
