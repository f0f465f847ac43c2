import Aivm.Strings.Lemmas.Utf8

/-!
# The first match

`push_find_by_runes` goes through the runes of a text from a first candidate on. At every candidate no match has been
left out before it, and both bounds of the loop lie behind the last place where the pattern fits.
-/

namespace Aivm

open Segments

variable {text pattern : List Byte}

/-- The runes of the pattern start at a rune of the text. -/
def OccursAt (text pattern : List Byte) (i : Nat) : Prop := runes pattern <+: (runes text).drop i

/-- The first place from a rune on where a pattern occurs, or `-1`. -/
def FirstMatch (text pattern : List Byte) (start : Nat) (result : Int) : Prop :=
  (∃ i : Nat, result = i ∧ IsLeast {j | start ≤ j ∧ OccursAt text pattern j} i) ∨
    result = -1 ∧ ∀ j, start ≤ j → ¬ OccursAt text pattern j

/-- A match is one of the bytes at the offset of the rune. -/
theorem occursAt_iff (ht : WellFormedUtf8 text) (hp : WellFormedUtf8 pattern) (i : Nat) :
    OccursAt text pattern i ↔ pattern <+: text.drop (utf8ByteOffset text i) := by
  have h := prefix_iff runeLength_cuts runeLength_reads (wellFormedUtf8_runes.1 ht) (wellFormedUtf8_runes.1 hp) i
  rw [flatten_runes, flatten_runes, ← utf8ByteOffset_eq] at h
  exact h.symm

/-- A pattern fits only where enough runes are left. -/
theorem OccursAt.le {i : Nat} (h : OccursAt text pattern i) :
    (runes pattern).length ≤ (runes text).length - i := by
  simpa using h.length_le

/-- The byte offset of a match leaves room for the pattern. -/
theorem OccursAt.bytes_le (ht : WellFormedUtf8 text) (hp : WellFormedUtf8 pattern) {i : Nat}
    (h : OccursAt text pattern i) : utf8ByteOffset text i + pattern.length ≤ text.length := by
  have hle := ((occursAt_iff ht hp i).1 h).length_le
  have hoff : utf8ByteOffset text i ≤ text.length := by
    rw [utf8ByteOffset_eq]
    exact offset_le runeLength_cuts text i
  simp only [List.length_drop] at hle
  omega

theorem utf8ByteOffset_mono (text : List Byte) {i j : Nat} (h : i ≤ j) :
    utf8ByteOffset text i ≤ utf8ByteOffset text j := by
  obtain ⟨k, rfl⟩ := Nat.exists_eq_add_of_le h
  rw [utf8ByteOffset_eq, utf8ByteOffset_eq, offset_add runeLength_cuts]
  omega

theorem firstMatch_none {start : Nat} (h : ∀ j, start ≤ j → ¬ OccursAt text pattern j) :
    FirstMatch text pattern start (-1) := .inr ⟨rfl, h⟩

theorem firstMatch_here {start : Nat} (h : OccursAt text pattern start) : FirstMatch text pattern start start :=
  .inl ⟨start, rfl, ⟨Nat.le_refl _, h⟩, fun _ hj => hj.1⟩

/-- A candidate that is no match can be left out. -/
theorem FirstMatch.skip {start : Nat} {result : Int} (hn : ¬ OccursAt text pattern start)
    (h : FirstMatch text pattern (start + 1) result) : FirstMatch text pattern start result := by
  have hnext : ∀ j, start ≤ j → OccursAt text pattern j → start + 1 ≤ j := by
    intro j hj ho
    rcases Nat.eq_or_lt_of_le hj with rfl | hlt
    · exact absurd ho hn
    · exact hlt
  rcases h with ⟨i, rfl, ⟨hi, ho⟩, hleast⟩ | ⟨rfl, hnone⟩
  · exact .inl ⟨i, rfl, ⟨by omega, ho⟩, fun j hj => hleast ⟨hnext j hj.1 hj.2, hj.2⟩⟩
  · exact firstMatch_none fun j hj ho => hnone j (hnext j hj ho) ho

/-- The loop finds the first match from its candidate on. -/
theorem findRunesFrom_firstMatch (ht : WellFormedUtf8 text) (hp : WellFormedUtf8 pattern) {lastRune : Nat}
    (hlast : lastRune = (runes text).length - (runes pattern).length)
    (hne : 0 < (runes pattern).length) : ∀ {fuel candidateRune}, candidateRune ≤ lastRune →
    lastRune < candidateRune + fuel → FirstMatch text pattern candidateRune
      (findRunesFrom text pattern lastRune fuel candidateRune (utf8ByteOffset text candidateRune)) := by
  intro fuel
  induction fuel with
  | zero => intro c h₁ h₂; omega
  | succ fuel ih =>
      intro c h₁ h₂
      rw [findRunesFrom]
      split
      · -- no later candidate has room for the pattern either
        rename_i hroom
        refine firstMatch_none fun j hj ho => ?_
        have := ho.bytes_le ht hp
        have := utf8ByteOffset_mono text hj
        omega
      · have hocc : OccursAt text pattern c ↔
            (text.drop (utf8ByteOffset text c)).take pattern.length = pattern := by
          rw [occursAt_iff ht hp, List.prefix_iff_eq_take]
          exact eq_comm
        split
        · rename_i hmatch
          exact firstMatch_here (hocc.2 hmatch)
        · rename_i hno
          split
          · refine firstMatch_none fun j hj ho => ?_
            have hle := ho.le
            have hj' : j = c := by omega
            exact hno (hocc.1 (hj' ▸ ho))
          · exact (ih (by omega) (by omega)).skip fun ho => hno (hocc.1 ho)

/-- What is found is the first match from the start on, which is cut to the text. -/
theorem findByRunes_firstMatch (ht : WellFormedUtf8 text) (hp : WellFormedUtf8 pattern) (start : Int) :
    FirstMatch text pattern (min start.toNat (runes text).length) (findByRunes text pattern start) := by
  simp only [findByRunes, utf8RuneCount_eq, clampRuneIndex]
  split
  · rename_i hnil
    refine firstMatch_here ?_
    rw [OccursAt, List.eq_nil_of_length_eq_zero hnil]
    exact List.nil_prefix
  · rename_i hne
    split
    · refine firstMatch_none fun j hj ho => ?_
      have := ho.le
      omega
    · exact findRunesFrom_firstMatch ht hp rfl (by omega) (by omega) (by omega)

end Aivm
