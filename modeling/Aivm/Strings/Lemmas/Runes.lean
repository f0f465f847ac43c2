import Aivm.Lib.Segments
import Aivm.Machine.Text

/-!
# Runes of a text

`utf8_next_index` cuts a text into runes, whether it is well formed or not. Counts, byte offsets, ranges and searches of
the string instructions are read as operations on the list of runes.
-/

namespace Aivm

open Segments

variable {text pattern : List Byte}

/-! ## Bytes by their values -/

theorem byte_forall {P : Byte → Prop} (h : ∀ n : Fin 256, P (.ofFin n)) (b : Byte) : P b := h b.toFin

/-- A continuation byte. -/
def Tail (b : Byte) : Prop := 0x80 ≤ b.toNat ∧ b.toNat ≤ 0xBF

theorem and_tail (b : Byte) : b &&& 0xC0 = 0x80 ↔ 0x80 ≤ b.toNat ∧ b.toNat ≤ 0xBF :=
  byte_forall (P := fun b => b &&& 0xC0 = 0x80 ↔ 0x80 ≤ b.toNat ∧ b.toNat ≤ 0xBF) (by decide +kernel) b

theorem and_one (b : Byte) : b &&& 0x80 = 0 ↔ b.toNat ≤ 0x7F :=
  byte_forall (P := fun b => b &&& 0x80 = 0 ↔ b.toNat ≤ 0x7F) (by decide +kernel) b

theorem and_two (b : Byte) : b &&& 0xE0 = 0xC0 ↔ 0xC0 ≤ b.toNat ∧ b.toNat ≤ 0xDF :=
  byte_forall (P := fun b => b &&& 0xE0 = 0xC0 ↔ 0xC0 ≤ b.toNat ∧ b.toNat ≤ 0xDF) (by decide +kernel) b

theorem and_three (b : Byte) : b &&& 0xF0 = 0xE0 ↔ 0xE0 ≤ b.toNat ∧ b.toNat ≤ 0xEF :=
  byte_forall (P := fun b => b &&& 0xF0 = 0xE0 ↔ 0xE0 ≤ b.toNat ∧ b.toNat ≤ 0xEF) (by decide +kernel) b

theorem and_four (b : Byte) : b &&& 0xF8 = 0xF0 ↔ 0xF0 ≤ b.toNat ∧ b.toNat ≤ 0xF7 :=
  byte_forall (P := fun b => b &&& 0xF8 = 0xF0 ↔ 0xF0 ≤ b.toNat ∧ b.toNat ≤ 0xF7) (by decide +kernel) b

@[simp] theorem isContinuation_some (b : Byte) : isContinuation (some b) = true ↔ Tail b := by
  simp [isContinuation, and_tail, Tail]

@[simp] theorem isContinuation_none : isContinuation none = false := rfl

theorem isContinuation_lt {i : Nat} (h : isContinuation text[i]? = true) : i < text.length := by
  by_contra hlt
  rw [List.getElem?_eq_none (by omega)] at h
  simp at h

/-! ## Cutting -/

/-- A rune has at least one byte and lies within the text. -/
theorem runeLength_cuts : Cuts runeLength where
  pos := by
    intro text h
    cases text with
    | nil => exact absurd rfl h
    | cons b rest =>
        simp only [runeLength]
        split_ifs <;> decide
  le := by
    intro text
    cases text with
    | nil => simp [runeLength]
    | cons b rest =>
        simp only [runeLength]
        split_ifs with h₁ h₂ h₃ h₄
        · simp
        · exact isContinuation_lt h₂.2
        · exact isContinuation_lt h₃.2.2
        · exact isContinuation_lt h₄.2.2.2
        · simp

/-- The runes of a text. -/
def runes (text : List Byte) : List (List Byte) := segments runeLength text

theorem flatten_runes (text : List Byte) : (runes text).flatten = text := flatten_segments runeLength_cuts text

/-- Walking runes counts bytes and runes. -/
theorem walkRunes_eq (text : List Byte) : ∀ fuel n, text.length ≤ fuel →
    walkRunes fuel n text = (offset runeLength text n, min n (runes text).length) := by
  refine runeLength_cuts.induction (P := fun text => ∀ fuel n, text.length ≤ fuel →
    walkRunes fuel n text = (offset runeLength text n, min n (runes text).length)) ?_ ?_ text
  · intro fuel n _
    cases fuel <;> cases n <;> simp [walkRunes, offset, runes]
  · intro text hne ih fuel n hf
    have hlt := runeLength_cuts.drop_length_lt hne
    cases fuel with
    | zero => omega
    | succ fuel =>
        cases n with
        | zero => simp [walkRunes]
        | succ n =>
            cases text with
            | nil => exact absurd rfl hne
            | cons b rest =>
                have hr : (runes (b :: rest)).length = (runes ((b :: rest).drop (runeLength (b :: rest)))).length + 1 := by
                  simp only [runes]
                  rw [segments_of_ne runeLength_cuts hne]
                  rfl
                simp only [walkRunes, ih fuel n (by omega), offset_succ runeLength_cuts hne, hr, Nat.add_min_add_right]

theorem utf8RuneCount_eq (text : List Byte) : utf8RuneCount text = (runes text).length := by
  have h : (runes text).length ≤ text.length := length_segments_le runeLength_cuts text
  rw [utf8RuneCount, walkRunes_eq text _ _ (Nat.le_refl _)]
  exact Nat.min_eq_right h

theorem utf8ByteOffset_eq (text : List Byte) (n : Nat) : utf8ByteOffset text n = offset runeLength text n := by
  rw [utf8ByteOffset, walkRunes_eq text _ _ (Nat.le_refl _)]

theorem take_utf8ByteOffset (text : List Byte) (n : Nat) :
    text.take (utf8ByteOffset text n) = ((runes text).take n).flatten := by
  rw [utf8ByteOffset_eq]
  exact take_offset runeLength_cuts text n

theorem drop_utf8ByteOffset (text : List Byte) (n : Nat) :
    text.drop (utf8ByteOffset text n) = ((runes text).drop n).flatten := by
  rw [utf8ByteOffset_eq]
  exact drop_offset runeLength_cuts text n

theorem runes_drop (text : List Byte) (n : Nat) : runes (text.drop (utf8ByteOffset text n)) = (runes text).drop n := by
  rw [utf8ByteOffset_eq]
  exact segments_drop runeLength_cuts text n

/-! ## Ranges -/

/-- The runes of a range, cut to the text. -/
theorem substringByRunes_eq (text : List Byte) (start length : Int) :
    substringByRunes text start length = (((runes text).drop start.toNat).take length.toNat).flatten := by
  unfold substringByRunes
  split
  · rename_i h
    simp [Int.toNat_of_nonpos h]
  · have h := take_offset runeLength_cuts (text.drop (utf8ByteOffset text start.toNat)) length.toNat
    simp only [walkRunes_eq _ _ _ (Nat.le_refl _), h]
    exact congrArg (fun rs => (List.take length.toNat rs).flatten) (runes_drop text start.toNat)

theorem wrapInt64_of_fits {i : Int} (h₀ : 0 ≤ i) (h : i < 2 ^ 63) : wrapInt64 i = i := by
  unfold wrapInt64
  rw [Int.bmod_eq_of_le] <;> omega

/-- A sum of two numbers that does not fit is negative. -/
theorem wrapInt64_neg {i : Int} (h : 2 ^ 63 ≤ i) (h' : i < 2 ^ 64) : wrapInt64 i < 0 := by
  unfold wrapInt64
  rw [Int.bmod_def]
  omega

/-- What is left after a range is removed: all runes before it and behind it, if its end is a number of 64 bits. -/
theorem removeByRunes_of_fits {start length : Int} (h₀ : 0 ≤ start) (h : start + length < 2 ^ 63) :
    removeByRunes text start length =
      ((runes text).take start.toNat ++ (runes text).drop (start.toNat + length.toNat)).flatten := by
  unfold removeByRunes
  split
  · rename_i hl
    simp [Int.toNat_of_nonpos hl, flatten_runes]
  · rename_i hl
    have hend : max (min start.toNat (runes text).length) (min (start + length).toNat (runes text).length) =
        min (start.toNat + length.toNat) (runes text).length := by
      omega
    simp only [removedRunes, clampRuneIndex, utf8RuneCount_eq, wrapInt64_of_fits (by omega) h, hend, take_utf8ByteOffset,
      drop_utf8ByteOffset, List.flatten_append]
    rw [← List.take_eq_take_min, ← List.drop_eq_drop_min]

/-- Where the end does not fit, nothing is removed. -/
theorem removeByRunes_of_overflow {start length : Int} (h : 2 ^ 63 ≤ start + length)
    (h' : start + length < 2 ^ 64) : removeByRunes text start length = text := by
  unfold removeByRunes
  split
  · rfl
  · have hend : max (min start.toNat (runes text).length) (min (wrapInt64 (start + length)).toNat (runes text).length) =
        min start.toNat (runes text).length := by
      have := wrapInt64_neg h h'
      omega
    simp only [removedRunes, clampRuneIndex, utf8RuneCount_eq, hend, List.take_append_drop]

/-- A removal that runs past the end leaves the whole text only if it starts there. -/
theorem runes_le_of_kept {text : List Byte} {start length : Nat} (hl : 0 < length)
    (h : ((runes text).take start ++ (runes text).drop (start + length)).flatten = text) :
    (runes text).length ≤ start := by
  by_contra hlt
  have hs : start < (runes text).length := by omega
  have hsplit : (runes text).take start ++ ((runes text)[start] :: (runes text).drop (start + 1)) = runes text := by
    rw [List.cons_getElem_drop_succ, List.take_append_drop]
  have hne : (runes text)[start] ≠ [] := segment_ne_nil runeLength_cuts (List.getElem_mem hs)
  have hrest : ((runes text).drop (start + length)).flatten.length ≤ ((runes text).drop (start + 1)).flatten.length := by
    have : (runes text).drop (start + length) = ((runes text).drop (start + 1)).drop (length - 1) := by
      rw [List.drop_drop]
      congr 1
      omega
    rw [this]
    exact ((List.drop_sublist _ _).flatten).length_le
  have hlen := congrArg (List.length ∘ List.flatten) hsplit
  have hlen' := congrArg List.length (h.trans (flatten_runes text).symm)
  simp only [Function.comp_apply, List.flatten_append, List.flatten_cons, List.length_append] at hlen hlen'
  have := List.length_pos_of_ne_nil hne
  omega

end Aivm
