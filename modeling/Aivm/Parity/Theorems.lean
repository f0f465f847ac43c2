import Aivm.Model.Types
import Aivm.Lib.CommonPrefix
import Mathlib.Data.List.DropRight

/-!
# The parity comparison

`aivm_parity.c`: two outputs are normalised into buffers of a fixed size and compared there. Texts are C strings: their
bytes without the terminator.
-/

namespace Aivm

def lineFeed : Byte := 10
def carriageReturn : Byte := 13

/-- The size of both buffers. -/
def parityBufferSize : Nat := 4096

/-- The first loop of `aivm_parity_normalize_text`, with room for so many bytes before the terminator. -/
def replaceLineEnds : Nat → List Byte → List Byte
  | 0, _ => []
  | _ + 1, [] => []
  | room + 1, b :: rest =>
      if b = carriageReturn ∧ rest.head? = some lineFeed then lineFeed :: replaceLineEnds room rest.tail
      else b :: replaceLineEnds room rest

/-- `aivm_parity_normalize_text` into a buffer that is not empty. -/
def parityNormalizeText (input : List Byte) (capacity : Nat) : List Byte :=
  (replaceLineEnds (capacity - 1) input).rdropWhile (· = lineFeed)

/-- `aivm_parity_equal_normalized`. -/
def parityEqualNormalized (left right : List Byte) : Bool :=
  parityNormalizeText left parityBufferSize = parityNormalizeText right parityBufferSize

/-- The loop of `aivm_parity_first_diff`: where it ends. -/
def diffIndex : Nat → List Byte → List Byte → Nat
  | index, a :: left, b :: right => if a = b then diffIndex (index + 1) left right else index
  | index, _, _ => index

/-- A difference, with the lengths of the texts as they were compared. -/
structure ParityDiff where
  index : Nat
  leftLength : Nat
  rightLength : Nat
deriving DecidableEq, Repr

/-- `aivm_parity_first_diff`. -/
def parityFirstDiff (left right : List Byte) : Option ParityDiff :=
  let left := parityNormalizeText left parityBufferSize
  let right := parityNormalizeText right parityBufferSize
  let index := diffIndex 0 left right
  if index < left.length ∧ index < right.length ∨ left.length ≠ right.length then
    some ⟨index, left.length, right.length⟩
  else none

/-!
## What the parity comparison decides

Texts are compared as far as the buffers go. The comparison is right if and only if the normalised texts are the same or
both buffers keep the place where they first differ.
-/

open CommonPrefix

/-! ## Normal forms -/

/-- Lines end in LF. -/
def unixLines : List Byte → List Byte
  | [] => []
  | [b] => [b]
  | b :: c :: rest => if b = carriageReturn ∧ c = lineFeed then lineFeed :: unixLines rest else b :: unixLines (c :: rest)

/-- Lines end in LF, and the text in none. -/
def normalText (text : List Byte) : List Byte := (unixLines text).rdropWhile (· = lineFeed)

/-- What a buffer keeps of a normal form. -/
def keptText (text : List Byte) : List Byte :=
  ((normalText text).take (parityBufferSize - 1)).rdropWhile (· = lineFeed)

/-- The comparison decides whether the normal forms are the same, and where they first differ. -/
structure ParityDecides (left right : List Byte) : Prop where
  equal : parityEqualNormalized left right = true ↔ normalText left = normalText right
  reports : (parityFirstDiff left right).isSome ↔ normalText left ≠ normalText right
  index : ∀ diff, parityFirstDiff left right = some diff →
    diff.index = commonLength (normalText left) (normalText right)

theorem replaceLineEnds_eq (room : Nat) : ∀ text, replaceLineEnds room text = (unixLines text).take room := by
  induction room with
  | zero => simp [replaceLineEnds]
  | succ room ih =>
      intro text
      cases text with
      | nil => simp [replaceLineEnds, unixLines]
      | cons b rest =>
          cases rest with
          | nil => simp [replaceLineEnds, unixLines, ih]
          | cons c rest =>
              rw [replaceLineEnds, unixLines]
              simp only [List.head?_cons, Option.some.injEq, List.tail_cons, ih]
              split
              · rfl
              · rfl

theorem rdropWhile_append_of_all {α : Type} {p : α → Bool} {l m : List α} (h : ∀ a ∈ m, p a = true) :
    (l ++ m).rdropWhile p = l.rdropWhile p := by
  induction m using List.reverseRecOn with
  | nil => simp
  | append_singleton m a ih =>
      rw [← List.append_assoc, List.rdropWhile_concat_pos _ _ _ (h a (by simp))]
      exact ih fun b hb => h b (by simp [hb])

/-- A text cut before its last line ends keeps as much as its normal form. -/
theorem rdropWhile_take {α : Type} (p : α → Bool) (l : List α) (n : Nat) :
    (l.take n).rdropWhile p = ((l.rdropWhile p).take n).rdropWhile p := by
  have hl : l = l.rdropWhile p ++ l.rtakeWhile p := List.rdropWhile_append_rtakeWhile.symm
  conv_lhs => rw [hl, List.take_append]
  apply rdropWhile_append_of_all
  intro a ha
  exact List.mem_rtakeWhile_imp (List.mem_of_mem_take ha)

theorem parityNormalizeText_eq (text : List Byte) : parityNormalizeText text parityBufferSize = keptText text := by
  rw [parityNormalizeText, replaceLineEnds_eq, rdropWhile_take, keptText, normalText]

theorem keptText_start (text : List Byte) : keptText text <+: normalText text :=
  (List.rdropWhile_prefix _ _).trans (List.take_prefix _ _)

theorem diffIndex_eq : ∀ (left right : List Byte) (index : Nat),
    diffIndex index left right = index + commonLength left right := by
  intro left
  induction left with
  | nil => simp [diffIndex]
  | cons a left ih =>
      intro right index
      cases right with
      | nil => simp [diffIndex]
      | cons b right =>
          rw [diffIndex, commonLength]
          split
          · rw [ih]
            omega
          · rfl

/-! ## Comparisons -/

theorem parityEqualNormalized_iff (left right : List Byte) :
    parityEqualNormalized left right = true ↔ keptText left = keptText right := by
  simp [parityEqualNormalized, parityNormalizeText_eq]

/-- A difference is reported where the kept texts differ, at the end of what they have in common. -/
theorem parityFirstDiff_eq (left right : List Byte) :
    parityFirstDiff left right = if keptText left = keptText right then none
      else some ⟨commonLength (keptText left) (keptText right), (keptText left).length, (keptText right).length⟩ := by
  simp only [parityFirstDiff, parityNormalizeText_eq, diffIndex_eq, Nat.zero_add]
  by_cases hsame : keptText left = keptText right
  · simp [hsame]
  · rw [if_neg hsame, if_pos]
    by_contra hend
    rw [not_or, not_not] at hend
    obtain ⟨hinside, hlength⟩ := hend
    have hleft := commonLength_le_left (keptText left) (keptText right)
    exact hsame (eq_of_commonLength (by omega) (by omega))

/-- Both buffers keep the place where the normal forms first differ, and one of them keeps what stands there. -/
def KeepsDifference (left right : List Byte) : Prop :=
  commonLength (normalText left) (normalText right) ≤ (keptText left).length ∧
    commonLength (normalText left) (normalText right) ≤ (keptText right).length ∧
    (commonLength (normalText left) (normalText right) < (keptText left).length ∨
      commonLength (normalText left) (normalText right) < (keptText right).length)

theorem commonLength_kept (left right : List Byte) : commonLength (keptText left) (keptText right) =
    min (commonLength (normalText left) (normalText right)) (min (keptText left).length (keptText right).length) :=
  commonLength_prefix (keptText_start left) (keptText_start right)

theorem keptText_congr {left right : List Byte} (h : normalText left = normalText right) : keptText left = keptText right := by
  rw [keptText, h, keptText]

/-- Where the place of the first difference is kept, the kept texts differ. -/
theorem KeepsDifference.ne {left right : List Byte} (h : KeepsDifference left right) : keptText left ≠ keptText right := by
  intro hsame
  have hcommon := commonLength_kept left right
  rw [hsame, commonLength_self] at hcommon
  obtain ⟨hleft, hright, hinside⟩ := h
  rw [hsame] at hleft hinside
  omega

/-- The comparison is right if and only if the normal forms are the same or their first difference is kept. -/
theorem parityDecides_iff (left right : List Byte) :
    ParityDecides left right ↔ normalText left = normalText right ∨ KeepsDifference left right := by
  have hcommon := commonLength_kept left right
  constructor
  · intro hdecides
    by_cases hsame : normalText left = normalText right
    · exact .inl hsame
    · have hkept : keptText left ≠ keptText right := by
        intro heq
        exact hsame (hdecides.equal.1 ((parityEqualNormalized_iff left right).2 heq))
      have hdiff := parityFirstDiff_eq left right
      rw [if_neg hkept] at hdiff
      have hindex := hdecides.index _ hdiff
      simp only at hindex
      refine .inr ⟨by omega, by omega, ?_⟩
      by_contra hend
      exact hkept (eq_of_commonLength (by omega) (by omega))
  · rintro (hsame | hkeeps)
    · have hkept := keptText_congr hsame
      have hdiff := parityFirstDiff_eq left right
      rw [if_pos hkept] at hdiff
      refine ⟨by simp [parityEqualNormalized_iff, hkept, hsame], by simp [hdiff, hsame], fun diff h => ?_⟩
      rw [hdiff] at h
      cases h
    · have hkept := hkeeps.ne
      have hne : normalText left ≠ normalText right := fun heq => hkept (keptText_congr heq)
      have hdiff := parityFirstDiff_eq left right
      rw [if_neg hkept] at hdiff
      refine ⟨by simp [parityEqualNormalized_iff, hkept, hne], by simp [hdiff, hne], fun diff h => ?_⟩
      rw [hdiff, Option.some.injEq] at h
      subst h
      obtain ⟨hleft, hright, -⟩ := hkeeps
      simp only
      omega

/-- Two texts whose normal forms fit into the buffers are compared rightly. -/
theorem parityDecides_of_short {left right : List Byte} (hl : (normalText left).length < parityBufferSize)
    (hr : (normalText right).length < parityBufferSize) : ParityDecides left right := by
  have hfits : ∀ {text}, (normalText text).length < parityBufferSize → keptText text = normalText text := by
    intro text htext
    rw [keptText, List.take_of_length_le (by omega), normalText, List.rdropWhile_idempotent]
  rw [parityDecides_iff]
  by_cases hsame : normalText left = normalText right
  · exact .inl hsame
  · have hleft := commonLength_le_left (normalText left) (normalText right)
    have hright := commonLength_le_right (normalText left) (normalText right)
    refine .inr ⟨by rwa [hfits hl], by rwa [hfits hr], ?_⟩
    rw [hfits hl, hfits hr]
    by_contra hend
    exact hsame (eq_of_commonLength (by omega) (by omega))

theorem unixLines_of_clean {text : List Byte} (h : carriageReturn ∉ text) : unixLines text = text := by
  induction text with
  | nil => rfl
  | cons b rest ih =>
      simp only [List.mem_cons, not_or] at h
      cases rest with
      | nil => rfl
      | cons c rest =>
          have hb : ¬ b = carriageReturn := fun heq => h.1 heq.symm
          rw [unixLines, if_neg (fun hcut => hb hcut.1), ih h.2]

/-- A letter behind empty lines. -/
def letterBehind (lines : Nat) : List Byte := List.replicate lines lineFeed ++ [120]

theorem normalText_letterBehind (lines : Nat) : normalText (letterBehind lines) = letterBehind lines := by
  have hclean : carriageReturn ∉ letterBehind lines := by
    simp [letterBehind, carriageReturn, lineFeed]
  rw [normalText, unixLines_of_clean hclean, letterBehind]
  exact List.rdropWhile_concat_neg _ _ _ (by decide)

/-- Empty lines that fill the buffer hide the letter. -/
theorem keptText_letterBehind : keptText (letterBehind (parityBufferSize - 1)) = keptText [] := by
  have hcut : (letterBehind (parityBufferSize - 1)).take (parityBufferSize - 1) =
      List.replicate (parityBufferSize - 1) lineFeed := List.take_left' List.length_replicate
  have hempty : ∀ lines, (List.replicate lines lineFeed).rdropWhile (· = lineFeed) = [] := by
    intro lines
    simp [List.rdropWhile_eq_nil_iff]
  rw [keptText, normalText_letterBehind, hcut, hempty]
  rfl

/-- The text is taken to be empty. -/
theorem letter_hidden : normalText (letterBehind 4095) ≠ normalText [] ∧
    parityEqualNormalized (letterBehind 4095) [] = true ∧ ¬ ParityDecides (letterBehind 4095) [] := by
  have hequal := (parityEqualNormalized_iff (letterBehind 4095) []).2 keptText_letterBehind
  have hne : normalText (letterBehind 4095) ≠ normalText [] := by
    rw [normalText_letterBehind, letterBehind]
    exact List.append_ne_nil_of_right_ne_nil _ (by simp)
  exact ⟨hne, hequal, fun hdecides => hne (hdecides.equal.1 hequal)⟩

end Aivm
