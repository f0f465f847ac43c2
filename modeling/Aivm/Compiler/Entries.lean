import Aivm.Compiler.BytecodeAos

/-!
# The entries of a bytecode text

Both loops of the parser take the attribute texts that a search finds, one after the other. What the search finds does
not depend on what the loop makes of it.
-/

namespace Aivm

variable {marker text attrs rest : Text}

/-! ## The search -/

/-- The attribute texts that are found, and whether the search then comes to the end of the text. -/
def entriesFrom (marker : Text) : Nat → Text → List Text × Bool
  | 0, _ => ([], false)
  | fuel + 1, text =>
      match nextEntry marker text with
      | .done => ([], true)
      | .malformed => ([], false)
      | .entry attrs rest => (attrs :: (entriesFrom marker fuel rest).1, (entriesFrom marker fuel rest).2)

theorem strstr_length : ∀ {text found : Text}, strstr marker text = some found → found.length ≤ text.length := by
  intro text
  induction text with
  | nil =>
      intro found h
      by_cases hmarker : marker = [] <;> simp [strstr, hmarker] at h
      simp [← h]
  | cons b text ih =>
      intro found h
      rw [strstr] at h
      by_cases hhere : marker.isPrefixOf (b :: text)
      · rw [if_pos hhere, Option.some.injEq] at h
        rw [← h]
      · rw [if_neg hhere] at h
        have hlength := ih h
        rw [List.length_cons]
        omega

/-- An entry takes something off the text. -/
theorem nextEntry_length (h : nextEntry marker text = .entry attrs rest) : rest.length < text.length := by
  rw [nextEntry] at h
  cases hfound : strstr marker text with
  | none => simp [hfound] at h
  | some found =>
      simp only [hfound] at h
      have hlength := strstr_length hfound
      have hopen := (List.dropWhile_sublist (fun b => decide (b ≠ openParen)) (l := found)).length_le
      cases hinside : found.dropWhile fun b => decide (b ≠ openParen) with
      | nil =>
          simp only [hinside] at h
          cases h
      | cons b inside =>
          simp only [hinside] at h hopen
          have hclose := (List.dropWhile_sublist (fun b => decide (b ≠ closeParen)) (l := inside)).length_le
          cases hrest : inside.dropWhile fun b => decide (b ≠ closeParen) with
          | nil =>
              simp only [hrest] at h
              cases h
          | cons c after =>
              simp only [hrest] at h hclose
              split at h
              · cases h
              · cases h
                simp only [List.length_cons] at hopen hclose
                omega

/-- More rounds than the text is long find nothing more. -/
theorem entriesFrom_fuel (marker : Text) : ∀ {fuel fuel' : Nat} {text : Text}, text.length < fuel → text.length < fuel' →
    entriesFrom marker fuel text = entriesFrom marker fuel' text := by
  intro fuel
  induction fuel with
  | zero =>
      intro fuel' text h
      omega
  | succ fuel ih =>
      intro fuel' text h h'
      cases fuel' with
      | zero => omega
      | succ fuel' =>
          rw [entriesFrom, entriesFrom]
          cases hnext : nextEntry marker text with
          | done => rfl
          | malformed => rfl
          | entry attrs rest =>
              have hlength := nextEntry_length hnext
              simp only [@ih fuel' rest (by omega) (by omega)]

/-- The constants of a text. -/
def constEntries (source : Text) : List Text × Bool := entriesFrom (ascii "Const#") (source.length + 1) source

/-- The instructions of a text. -/
def instEntries (source : Text) : List Text × Bool := entriesFrom (ascii "Inst#") (source.length + 1) source

/-! ## The loops -/

/-- Add constants one after the other. -/
def storeConstEntries (strtod : Text → Option UInt64) : List Text → Draft → Option Draft
  | [], d => some d
  | attrs :: entries, d => do
      let c ← entryConstant strtod d.constants.length attrs
      let d ← d.addConstant c
      storeConstEntries strtod entries d

theorem parseConstEntries_eq (strtod : Text → Option UInt64) : ∀ (fuel : Nat) (text : Text) (d : Draft),
    parseConstEntries strtod fuel text d =
      if (entriesFrom (ascii "Const#") fuel text).2 then
        storeConstEntries strtod (entriesFrom (ascii "Const#") fuel text).1 d
      else none := by
  intro fuel
  induction fuel with
  | zero => simp [parseConstEntries, entriesFrom]
  | succ fuel ih =>
      intro text d
      rw [parseConstEntries, entriesFrom]
      cases nextEntry (ascii "Const#") text with
      | done => simp [storeConstEntries]
      | malformed => simp
      | entry attrs rest =>
          simp only [ih, storeConstEntries, Option.bind_eq_bind]
          by_cases hend : (entriesFrom (ascii "Const#") fuel rest).2 <;> simp [hend]

/-- Store instructions one after the other. -/
def storeInstEntries (legacy : Bool) : List Text → Draft → AosResult
  | [], d => .program d
  | attrs :: entries, d =>
      match parseInstEntry legacy attrs d with
      | .program d => storeInstEntries legacy entries d
      | r => r

/-- What the loop over the instructions makes of the drafts. -/
def AosResult.finish (complete : Bool) : AosResult → AosResult
  | .program d => if complete ∧ 0 < d.instructions.length then .program d else .rejected
  | r => r

theorem parseInstEntries_eq (legacy : Bool) : ∀ (fuel : Nat) (text : Text) (d : Draft),
    parseInstEntries legacy fuel text d =
      (storeInstEntries legacy (entriesFrom (ascii "Inst#") fuel text).1 d).finish
        (entriesFrom (ascii "Inst#") fuel text).2 := by
  intro fuel
  induction fuel with
  | zero => simp [parseInstEntries, entriesFrom, storeInstEntries, AosResult.finish]
  | succ fuel ih =>
      intro text d
      rw [parseInstEntries, entriesFrom]
      cases nextEntry (ascii "Inst#") text with
      | done => simp [storeInstEntries, AosResult.finish]
      | malformed => simp [storeInstEntries, AosResult.finish]
      | entry attrs rest =>
          simp only [storeInstEntries]
          cases parseInstEntry legacy attrs d with
          | program d => exact ih rest d
          | rejected => rfl
          | overrun => rfl

/-! ## Numerals -/

/-- The number that digits denote. -/
def readDigits (text : Text) : Option Nat := if text ≠ [] ∧ text.all isDigit then some (digitsValue text) else none

/-- The integer that a whole text denotes. -/
def readNumeral (text : Text) : Option Int :=
  match text.dropWhile isSpace with
  | [] => none
  | b :: rest =>
      if b = 45 then (readDigits rest).map fun n => -(n : Int)
      else if b = 43 then (readDigits rest).map Int.ofNat
      else (readDigits (b :: rest)).map Int.ofNat

/-- An integer that is out of range is replaced by the nearest one in range. -/
def Operand.clamp (i : Int) : Operand := ⟨clampI64 i, clampI64_isI64 i⟩

theorem Operand.clamp_of_isI64 {i : Int} (h : ByteReader.IsI64 i) : (Operand.clamp i).1 = i := by
  simp only [clamp, clampI64]
  have hbounds := h
  simp only [ByteReader.IsI64] at hbounds
  omega

theorem strtoll_eq (text : Text) : strtoll text = (readNumeral text).map Operand.clamp := by
  rw [strtoll, readNumeral]
  cases text.dropWhile isSpace with
  | nil => rfl
  | cons b rest =>
      by_cases hminus : b = 45
      · by_cases hdigits : rest ≠ [] ∧ rest.all isDigit
        · simp only [if_pos hminus, readDigits, if_pos hdigits]; rfl
        · simp only [if_pos hminus, readDigits, if_neg hdigits]; rfl
      · by_cases hplus : b = 43
        · by_cases hdigits : rest ≠ [] ∧ rest.all isDigit
          · simp only [if_neg hminus, if_pos hplus, readDigits, if_pos hdigits]; rfl
          · simp only [if_neg hminus, if_pos hplus, readDigits, if_neg hdigits]; rfl
        · by_cases hdigits : b :: rest ≠ [] ∧ (b :: rest).all isDigit
          · simp only [if_neg hminus, if_neg hplus, readDigits, if_pos hdigits]; rfl
          · simp only [if_neg hminus, if_neg hplus, readDigits, if_neg hdigits]; rfl

end Aivm
