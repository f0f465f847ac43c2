import Aivm.Strings.Interning
import Aivm.Strings.Lemmas.Utf8

/-!
# Code points

`STR_FROM_CODEPOINT` cuts its operand to 32 bits before it looks at the range. What it makes of the rest is the encoding
of a scalar value, or nothing, and pairs of surrogates are combined into one.
-/

namespace Aivm

open CStrings VmM

variable {env : Env} {vm vm' : Vm} {p : StrPtr} {text : List Byte}

/-! ## Encodings -/

/-- A number other than zero that is the code point of a character. -/
def IsCodePoint (n : Nat) : Prop := 0 < n ∧ n.isValidChar

instance (n : Nat) : Decidable (IsCodePoint n) := by
  unfold IsCodePoint
  infer_instance

/-- The encoding of a code point; other numbers have none. -/
def codePointEncoding (cp : Int) : List Byte :=
  if IsCodePoint cp.toNat then String.utf8EncodeChar (Char.ofNat cp.toNat) else []

theorem codePointEncoding_of_not {cp : Int} (h : ¬ IsCodePoint cp.toNat) : codePointEncoding cp = [] := by
  rw [codePointEncoding, if_neg h]

theorem char_val {n : Nat} (h : n.isValidChar) : (Char.ofNat n).val.toNat = n := by
  simp [Char.ofNat, h, Char.ofNatAux]

/-- A code point is written as its encoding. -/
theorem codepointText_eq {n : Nat} (h : n.isValidChar) : codepointText n = String.utf8EncodeChar (Char.ofNat n) := by
  have hrange : ¬ (0x10FFFF < n ∨ 0xD800 ≤ n ∧ n ≤ 0xDFFF) := by
    rcases h with h | h <;> omega
  rw [codepointText, if_neg hrange, String.utf8EncodeChar]
  simp only [char_val h]
  rw [not_or] at hrange
  split_ifs with h₁ h₂ h₃
  · rfl
  · rw [Nat.mod_eq_of_lt (a := n / 64) (by omega), Nat.add_comm 0xC0, Nat.add_comm 0x80]
  · rw [Nat.mod_eq_of_lt (a := n / 4096) (by omega), Nat.add_comm 0xE0, Nat.add_comm 0x80, Nat.add_comm 0x80]
  · rw [Nat.mod_eq_of_lt (a := n / 262144) (by omega), Nat.add_comm 0xF0, Nat.add_comm 0x80, Nat.add_comm 0x80,
      Nat.add_comm 0x80]

theorem codepointText_of_not {n : Nat} (h : ¬ n.isValidChar) : codepointText n = [] := by
  unfold Nat.isValidChar at h
  rw [codepointText, if_pos (by omega)]

/-- The encoding of a code point is a character. -/
theorem codePointEncoding_char {cp : Int} (h : IsCodePoint cp.toNat) : Utf8Char (codePointEncoding cp) := by
  rw [codePointEncoding, if_pos h]
  refine utf8Char_encode fun hzero => ?_
  have hval := char_val h.2
  have h0 := h.1
  simp [hzero] at hval
  omega

/-- The validator accepts every encoding, and the empty text. -/
theorem codePointEncoding_valid (cp : Int) : bytesIsValidUtf8WithoutNul (codePointEncoding cp) = true := by
  rw [bytesIsValidUtf8WithoutNul_iff]
  by_cases h : IsCodePoint cp.toNat
  · exact wellFormedUtf8_iff.2 ⟨[codePointEncoding cp], by simpa using codePointEncoding_char h, by simp⟩
  · exact ⟨[], by simp, by simp [codePointEncoding_of_not h]⟩

/-- What is read of a code point that has been written: its encoding, and nothing for zero. -/
theorem cstr_codepointText (n : Nat) : vm.cstr (.lit (codepointText n)) = some (codePointEncoding n) := by
  by_cases hvalid : n.isValidChar
  · by_cases hzero : n = 0
    · subst hzero
      rfl
    · have hcp : IsCodePoint (n : Int).toNat := ⟨by simpa using Nat.pos_of_ne_zero hzero, by simpa using hvalid⟩
      have hclean : (0 : Byte) ∉ codePointEncoding n := by
        have hwell := bytesIsValidUtf8WithoutNul_iff.1 (codePointEncoding_valid n)
        exact hwell.zero_notMem
      have htext : codepointText n = codePointEncoding n := by
        rw [codepointText_eq hvalid, codePointEncoding, if_pos hcp, Int.toNat_natCast]
      rw [htext]
      simp only [Heap.cstr, Option.some.injEq]
      rw [List.takeWhile_eq_self_iff]
      intro b hb
      simpa using fun h0 : b = 0 => hclean (h0 ▸ hb)
  · have hnone : ¬ IsCodePoint (n : Int).toNat := fun h => hvalid (by simpa using h.2)
    rw [codepointText_of_not hvalid, codePointEncoding_of_not hnone]
    rfl

/-! ## Hexadecimal forms -/

/-- A hexadecimal digit, of either case. -/
def HexDigit (b : Byte) (n : Nat) : Prop :=
  (ascii "0123456789abcdef")[n]? = some b ∨ (ascii "0123456789ABCDEF")[n]? = some b

/-- The forms of a number with four hexadecimal digits. -/
def HexForm (n : Nat) (text : List Byte) : Prop :=
  ∃ a b c d n₁ n₂ n₃ n₄, text = [a, b, c, d] ∧ HexDigit a n₁ ∧ HexDigit b n₂ ∧ HexDigit c n₃ ∧ HexDigit d n₄ ∧
    n = ((n₁ * 16 + n₂) * 16 + n₃) * 16 + n₄

theorem hexNibble_digit {b : Byte} {n : Nat} (h : HexDigit b n) : hexNibble b = some n := by
  have hlt : n < 16 := by
    rcases h with h | h
    · exact (List.getElem?_eq_some_iff.1 h).1
    · exact (List.getElem?_eq_some_iff.1 h).1
  have hall : ∀ n < 16, ((ascii "0123456789abcdef")[n]?.bind hexNibble = some n) ∧
      (ascii "0123456789ABCDEF")[n]?.bind hexNibble = some n := by
    decide +kernel
  rcases h with h | h
  · simpa [h] using (hall n hlt).1
  · simpa [h] using (hall n hlt).2

theorem hex4ToU32_form {n : Nat} (h : HexForm n text) : hex4ToU32 text = some n := by
  obtain ⟨a, b, c, d, n₁, n₂, n₃, n₄, rfl, ha, hb, hc, hd, rfl⟩ := h
  simp [hex4ToU32, hexNibble_digit ha, hexNibble_digit hb, hexNibble_digit hc, hexNibble_digit hd]

/-! ## Instructions -/

theorem stackPush_room (v : Value) (h : vm.stack.length + 1 ≤ vm.stackLimit) :
    stackPush v vm = .ok () { vm with stack := vm.stack ++ [v] } := by
  have hstay : ensureStackCapacity (vm.stack.length + 1) vm = vm := by
    have hlimit : ∀ fuel, growLimit stackGrowthStep stackCapacity (vm.stack.length + 1) fuel vm.stackLimit =
        vm.stackLimit := by
      intro fuel
      cases fuel with
      | zero => rfl
      | succ fuel => rw [growLimit, if_neg (by omega)]
    rw [ensureStackCapacity, ensureLimit, hlimit]
    cases vm
    rfl
  rw [stackPush, hstay]
  simp [h]

theorem stringArenaAlloc_room (env : Env) (h : vm.stringArena.length + (text.length + 1) ≤ vm.stringArenaLimit) :
    stringArenaAlloc env text vm = .ok (.arena vm.stringBlock vm.stringArena.length) (writeString text vm) := by
  simp only [stringArenaAlloc, bind_run, stringArenaReserve_of_room h, get_run, modify_run, pure_run]

/-- A copy succeeds where there is room. -/
theorem copyStringToArena_room (env : Env) (hp : vm.cstr p = some text)
    (harena : vm.stringArena.length + (text.length + 1) ≤ vm.stringArenaLimit) :
    ∃ q vm', copyStringToArena env p vm = .ok q vm' ∧ vm'.stack = vm.stack ∧ vm'.stackLimit = vm.stackLimit := by
  have hnull : p ≠ .null := by
    rintro rfl
    simp [Heap.cstr] at hp
  simp only [copyStringToArena, bind_run, get_run, if_neg hnull]
  cases hin : vm.pointerInStringArena p with
  | true => exact ⟨p, vm, rfl, rfl, rfl⟩
  | false =>
      simp only [Bool.false_eq_true, if_false, bind_run, hp, VmM.deref, copyStringRangeToArena, get_run]
      cases lookupStringOffset vm text with
      | some offset => exact ⟨_, vm, rfl, rfl, rfl⟩
      | none =>
          simp only [storeString, bind_run, stringArenaAlloc_room env harena, modify_run, pure_run]
          exact ⟨_, _, rfl, rfl, rfl⟩

/-- A copy is pushed where there is room. -/
theorem pushStringCopy_room (env : Env) (hp : vm.cstr p = some text)
    (harena : vm.stringArena.length + (text.length + 1) ≤ vm.stringArenaLimit)
    (hstack : vm.stack.length + 1 ≤ vm.stackLimit) : ∃ vm', (pushStringCopy env p).run vm = .ok () vm' := by
  obtain ⟨q, vm₁, hrun, hsame, hlimit⟩ := copyStringToArena_room env hp harena
  simp only [pushStringCopy, Routine.copyString, Routine.push, Routine.bind_run, bind_run, hrun]
  exact ⟨_, stackPush_room _ (by rw [hsame, hlimit]; exact hstack)⟩

/-- A code point on the stack is cut to 32 bits. -/
theorem strFromCodepoint_run {below : List Value} {cp : Int} (hstack : vm.stack = below ++ [.int cp]) (h0 : 0 ≤ cp) :
    (strFromCodepoint env).run vm =
      (pushStringCopy env (.lit (codepointText (cp.toNat % 2 ^ 32)))).run { vm with stack := below } := by
  simp only [strFromCodepoint, Routine.bind_run, Routine.pop, bind_run, stackPop_run hstack]
  rw [if_neg (by omega)]

/-- What is made of a code point: the encoding of its last 32 bits. -/
theorem strFromCodepoint_ok {below : List Value} {cp : Int} {u} (hs : vm.StringsSound)
    (hstack : vm.stack = below ++ [.int cp]) (h : (strFromCodepoint env).run vm = .ok u vm') :
    vm'.topText = some (if cp < 0 then [] else codePointEncoding (cp % 2 ^ 32)) := by
  have hs' : Vm.StringsSound { vm with stack := below } := ⟨hs.terminated, hs.intern⟩
  by_cases h0 : cp < 0
  · simp only [strFromCodepoint, Routine.bind_run, Routine.pop, bind_run, stackPop_run hstack, if_pos h0] at h
    rw [if_pos h0]
    exact pushStringCopy_ok hs' cstr_litPtr_nil h
  · have hcut : (((cp.toNat % 2 ^ 32 : Nat)) : Int) = cp % 2 ^ 32 := by omega
    rw [strFromCodepoint_run hstack (by omega)] at h
    rw [if_neg h0, ← hcut]
    exact pushStringCopy_ok hs' (cstr_codepointText _) h

/-- A pair of surrogates is combined into one code point. -/
theorem surrogatePair_run {below : List Value} {q : StrPtr} {high low : List Byte} {h l : Nat}
    (hh : 0xD800 ≤ h ∧ h ≤ 0xDBFF) (hl : 0xDC00 ≤ l ∧ l ≤ 0xDFFF) (hp : vm.cstr p = some high) (hq : vm.cstr q = some low)
    (hhigh : HexForm h high) (hlow : HexForm l low) (hstack : vm.stack = below ++ [.string p, .string q]) :
    (strDecodeUnicodeSurrogatePairHex4 env).run vm = (strFromCodepoint env).run
      { vm with stack := below ++ [.int (0x10000 + (h - 0xD800) * 0x400 + (l - 0xDC00))] } := by
  obtain ⟨h₁, h₂⟩ := pop_two hstack
  have hp' : Heap.cstr { vm with stack := below }.toHeap p = some high := hp
  have hq' : Heap.cstr { vm with stack := below }.toHeap q = some low := hq
  have hcp : (0x10000 + ((h : Int) - 0xD800) * 0x400 + (l - 0xDC00)).toNat % 2 ^ 32 =
      0x10000 + (h - 0xD800) * 1024 + (l - 0xDC00) := by omega
  rw [strFromCodepoint_run rfl (by omega), hcp]
  simp only [strDecodeUnicodeSurrogatePairHex4, Routine.bind_run, Routine.pop, bind_run, h₁, h₂, stringPtr_of_cstr hp,
    stringPtr_of_cstr hq, readText_run hp', readText_run hq', hex4ToU32_form hhigh, hex4ToU32_form hlow]
  rw [if_neg (by omega)]

/-- A surrogate by itself is no code point. -/
theorem loneSurrogate_ok {below : List Value} {n : Nat} {u} (hs : vm.StringsSound) (hn : 0xD800 ≤ n ∧ n ≤ 0xDFFF)
    (hp : vm.cstr p = some text) (hform : HexForm n text) (hstack : vm.stack = below ++ [.string p])
    (h : (strDecodeUnicodeHex4 env).run vm = .ok u vm') : vm'.topText = some [] := by
  have hs' : Vm.StringsSound { vm with stack := below } := ⟨hs.terminated, hs.intern⟩
  have hempty : codePointEncoding (n : Int) = [] := by
    apply codePointEncoding_of_not
    rintro ⟨-, hvalid⟩
    rw [Int.toNat_natCast] at hvalid
    rcases hvalid with hvalid | hvalid <;> omega
  simp only [strDecodeUnicodeHex4, Routine.bind_run, bind_ok] at h
  obtain ⟨_, _, hpop, _, _, hread, h⟩ := h
  cases hpop.symm.trans (popText_run hp hstack)
  obtain ⟨rfl, rfl⟩ := readText_below hp hread
  rw [hex4ToU32_form hform] at h
  rw [← hempty]
  exact pushStringCopy_ok hs' (cstr_codepointText n) h

/-! ## All operands -/

/-- On an operand, `STR_FROM_CODEPOINT` makes the encoding of the code point, if it is one. -/
def EncodesCodePoint (cp : Int64) : Prop :=
  ∀ (env : Env) (vm : Vm) below u vm', Midway env vm → vm.stack = below ++ [.int cp.toInt] →
    (strFromCodepoint env).run vm = .ok u vm' → vm'.topText = some (codePointEncoding cp.toInt)

/-- Results are well formed, pairs of surrogates are combined, and a surrogate by itself makes nothing. -/
structure CodePointsAgree : Prop where
  valid : ∀ (env : Env) (vm : Vm) below (cp : Int64) u vm', Midway env vm → vm.stack = below ++ [.int cp.toInt] →
    (strFromCodepoint env).run vm = .ok u vm' →
    ∃ text, vm'.topText = some text ∧ bytesIsValidUtf8WithoutNul text = true
  pair : ∀ (env : Env) (vm : Vm) below p q high low (h l : Nat), 0xD800 ≤ h ∧ h ≤ 0xDBFF → 0xDC00 ≤ l ∧ l ≤ 0xDFFF →
    vm.cstr p = some high → vm.cstr q = some low → HexForm h high → HexForm l low →
    vm.stack = below ++ [.string p, .string q] →
    (strDecodeUnicodeSurrogatePairHex4 env).run vm = (strFromCodepoint env).run
      { vm with stack := below ++ [.int (0x10000 + (h - 0xD800) * 0x400 + (l - 0xDC00))] }
  lone : ∀ (env : Env) (vm : Vm) below p text n u vm', Midway env vm → 0xD800 ≤ n ∧ n ≤ 0xDFFF →
    vm.cstr p = some text → HexForm n text → vm.stack = below ++ [.string p] →
    (strDecodeUnicodeHex4 env).run vm = .ok u vm' → vm'.topText = some []

theorem codePointsAgree : CodePointsAgree where
  valid _ _ _ cp _ _ hm hstack h := by
    refine ⟨_, strFromCodepoint_ok hm.textsIndexed.sound hstack h, ?_⟩
    split
    · rfl
    · exact codePointEncoding_valid _
  pair _ _ _ _ _ _ _ _ _ hh hl hp hq hhigh hlow hstack := surrogatePair_run hh hl hp hq hhigh hlow hstack
  lone _ _ _ _ _ _ _ _ hm hn hp hform hstack h := loneSurrogate_ok hm.textsIndexed.sound hn hp hform hstack h

/-- A machine at some moment, with values on its stack and room for a string. -/
theorem exists_midway (stack : List Value) (room : Nat) : ∃ vm, Midway .generous vm ∧ vm.stack = stack ∧
    vm.stringArena.length + room ≤ vm.stringArenaLimit ∧ vm.stack.length ≤ vm.stackLimit := by
  obtain ⟨vm, h⟩ := Option.isSome_iff_exists.1
    (by decide +kernel : (aivmInit .generous ⟨[⟨.halt, 0⟩], [], []⟩ 0).isSome = true)
  refine ⟨{ vm with stack := stack, stringArenaLimit := vm.stringArena.length + room, stackLimit := stack.length },
    .elsewhere (.arises (.made h)) ⟨rfl, rfl, rfl, rfl, rfl⟩, rfl, Nat.le_refl _, Nat.le_refl _⟩

/-- A number too large for a code point is not seen as such if its last 32 bits are one. -/
theorem not_encodesCodePoint {cp : Int64} (hlarge : 2 ^ 32 ≤ cp.toInt) (hlow : IsCodePoint (cp.toInt % 2 ^ 32).toNat) :
    ¬ EncodesCodePoint cp := by
  intro hencodes
  obtain ⟨vm, hm, hstack, harena, hroom⟩ := exists_midway ([] ++ [.int cp.toInt])
    ((codePointEncoding (cp.toInt % 2 ^ 32)).length + 1)
  have hcut : (((cp.toInt.toNat % 2 ^ 32 : Nat)) : Int) = cp.toInt % 2 ^ 32 := by omega
  have htext : Heap.cstr { vm with stack := [] }.toHeap (.lit (codepointText (cp.toInt.toNat % 2 ^ 32))) =
      some (codePointEncoding (cp.toInt % 2 ^ 32)) := by
    rw [cstr_codepointText, hcut]
  obtain ⟨vm', hrun⟩ := @pushStringCopy_room { vm with stack := [] } _ _ .generous htext harena
    (by simpa [hstack] using hroom)
  rw [← strFromCodepoint_run hstack (by omega)] at hrun
  have hmade := strFromCodepoint_ok hm.textsIndexed.sound hstack hrun
  have hclaimed := hencodes .generous vm [] () vm' hm hstack hrun
  rw [hmade, if_neg (by omega), Option.some.injEq, @codePointEncoding_of_not cp.toInt] at hclaimed
  · exact (codePointEncoding_char hlow).ne_nil hclaimed
  · rintro ⟨-, hvalid⟩
    rcases hvalid with hvalid | hvalid <;> omega

/-- Code points are encoded as they should be unless only the last 32 bits of a number are a code point. -/
theorem encodesCodePoint_iff (cp : Int64) :
    (CodePointsAgree ∧ EncodesCodePoint cp) ↔ cp.toInt < 2 ^ 32 ∨ ¬ IsCodePoint (cp.toInt % 2 ^ 32).toNat := by
  constructor
  · rintro ⟨-, hencodes⟩
    by_contra hneither
    rw [not_or, not_not, Int.not_lt] at hneither
    exact not_encodesCodePoint hneither.1 hneither.2 hencodes
  · intro h
    refine ⟨codePointsAgree, fun env vm below u vm' hm hstack hrun => ?_⟩
    rw [strFromCodepoint_ok hm.textsIndexed.sound hstack hrun, Option.some.injEq]
    split
    · rename_i hneg
      rw [codePointEncoding_of_not]
      rintro ⟨hpos, -⟩
      omega
    · rename_i hpos
      by_cases hsmall : cp.toInt < 2 ^ 32
      · rw [Int.emod_eq_of_lt (by omega) hsmall]
      · rw [codePointEncoding_of_not (h.resolve_left hsmall), codePointEncoding_of_not]
        rintro ⟨-, hvalid⟩
        rcases hvalid with hvalid | hvalid <;> omega

/-- The number after 2³² that is 65 in its last 32 bits is written as the letter with code point 65. -/
theorem letter_beyond : ¬ EncodesCodePoint 4294967361 ∧
    ((aivmInit .generous ⟨[⟨.pushInt, 4294967361⟩, ⟨.strFromCodepoint, 0⟩], [], []⟩ 0).bind
      (Trails.iterate (step .generous 0) 2)).bind Vm.topText = some (ascii "A") :=
  ⟨not_encodesCodePoint (by decide) (by decide), by decide +kernel⟩

end Aivm
