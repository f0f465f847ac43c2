import Aivm.Compiler.Attributes
import Aivm.Compiler.Entries

/-!
# Bytecode as written

Constants and instructions as `Const#` and `Inst#` declarations of a `Bytecode#` node.
-/

namespace Aivm

/-! ## Declarations -/

/-- A decimal numeral of any length. -/
def numeral (i : Int) : Text := ascii (toString i)

/-- A constant as it is written. -/
inductive ConstValue where
  | int (i : Int)
  | bool (b : Bool)
  | null
  | void
  | string (text : CText)

def ConstValue.attrs : ConstValue → List TextAttr
  | .int i => [⟨[], ascii "kind", .bare (ascii "int")⟩, ⟨[32], ascii "value", .bare (numeral i)⟩]
  | .bool b =>
      [⟨[], ascii "kind", .bare (ascii "bool")⟩, ⟨[32], ascii "value", .bare (ascii (if b then "true" else "false"))⟩]
  | .null => [⟨[], ascii "kind", .bare (ascii "null")⟩]
  | .void => [⟨[], ascii "kind", .bare (ascii "void")⟩]
  | .string text => [⟨[], ascii "kind", .bare (ascii "string")⟩, ⟨[32], ascii "value", .quoted text⟩]

/-- An instruction as it is written; the parser knows its name. -/
structure InstText where
  name : Text
  opcode : Opcode
  operand : Int
  known : opcodeFromText name = some opcode

def InstText.attrs (n : InstText) : List TextAttr :=
  [⟨[], ascii "op", .bare n.name⟩, ⟨[32], ascii "a", .bare (numeral n.operand)⟩]

def constHead (i : Nat) : Text := ascii "\n  Const#k" ++ numeral i

def instHead (i : Nat) : Text := ascii "\n  Inst#i" ++ numeral i

/-- A declaration and the text behind it. -/
def declared (head attrs rest : Text) : Text := head ++ openParen :: (attrs ++ closeParen :: rest)

/-- The instructions, numbered from `i` on, and the end of the text. -/
def instDecls : Nat → List InstText → Text
  | _, [] => ascii "\n\x7d"
  | i, n :: insts => declared (instHead i) (attrsText n.attrs) (instDecls (i + 1) insts)

/-- The constants, numbered from `i` on, and the instructions. -/
def constDecls (insts : List InstText) : Nat → List ConstValue → Text
  | _, [] => instDecls 0 insts
  | i, c :: consts => declared (constHead i) (attrsText c.attrs) (constDecls insts (i + 1) consts)

def bytecodeHead : Text := ascii "Bytecode#bc1(magic=\"AIBC\" format=\"AiBC1\" version=2 flags=0) "

structure BytecodeText where
  constants : List ConstValue
  instructions : List InstText

def BytecodeText.render (b : BytecodeText) : Text :=
  bytecodeHead ++ openBrace :: constDecls b.instructions 0 b.constants

/-! ## Numerals -/

/-- The digits of a natural number. -/
def digitsOf (n : Nat) : Text := (Nat.toDigits 10 n).map fun c => UInt8.ofNat c.toNat

def digitByte (d : Nat) : Byte := UInt8.ofNat d.digitChar.toNat

theorem digitsOf_induction {motive : Nat → Text → Prop} (small : ∀ d < 10, motive d [digitByte d])
    (step : ∀ n digits, 0 < n → motive n digits → ∀ d < 10, motive (10 * n + d) (digits ++ [digitByte d])) (n : Nat) :
    motive n (digitsOf n) := by
  induction n using Nat.strong_induction_on with
  | h n ih =>
      rw [digitsOf, Nat.toDigits_eq_if (by decide)]
      split_ifs with hsmall
      · exact small n hsmall
      · have hstep := step (n / 10) (digitsOf (n / 10)) (by omega) (ih (n / 10) (by omega)) (n % 10)
          (Nat.mod_lt _ (by decide))
        rw [Nat.div_add_mod] at hstep
        rw [List.map_append]
        exact hstep

theorem digitByte_isDigit : ∀ d < 10, isDigit (digitByte d) = true ∧ (digitByte d).toNat - 48 = d := by
  decide

theorem digitsOf_isDigit (n : Nat) : digitsOf n ≠ [] ∧ ∀ b ∈ digitsOf n, isDigit b = true := by
  induction n using digitsOf_induction with
  | small d h => simp [(digitByte_isDigit d h).1]
  | step n digits _ ih d h =>
      constructor
      · simp
      · intro b hb
        rcases List.mem_append.1 hb with hb | hb
        · exact ih.2 b hb
        · rw [List.mem_singleton.1 hb]
          exact (digitByte_isDigit d h).1

theorem digitsValue_append (digits : Text) (b : Byte) :
    digitsValue (digits ++ [b]) = 10 * digitsValue digits + (b.toNat - 48) := by
  simp [digitsValue]

theorem digitsValue_digitsOf (n : Nat) : digitsValue (digitsOf n) = n := by
  induction n using digitsOf_induction with
  | small d h => simp [digitsValue, (digitByte_isDigit d h).2]
  | step n digits _ ih d h => rw [digitsValue_append, ih, (digitByte_isDigit d h).2]

theorem length_digitsOf (n : Nat) : ∀ k, n < 10 ^ (k + 1) → (digitsOf n).length ≤ k + 1 := by
  induction n using digitsOf_induction with
  | small d h => simp
  | step n digits hpos ih d h =>
      intro k hk
      cases k with
      | zero => omega
      | succ k =>
          have hlength := ih k (by rw [Nat.pow_succ] at hk; omega)
          rw [List.length_append, List.length_singleton]
          omega

theorem numeral_ofNat (n : Nat) : numeral (n : Int) = digitsOf n := by
  rw [numeral, digitsOf, ascii, Int.toString_eq_repr, Int.repr_eq_if, if_pos (Int.natCast_nonneg n)]
  simp

theorem numeral_neg (n : Nat) : numeral (Int.negSucc n) = 45 :: digitsOf (n + 1) := by
  rw [numeral, digitsOf, ascii, Int.toString_eq_repr, Int.repr_eq_if, if_neg (by omega)]
  simp

theorem readDigits_digitsOf (n : Nat) : readDigits (digitsOf n) = some n := by
  obtain ⟨hne, hdigits⟩ := digitsOf_isDigit n
  rw [readDigits, if_pos ⟨hne, List.all_eq_true.2 hdigits⟩, digitsValue_digitsOf]

theorem isDigit_ne {b c : Byte} (hb : isDigit b = true) (hc : isDigit c = false) : b ≠ c := by
  intro heq
  rw [heq, hc] at hb
  cases hb

theorem isDigit_not_space {b : Byte} (hb : isDigit b = true) : isSpace b = false := by
  simp only [isDigit, decide_eq_true_eq] at hb
  simp only [isSpace, decide_eq_false_iff_not]
  intro hspace
  rcases hspace with rfl | ⟨-, hle⟩
  · revert hb
    decide
  · exact absurd (UInt8.le_trans hb.1 hle) (by decide)

/-- A numeral denotes its integer. -/
theorem readNumeral_numeral (i : Int) : readNumeral (numeral i) = some i := by
  cases i with
  | ofNat n =>
      have hread := readDigits_digitsOf n
      obtain ⟨hne, hdigits⟩ := digitsOf_isDigit n
      rw [Int.ofNat_eq_natCast, numeral_ofNat]
      cases hchars : digitsOf n with
      | nil => exact absurd hchars hne
      | cons b digits =>
          have hb := hdigits b (by simp [hchars])
          have hminus : b ≠ 45 := isDigit_ne hb (by decide)
          have hplus : b ≠ 43 := isDigit_ne hb (by decide)
          rw [hchars] at hread
          rw [readNumeral, List.dropWhile_cons_of_neg (by simp [isDigit_not_space hb])]
          simp [hminus, hplus, hread]
  | negSucc n =>
      have hspace : isSpace 45 = false := by decide
      rw [numeral_neg, readNumeral, List.dropWhile_cons_of_neg (by simp [hspace])]
      simp [readDigits_digitsOf, Int.negSucc_eq]

/-- The bytes of numerals. -/
def isNumeralByte (b : Byte) : Bool := b = 45 ∨ isDigit b

theorem numeral_bytes (i : Int) : numeral i ≠ [] ∧ ∀ b ∈ numeral i, isNumeralByte b = true := by
  cases i with
  | ofNat n =>
      obtain ⟨hne, hdigits⟩ := digitsOf_isDigit n
      rw [Int.ofNat_eq_natCast, numeral_ofNat]
      exact ⟨hne, fun b hb => by simp [isNumeralByte, hdigits b hb]⟩
  | negSucc n =>
      rw [numeral_neg]
      constructor
      · simp
      · intro b hb
        rcases List.mem_cons.1 hb with rfl | hb
        · rfl
        · simp [isNumeralByte, (digitsOf_isDigit (n + 1)).2 b hb]

theorem isNumeralByte_ne {b c : Byte} (hb : isNumeralByte b = true) (hc : isNumeralByte c = false) : b ≠ c := by
  intro heq
  rw [heq, hc] at hb
  cases hb

/-- A numeral is a word. -/
theorem numeral_word (i : Int) : (TextValue.bare (numeral i)).Wf := by
  constructor
  · exact (numeral_bytes i).1
  · intro b hb
    have hbyte := (numeral_bytes i).2 b hb
    have hspace : isSpace b = false := by
      simp only [isNumeralByte, decide_eq_true_eq] at hbyte
      rcases hbyte with rfl | hdigit
      · rfl
      · exact isDigit_not_space hdigit
    exact isWordByte_iff.2 ⟨hspace, isNumeralByte_ne hbyte (by decide), isNumeralByte_ne hbyte (by decide),
      isNumeralByte_ne hbyte (by decide), isNumeralByte_ne hbyte (by decide)⟩

/-- The numeral of an `int64_t` fits the buffer for numerals. -/
theorem length_numeral {i : Int} (h : ByteReader.IsI64 i) : (numeral i).length < 64 := by
  simp only [ByteReader.IsI64] at h
  cases i with
  | ofNat n =>
      have hlength := length_digitsOf n 19 (by simp at h; omega)
      rw [Int.ofNat_eq_natCast, numeral_ofNat]
      omega
  | negSucc n =>
      have hlength := length_digitsOf (n + 1) 19 (by omega)
      rw [numeral_neg, List.length_cons]
      omega

/-! ## Words -/

theorem textWord {word : Text} (h : word ≠ [] ∧ word.all isWordByte = true) : (TextValue.bare word).Wf :=
  ⟨h.1, List.all_eq_true.1 h.2⟩

/-- The name of an opcode consists of letters, digits and underscores. -/
theorem InstText.name_bytes (n : InstText) : n.name ≠ [] ∧ n.name.length < 64 ∧
    n.name.all (fun b => isWordByte b ∧ b ≠ hash) = true := by
  have hnames : ∀ e ∈ opcodeNames, ascii e.1 ≠ [] ∧ (ascii e.1).length < 64 ∧
      (ascii e.1).all (fun b => isWordByte b ∧ b ≠ hash) = true := by decide
  obtain ⟨e, hfind, -⟩ := Option.map_eq_some_iff.1 n.known
  have hname : ascii e.1 = n.name := by simpa using List.find?_some hfind
  rw [← hname]
  exact hnames e (List.mem_of_find?_eq_some hfind)

theorem InstText.name_word (n : InstText) : (TextValue.bare n.name).Wf := by
  obtain ⟨hne, -, hbytes⟩ := n.name_bytes
  constructor
  · exact hne
  · intro b hb
    have hbyte := List.all_eq_true.1 hbytes b hb
    simp only [decide_eq_true_eq] at hbyte
    exact hbyte.1

theorem ConstValue.attrs_wf (c : ConstValue) : AttrsWf c.attrs := by
  cases c with
  | int i => exact attrsWf_pair (by decide) (by decide) (by decide) (textWord (by decide)) (numeral_word i)
  | bool b =>
      cases b
      · exact attrsWf_pair (by decide) (by decide) (by decide) (textWord (by decide)) (textWord (by decide))
      · exact attrsWf_pair (by decide) (by decide) (by decide) (textWord (by decide)) (textWord (by decide))
  | null => exact attrsWf_single (by decide) (textWord (by decide))
  | void => exact attrsWf_single (by decide) (textWord (by decide))
  | string text => exact attrsWf_pair (by decide) (by decide) (by decide) (textWord (by decide)) trivial

theorem InstText.attrs_wf (n : InstText) : AttrsWf n.attrs :=
  attrsWf_pair (by decide) (by decide) (by decide) n.name_word (numeral_word n.operand)

/-! ## Bytes of attributes -/

theorem byte_notMem_attrs {c : Byte} (hc : isBlank c = false ∧ c ≠ equals ∧ c ≠ quote) {attrs : List TextAttr}
    (hwf : AttrsWf attrs) (hattrs : ∀ a ∈ attrs, c ∉ a.key ∧ c ∉ a.value.raw) : c ∉ attrsText attrs := by
  intro hmem
  obtain ⟨a, ha, hmem⟩ := List.mem_flatMap.1 hmem
  obtain ⟨hkey, hraw⟩ := hattrs a ha
  simp only [TextAttr.render, List.mem_append, List.mem_cons] at hmem
  rcases hmem with hgap | hmem | hequals | hvalue
  · have hblank := (hwf.each a ha).gap c hgap
    rw [hc.1] at hblank
    cases hblank
  · exact hkey hmem
  · exact hc.2.1 hequals
  · cases hcase : a.value with
    | quoted t =>
        rw [hcase] at hvalue hraw
        simp only [TextValue.render, TextValue.raw, List.cons_append, List.mem_cons, List.mem_append, List.not_mem_nil,
          or_false] at hvalue hraw
        rcases hvalue with hquote | hvalue | hquote
        · exact hc.2.2 hquote
        · exact hraw hvalue
        · exact hc.2.2 hquote
    | bare word =>
        rw [hcase] at hvalue hraw
        exact hraw hvalue

/-- The bytes that no attribute of a declaration has outside of strings. -/
def IsStrange (c : Byte) : Prop := c = closeParen ∨ c = openParen ∨ c = hash

theorem mem_escapeText {c : Byte} (hc : IsStrange c) {t : Text} : c ∈ escapeText t ↔ c ∈ t := by
  have hbyte : ∀ b, c ∈ escapeByte b ↔ c = b := by
    intro b
    unfold escapeByte
    rcases hc with rfl | rfl | rfl <;> split_ifs <;> simp_all [closeParen, openParen, hash]
  simp [escapeText, hbyte]

theorem IsStrange.not_numeral {c : Byte} (hc : IsStrange c) (i : Int) : c ∉ numeral i := by
  intro hmem
  have hbyte := (numeral_bytes i).2 c hmem
  rcases hc with rfl | rfl | rfl <;> revert hbyte <;> decide

theorem IsStrange.not_word {c : Byte} (hc : IsStrange c) {word : Text}
    (h : word.all (fun b => b ≠ closeParen ∧ b ≠ openParen ∧ b ≠ hash) = true) : c ∉ word := by
  intro hmem
  have hbyte := List.all_eq_true.1 h c hmem
  simp only [decide_eq_true_eq] at hbyte
  rcases hc with rfl | rfl | rfl
  · exact hbyte.1 rfl
  · exact hbyte.2.1 rfl
  · exact hbyte.2.2 rfl

theorem IsStrange.not_blank {c : Byte} (hc : IsStrange c) : isBlank c = false ∧ c ≠ equals ∧ c ≠ quote := by
  rcases hc with rfl | rfl | rfl <;> decide

/-- A strange byte of a constant is one of its string. -/
theorem ConstValue.notMem_attrs {c : Byte} (hc : IsStrange c) {v : ConstValue}
    (hstring : ∀ t, v = .string t → c ∉ t.1) : c ∉ attrsText v.attrs := by
  apply byte_notMem_attrs hc.not_blank v.attrs_wf
  intro a ha
  cases v with
  | int i =>
      simp only [attrs, List.mem_cons, List.not_mem_nil, or_false] at ha
      rcases ha with rfl | rfl
      · exact ⟨hc.not_word (by decide), hc.not_word (by decide)⟩
      · exact ⟨@IsStrange.not_word c hc (ascii "value") (by decide), hc.not_numeral i⟩
  | bool b =>
      simp only [attrs, List.mem_cons, List.not_mem_nil, or_false] at ha
      rcases ha with rfl | rfl
      · exact ⟨hc.not_word (by decide), hc.not_word (by decide)⟩
      · cases b
        · exact ⟨hc.not_word (by decide), hc.not_word (by decide)⟩
        · exact ⟨hc.not_word (by decide), hc.not_word (by decide)⟩
  | null =>
      rw [List.mem_singleton.1 ha]
      exact ⟨hc.not_word (by decide), hc.not_word (by decide)⟩
  | void =>
      rw [List.mem_singleton.1 ha]
      exact ⟨hc.not_word (by decide), hc.not_word (by decide)⟩
  | string t =>
      simp only [attrs, List.mem_cons, List.not_mem_nil, or_false] at ha
      rcases ha with rfl | rfl
      · exact ⟨hc.not_word (by decide), hc.not_word (by decide)⟩
      · exact ⟨@IsStrange.not_word c hc (ascii "value") (by decide),
          fun hmem => hstring t rfl ((mem_escapeText hc).1 hmem)⟩

theorem InstText.notMem_attrs {c : Byte} (hc : IsStrange c) (n : InstText) : c ∉ attrsText n.attrs := by
  have hname : c ∉ n.name := by
    intro hmem
    have hbyte := List.all_eq_true.1 n.name_bytes.2.2 c hmem
    rcases hc with rfl | rfl | rfl <;> revert hbyte <;> decide
  apply byte_notMem_attrs hc.not_blank n.attrs_wf
  intro a ha
  simp only [attrs, List.mem_cons, List.not_mem_nil, or_false] at ha
  rcases ha with rfl | rfl
  · exact ⟨@IsStrange.not_word c hc (ascii "op") (by decide), hname⟩
  · exact ⟨@IsStrange.not_word c hc (ascii "a") (by decide), hc.not_numeral n.operand⟩

theorem constHead_open (i : Nat) : openParen ∉ constHead i := by
  rw [constHead, List.mem_append, not_or]
  exact ⟨by decide, IsStrange.not_numeral (.inr (.inl rfl)) i⟩

theorem instHead_open (i : Nat) : openParen ∉ instHead i := by
  rw [instHead, List.mem_append, not_or]
  exact ⟨by decide, IsStrange.not_numeral (.inr (.inl rfl)) i⟩

/-- A letter that is not in the words of the heads. -/
theorem notMem_head {c : Byte} {word : Text} (i : Nat) (hnumeral : isNumeralByte c = false) (hword : c ∉ word) :
    c ∉ word ++ numeral i := by
  intro hmem
  rcases List.mem_append.1 hmem with hmem | hmem
  · exact hword hmem
  · have hbyte := (numeral_bytes i).2 c hmem
    rw [hnumeral] at hbyte
    cases hbyte

end Aivm
