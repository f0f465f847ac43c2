import Aivm.Compiler.BytecodeSearch

/-!
# Bytecode text parses back

A text that the parser accepts gives the constants and instructions that it was written from, unless a string has a
closing parenthesis or an entry for the search for instructions, or an integer is out of range.
-/

namespace Aivm

variable {strtod : Text → Option UInt64} {attrs : Text} {entries : List Text} {d d' : Draft}

/-! ## What the parser accepts -/

/-- The constants of entries; `count` constants stand before them. -/
def entryLiterals (strtod : Text → Option UInt64) : Nat → List Text → Option (List Literal)
  | _, [] => some []
  | count, attrs :: entries => do
      let c ← entryConstant strtod count attrs
      let literals ← entryLiterals strtod (count + 1) entries
      return c :: literals

/-- An entry that is allowed without the legacy fields. -/
structure EntryPlain (attrs : Text) : Prop where
  opcode : (entryOpcode attrs).isSome
  target : hasTarget attrs = false
  noB : hasAttrKey attrs "b" = false

/-- The instruction entries are found, well formed, and find room. -/
structure InstsAdmitted (source : Text) : Prop where
  complete : (instEntries source).2 = true
  any : (instEntries source).1 ≠ []
  plain : ∀ attrs ∈ (instEntries source).1, EntryPlain attrs
  room : (instEntries source).1.length ≤ programInlineInstructions

/-- The entries that the searches find are well formed and find room. -/
structure Admitted (strtod : Text → Option UInt64) (source : Text) : Prop where
  bytecode : (strstr (ascii "Bytecode#") source).isSome
  constants : (constEntries source).2 = true ∧ ∃ literals,
    entryLiterals strtod 0 (constEntries source).1 = some literals ∧ literals.length ≤ programInlineConstants ∧
      (literals.map Literal.textSize).sum ≤ programMaxStringBytes
  instructions : InstsAdmitted source

/-- The instruction of an entry. -/
def entryInstruction (attrs : Text) : Option Instruction :=
  (entryOpcode attrs).map fun opcode => ⟨opcode, entryOperand attrs⟩

theorem Draft.addConstant_room {l : Literal} (hcount : d.constants.length < programInlineConstants)
    (hsize : (d.constants.map Literal.textSize).sum + l.textSize ≤ programMaxStringBytes) :
    ∃ d', d.addConstant l = some d' ∧ d'.constants = d.constants ++ [l] ∧ d'.instructions = d.instructions :=
  ⟨_, dif_pos ⟨hcount, hsize⟩, rfl, rfl⟩

/-- Constants are stored behind the others. -/
theorem storeConstEntries_some : ∀ {entries : List Text} {d d' : Draft}, storeConstEntries strtod entries d = some d' →
    d'.instructions = d.instructions ∧ ∃ literals, entryLiterals strtod d.constants.length entries = some literals ∧
      d'.constants = d.constants ++ literals := by
  intro entries
  induction entries with
  | nil =>
      intro d d' h
      cases h
      exact ⟨rfl, [], rfl, by simp⟩
  | cons attrs entries ih =>
      intro d d' h
      simp only [storeConstEntries, Option.bind_eq_bind, Option.bind_eq_some_iff] at h
      obtain ⟨c, hc, added, hadded, h⟩ := h
      rw [Draft.addConstant] at hadded
      split at hadded
      · cases hadded
        obtain ⟨hinstructions, literals, hliterals, hconstants⟩ := ih h
        simp only [List.length_append, List.length_singleton] at hliterals
        refine ⟨hinstructions, c :: literals, ?_, ?_⟩
        · simp [entryLiterals, hc, hliterals]
        · simpa using hconstants
      · cases hadded

/-- Well-formed constants are stored when they find room. -/
theorem storeConstEntries_room : ∀ {entries : List Text} {d : Draft} {literals : List Literal},
    entryLiterals strtod d.constants.length entries = some literals →
    d.constants.length + literals.length ≤ programInlineConstants →
    (d.constants.map Literal.textSize).sum + (literals.map Literal.textSize).sum ≤ programMaxStringBytes →
    (storeConstEntries strtod entries d).isSome := by
  intro entries
  induction entries with
  | nil =>
      intro d literals _ _ _
      rfl
  | cons attrs entries ih =>
      intro d literals hliterals hcount hsize
      simp only [entryLiterals, Option.bind_eq_bind, Option.bind_eq_some_iff, Option.pure_def,
        Option.some.injEq] at hliterals
      obtain ⟨c, hc, rest, hrest, rfl⟩ := hliterals
      rw [List.length_cons] at hcount
      rw [List.map_cons, List.sum_cons] at hsize
      obtain ⟨added, hadded, hconstants, -⟩ := @Draft.addConstant_room d c (by omega) (by omega)
      simp only [storeConstEntries, hc, hadded, Option.bind_eq_bind, Option.bind_some]
      apply @ih added rest
      · rw [hconstants, List.length_append]
        exact hrest
      · rw [hconstants, List.length_append, List.length_singleton]
        omega
      · rw [hconstants, List.map_append, List.sum_append, List.map_singleton, List.sum_singleton]
        omega

/-- One entry is stored behind the others, or rejected. -/
theorem parseInstEntry_new (attrs : Text) (d : Draft) :
    (∃ d', parseInstEntry false attrs d = .program d' ∧ EntryPlain attrs ∧
      d.instructions.length < programInlineInstructions ∧ d'.constants = d.constants ∧
      d'.instructions = d.instructions ++ [attrs].filterMap entryInstruction) ∨
    (parseInstEntry false attrs d = .rejected ∧
      ¬ (EntryPlain attrs ∧ d.instructions.length < programInlineInstructions)) := by
  rw [parseInstEntry, ← entryOpcode]
  by_cases hroom : programInlineInstructions ≤ d.instructions.length
  · right
    exact ⟨if_pos hroom, fun h => absurd h.2 (by omega)⟩
  · rw [if_neg hroom]
    cases hopcode : entryOpcode attrs with
    | none =>
        right
        exact ⟨rfl, fun h => by simpa [hopcode] using h.1.opcode⟩
    | some opcode =>
        simp only [entryTarget]
        cases htarget : attrSpan attrs "s" 512 with
        | some target =>
            right
            exact ⟨by simp, fun h => by simpa [hasTarget, htarget] using h.1.target⟩
        | none =>
            simp only
            by_cases hzero : entryZeroB false attrs = true
            · left
              obtain ⟨d', hemit, hinstructions, hconstants⟩ :=
                Draft.emit_of_lt (d := d) (by omega) opcode (entryOperand attrs)
              rw [entryOperand] at hemit
              refine ⟨d', by simp [hzero, hemit], ⟨by simp [hopcode], by simp [hasTarget, htarget], ?_⟩, by omega,
                hconstants, ?_⟩
              · simpa [entryZeroB] using hzero
              · simp [hinstructions, entryInstruction, hopcode]
            · right
              refine ⟨by simp [hzero], fun h => hzero ?_⟩
              simp [entryZeroB, h.1.noB]

/-- Entries are stored behind the others, or rejected. -/
theorem storeInstEntries_new : ∀ (entries : List Text) (d : Draft),
    (∃ d', storeInstEntries false entries d = .program d' ∧ (∀ attrs ∈ entries, EntryPlain attrs) ∧
      d.instructions.length + entries.length ≤ programInlineInstructions ∧ d'.constants = d.constants ∧
      d'.instructions = d.instructions ++ entries.filterMap entryInstruction) ∨
    (storeInstEntries false entries d = .rejected ∧ ¬ ((∀ attrs ∈ entries, EntryPlain attrs) ∧
      d.instructions.length + entries.length ≤ programInlineInstructions)) := by
  intro entries
  induction entries with
  | nil =>
      intro d
      left
      exact ⟨d, rfl, by simp, d.instructions_fit, rfl, by simp⟩
  | cons attrs entries ih =>
      intro d
      rw [storeInstEntries]
      rcases parseInstEntry_new attrs d with ⟨m, hparse, hplain, hroom, hconstants, hinstructions⟩ | ⟨hparse, hnot⟩
      · have hone : ([attrs].filterMap entryInstruction).length = 1 := by
          obtain ⟨opcode, hopcode⟩ := Option.isSome_iff_exists.1 hplain.opcode
          simp [entryInstruction, hopcode]
        have hlength : m.instructions.length = d.instructions.length + 1 := by
          rw [hinstructions, List.length_append, hone]
        simp only [hparse]
        rcases ih m with ⟨d', hstore, hrest, hfit, hconstants', hinstructions'⟩ | ⟨hstore, hnot⟩
        · left
          refine ⟨d', hstore, ?_, ?_, hconstants'.trans hconstants, ?_⟩
          · intro e he
            rcases List.mem_cons.1 he with rfl | he
            · exact hplain
            · exact hrest e he
          · rw [List.length_cons]
            omega
          · rw [hinstructions', hinstructions, List.append_assoc, ← List.filterMap_append, List.singleton_append]
        · right
          refine ⟨hstore, fun h => hnot ⟨fun e he => h.1 e (List.mem_cons_of_mem _ he), ?_⟩⟩
          have hfit := h.2
          rw [List.length_cons] at hfit
          omega
      · right
        refine ⟨by simp [hparse], fun h => hnot ⟨h.1 attrs List.mem_cons_self, ?_⟩⟩
        have hfit := h.2
        rw [List.length_cons] at hfit
        omega

theorem length_entryInstructions (h : ∀ attrs ∈ entries, EntryPlain attrs) :
    (entries.filterMap entryInstruction).length = entries.length := by
  induction entries with
  | nil => rfl
  | cons attrs entries ih =>
      obtain ⟨opcode, hopcode⟩ := Option.isSome_iff_exists.1 (h attrs List.mem_cons_self).opcode
      have hone : entryInstruction attrs = some ⟨opcode, entryOperand attrs⟩ := by rw [entryInstruction, hopcode]; rfl
      rw [List.filterMap_cons_some hone, List.length_cons, List.length_cons,
        ih fun e he => h e (List.mem_cons_of_mem _ he)]

/-- The loop over the instructions stores them all, or rejects the text. -/
theorem parseInstEntries_new (source : Text) {c : Draft} (hc : c.instructions = []) :
    (∃ d, parseInstEntries false (source.length + 1) source c = .program d ∧ InstsAdmitted source ∧
      d.constants = c.constants ∧ d.instructions = (instEntries source).1.filterMap entryInstruction) ∨
    (parseInstEntries false (source.length + 1) source c = .rejected ∧ ¬ InstsAdmitted source) := by
  rw [parseInstEntries_eq, ← instEntries]
  rcases storeInstEntries_new (instEntries source).1 c with
    ⟨d, hstore, hplain, hfit, hsame, hinstructions⟩ | ⟨hstore, hnot⟩
  · rw [hc, List.nil_append] at hinstructions
    rw [hc, List.length_nil, Nat.zero_add] at hfit
    have hlength : d.instructions.length = (instEntries source).1.length := by
      rw [hinstructions, length_entryInstructions hplain]
    rw [hstore, AosResult.finish]
    by_cases hdone : (instEntries source).2 = true ∧ 0 < d.instructions.length
    · left
      exact ⟨d, if_pos hdone, ⟨hdone.1, List.ne_nil_of_length_pos (hlength ▸ hdone.2), hplain, hfit⟩, hsame,
        hinstructions⟩
    · right
      refine ⟨if_neg hdone, fun h => hdone ⟨h.complete, ?_⟩⟩
      rw [hlength]
      exact List.length_pos_of_ne_nil h.any
  · right
    refine ⟨by rw [hstore]; rfl, fun h => hnot ⟨h.plain, ?_⟩⟩
    rw [hc, List.length_nil, Nat.zero_add]
    exact h.room

/-- What an accepted text becomes. -/
structure ParsedAs (strtod : Text → Option UInt64) (source : Text) (d : Draft) : Prop where
  constants : entryLiterals strtod 0 (constEntries source).1 = some d.constants
  instructions : d.instructions = (instEntries source).1.filterMap entryInstruction

/-- A text is accepted if it is admitted, and rejected otherwise. -/
theorem parseBytecodeAos_new (strtod : Text → Option UInt64) (source : Text) :
    (∃ d, parseBytecodeAos strtod source false = .program d ∧ Admitted strtod source ∧ ParsedAs strtod source d) ∨
    (parseBytecodeAos strtod source false = .rejected ∧ ¬ Admitted strtod source) := by
  rw [parseBytecodeAos, parseConstEntries_eq, ← constEntries]
  by_cases hmarker : (strstr (ascii "Bytecode#") source).isSome
  swap
  · right
    exact ⟨by simp_all, fun h => hmarker h.bytecode⟩
  by_cases hcomplete : (constEntries source).2 = true
  swap
  · right
    exact ⟨by simp_all, fun h => hcomplete h.constants.1⟩
  have hpresent : ¬ (strstr (ascii "Bytecode#") source).isNone = true := by
    rw [Option.isNone_iff_eq_none, ← Option.not_isSome_iff_eq_none, not_not]
    exact hmarker
  rw [if_neg hpresent, if_pos hcomplete]
  cases hconst : storeConstEntries strtod (constEntries source).1 .empty with
  | none =>
      right
      refine ⟨rfl, fun h => ?_⟩
      obtain ⟨-, literals, hliterals, hcount, hsize⟩ := h.constants
      have hstored := storeConstEntries_room (d := .empty) hliterals (by simpa [Draft.empty] using hcount)
        (by simpa [Draft.empty] using hsize)
      rw [hconst] at hstored
      cases hstored
  | some c =>
      obtain ⟨hnone, literals, hliterals, hconstants⟩ := storeConstEntries_some hconst
      have hc : c.constants = literals := by simpa [Draft.empty] using hconstants
      have hempty : c.instructions = [] := by simpa [Draft.empty] using hnone
      rcases parseInstEntries_new source hempty with ⟨d, hparse, hadmitted, hsame, hinstructions⟩ | ⟨hparse, hnot⟩
      · left
        refine ⟨d, hparse, ⟨hmarker, ⟨hcomplete, literals, hliterals, ?_, ?_⟩, hadmitted⟩, ?_, hinstructions⟩
        · exact hc ▸ c.constants_fit
        · exact hc ▸ c.strings_fit
        · rw [hsame, hc]
          exact hliterals
      · right
        exact ⟨hparse, fun h => hnot h.instructions⟩

/-! ## What is read of one entry -/

/-- The literal is the constant that is written. -/
inductive ConstValue.Copied : ConstValue → Literal → Prop
  | int (v : Operand) : Copied (.int v.1) (.int v)
  | bool (b : Bool) : Copied (.bool b) (.bool b)
  | null : Copied .null .null
  | void : Copied .void .void
  | string (text : CText) : Copied (.string text) (.string text)

/-- The instruction is the one that is written. -/
structure InstText.Copied (n : InstText) (i : Instruction) : Prop where
  opcode : i.opcode = n.opcode
  operand : i.operandInt = n.operand

theorem attrSpan_found {list : List TextAttr} {a : TextAttr} (hwf : AttrsWf list) (ha : a ∈ list) {key : String}
    (hkey : a.key = ascii key) (outLen : Nat) :
    attrSpan (attrsText list) key outLen = if outLen < a.value.raw.length + 1 then none else some a.value.raw := by
  obtain ⟨start, hstart, hspan⟩ := Option.map_eq_some_iff.1 (attrValue_found hwf ha)
  rw [attrSpan_eq, keySpan, ← hkey, hstart]
  simp only [Option.bind_eq_bind, Option.bind_some, hspan]

theorem attrSpan_absent {list : List TextAttr} (hwf : AttrsWf list) {key : String} (hkey : IsKey (ascii key))
    (habsent : ∀ a ∈ list, a.key ≠ ascii key) (outLen : Nat) : attrSpan (attrsText list) key outLen = none := by
  rw [attrSpan_eq, keySpan, attrValueStart_absent hkey hwf habsent]
  rfl

theorem ofBuffer_self (t : CText) : CText.ofBuffer t.1 = t := by
  apply Subtype.ext
  rw [CText.ofBuffer, List.takeWhile_eq_self_iff]
  intro b hb
  have hne : b ≠ 0 := fun heq => t.2 (heq ▸ hb)
  simpa using hne

def ConstValue.kind : ConstValue → Text
  | .int _ => ascii "int"
  | .bool _ => ascii "bool"
  | .null => ascii "null"
  | .void => ascii "void"
  | .string _ => ascii "string"

theorem ConstValue.kindSpan (c : ConstValue) : attrSpan (attrsText c.attrs) "kind" 32 = some c.kind := by
  have hmem : ⟨[], ascii "kind", .bare c.kind⟩ ∈ c.attrs := by cases c <;> simp [attrs, kind]
  have hlength : ¬ 32 < c.kind.length + 1 := by cases c <;> simp only [kind] <;> decide
  rw [attrSpan_found c.attrs_wf hmem rfl]
  exact if_neg hlength

theorem ConstValue.valueSpan {c : ConstValue} {v : TextValue} (hmem : ⟨[32], ascii "value", v⟩ ∈ c.attrs) {outLen : Nat}
    {raw : Text} (h : attrSpan (attrsText c.attrs) "value" outLen = some raw) : raw = v.raw := by
  rw [attrSpan_found c.attrs_wf hmem rfl] at h
  split_ifs at h
  exact (Option.some.inj h).symm

/-- An entry that is written for a constant gives that constant, if any. -/
theorem ConstValue.copied {c : ConstValue} {count : Nat} {l : Literal} (hint : ∀ i, c = .int i → ByteReader.IsI64 i)
    (h : entryConstant strtod count (attrsText c.attrs) = some l) : c.Copied l := by
  rw [entryConstant, c.kindSpan] at h
  simp only [Option.bind_eq_bind, Option.bind_some] at h
  cases c with
  | int i =>
      have hkind : ascii "int" ≠ ascii "number" := by decide
      simp only [kind, hkind, true_or, if_true, if_false] at h
      cases hvalue : attrInt64 (attrsText (ConstValue.int i).attrs) "value" with
      | none => simp [hvalue] at h
      | some v =>
          rw [attrInt64, Option.bind_eq_bind, Option.bind_eq_some_iff] at hvalue
          obtain ⟨raw, hraw, hv⟩ := hvalue
          rw [attrInt64, hraw, Option.bind_eq_bind, Option.bind_some, hv] at h
          cases h
          rw [valueSpan (v := .bare (numeral i)) (by simp [attrs]) hraw, TextValue.raw, strtoll_eq,
            readNumeral_numeral] at hv
          cases hv
          have hi : i = (Operand.clamp i).1 := (Operand.clamp_of_isI64 (hint i rfl)).symm
          have hcopied := ConstValue.Copied.int (Operand.clamp i)
          rwa [← hi] at hcopied
  | bool b =>
      have hkind : ascii "bool" ≠ ascii "int" ∧ ascii "bool" ≠ ascii "number" := by decide
      have hfalse : ascii "false" ≠ ascii "true" := by decide
      simp only [kind, hkind, or_self, if_true, if_false, Option.map_eq_some_iff] at h
      obtain ⟨v, hv, rfl⟩ := h
      rw [attrBool, Option.bind_eq_bind, Option.bind_eq_some_iff] at hv
      obtain ⟨raw, hraw, hv⟩ := hv
      rw [valueSpan (v := .bare (ascii (if b then "true" else "false"))) (by simp [attrs]) hraw] at hv
      cases b with
      | true =>
          simp only [TextValue.raw, if_true, Option.some.injEq] at hv
          exact hv ▸ .bool true
      | false =>
          simp only [TextValue.raw, Bool.false_eq_true, if_true, if_false, hfalse, Option.some.injEq] at hv
          exact hv ▸ .bool false
  | null =>
      have hkind : ascii "null" ≠ ascii "int" ∧ ascii "null" ≠ ascii "number" ∧ ascii "null" ≠ ascii "bool" ∧
          ascii "null" ≠ ascii "string" ∧ ascii "null" ≠ ascii "node" := by decide
      simp only [kind, hkind, or_self, if_true, if_false, Option.some.injEq] at h
      exact h ▸ .null
  | void =>
      have hkind : ascii "void" ≠ ascii "int" ∧ ascii "void" ≠ ascii "number" ∧ ascii "void" ≠ ascii "bool" ∧
          ascii "void" ≠ ascii "string" ∧ ascii "void" ≠ ascii "node" ∧ ascii "void" ≠ ascii "null" := by decide
      simp only [kind, hkind, or_self, if_true, if_false, Option.some.injEq] at h
      exact h ▸ .void
  | string t =>
      have hkind : ascii "string" ≠ ascii "int" ∧ ascii "string" ≠ ascii "number" ∧ ascii "string" ≠ ascii "bool" := by
        decide
      simp only [kind, hkind, or_self, if_true, if_false, Option.bind_eq_some_iff, Option.pure_def,
        Option.some.injEq] at h
      obtain ⟨raw, hraw, text, htext, rfl⟩ := h
      rw [valueSpan (v := .quoted t) (by simp [attrs]) hraw, TextValue.raw, unescapeString, unescapeText_escapeText,
        Option.bind_eq_bind, Option.bind_some] at htext
      split_ifs at htext
      rw [← Option.some.inj htext, ofBuffer_self]
      exact .string t

/-- An entry that is written for an instruction gives that instruction. -/
theorem InstText.copied (n : InstText) (hoperand : ByteReader.IsI64 n.operand) :
    ∃ i, entryInstruction (attrsText n.attrs) = some i ∧ n.Copied i := by
  have hwf := n.attrs_wf
  have hname := attrSpan_found hwf (a := ⟨[], ascii "op", .bare n.name⟩) (by simp [attrs]) rfl 64
  have hvalue := attrSpan_found hwf (a := ⟨[32], ascii "a", .bare (numeral n.operand)⟩) (by simp [attrs]) rfl 64
  have hnameLength := n.name_bytes.2.1
  have hvalueLength := length_numeral hoperand
  rw [TextValue.raw, if_neg (by omega)] at hname hvalue
  have hopcode : entryOpcode (attrsText n.attrs) = some n.opcode := by
    rw [entryOpcode, hname]
    exact n.known
  have hoperand : entryOperand (attrsText n.attrs) = Operand.clamp n.operand := by
    rw [entryOperand, attrInt64, hvalue, Option.bind_eq_bind, Option.bind_some, strtoll_eq, readNumeral_numeral]
    rfl
  refine ⟨⟨n.opcode, entryOperand (attrsText n.attrs)⟩, by rw [entryInstruction, hopcode]; rfl, rfl, ?_⟩
  rw [hoperand]
  exact Operand.clamp_of_isI64 ‹_›

/-! ## Bytecode text parses back -/

/-- The program has the constants and instructions that are written, in order. -/
structure BytecodeText.Copied (b : BytecodeText) (d : Draft) : Prop where
  constants : List.Forall₂ ConstValue.Copied b.constants d.constants
  instructions : List.Forall₂ InstText.Copied b.instructions d.instructions

/-- The text is rejected, or gives what it was written from. -/
structure BytecodeText.ParsesBack (strtod : Text → Option UInt64) (b : BytecodeText) : Prop where
  inBounds : parseBytecodeAos strtod b.render false ≠ .overrun
  copied : ∀ d, parseBytecodeAos strtod b.render false = .program d → b.Copied d

/-- No string has a closing parenthesis, or `Inst#` and an opening one behind it, and the integers are in range. -/
structure BytecodeText.Clean (b : BytecodeText) : Prop where
  strings : ∀ t, .string t ∈ b.constants → closeParen ∉ t.1
  noBait : ∀ c ∈ b.constants, c.baits = false
  ints : ∀ i, .int i ∈ b.constants → ByteReader.IsI64 i
  operands : ∀ n ∈ b.instructions, ByteReader.IsI64 n.operand

theorem bytecodeHead_skip {marker : Text} (hmarker : marker ≠ []) (hbrace : openBrace ∉ marker)
    (hnone : strstr marker bytecodeHead = none) (rest : Text) :
    searchEntries marker (bytecodeHead ++ openBrace :: rest) = searchEntries marker rest :=
  searchEntries_congr (strstr_skip hbrace hmarker hnone)

theorem BytecodeText.constEntries (b : BytecodeText) :
    Aivm.constEntries b.render = searchEntries (ascii "Const#") (constDecls b.instructions 0 b.constants) :=
  bytecodeHead_skip (by decide) (by decide) (by decide) _

theorem BytecodeText.instEntries (b : BytecodeText) :
    Aivm.instEntries b.render = searchEntries (ascii "Inst#") (constDecls b.instructions 0 b.constants) :=
  bytecodeHead_skip (by decide) (by decide) (by decide) _

theorem skipToken_suffix : ∀ (state : Option Bool) (text : Text), skipToken state text <:+ text := by
  intro state text
  induction text generalizing state with
  | nil => simp [skipToken]
  | cons b text ih =>
      cases state with
      | none =>
          rw [skipToken]
          split_ifs
          · exact List.suffix_refl _
          · exact (ih _).trans (List.suffix_cons b text)
          · exact (ih _).trans (List.suffix_cons b text)
      | some escaped =>
          rw [skipToken]
          split_ifs
          · exact (ih _).trans (List.suffix_cons b text)
          · exact (ih _).trans (List.suffix_cons b text)

theorem keyedValue_suffix {key p value : Text} (h : keyedValue key p = some value) : value <:+ p := by
  rw [keyedValue] at h
  split_ifs at h
  split at h
  · split_ifs at h
    rename_i b q heq _
    cases h
    have hq : b :: q <:+ p := heq ▸ (List.dropWhile_suffix _).trans (List.drop_suffix _ p)
    exact (List.dropWhile_suffix _).trans ((List.suffix_cons b q).trans hq)
  · cases h

/-- A value that is found stands in the list. -/
theorem attrValueStartFrom_suffix {key value : Text} : ∀ {fuel : Nat} {attrs : Text},
    attrValueStartFrom key fuel attrs = some value → value <:+ attrs := by
  intro fuel
  induction fuel with
  | zero =>
      intro attrs h
      cases h
  | succ fuel ih =>
      intro attrs h
      rw [attrValueStartFrom] at h
      split_ifs at h
      simp only at h
      split at h
      · rename_i hkeyed
        cases h
        exact (keyedValue_suffix hkeyed).trans (List.dropWhile_suffix _)
      · exact (ih h).trans ((skipToken_suffix _ _).trans (List.dropWhile_suffix _))

theorem quotedSpan_starts : ∀ (escaped : Bool) (text : Text), quotedSpan escaped text <+: text := by
  intro escaped text
  induction text generalizing escaped with
  | nil => simp [quotedSpan]
  | cons b text ih =>
      rw [quotedSpan]
      split_ifs
      · exact List.nil_prefix
      · exact List.cons_prefix_cons.2 ⟨rfl, ih _⟩

theorem valueSpan_subset {text : Text} : Aivm.valueSpan text ⊆ text := by
  cases text with
  | nil => simp [Aivm.valueSpan]
  | cons b text =>
      rw [Aivm.valueSpan]
      split_ifs
      · exact fun c hc => List.mem_cons_of_mem _ ((quotedSpan_starts _ _).subset hc)
      · exact (List.takeWhile_prefix _).subset

theorem attrSpan_subset {key : String} {outLen : Nat} {value : Text} (h : attrSpan attrs key outLen = some value) :
    value ⊆ attrs := by
  simp only [attrSpan, Option.bind_eq_bind, Option.bind_eq_some_iff] at h
  obtain ⟨start, hstart, h⟩ := h
  rw [attrValueStart] at hstart
  split_ifs at hstart h
  cases h
  exact fun b hb => (attrValueStartFrom_suffix hstart).subset (valueSpan_subset hb)

theorem unescapeByte_mem {e b : Byte} (h : unescapeByte e = some b) : b ∈ [10, 13, 9, quote, backslash] := by
  unfold unescapeByte at h
  split_ifs at h with hn hr ht hself <;> cases h
  · decide
  · decide
  · decide
  · rcases hself with rfl | rfl <;> decide

/-- Unescaping makes no strange bytes. -/
theorem unescapeText_strange {c : Byte} (hc : IsStrange c) {text : Text} : ∀ {out : Text},
    unescapeText text = some out → c ∉ text → c ∉ out := by
  have hbyte : c ∉ [10, 13, 9, quote, backslash] := by rcases hc with rfl | rfl | rfl <;> decide
  fun_induction unescapeText text with
  | case1 =>
      intro out h _
      cases h
      simp
  | case2 =>
      intro out h _
      cases h
  | case3 e rest ih =>
      intro out h htext
      simp only [Option.bind_eq_bind, Option.bind_eq_some_iff, Option.pure_def, Option.some.injEq] at h
      obtain ⟨b, hb, more, hmore, rfl⟩ := h
      simp only [List.mem_cons, not_or] at htext ⊢
      exact ⟨fun heq => hbyte (heq ▸ unescapeByte_mem hb), ih hmore htext.2.2⟩
  | case4 b rest hslash ih =>
      intro out h htext
      simp only [Option.bind_eq_bind, Option.bind_eq_some_iff, Option.pure_def, Option.some.injEq] at h
      obtain ⟨more, hmore, rfl⟩ := h
      simp only [List.mem_cons, not_or] at htext ⊢
      exact ⟨htext.1, ih hmore htext.2⟩

/-- A constant that is read has no closing parenthesis in its string. -/
theorem entryConstant_string {count : Nat} {t : CText} (hattrs : closeParen ∉ attrs)
    (h : entryConstant strtod count attrs = some (.string t)) : closeParen ∉ t.1 := by
  simp only [entryConstant, Option.bind_eq_bind, Option.bind_eq_some_iff] at h
  obtain ⟨kind, -, h⟩ := h
  split_ifs at h with hint hnumber hbool hstring hnode hnull hvoid
  · split at h
    · cases h
    · obtain ⟨v, -, hv⟩ := Option.map_eq_some_iff.1 h
      cases hv
  · split at h
    · cases h
    · cases h
  · obtain ⟨v, -, hv⟩ := Option.map_eq_some_iff.1 h
    cases hv
  · simp only [Option.bind_eq_some_iff, Option.pure_def, Option.some.injEq, Literal.string.injEq] at h
    obtain ⟨raw, hraw, out, hout, rfl⟩ := h
    simp only [unescapeString, Option.bind_eq_bind, Option.bind_eq_some_iff] at hout
    obtain ⟨text, htext, hout⟩ := hout
    split_ifs at hout
    cases hout
    intro hmem
    have hclean : closeParen ∉ raw := fun hmem => hattrs (attrSpan_subset hraw hmem)
    exact unescapeText_strange (.inl rfl) htext hclean ((List.takeWhile_prefix _).subset hmem)
  · cases h
  · cases h
  · cases h

theorem entryLiterals_strings : ∀ {entries : List Text} {count : Nat} {literals : List Literal},
    (∀ attrs ∈ entries, closeParen ∉ attrs) → entryLiterals strtod count entries = some literals →
    ∀ t, .string t ∈ literals → closeParen ∉ t.1 := by
  intro entries
  induction entries with
  | nil =>
      intro count literals _ h
      cases h
      simp
  | cons attrs entries ih =>
      intro count literals hattrs h t ht
      simp only [entryLiterals, Option.bind_eq_bind, Option.bind_eq_some_iff, Option.pure_def, Option.some.injEq] at h
      obtain ⟨c, hc, rest, hrest, rfl⟩ := h
      rcases List.mem_cons.1 ht with rfl | ht
      · exact entryConstant_string (hattrs attrs List.mem_cons_self) hc
      · exact ih (fun e he => hattrs e (List.mem_cons_of_mem _ he)) hrest t ht

/-- Entries that are written for constants give them. -/
theorem entryLiterals_copied : ∀ {consts : List ConstValue} {count : Nat} {literals : List Literal},
    (∀ i, .int i ∈ consts → ByteReader.IsI64 i) →
    entryLiterals strtod count (consts.map fun c => attrsText c.attrs) = some literals →
    List.Forall₂ ConstValue.Copied consts literals := by
  intro consts
  induction consts with
  | nil =>
      intro count literals _ h
      cases h
      exact .nil
  | cons c consts ih =>
      intro count literals hints h
      simp only [List.map_cons, entryLiterals, Option.bind_eq_bind, Option.bind_eq_some_iff, Option.pure_def,
        Option.some.injEq] at h
      obtain ⟨l, hl, rest, hrest, rfl⟩ := h
      exact .cons (ConstValue.copied (fun i hi => hints i (by simp [hi])) hl)
        (ih (fun i hi => hints i (List.mem_cons_of_mem _ hi)) hrest)

theorem entryInstructions_copied {insts : List InstText} (h : ∀ n ∈ insts, ByteReader.IsI64 n.operand) :
    List.Forall₂ InstText.Copied insts ((insts.map fun n => attrsText n.attrs).filterMap entryInstruction) := by
  induction insts with
  | nil => exact .nil
  | cons n insts ih =>
      obtain ⟨i, hi, hcopied⟩ := n.copied (h n List.mem_cons_self)
      rw [List.map_cons, List.filterMap_cons_some hi]
      exact .cons hcopied (ih fun m hm => h m (List.mem_cons_of_mem _ hm))

/-- Every part of a copy is the copy of something. -/
theorem forall₂_mem {α β : Type} {R : α → β → Prop} {l : List α} {m : List β} (h : List.Forall₂ R l m) :
    ∀ a ∈ l, ∃ b ∈ m, R a b := by
  induction h with
  | nil => simp
  | cons hR _ ih =>
      intro a ha
      rcases List.mem_cons.1 ha with rfl | ha
      · exact ⟨_, List.mem_cons_self, hR⟩
      · obtain ⟨b, hb, hab⟩ := ih a ha
        exact ⟨b, List.mem_cons_of_mem _ hb, hab⟩

/-- The entries of a text without closing parentheses in strings: the constants, some entries in strings, and the
instructions. -/
theorem BytecodeText.found {b : BytecodeText} (hadmitted : Admitted strtod b.render)
    (hstrings : ∀ t, .string t ∈ b.constants → closeParen ∉ t.1) :
    (Aivm.constEntries b.render).1 = b.constants.map (fun c => attrsText c.attrs) ∧
    ∃ strange, (Aivm.instEntries b.render).1 = strange ++ b.instructions.map (fun n => attrsText n.attrs) ∧
      strange.length = b.constants.countP ConstValue.baits := by
  have hconst := hadmitted.constants.1
  have hinst := hadmitted.instructions
  constructor
  · rw [b.constEntries] at hconst ⊢
    exact constEntries_constDecls hstrings hconst
  · have hcomplete := hinst.complete
    have hopcodes := fun attrs hattrs => (hinst.plain attrs hattrs).opcode
    rw [b.instEntries] at hcomplete hopcodes ⊢
    exact instEntries_constDecls hstrings hcomplete hopcodes

/-- The program is a copy exactly when the text is clean. -/
theorem BytecodeText.copied_iff {b : BytecodeText} (hadmitted : Admitted strtod b.render)
    (hparsed : ParsedAs strtod b.render d) : b.Copied d ↔ b.Clean := by
  constructor
  · intro h
    have hstrings : ∀ t, .string t ∈ b.constants → closeParen ∉ t.1 := by
      intro t ht
      obtain ⟨l, hl, hcopied⟩ := forall₂_mem h.constants _ ht
      cases hcopied
      exact entryLiterals_strings (@entriesFrom_attrs (ascii "Const#") _ _) hparsed.constants t hl
    obtain ⟨-, strange, hentries, hlength⟩ := BytecodeText.found hadmitted hstrings
    refine ⟨hstrings, ?_, ?_, ?_⟩
    · -- an entry in a string would be one instruction too many
      have htotal := h.instructions.length_eq
      rw [hparsed.instructions, length_entryInstructions hadmitted.instructions.plain, hentries, List.length_append,
        List.length_map, hlength] at htotal
      have hnone : b.constants.countP ConstValue.baits = 0 := by omega
      intro c hc
      simpa using List.countP_eq_zero.1 hnone c hc
    · intro i hi
      obtain ⟨l, -, hcopied⟩ := forall₂_mem h.constants _ hi
      cases hcopied with
      | int v => exact v.2
    · intro n hn
      obtain ⟨i, hi, hcopied⟩ := forall₂_mem h.instructions n hn
      exact hcopied.operand ▸ d.instructions_wf i hi
  · intro h
    obtain ⟨hconsts, strange, hentries, hlength⟩ := BytecodeText.found hadmitted h.strings
    have hnone : strange = [] := by
      rw [List.countP_eq_zero.2 fun c hc => by simp [h.noBait c hc]] at hlength
      exact List.length_eq_zero_iff.1 hlength
    constructor
    · have hliterals := hparsed.constants
      rw [hconsts] at hliterals
      exact entryLiterals_copied h.ints hliterals
    · rw [hparsed.instructions, hentries, hnone, List.nil_append]
      exact entryInstructions_copied h.operands

/-- An admitted text parses back exactly when it is clean. -/
theorem bytecode_parses_back_iff (strtod : Text → Option UInt64) (b : BytecodeText) :
    b.ParsesBack strtod ↔ (Admitted strtod b.render → b.Clean) := by
  rcases parseBytecodeAos_new strtod b.render with ⟨d, hparse, hadmitted, hparsed⟩ | ⟨hparse, hnot⟩
  · constructor
    · intro h _
      exact (BytecodeText.copied_iff hadmitted hparsed).1 (h.copied d hparse)
    · intro h
      refine ⟨by simp [hparse], fun other hother => ?_⟩
      rw [hparse] at hother
      cases hother
      exact (BytecodeText.copied_iff hadmitted hparsed).2 (h hadmitted)
  · constructor
    · intro _ h
      exact absurd h hnot
    · intro _
      exact ⟨by simp [hparse], by simp [hparse]⟩

/-- A string constant `a)` and the instruction `HALT`. -/
def closedString : BytecodeText :=
  ⟨[.string ⟨ascii "a)", by decide⟩], [⟨ascii "HALT", .halt, 0, by decide⟩]⟩

def AosResult.constants : AosResult → List Literal
  | .program d => d.constants
  | _ => []

/-- The string `a)` becomes `a`. -/
theorem shortened_string : ¬ ∀ b, BytecodeText.ParsesBack (fun _ => none) b := by
  intro hall
  have hread : (parseBytecodeAos (fun _ => none) closedString.render false).constants =
      [.string ⟨ascii "a", by decide⟩] := by
    decide +kernel
  cases hparse : parseBytecodeAos (fun _ => none) closedString.render false with
  | program d =>
      rw [hparse, AosResult.constants] at hread
      have hcopied := ((hall closedString).copied d hparse).constants
      rw [hread, closedString] at hcopied
      cases hcopied with
      | cons hcopied _ => cases hcopied
  | rejected =>
      rw [hparse] at hread
      cases hread
  | overrun =>
      rw [hparse] at hread
      cases hread

end Aivm
