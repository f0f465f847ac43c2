import Aivm.Compiler.Entries

/-!
# Legacy targets of system calls

An entry with an `s=` target becomes two instructions. The capacity is checked once for both, and the operands of jumps
and calls are stored as they stand in the text. So the program is as written only where no target is stored into the last
slot and none stands before the entry that a jump leads to.
-/

namespace Aivm

variable {attrs : Text} {entries : List Text} {c c' d d' : Draft}

/-! ## Entries -/

/-- The entry carries an `s=` target. -/
def hasTarget (attrs : Text) : Bool := (attrSpan attrs "s" 512).isSome

/-- How many instructions an entry becomes. -/
def entrySize (attrs : Text) : Nat := if hasTarget attrs then 2 else 1

/-- Where an entry begins in the program. -/
def entryStart (entries : List Text) (index : Nat) : Nat := ((entries.take index).map entrySize).sum

def entryOpcode (attrs : Text) : Option Opcode := (attrSpan attrs "op" 64).bind opcodeFromText

/-- The operand that is stored. -/
def entryOperand (attrs : Text) : Operand := (attrInt64 attrs "a").getD (.ofNat 0)

/-- The operand that is written in the text. -/
def textOperand (attrs : Text) : Option Int :=
  (attrValueStart attrs (ascii "a")).bind fun value => readNumeral (valueSpan value)

/-- The opcodes whose operand is the index of an instruction. -/
def Opcode.isTransfer (o : Opcode) : Bool := o = .jump ∨ o = .jumpIfFalse ∨ o = .call ∨ o = .asyncCall

/-- The checks of an entry that do not depend on the entries before it. -/
structure EntryAllowed (attrs : Text) : Prop where
  opcode : (entryOpcode attrs).isSome
  target : hasTarget attrs → ∀ opcode, entryOpcode attrs = some opcode → opcode = .callSys ∨ opcode = .asyncCallSys
  zeroB : entryZeroB true attrs = true

/-- The constants with the target of an entry. -/
def Draft.addTarget (d : Draft) (attrs : Text) : Option Draft :=
  match attrSpan attrs "s" 512 with
  | none => some d
  | some target => (d.addString target).map Prod.fst

/-- The targets of these entries, one after the other. -/
def Draft.addTargets (d : Draft) (entries : List Text) : Option Draft := entries.foldlM Draft.addTarget d

/-! ## What an expansion should give -/

/-- In this program the transfers lead where the text says: the operand `k` to what the entry `k` has become. -/
def LeadsRight (entries : List Text) (instructions : List Instruction) : Prop :=
  ∀ (index : Nat) (attrs : Text) (opcode : Opcode) (k : Nat), entries[index]? = some attrs →
    entryOpcode attrs = some opcode → opcode.isTransfer = true → textOperand attrs = some (k : Int) →
    k < entries.length →
      ∃ target : Nat, instructions[entryStart entries index + entrySize attrs - 1]? = some ⟨opcode, target⟩ ∧
        entryStart entries k ≤ target ∧ target < entryStart entries (k + 1)

/-- No instruction is written behind the storage, and the transfers of an accepted text lead where it says. -/
structure ExpandsSafely (strtod : Text → Option UInt64) (source : Text) : Prop where
  inBounds : parseBytecodeAos strtod source true ≠ .overrun
  leads : ∀ d, parseBytecodeAos strtod source true = .program d → LeadsRight (instEntries source).1 d.instructions

/-! ## When it holds -/

/-- An allowed entry with a target follows allowed entries that leave one slot free. -/
def FillsUp (entries : List Text) (c : Draft) : Prop :=
  ∃ before attrs after, entries = before ++ attrs :: after ∧ (∀ e ∈ before ++ [attrs], EntryAllowed e) ∧
    (c.addTargets (before ++ [attrs])).isSome ∧ hasTarget attrs ∧
    (before.map entrySize).sum + 1 = programInlineInstructions

/-- The entries are all allowed and find room. -/
structure EntriesFit (entries : List Text) (c : Draft) : Prop where
  allowed : ∀ attrs ∈ entries, EntryAllowed attrs
  targets : (c.addTargets entries).isSome
  room : (entries.map entrySize).sum ≤ programInlineInstructions

/-- A transfer to an entry has no target before that entry, and its operand fits the buffer for numerals. -/
def TransfersUnmoved (entries : List Text) : Prop :=
  ∀ attrs ∈ entries, ∀ opcode, entryOpcode attrs = some opcode → opcode.isTransfer = true →
    ∀ k : Nat, textOperand attrs = some (k : Int) → 0 < k → k < entries.length →
      (attrSpan attrs "a" 64).isSome ∧ ∀ before ∈ entries.take k, hasTarget before = false

/-- The constants of a bytecode text. -/
def sourceConstants (strtod : Text → Option UInt64) (source : Text) : Option Draft :=
  if (strstr (ascii "Bytecode#") source).isSome ∧ (constEntries source).2 then
    storeConstEntries strtod (constEntries source).1 .empty
  else none

/-- No target is stored into the last slot; if all entries fit, the transfers are unmoved. -/
structure ExpansionHarmless (strtod : Text → Option UInt64) (source : Text) : Prop where
  lastSlot : ∀ c, sourceConstants strtod source = some c → ¬ FillsUp (instEntries source).1 c
  unmoved : ∀ c, sourceConstants strtod source = some c → (instEntries source).2 = true → (instEntries source).1 ≠ [] →
    EntriesFit (instEntries source).1 c → TransfersUnmoved (instEntries source).1

/-! ## Constants under two drafts -/

theorem Draft.addConstant_constants (h : d.constants = c.constants) (l : Literal) :
    (d.addConstant l).map Draft.constants = (c.addConstant l).map Draft.constants := by
  rw [addConstant, addConstant]
  simp only [h]
  split <;> simp

theorem Draft.addConstant_instructions {l : Literal} (h : d.addConstant l = some d') :
    d'.instructions = d.instructions := by
  rw [addConstant] at h
  split at h
  · cases h
    rfl
  · cases h

theorem Draft.addString_constants (h : d.constants = c.constants) (t : Text) :
    (d.addString t).map (fun r => (r.1.constants, r.2)) = (c.addString t).map fun r => (r.1.constants, r.2) := by
  have hadd := addConstant_constants h (.string (.ofBuffer t))
  rw [addString, addString, findConstant, findConstant, h]
  cases c.constants.findIdx? fun l => decide (l = .string (.ofBuffer t)) with
  | some index => simp [h]
  | none =>
      simp only
      cases hd : d.addConstant (.string (.ofBuffer t)) <;> cases hc : c.addConstant (.string (.ofBuffer t)) <;>
        simp_all

theorem Draft.addString_instructions {t : Text} {index : Nat} (h : d.addString t = some (d', index)) :
    d'.instructions = d.instructions := by
  rw [addString] at h
  cases hfind : d.findConstant (· = .string (.ofBuffer t)) with
  | some found =>
      simp only [hfind, Option.some.injEq, Prod.mk.injEq] at h
      rw [h.1]
  | none =>
      simp only [hfind, Option.bind_eq_bind, Option.bind_eq_some_iff] at h
      obtain ⟨added, hadded, h⟩ := h
      cases h
      exact addConstant_instructions hadded

/-! ## One entry -/

theorem Draft.emit_of_lt (h : d.instructions.length < programInlineInstructions) (opcode : Opcode) (operand : Operand) :
    ∃ d', d.emit opcode operand = some d' ∧ d'.instructions = d.instructions ++ [⟨opcode, operand⟩] ∧
      d'.constants = d.constants :=
  ⟨_, dif_pos h, rfl, rfl⟩

theorem Draft.emit_full (h : programInlineInstructions ≤ d.instructions.length) (opcode : Opcode) (operand : Operand) :
    d.emit opcode operand = none :=
  dif_neg (by omega)

/-- What an entry adds to the instructions: its own comes last. -/
structure EntryStored (attrs : Text) (d d' : Draft) : Prop where
  stored : ∃ opcode before, entryOpcode attrs = some opcode ∧ before.length + 1 = entrySize attrs ∧
    d'.instructions = d.instructions ++ (before ++ [⟨opcode, entryOperand attrs⟩])
  constants : (d.addTarget attrs).map Draft.constants = some d'.constants

theorem EntryStored.length (h : EntryStored attrs d d') :
    d'.instructions.length = d.instructions.length + entrySize attrs := by
  obtain ⟨opcode, before, -, hsize, hinstructions⟩ := h.stored
  rw [hinstructions, ← hsize, List.length_append, List.length_append, List.length_singleton]

theorem entryTarget_call {opcode : Opcode} {target : Text} (hspan : attrSpan attrs "s" 512 = some target)
    (h : opcode = .callSys ∨ opcode = .asyncCallSys) :
    entryTarget true opcode attrs d = (d.addString target).bind fun r => r.1.emit .const (.ofNat r.2) := by
  cases h with
  | inl h => simp [entryTarget, hspan, h]
  | inr h => simp [entryTarget, hspan, h]

theorem entryTarget_other {opcode : Opcode} {target : Text} (hspan : attrSpan attrs "s" 512 = some target)
    (h : ¬ (opcode = .callSys ∨ opcode = .asyncCallSys)) : entryTarget true opcode attrs d = none := by
  simp [entryTarget, hspan, not_or.1 h]

/-- The target of an allowed entry is refused, or stands before the instruction of the entry. -/
theorem entryTarget_allowed {opcode : Opcode} (hallowed : EntryAllowed attrs) (hopcode : entryOpcode attrs = some opcode)
    (hroom : d.instructions.length < programInlineInstructions) :
    (entryTarget true opcode attrs d = none ∧ d.addTarget attrs = none) ∨
    ∃ d' before, entryTarget true opcode attrs d = some d' ∧ before.length + 1 = entrySize attrs ∧
      d'.instructions = d.instructions ++ before ∧ (d.addTarget attrs).map Draft.constants = some d'.constants := by
  rw [Draft.addTarget]
  cases htarget : attrSpan attrs "s" 512 with
  | none =>
      exact .inr ⟨d, [], by simp [entryTarget, htarget], by simp [entrySize, hasTarget, htarget], by simp, rfl⟩
  | some target =>
      rw [entryTarget_call htarget (hallowed.target (by simp [hasTarget, htarget]) opcode hopcode)]
      cases hadd : d.addString target with
      | none => exact .inl ⟨rfl, by simp [hadd]⟩
      | some r =>
          obtain ⟨added, index⟩ := r
          have hsame := Draft.addString_instructions hadd
          obtain ⟨d', hemit, hinstructions, hconstants⟩ :=
            Draft.emit_of_lt (d := added) (by rwa [hsame]) .const (.ofNat index)
          refine .inr ⟨d', [⟨.const, Operand.ofNat index⟩], hemit, ?_, ?_, ?_⟩
          · simp [entrySize, hasTarget, htarget]
          · rw [hinstructions, hsame]
          · simp [hadd, hconstants]

/-- An entry that is not allowed is rejected. -/
theorem parseInstEntry_not_allowed (h : ¬ EntryAllowed attrs) : parseInstEntry true attrs d = .rejected := by
  rw [parseInstEntry, ← entryOpcode]
  by_cases hroom : programInlineInstructions ≤ d.instructions.length
  · rw [if_pos hroom]
  · rw [if_neg hroom]
    cases hopcode : entryOpcode attrs with
    | none => rfl
    | some opcode =>
        simp only
        cases htarget : entryTarget true opcode attrs d with
        | none => rfl
        | some d' =>
            simp only
            by_cases hzero : entryZeroB true attrs = true
            · exfalso
              apply h
              refine ⟨by simp [hopcode], ?_, hzero⟩
              intro hcarried other hother
              rw [hopcode, Option.some.injEq] at hother
              subst hother
              by_contra hcall
              rw [hasTarget, Option.isSome_iff_exists] at hcarried
              obtain ⟨target, hspan⟩ := hcarried
              rw [entryTarget_other hspan hcall] at htarget
              cases htarget
            · simp [hzero]

/-- An allowed entry is stored, overruns the storage, or is rejected for want of room. -/
theorem parseInstEntry_allowed (h : EntryAllowed attrs) :
    (∃ d', parseInstEntry true attrs d = .program d' ∧ EntryStored attrs d d' ∧
      d.instructions.length + entrySize attrs ≤ programInlineInstructions) ∨
    (parseInstEntry true attrs d = .overrun ∧ (d.addTarget attrs).isSome ∧ hasTarget attrs ∧
      d.instructions.length + 1 = programInlineInstructions) ∨
    (parseInstEntry true attrs d = .rejected ∧
      (d.addTarget attrs = none ∨ programInlineInstructions ≤ d.instructions.length)) := by
  obtain ⟨opcode, hopcode⟩ := Option.isSome_iff_exists.1 h.opcode
  rw [parseInstEntry, ← entryOpcode, hopcode]
  by_cases hroom : programInlineInstructions ≤ d.instructions.length
  · exact .inr (.inr ⟨if_pos hroom, .inr hroom⟩)
  · rw [if_neg hroom]
    simp only
    cases entryTarget_allowed (d := d) h hopcode (by omega) with
    | inl hnone => exact .inr (.inr ⟨by simp only [hnone.1], .inl hnone.2⟩)
    | inr hsome =>
        obtain ⟨added, before, htarget, hsize, hinstructions, hconstants⟩ := hsome
        have hlength : added.instructions.length + 1 = d.instructions.length + entrySize attrs := by
          rw [hinstructions, List.length_append]
          omega
        have hzero : ¬ ¬ entryZeroB true attrs = true := not_not.2 h.zeroB
        simp only [htarget, if_neg hzero]
        by_cases hlast : added.instructions.length < programInlineInstructions
        · obtain ⟨d', hemit, hstored, hkept⟩ := Draft.emit_of_lt hlast opcode (entryOperand attrs)
          refine .inl ⟨d', ?_, ⟨⟨opcode, before, hopcode, hsize, ?_⟩, ?_⟩, by omega⟩
          · rw [entryOperand] at hemit
            simp only [hemit]
          · rw [hstored, hinstructions, List.append_assoc]
          · rw [hconstants, hkept]
        · have hfull := added.instructions_fit
          have htwo : hasTarget attrs = true := by
            by_contra hone
            rw [entrySize, if_neg hone] at hlength
            omega
          rw [entrySize, if_pos htwo] at hlength
          refine .inr (.inl ⟨?_, ?_, htwo, by omega⟩)
          · simp only [Draft.emit_full (d := added) (by omega)]
          · cases hadd : d.addTarget attrs <;> simp [hadd] at hconstants ⊢

/-! ## All entries -/

theorem Draft.addTarget_constants (h : d.constants = c.constants) (attrs : Text) :
    (d.addTarget attrs).map Draft.constants = (c.addTarget attrs).map Draft.constants := by
  rw [addTarget, addTarget]
  cases attrSpan attrs "s" 512 with
  | none => simp [h]
  | some target =>
      have hadd := congrArg (Option.map Prod.fst) (addString_constants h target)
      simpa [Option.map_map, Function.comp_def] using hadd

theorem Draft.addTargets_cons (c : Draft) (attrs : Text) (entries : List Text) :
    c.addTargets (attrs :: entries) = (c.addTarget attrs).bind fun c' => c'.addTargets entries := rfl

theorem Draft.addTargets_append (c : Draft) (before after : List Text) :
    c.addTargets (before ++ after) = (c.addTargets before).bind fun c' => c'.addTargets after :=
  List.foldlM_append

/-- The constants behind a stored entry are those behind its target. -/
theorem EntryStored.target (h : EntryStored attrs d d') (hsame : d.constants = c.constants) :
    ∃ c', c.addTarget attrs = some c' ∧ d'.constants = c'.constants := by
  have hconstants := h.constants
  rw [Draft.addTarget_constants hsame, Option.map_eq_some_iff] at hconstants
  obtain ⟨c', hc', heq⟩ := hconstants
  exact ⟨c', hc', heq.symm⟩

theorem storeInstEntries_append (before after : List Text) (d : Draft) :
    storeInstEntries true (before ++ after) d = match storeInstEntries true before d with
      | .program d' => storeInstEntries true after d'
      | r => r := by
  induction before generalizing d with
  | nil => rfl
  | cons attrs before ih =>
      simp only [List.cons_append, storeInstEntries]
      cases parseInstEntry true attrs d with
      | program d' => exact ih d'
      | rejected => rfl
      | overrun => rfl

/-- Allowed entries that find room are stored. -/
theorem storeInstEntries_fit : ∀ {entries : List Text} {d c : Draft}, d.constants = c.constants →
    (∀ e ∈ entries, EntryAllowed e) → (c.addTargets entries).isSome →
    d.instructions.length + (entries.map entrySize).sum ≤ programInlineInstructions →
    ∃ d', storeInstEntries true entries d = .program d' := by
  intro entries
  induction entries with
  | nil =>
      intro d c _ _ _ _
      exact ⟨d, rfl⟩
  | cons attrs entries ih =>
      intro d c hsame hallowed htargets hroom
      rw [List.map_cons, List.sum_cons] at hroom
      rw [Draft.addTargets_cons] at htargets
      have hpos : 0 < entrySize attrs := by
        rw [entrySize]
        split <;> omega
      rcases parseInstEntry_allowed (d := d) (hallowed attrs List.mem_cons_self) with
        ⟨d', hparse, hstored, -⟩ | ⟨-, -, htarget, hlast⟩ | ⟨-, hnone | hfull⟩
      · obtain ⟨c', hc', hsame'⟩ := hstored.target hsame
        rw [hc', Option.bind_some] at htargets
        have hlength := hstored.length
        simp only [storeInstEntries, hparse]
        exact ih hsame' (fun e he => hallowed e (List.mem_cons_of_mem _ he)) htargets (by omega)
      · rw [entrySize, if_pos htarget] at hroom
        omega
      · have hconstants := Draft.addTarget_constants hsame attrs
        rw [hnone, Option.map_none] at hconstants
        rw [Option.map_eq_none_iff.1 hconstants.symm] at htargets
        cases htargets
      · omega

/-- What is known of a program that all entries have been stored into. -/
structure EntriesStored (entries : List Text) (d d' c : Draft) : Prop where
  allowed : ∀ e ∈ entries, EntryAllowed e
  targets : ∃ c', c.addTargets entries = some c' ∧ d'.constants = c'.constants
  length : d'.instructions.length = d.instructions.length + (entries.map entrySize).sum
  kept : d.instructions <+: d'.instructions
  stands : ∀ (index : Nat) (attrs : Text) (opcode : Opcode), entries[index]? = some attrs →
    entryOpcode attrs = some opcode →
      d'.instructions[d.instructions.length + entryStart entries index + entrySize attrs - 1]? =
        some ⟨opcode, entryOperand attrs⟩

theorem entryStart_succ (attrs : Text) (entries : List Text) (index : Nat) :
    entryStart (attrs :: entries) (index + 1) = entrySize attrs + entryStart entries index := by
  simp [entryStart]

theorem EntryStored.kept (h : EntryStored attrs d d') : d.instructions <+: d'.instructions := by
  obtain ⟨opcode, before, -, -, hinstructions⟩ := h.stored
  exact ⟨_, hinstructions.symm⟩

theorem EntryStored.stands (h : EntryStored attrs d d') {opcode : Opcode} (hopcode : entryOpcode attrs = some opcode) :
    d'.instructions[d.instructions.length + entrySize attrs - 1]? = some ⟨opcode, entryOperand attrs⟩ := by
  obtain ⟨other, before, hother, hsize, hinstructions⟩ := h.stored
  rw [hopcode, Option.some.injEq] at hother
  subst hother
  have hplace : d.instructions.length + entrySize attrs - 1 = (d.instructions ++ before).length := by
    rw [List.length_append]
    omega
  rw [hinstructions, hplace, ← List.append_assoc, List.getElem?_append_right (Nat.le_refl _), Nat.sub_self]
  rfl

theorem prefix_getElem {α : Type} {l l' : List α} {i : Nat} {a : α} (h : l <+: l') (hi : l[i]? = some a) :
    l'[i]? = some a := by
  obtain ⟨rest, rfl⟩ := h
  rw [List.getElem?_append_left (List.getElem?_eq_some_iff.1 hi).1, hi]

theorem storeInstEntries_program : ∀ {entries : List Text} {d d' c : Draft}, d.constants = c.constants →
    storeInstEntries true entries d = .program d' → EntriesStored entries d d' c := by
  intro entries
  induction entries with
  | nil =>
      intro d d' c hsame h
      cases h
      exact ⟨by simp, ⟨c, rfl, hsame⟩, by simp, List.prefix_refl _, by simp⟩
  | cons attrs entries ih =>
      intro d d' c hsame h
      simp only [storeInstEntries] at h
      by_cases hallowed : EntryAllowed attrs
      · rcases parseInstEntry_allowed (d := d) hallowed with ⟨m, hparse, hstored, -⟩ | ⟨hparse, -⟩ | ⟨hparse, -⟩
        · simp only [hparse] at h
          obtain ⟨c', hc', hsame'⟩ := hstored.target hsame
          have hrest := ih hsame' h
          have hlength := hstored.length
          constructor
          · intro e he
            cases List.mem_cons.1 he with
            | inl heq => exact heq ▸ hallowed
            | inr hin => exact hrest.allowed e hin
          · rw [Draft.addTargets_cons, hc', Option.bind_some]
            exact hrest.targets
          · rw [hrest.length, hlength, List.map_cons, List.sum_cons, Nat.add_assoc]
          · exact hstored.kept.trans hrest.kept
          · intro index other opcode hother hopcode
            cases index with
            | zero =>
                simp only [List.getElem?_cons_zero, Option.some.injEq] at hother
                subst hother
                have hstands := prefix_getElem hrest.kept (hstored.stands hopcode)
                simpa [entryStart] using hstands
            | succ index =>
                have hstands := hrest.stands index other opcode hother hopcode
                rwa [hlength, Nat.add_assoc d.instructions.length, ← entryStart_succ] at hstands
        · simp [hparse] at h
        · simp [hparse] at h
      · simp [parseInstEntry_not_allowed hallowed] at h

/-- The storage is overrun by a target in the last slot, and by nothing else. -/
theorem storeInstEntries_overrun : ∀ {entries : List Text} {d c : Draft}, d.constants = c.constants →
    storeInstEntries true entries d = .overrun → ∃ before attrs after, entries = before ++ attrs :: after ∧
      (∀ e ∈ before ++ [attrs], EntryAllowed e) ∧ (c.addTargets (before ++ [attrs])).isSome ∧ hasTarget attrs ∧
      d.instructions.length + (before.map entrySize).sum + 1 = programInlineInstructions := by
  intro entries
  induction entries with
  | nil =>
      intro d c _ h
      cases h
  | cons attrs entries ih =>
      intro d c hsame h
      simp only [storeInstEntries] at h
      by_cases hallowed : EntryAllowed attrs
      · rcases parseInstEntry_allowed (d := d) hallowed with
          ⟨m, hparse, hstored, -⟩ | ⟨-, htarget, hcarries, hlast⟩ | ⟨hparse, -⟩
        · simp only [hparse] at h
          obtain ⟨c', hc', hsame'⟩ := hstored.target hsame
          obtain ⟨before, last, after, rfl, hall, htargets, hcarries, hfull⟩ := ih hsame' h
          refine ⟨attrs :: before, last, after, rfl, ?_, ?_, hcarries, ?_⟩
          · intro e he
            cases List.mem_cons.1 he with
            | inl heq => exact heq ▸ hallowed
            | inr hin => exact hall e hin
          · rw [List.cons_append, Draft.addTargets_cons, hc', Option.bind_some]
            exact htargets
          · rw [hstored.length] at hfull
            rw [List.map_cons, List.sum_cons]
            omega
        · refine ⟨[], attrs, entries, rfl, by simpa using hallowed, ?_, hcarries, by simpa using hlast⟩
          have hconstants := Draft.addTarget_constants hsame attrs
          obtain ⟨d', hd'⟩ := Option.isSome_iff_exists.1 htarget
          rw [hd', Option.map_some] at hconstants
          obtain ⟨c', hc', -⟩ := Option.map_eq_some_iff.1 hconstants.symm
          simp [Draft.addTargets, hc']
        · simp [hparse] at h
      · simp [parseInstEntry_not_allowed hallowed] at h

/-! ## Places and operands -/

/-- Every target before an entry moves it by one. -/
theorem entryStart_eq : ∀ {entries : List Text} {k : Nat}, k ≤ entries.length →
    entryStart entries k = k + (entries.take k).countP hasTarget := by
  intro entries
  induction entries with
  | nil =>
      intro k h
      simp only [List.length_nil, Nat.le_zero] at h
      simp [h, entryStart]
  | cons attrs entries ih =>
      intro k h
      cases k with
      | zero => simp [entryStart]
      | succ k =>
          rw [List.length_cons] at h
          rw [entryStart_succ, ih (by omega), List.take_succ_cons, List.countP_cons, entrySize]
          split <;> omega

theorem entryStart_step {entries : List Text} {k : Nat} (h : k < entries.length) :
    k < entryStart entries (k + 1) := by
  rw [entryStart_eq h]
  omega

/-- A target stands at its entry only if no target was put before. -/
theorem entryStart_le_iff {entries : List Text} {k : Nat} (h : k ≤ entries.length) :
    entryStart entries k ≤ k ↔ ∀ before ∈ entries.take k, hasTarget before = false := by
  rw [entryStart_eq h]
  constructor
  · intro hle before hbefore
    have hnone := List.countP_eq_zero.1 (by omega : (entries.take k).countP hasTarget = 0) before hbefore
    simpa using hnone
  · intro hall
    have hzero : (entries.take k).countP hasTarget = 0 := by
      rw [List.countP_eq_zero]
      intro before hbefore
      simp [hall before hbefore]
    omega

/-- A numeral that is too long for the buffer is read as zero. -/
theorem entryOperand_eq {k : Int} (htext : textOperand attrs = some k) (hrange : ByteReader.IsI64 k) :
    (entryOperand attrs).1 = if (attrSpan attrs "a" 64).isSome then k else 0 := by
  rw [textOperand, Option.bind_eq_some_iff] at htext
  obtain ⟨value, hvalue, hnumeral⟩ := htext
  rw [entryOperand, attrInt64, attrSpan, hvalue]
  by_cases hlong : 64 ≤ (valueSpan value).length
  · have hzero : (Operand.ofNat 0).1 = 0 := by decide
    simp [hlong, hzero]
  · simp [hlong, strtoll_eq, hnumeral, Operand.clamp_of_isI64 hrange]

/-- Transfers lead right if they are unmoved, and only then. -/
theorem leadsRight_iff (hstored : EntriesStored entries d d' c) (hempty : d.instructions = []) :
    LeadsRight entries d'.instructions ↔ TransfersUnmoved entries := by
  have hroom : entries.length ≤ programInlineInstructions := by
    have hstart := entryStart_eq (Nat.le_refl entries.length)
    have hlength := hstored.length
    have hfit := d'.instructions_fit
    rw [hempty, List.length_nil] at hlength
    rw [entryStart, List.take_length] at hstart
    omega
  have hbound : programInlineInstructions < 2 ^ 63 := by decide
  have hoperand : ∀ {attrs : Text} {k : Nat}, textOperand attrs = some (k : Int) → k < entries.length →
      (entryOperand attrs).1 = if (attrSpan attrs "a" 64).isSome then (k : Int) else 0 :=
    fun htext hk => entryOperand_eq htext (by simp only [ByteReader.IsI64]; omega)
  have hstands := hstored.stands
  simp only [hempty, List.length_nil, Nat.zero_add] at hstands
  constructor
  · intro h attrs hattrs opcode hopcode htransfer k htext hpos hk
    obtain ⟨index, hindex⟩ := List.mem_iff_getElem?.1 hattrs
    obtain ⟨target, hinstruction, hfrom, -⟩ := h index attrs opcode k hindex hopcode htransfer htext hk
    rw [hstands index attrs opcode hindex hopcode, Option.some.injEq, Instruction.mk.injEq, hoperand htext hk]
      at hinstruction
    have hmoved := entryStart_eq (Nat.le_of_lt hk)
    by_cases hshort : (attrSpan attrs "a" 64).isSome
    · rw [if_pos hshort] at hinstruction
      exact ⟨hshort, (entryStart_le_iff (Nat.le_of_lt hk)).1 (by omega)⟩
    · rw [if_neg hshort] at hinstruction
      omega
  · intro h index attrs opcode k hindex hopcode htransfer htext hk
    have hinstruction := hstands index attrs opcode hindex hopcode
    have hnext := entryStart_step hk
    cases k with
    | zero =>
        have hzero : (entryOperand attrs).1 = ((0 : Nat) : Int) := by
          rw [hoperand htext hk]
          simp
        rw [hzero] at hinstruction
        exact ⟨0, hinstruction, by simp [entryStart], hnext⟩
    | succ k =>
        obtain ⟨hshort, hbefore⟩ := h attrs (List.mem_of_getElem? hindex) opcode hopcode htransfer _ htext
          (Nat.succ_pos k) hk
        rw [hoperand htext hk, if_pos hshort] at hinstruction
        exact ⟨k + 1, hinstruction, (entryStart_le_iff (Nat.le_of_lt hk)).2 hbefore, hnext⟩

/-! ## The whole text -/

theorem storeConstEntries_instructions {strtod : Text → Option UInt64} : ∀ {entries : List Text} {d d' : Draft},
    storeConstEntries strtod entries d = some d' → d'.instructions = d.instructions := by
  intro entries
  induction entries with
  | nil =>
      intro d d' h
      cases h
      rfl
  | cons attrs entries ih =>
      intro d d' h
      simp only [storeConstEntries, Option.bind_eq_bind, Option.bind_eq_some_iff] at h
      obtain ⟨l, -, m, hm, h⟩ := h
      rw [ih h, Draft.addConstant_instructions hm]

theorem sourceConstants_instructions {strtod : Text → Option UInt64} {source : Text}
    (h : sourceConstants strtod source = some c) : c.instructions = [] := by
  rw [sourceConstants] at h
  split at h
  · exact storeConstEntries_instructions h
  · cases h

/-- The constants first, then the instructions. -/
theorem parseBytecodeAos_eq (strtod : Text → Option UInt64) (source : Text) (legacy : Bool) :
    parseBytecodeAos strtod source legacy = match sourceConstants strtod source with
      | none => .rejected
      | some c => (storeInstEntries legacy (instEntries source).1 c).finish (instEntries source).2 := by
  rw [parseBytecodeAos, sourceConstants, parseConstEntries_eq, ← constEntries]
  cases hmarker : strstr (ascii "Bytecode#") source with
  | none => rfl
  | some found =>
      by_cases hend : (constEntries source).2
      · simp only [hend]
        cases hconstants : storeConstEntries strtod (constEntries source).1 .empty with
        | none => simp
        | some c => simp [parseInstEntries_eq, instEntries]
      · simp [hend]

theorem AosResult.finish_overrun {complete : Bool} {r : AosResult} : r.finish complete = .overrun ↔ r = .overrun := by
  cases r with
  | program d =>
      simp only [finish]
      split <;> simp
  | rejected => simp [finish]
  | overrun => simp [finish]

theorem AosResult.finish_program {complete : Bool} {r : AosResult} :
    r.finish complete = .program d ↔ r = .program d ∧ complete = true ∧ 0 < d.instructions.length := by
  cases r with
  | program other =>
      simp only [finish]
      split
      · rename_i h
        constructor
        · intro heq
          cases heq
          exact ⟨rfl, h⟩
        · exact And.left
      · rename_i h
        constructor
        · intro heq
          cases heq
        · rintro ⟨heq, hrest⟩
          cases heq
          exact absurd hrest h
  | rejected => simp [finish]
  | overrun => simp [finish]

theorem fillsUp_overruns (hempty : c.instructions = []) (h : FillsUp entries c) :
    storeInstEntries true entries c = .overrun := by
  obtain ⟨before, attrs, after, rfl, hallowed, htargets, hcarries, hfull⟩ := h
  rw [Draft.addTargets_append] at htargets
  cases hbefore : c.addTargets before with
  | none => simp [hbefore] at htargets
  | some m =>
      have hroom : c.instructions.length + (before.map entrySize).sum ≤ programInlineInstructions := by
        rw [hempty, List.length_nil]
        omega
      obtain ⟨d, hd⟩ := storeInstEntries_fit rfl (fun e he => hallowed e (List.mem_append_left _ he))
        (by simp [hbefore]) hroom
      have hstored := storeInstEntries_program (c := c) rfl hd
      have hlength := hstored.length
      rw [hempty, List.length_nil] at hlength
      obtain ⟨c', hc', hsame⟩ := hstored.targets
      rw [hc', Option.bind_some, Draft.addTargets_cons] at htargets
      simp only [storeInstEntries_append, hd, storeInstEntries]
      rcases parseInstEntry_allowed (d := d) (hallowed attrs (by simp)) with
        ⟨d', -, -, htoo⟩ | ⟨hparse, -⟩ | ⟨-, hnone | hno⟩
      · rw [entrySize, if_pos hcarries] at htoo
        omega
      · simp only [hparse]
      · have hconstants := Draft.addTarget_constants hsame attrs
        rw [hnone, Option.map_none] at hconstants
        rw [Option.map_eq_none_iff.1 hconstants.symm] at htargets
        cases htargets
      · omega

variable {strtod : Text → Option UInt64} {source : Text}

/-- The storage is overrun where a target fills it up, and only there. -/
theorem overrun_iff : parseBytecodeAos strtod source true = .overrun ↔
    ∃ c, sourceConstants strtod source = some c ∧ FillsUp (instEntries source).1 c := by
  rw [parseBytecodeAos_eq]
  cases hconstants : sourceConstants strtod source with
  | none => simp
  | some c =>
      have hempty := sourceConstants_instructions hconstants
      simp only [AosResult.finish_overrun, Option.some.injEq, exists_eq_left']
      constructor
      · intro h
        have hover := storeInstEntries_overrun (c := c) rfl h
        simp only [hempty, List.length_nil, Nat.zero_add] at hover
        exact hover
      · exact fillsUp_overruns hempty

/-- A text is accepted where all its entries fit. -/
theorem accepted_stored (h : parseBytecodeAos strtod source true = .program d) :
    ∃ c, sourceConstants strtod source = some c ∧ (instEntries source).2 = true ∧ (instEntries source).1 ≠ [] ∧
      c.instructions = [] ∧ EntriesFit (instEntries source).1 c ∧ EntriesStored (instEntries source).1 c d c := by
  rw [parseBytecodeAos_eq] at h
  cases hconstants : sourceConstants strtod source with
  | none => simp [hconstants] at h
  | some c =>
      have hempty := sourceConstants_instructions hconstants
      simp only [hconstants, AosResult.finish_program] at h
      obtain ⟨hstore, hend, hpos⟩ := h
      have hstored := storeInstEntries_program (c := c) rfl hstore
      have hlength := hstored.length
      have hfit := d.instructions_fit
      rw [hempty, List.length_nil] at hlength
      obtain ⟨c', hc', -⟩ := hstored.targets
      refine ⟨c, rfl, hend, ?_, hempty, ⟨hstored.allowed, by simp [hc'], by omega⟩, hstored⟩
      intro hnone
      simp only [hnone, List.map_nil, List.sum_nil] at hlength
      omega

theorem fit_accepted (hconstants : sourceConstants strtod source = some c) (hend : (instEntries source).2 = true)
    (hsome : (instEntries source).1 ≠ []) (hfit : EntriesFit (instEntries source).1 c) :
    ∃ d, parseBytecodeAos strtod source true = .program d := by
  have hempty := sourceConstants_instructions hconstants
  have hroom := hfit.room
  obtain ⟨d, hd⟩ := storeInstEntries_fit (d := c) rfl hfit.allowed hfit.targets (by rw [hempty]; simpa using hroom)
  refine ⟨d, ?_⟩
  have hlength := (storeInstEntries_program (c := c) rfl hd).length
  have hstart := entryStart_eq (Nat.le_refl (instEntries source).1.length)
  have hpos := List.length_pos_iff.2 hsome
  rw [entryStart, List.take_length] at hstart
  rw [parseBytecodeAos_eq]
  simp only [hconstants, AosResult.finish_program]
  exact ⟨hd, hend, by omega⟩

/-- Legacy targets keep bounds and transfers if they are harmless, and only then. -/
theorem expandsSafely_iff (strtod : Text → Option UInt64) (source : Text) :
    ExpandsSafely strtod source ↔ ExpansionHarmless strtod source := by
  constructor
  · intro h
    constructor
    · intro c hconstants hfills
      exact h.inBounds (overrun_iff.2 ⟨c, hconstants, hfills⟩)
    · intro c hconstants hend hsome hfit
      obtain ⟨d, hd⟩ := fit_accepted hconstants hend hsome hfit
      obtain ⟨c', -, -, -, hempty, -, hstored⟩ := accepted_stored hd
      exact (leadsRight_iff hstored hempty).1 (h.leads d hd)
  · intro h
    constructor
    · intro hover
      obtain ⟨c, hconstants, hfills⟩ := overrun_iff.1 hover
      exact h.lastSlot c hconstants hfills
    · intro d hd
      obtain ⟨c, hconstants, hend, hsome, hempty, hfit, hstored⟩ := accepted_stored hd
      exact (leadsRight_iff hstored hempty).2 (h.unmoved c hconstants hend hsome hfit)

/-- A jump to the last of three entries, behind a call with a target. -/
def shiftedSource : Text :=
  ascii "Bytecode#bc1 \x7b Inst#i0(op=CALL_SYS s=sys.time a=0) Inst#i1(op=JUMP a=2) Inst#i2(op=HALT) \x7d"

theorem shiftedSource_entries : instEntries shiftedSource =
    ([ascii "op=CALL_SYS s=sys.time a=0", ascii "op=JUMP a=2", ascii "op=HALT"], true) := by
  decide +kernel

theorem shiftedSource_constants (strtod : Text → Option UInt64) :
    sourceConstants strtod shiftedSource = some .empty := by
  have hmarker : (strstr (ascii "Bytecode#") shiftedSource).isSome = true := by decide +kernel
  have hentries : constEntries shiftedSource = ([], true) := by decide +kernel
  simp [sourceConstants, hmarker, hentries, storeConstEntries]

theorem shiftedSource_fits : EntriesFit (instEntries shiftedSource).1 .empty := by
  rw [shiftedSource_entries]
  constructor
  · intro attrs hattrs
    simp only [List.mem_cons, List.not_mem_nil, or_false] at hattrs
    rcases hattrs with rfl | rfl | rfl
    · have hopcode : entryOpcode (ascii "op=CALL_SYS s=sys.time a=0") = some .callSys := by decide +kernel
      exact ⟨by simp [hopcode], fun _ opcode h => .inl (by simpa [hopcode, eq_comm] using h), by decide +kernel⟩
    · have hnone : hasTarget (ascii "op=JUMP a=2") = false := by decide +kernel
      exact ⟨by decide +kernel, fun h => by simp [hnone] at h, by decide +kernel⟩
    · have hnone : hasTarget (ascii "op=HALT") = false := by decide +kernel
      exact ⟨by decide +kernel, fun h => by simp [hnone] at h, by decide +kernel⟩
  · decide +kernel
  · decide +kernel

/-- The jump leads to itself. -/
theorem shiftedSource_unsafe (strtod : Text → Option UInt64) : ¬ ExpandsSafely strtod shiftedSource := by
  intro h
  obtain ⟨d, hd⟩ := fit_accepted (shiftedSource_constants strtod) (by rw [shiftedSource_entries])
    (by rw [shiftedSource_entries]; simp) shiftedSource_fits
  obtain ⟨c, -, -, -, hempty, -, hstored⟩ := accepted_stored hd
  have hunmoved := (leadsRight_iff hstored hempty).1 (h.leads d hd)
  rw [shiftedSource_entries] at hunmoved
  have hbefore := (hunmoved (ascii "op=JUMP a=2") (by simp) .jump (by decide +kernel) rfl 2 (by decide +kernel)
    (by omega) (by simp)).2 (ascii "op=CALL_SYS s=sys.time a=0") (by simp)
  revert hbefore
  decide +kernel

theorem shifted_jump : ¬ ExpandsSafely (fun _ => none) shiftedSource := shiftedSource_unsafe _

end Aivm
