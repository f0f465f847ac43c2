import Aivm.Lib.CStrings
import Aivm.Model.Env

/-!
# The content index of the string arena

The open-addressing table of `aivm_vm_string_copy.c`: rows hold the hash, offset and length of a string in the arena,
and a row with hash `0` is empty.
-/

namespace Aivm

open CStrings

def stringHash (text : List Byte) : UInt64 :=
  let hash := text.foldl (fun h b => (h ^^^ b.toUInt64) * 1099511628211) 1469598103934665603
  if hash = 0 then 1 else hash

def stringInternSlot (hash : UInt64) (capacity : Nat) : Nat := (hash &&& UInt64.ofNat (capacity - 1)).toNat

/-- Probe from `slot` for an empty row and fill it. -/
def stringInternProbe (entries : List StringInternEntry) (e : StringInternEntry) : Nat → Nat →
    Option (List StringInternEntry)
  | 0, _ => none
  | probes + 1, slot =>
      match entries[slot]? with
      | none => none
      | some old =>
          if old.hash = 0 then some (entries.set slot e)
          else stringInternProbe entries e probes ((slot + 1) &&& (entries.length - 1))

def stringInternInsert (entries : List StringInternEntry) (e : StringInternEntry) : Option (List StringInternEntry) :=
  stringInternProbe entries e entries.length (stringInternSlot e.hash entries.length)

def stringInternInsertAll : List StringInternEntry → List StringInternEntry → Option (List StringInternEntry)
  | entries, [] => some entries
  | entries, e :: es =>
      match stringInternInsert entries e with
      | some entries' => stringInternInsertAll entries' es
      | none => none

/-- The smallest capacity reached by doubling that is at least `requested`, if its size can be represented. -/
def stringInternCapacity (requested : Nat) : Nat → Nat → Option Nat
  | 0, _ => none
  | fuel + 1, capacity =>
      if requested ≤ capacity then some capacity
      else if 2 ^ 63 ≤ capacity then none
      else stringInternCapacity requested fuel (capacity * 2)

/-- `string_intern_resize`: a larger table with the old rows inserted again. -/
def stringInternResize (env : Env) (vm : Vm) (requested : Nat) (old : List StringInternEntry) :
    Option (List StringInternEntry) :=
  match stringInternCapacity requested 64 1024 with
  | none => none
  | some capacity =>
      if env.allocates vm "string_intern_resize" then
        stringInternInsertAll (List.replicate capacity ⟨0, 0, 0⟩) (old.filter (·.hash ≠ 0))
      else none

def resetStringInternIndex (i : StringIntern) : StringIntern :=
  ⟨i.entries.map fun _ => ⟨0, 0, 0⟩, 0, true⟩

/-- The strings of the arena with their offsets; `none` if the last one is not terminated. -/
def arenaStrings : Nat → List Byte → Nat → Option (List (Nat × List Byte))
  | 0, rest, _ => if rest = [] then some [] else none
  | fuel + 1, rest, offset =>
      if rest = [] then some []
      else
        match read 0 rest with
        | none => none
        | some s => (arenaStrings fuel (rest.drop (s.length + 1)) (offset + s.length + 1)).map ((offset, s) :: ·)

/-- Index the strings one by one; the index is incomplete once an insertion fails. -/
def indexStrings : StringIntern → List (Nat × List Byte) → StringIntern
  | i, [] => i
  | i, (offset, s) :: rest =>
      match stringInternInsert i.entries ⟨stringHash s, offset, s.length⟩ with
      | some entries => indexStrings { i with entries := entries, count := i.count + 1 } rest
      | none => { i with complete := false }

def rebuildStringInternIndex (env : Env) (vm : Vm) : StringIntern :=
  match arenaStrings vm.stringArena.length vm.stringArena 0 with
  | none => { vm.stringIntern with complete := false }
  | some [] => resetStringInternIndex vm.stringIntern
  | some (s :: ss) =>
      let i := resetStringInternIndex vm.stringIntern
      match stringInternResize env vm ((s :: ss).length * 2) i.entries with
      | none => { i with complete := false }
      | some entries => indexStrings { i with entries := entries } (s :: ss)

/-- Probe from `slot` for a row that holds `text`. -/
def lookupStringProbe (vm : Vm) (hash : UInt64) (text : List Byte) : Nat → Nat → Option Nat
  | 0, _ => none
  | probes + 1, slot =>
      match vm.stringIntern.entries[slot]? with
      | none => none
      | some e =>
          if e.hash = 0 then none
          else if e.hash = hash ∧ e.length = text.length ∧ slice vm.stringArena e.offset text.length = text then
            some e.offset
          else lookupStringProbe vm hash text probes ((slot + 1) &&& (vm.stringIntern.entries.length - 1))

def lookupStringInIndex (vm : Vm) (text : List Byte) : Option Nat :=
  if vm.stringIntern.complete ∧ vm.stringIntern.entries.length ≠ 0 then
    lookupStringProbe vm (stringHash text) text vm.stringIntern.entries.length
      (stringInternSlot (stringHash text) vm.stringIntern.entries.length)
  else none

/-- `remember_string_in_index` for the string just written at `offset`. -/
def rememberStringInIndex (env : Env) (vm : Vm) (offset : Nat) (text : List Byte) : StringIntern :=
  let i := vm.stringIntern
  if i.complete then
    let capacity := i.entries.length
    let entries? :=
      if capacity = 0 ∨ capacity * 7 ≤ (i.count + 1) * 10 then
        stringInternResize env vm (if capacity = 0 then 1024 else capacity * 2) i.entries
      else some i.entries
    match entries? with
    | none => { i with complete := false }
    | some entries =>
        match stringInternInsert entries ⟨stringHash text, offset, text.length⟩ with
        | some entries' => { i with entries := entries', count := i.count + 1 }
        | none => { i with entries := entries, complete := false }
  else i

end Aivm
