import Aivm.Gc.StringCompaction

/-!
# The string arena

`aivm_host_memory.c`, the growth of the string arena in `aivm_vm_arena.c` and the copies into it of
`aivm_vm_string_copy.c`. A copy is written in one step with the space it takes.
-/

namespace Aivm

open CStrings

/-! ## Growth -/

def hostMemoryReserveMin : Nat := 512 * 1024 * 1024

/-- `aivm_host_memory_growth_allowed`. -/
def hostMemoryGrowthAllowed (total available growth : Nat) (wasSuspended : Bool) : Bool :=
  let reserve := max (total / 100 * 10) hostMemoryReserveMin
  let reserve := if 0 < total ∧ total / 2 < reserve then total / 2 else reserve
  let resumeMargin := if wasSuspended then total / 100 * 5 else 0
  reserve + resumeMargin + growth ≤ available

/-- Whether a tooling VM may grow, and the VM with the answer remembered. -/
def askHostMemory (env : Env) (growth : Nat) (vm : Vm) : Bool × Vm :=
  match env.hostMemorySnapshot vm with
  | none => (true, vm)
  | some (total, available) =>
      let allowed := hostMemoryGrowthAllowed total available growth vm.hostMemoryGrowthSuspended
      (allowed, { vm with hostMemoryGrowthSuspended := !allowed })

/-- `aivm_vm_host_memory_growth_available`. -/
def hostMemoryGrowthAvailable (env : Env) (growth : Nat) (vm : Vm) : Bool × Vm :=
  if vm.runtimeProfile = .tooling then askHostMemory env growth vm else (false, vm)

/-- `aivm_vm_admit_host_memory_growth`. -/
def admitHostMemoryGrowth (env : Env) (growth : Nat) : VmM Unit := fun vm =>
  if vm.runtimeProfile = .tooling then
    match askHostMemory env growth vm with
    | (true, vm') => .ok () vm'
    | (false, vm') =>
        .fail (VmM.setVmError
          ⟨.memoryPressure, "AIVMM006: tooling arena growth denied to preserve host memory reserve."⟩ vm')
  else .ok () vm

def arenaGrowLimit (current step maxValue : Nat) : Nat :=
  if maxValue ≤ current ∨ maxValue < current + step then maxValue else current + step

/-- The loop of `ensure_string_arena_capacity`; the limit grows by at least one in each round. -/
def growStringArenaLimit (env : Env) (needed : Nat) : Nat → Vm → Vm
  | 0, vm => vm
  | fuel + 1, vm =>
      if vm.stringArenaLimit < needed ∧ vm.stringArenaLimit < vm.stringArenaCapacity then
        let next := arenaGrowLimit vm.stringArenaLimit stringArenaGrowthStep vm.stringArenaCapacity
        if vm.runtimeProfile = .tooling then
          match hostMemoryGrowthAvailable env (next - vm.stringArenaLimit) vm with
          | (true, vm') => growStringArenaLimit env needed fuel { vm' with stringArenaLimit := next }
          | (false, vm') => vm'
        else growStringArenaLimit env needed fuel { vm with stringArenaLimit := next }
      else vm

def ensureStringArenaCapacity (env : Env) (needed : Nat) (vm : Vm) : Vm :=
  growStringArenaLimit env needed (vm.stringArenaCapacity - vm.stringArenaLimit) vm

def countStringArenaPressure (vm : Vm) : Vm :=
  { vm with counters := { vm.counters with stringArenaPressureCount := vm.counters.stringArenaPressureCount + 1 } }

/-- `aivm_string_arena_reserve`: grow the limit, or else compact and grow again. -/
def stringArenaReserve (env : Env) (additional : Nat) : VmM Unit := do
  VmM.modify fun vm => ensureStringArenaCapacity env (vm.stringArena.length + additional) vm
  let vm ← VmM.get
  if vm.stringArena.length + additional ≤ vm.stringArenaLimit then
    return
  VmM.onFail countStringArenaPressure (compactStringArena env)
  VmM.modify fun vm => ensureStringArenaCapacity env (vm.stringArena.length + additional) vm
  let vm ← VmM.get
  if vm.stringArena.length + additional ≤ vm.stringArenaLimit then
    return
  VmM.onFail countStringArenaPressure (VmM.throw stringArenaExceeded)

/-- The arena has room for `additional` bytes, after growing if it may. -/
def reserveFits (env : Env) (additional : Nat) (vm : Vm) : Prop :=
  vm.stringArena.length + additional ≤
    (ensureStringArenaCapacity env (vm.stringArena.length + additional) vm).stringArenaLimit

instance (env : Env) (additional : Nat) (vm : Vm) : Decidable (reserveFits env additional vm) := by
  unfold reserveFits
  infer_instance

/-! ## Copies -/

/-- Write a string behind the used part of the arena. -/
def writeString (text : List Byte) (vm : Vm) : Vm :=
  let arena := vm.stringArena ++ text ++ [0]
  { vm with
    stringArena := arena
    counters := { vm.counters with stringArenaHighWater := max vm.counters.stringArenaHighWater arena.length } }

/-- `aivm_string_arena_alloc`, which makes room as `aivm_string_arena_reserve` does, and the string written there. -/
def stringArenaAlloc (env : Env) (text : List Byte) : VmM StrPtr := do
  stringArenaReserve env (text.length + 1)
  let vm ← VmM.get
  VmM.modify (writeString text)
  return .arena vm.stringBlock vm.stringArena.length

def rememberString (env : Env) (text : List Byte) (vm : Vm) : Vm :=
  { vm with stringIntern := rememberStringInIndex env vm (vm.stringArena.length - (text.length + 1)) text }

/-- Allocate a string and enter it into the index. -/
def storeString (env : Env) (text : List Byte) : VmM StrPtr := do
  let p ← stringArenaAlloc env text
  VmM.modify (rememberString env text)
  return p

/-- The offset of a string in the arena, through the index if it is complete. -/
def lookupStringOffset (vm : Vm) (text : List Byte) : Option Nat :=
  match lookupStringInIndex vm text with
  | some offset => some offset
  | none => if vm.stringIntern.complete then none else find 0 text vm.stringArena.length vm.stringArena 0

/-- `aivm_vm_copy_string_range_to_arena`; the range has been read from its source already. -/
def copyStringRangeToArena (env : Env) (text : List Byte) : VmM StrPtr := do
  let vm ← VmM.get
  match lookupStringOffset vm text with
  | some offset => return .arena vm.stringBlock offset
  | none => storeString env text

/-- `aivm_vm_copy_string_to_arena`: a pointer into the arena is returned as it is. -/
def copyStringToArena (env : Env) (input : StrPtr) : VmM StrPtr := do
  let vm ← VmM.get
  if input = .null then
    VmM.giveUp
  else if vm.pointerInStringArena input then
    return input
  else
    let text ← VmM.deref (vm.cstr input)
    copyStringRangeToArena env text

/-- `aivm_vm_copy_string_splice_to_arena`; the two parts have been read and joined. -/
def copyStringSpliceToArena (env : Env) (text : List Byte) : VmM StrPtr := do
  let vm ← VmM.get
  match find 0 text vm.stringArena.length vm.stringArena 0 with
  | some offset => return .arena vm.stringBlock offset
  | none => storeString env text

end Aivm
