import Aivm.Lib.MapAccum
import Aivm.Strings.Arena

/-!
# The bytes arena

Allocation in the bytes arena never compacts it. `aivm_compact_bytes_arena` copies every view that a root value
designates into a new arena, identical views once.
-/

namespace Aivm

/-! ## Allocation -/

/-- The loop of `ensure_bytes_arena_capacity`. -/
def growBytesArenaLimit (env : Env) (needed : Nat) : Nat → VmM Unit
  | 0 => return
  | fuel + 1 => do
      let vm ← VmM.get
      if vm.bytesArenaLimit < needed ∧ vm.bytesArenaLimit < vm.bytesArenaCapacity then
        let next := arenaGrowLimit vm.bytesArenaLimit bytesArenaGrowthStep vm.bytesArenaCapacity
        admitHostMemoryGrowth env (next - vm.bytesArenaLimit)
        VmM.modify fun vm => { vm with bytesArenaLimit := next }
        growBytesArenaLimit env needed fuel
      else
        return

def countBytesArenaPressure (vm : Vm) : Vm :=
  { vm with counters := { vm.counters with bytesArenaPressureCount := vm.counters.bytesArenaPressureCount + 1 } }

/-- Write bytes behind the used part of the arena. -/
def writeBytes (data : List Byte) (vm : Vm) : Vm :=
  let arena := vm.bytesArena ++ data
  { vm with
    bytesArena := arena
    counters := { vm.counters with bytesArenaHighWater := max vm.counters.bytesArenaHighWater arena.length } }

/-- `aivm_bytes_arena_alloc`, with the bytes written there. -/
def bytesArenaAlloc (env : Env) (data : List Byte) : VmM BytesPtr := do
  let vm ← VmM.get
  let needed := vm.bytesArena.length + data.length
  VmM.onFail countBytesArenaPressure (growBytesArenaLimit env needed (vm.bytesArenaCapacity - vm.bytesArenaLimit))
  let vm ← VmM.get
  if vm.bytesArenaLimit < needed then
    VmM.onFail countBytesArenaPressure
      (VmM.throw ⟨.memoryPressure, "AIVMM002: bytes arena capacity exceeded."⟩)
  VmM.modify (writeBytes data)
  return .arena vm.bytesBlock vm.bytesArena.length

/-! ## Compaction -/

/-- `pointer_in_bytes_arena`: the whole view lies in the used part. -/
def Heap.pointerInBytesArena (h : Heap) (data : BytesPtr) (length : Nat) : Bool :=
  match data with
  | .arena block offset => block = h.bytesBlock ∧ h.bytesArena ≠ [] ∧ offset + length ≤ h.bytesArena.length
  | _ => false

/-- Where a view of the old arena has been copied to. -/
structure BytesRelocation where
  oldData : BytesPtr
  length : Nat
  newData : BytesPtr
deriving DecidableEq, Repr

/-- The new arena while it is filled. -/
structure BytesCopies where
  arena : List Byte
  relocations : List BytesRelocation

section Relocate

variable (h : Heap) (block capacity relocationCapacity : Nat)

def compactRelocateValueBytes (v : Value) (s : BytesCopies) : Except Fault (Value × BytesCopies) :=
  match v with
  | .bytes (.arena b offset) length =>
      let data := BytesPtr.arena b offset
      if h.pointerInBytesArena data length then
        match s.relocations.find? fun r => r.oldData = data ∧ r.length = length with
        | some r => .ok (.bytes r.newData length, s)
        | none =>
            if relocationCapacity ≤ s.relocations.length ∨ capacity < s.arena.length + length then
              .error ⟨.memoryPressure, "AIVMM002: bytes arena capacity exceeded during compaction."⟩
            else
              let destination := BytesPtr.arena block s.arena.length
              .ok (.bytes destination length,
                ⟨s.arena ++ slice h.bytesArena offset length, s.relocations ++ [⟨data, length, destination⟩]⟩)
      else .ok (v, s)
  | v => .ok (v, s)

def relocateTaskBytes {W : Type} (t : CompletedTask W) (s : BytesCopies) :
    Except Fault (CompletedTask W × BytesCopies) := do
  let (r, s) ← compactRelocateValueBytes h block capacity relocationCapacity t.result s
  return ({ t with result := r }, s)

def relocatePairBytes (livePairs : List Nat) (p : ScratchPair × Nat) (s : BytesCopies) :
    Except Fault (ScratchPair × BytesCopies) :=
  if p.2 + 1 ∈ livePairs then do
    let (first, s) ← compactRelocateValueBytes h block capacity relocationCapacity p.1.first s
    let (second, s) ← compactRelocateValueBytes h block capacity relocationCapacity p.1.second s
    return (⟨first, second⟩, s)
  else .ok (p.1, s)

end Relocate

/-- The number of values a compaction may have to rewrite. -/
def relocationCapacity (vm : Vm) : Nat :=
  vm.stack.length + vm.locals.length + vm.completedTasks.length + vm.parValues.length +
    (vm.scratchPairs.length + vm.scratchPairs.length)

/-- All views rewritten, in the order of the source, and the new arena in place. -/
def relocateBytes (block : Nat) (livePairs : List Nat) (vm : Vm) : Except Fault Vm := do
  let capacity := vm.bytesArenaCapacity
  let value := compactRelocateValueBytes vm.toHeap block capacity (relocationCapacity vm)
  let (stack, s) ← mapAccum value vm.stack ⟨[], []⟩
  let (locals, s) ← mapAccum value vm.locals s
  let (tasks, s) ← mapAccum (relocateTaskBytes vm.toHeap block capacity (relocationCapacity vm)) vm.completedTasks s
  let (parValues, s) ← mapAccum value vm.parValues s
  let (pairs, s) ← mapAccum (relocatePairBytes vm.toHeap block capacity (relocationCapacity vm) livePairs)
    vm.scratchPairs.zipIdx s
  return { vm with
    stack := stack, locals := locals, completedTasks := tasks, parValues := parValues, scratchPairs := pairs
    bytesArena := s.arena, bytesBlock := block
    bytesArenaGcThreshold := arenaGrowLimit s.arena.length bytesArenaInitialCapacity capacity }

/-- Where the host places a new bytes arena while the old one is still allocated. -/
def freshBytesBlock (env : Env) (vm : Vm) : Nat :=
  if env.place vm = vm.bytesBlock then vm.bytesBlock + 1 else env.place vm

def compactBytesArena (env : Env) : VmM Unit := do
  let vm ← VmM.get
  if vm.bytesArena.length = 0 then
    return
  if relocationCapacity vm = 0 then
    VmM.modify fun vm => { vm with
      bytesArena := [], bytesArenaGcThreshold := min vm.bytesArenaCapacity bytesArenaInitialCapacity }
  else
    env.allocate "AIVMM002: bytes arena compaction workspace allocation failed."
    let livePairs ← VmM.lift (markLiveScratchPairHandles env)
    let moved ← VmM.lift (relocateBytes (freshBytesBlock env vm) livePairs)
    VmM.modify fun _ => moved

end Aivm
