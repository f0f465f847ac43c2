import Aivm.Lib.MapAccum
import Aivm.Strings.Intern
import Aivm.Gc.Mark

/-!
# Compaction of the string arena

`aivm_compact_string_arena`: every string that a root or a live node refers to is copied once into a new arena, and
the pointers are rewritten one by one while membership is still tested against the old arena. A failed compaction
is modelled with its roots unchanged: the VM is in the error state then and nothing reads them again.
-/

namespace Aivm

open CStrings

/-- `aivm_pointer_in_string_arena`. -/
def Heap.pointerInStringArena (h : Heap) : StrPtr → Bool
  | .arena block offset => block = h.stringBlock ∧ offset < h.stringArena.length
  | _ => false

/-- The text at a pointer into the arena; behind the used part the arena is zero. -/
def Heap.arenaText (h : Heap) : StrPtr → List Byte
  | .arena _ offset => (h.stringArena.drop offset).takeWhile (· ≠ 0)
  | _ => []

/-- Where the host places a new arena while the old one is still allocated. -/
def freshBlock (env : Env) (vm : Vm) : Nat :=
  if env.place vm = vm.stringBlock then vm.stringBlock + 1 else env.place vm

def stringArenaExceeded : Fault := ⟨.memoryPressure, "AIVMM001: string arena capacity exceeded."⟩

/-- `compact_lookup_or_copy_string`: the offset of `text` in the new arena, where it is appended if missing. -/
def compactLookupOrCopyString (capacity : Nat) (text arena : List Byte) : Option (Nat × List Byte) :=
  match find 0 text arena.length arena 0 with
  | some offset => some (offset, arena)
  | none =>
      if arena.length + (text.length + 1) ≤ capacity then some (arena.length, arena ++ text ++ [0]) else none

section Relocate

variable (h : Heap) (block capacity : Nat)

def compactRelocateStringPtr (p : StrPtr) (arena : List Byte) : Except Fault (StrPtr × List Byte) :=
  if h.pointerInStringArena p then
    match compactLookupOrCopyString capacity (h.arenaText p) arena with
    | some (offset, arena') => .ok (.arena block offset, arena')
    | none => .error stringArenaExceeded
  else .ok (p, arena)

def compactRelocateValueString (v : Value) (arena : List Byte) : Except Fault (Value × List Byte) :=
  match v with
  | .string p => do
      let (p', arena') ← compactRelocateStringPtr h block capacity p arena
      return (.string p', arena')
  | v => .ok (v, arena)

def relocateTask {W : Type} (t : CompletedTask W) (arena : List Byte) : Except Fault (CompletedTask W × List Byte) := do
  let (r, arena') ← compactRelocateValueString h block capacity t.result arena
  return ({ t with result := r }, arena')

/-- Only the components of marked pairs are rewritten. -/
def relocatePair (livePairs : List Nat) (p : ScratchPair × Nat) (arena : List Byte) :
    Except Fault (ScratchPair × List Byte) :=
  if p.2 + 1 ∈ livePairs then do
    let (first, arena) ← compactRelocateValueString h block capacity p.1.first arena
    let (second, arena) ← compactRelocateValueString h block capacity p.1.second arena
    return (⟨first, second⟩, arena)
  else .ok (p.1, arena)

def relocateAttr (a : NodeAttr) (arena : List Byte) : Except Fault (NodeAttr × List Byte) := do
  let (key, arena) ← compactRelocateStringPtr h block capacity a.key arena
  match a.value with
  | .identifier p =>
      let (p', arena) ← compactRelocateStringPtr h block capacity p arena
      return (⟨key, .identifier p'⟩, arena)
  | .string p =>
      let (p', arena) ← compactRelocateStringPtr h block capacity p arena
      return (⟨key, .string p'⟩, arena)
  | v => return (⟨key, v⟩, arena)

/-- Rewrite the attribute slots of one node in place. -/
def relocateAttrSlots (attrCapacity : Nat) : List Nat → List NodeAttr → List Byte →
    Except Fault (List NodeAttr × List Byte)
  | [], attrs, arena => .ok (attrs, arena)
  | slot :: slots, attrs, arena =>
      if attrCapacity ≤ slot then
        .error ⟨.memoryPressure, "AIVMM004: node attr slot overflow during string compaction."⟩
      else
        match attrs[slot]? with
        | none => relocateAttrSlots attrCapacity slots attrs arena
        | some a =>
            match relocateAttr h block capacity a arena with
            | .error e => .error e
            | .ok (a', arena') => relocateAttrSlots attrCapacity slots (attrs.set slot a') arena'

/-- Rewrite kind, id and attribute slots of a marked node. -/
def relocateNode (attrCapacity : Nat) (live : List Nat) (n : NodeRecord × Nat) (s : List NodeAttr × List Byte) :
    Except Fault (NodeRecord × List NodeAttr × List Byte) :=
  if n.2 + 1 ∈ live then do
    let (kind, arena) ← compactRelocateStringPtr h block capacity n.1.kind s.2
    let (id, arena) ← compactRelocateStringPtr h block capacity n.1.id arena
    let s' ← relocateAttrSlots h block capacity attrCapacity (List.range' n.1.attrStart n.1.attrCount) s.1 arena
    return ({ n.1 with kind := kind, id := id }, s')
  else .ok (n.1, s)

end Relocate

/-- All pointers rewritten, in the order of the source, and the new arena in place. -/
def relocateStrings (block : Nat) (live livePairs : List Nat) (vm : Vm) : Except Fault Vm := do
  let value := compactRelocateValueString vm.toHeap block vm.stringArenaCapacity
  let (stack, arena) ← mapAccum value vm.stack []
  let (locals, arena) ← mapAccum value vm.locals arena
  let (tasks, arena) ← mapAccum (relocateTask vm.toHeap block vm.stringArenaCapacity) vm.completedTasks arena
  let (parValues, arena) ← mapAccum value vm.parValues arena
  let (pairs, arena) ←
    mapAccum (relocatePair vm.toHeap block vm.stringArenaCapacity livePairs) vm.scratchPairs.zipIdx arena
  let (nodes, attrs, arena) ←
    mapAccum (relocateNode vm.toHeap block vm.stringArenaCapacity vm.nodeAttrCapacity live) vm.nodes.zipIdx
      (vm.nodeAttrs, arena)
  return { vm with
    stack := stack, locals := locals, completedTasks := tasks, parValues := parValues, scratchPairs := pairs
    nodes := nodes, nodeAttrs := attrs, stringArena := arena, stringBlock := block }

def compactStringArena (env : Env) : VmM Unit := do
  let vm ← VmM.get
  if vm.stringArena.length = 0 then
    return
  env.allocate "AIVMM001: string arena compaction workspace allocation failed."
  let live ← VmM.lift (markLiveNodeHandles env · [])
  let livePairs ← VmM.lift (markLiveScratchPairHandles env)
  let moved ← VmM.lift (relocateStrings (freshBlock env vm) live livePairs)
  VmM.modify fun _ => moved
  VmM.modify fun vm => { vm with stringIntern := rebuildStringInternIndex env vm }

end Aivm
