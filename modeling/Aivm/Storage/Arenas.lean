import Aivm.Nodes.Create
import Aivm.Model.Lifecycle
import Aivm.Lib.Slots

/-!
# What the arenas are allocated with

The pointers, capacities and limits of `AivmVm` behind its arenas, and the functions that allocate, grow, replace and
free them: `aivm_vm_storage.c`, `aivm_vm_profile.c`, `aivm_vm_lifecycle.c`, and the parts of `aivm_vm_arena.c`,
`aivm_vm_node_arena.c` and the compactions that touch them. A pointer is kept as the number of elements allocated
behind it, `none` being `NULL`. Sums that overflow `size_t` exceed every capacity, so they need no case of their own.
-/

namespace Aivm

/-- The string arena or the bytes arena: its pointer, `*_storage_capacity`, `*_capacity`, `*_limit` and `*_used`. -/
structure ByteArena where
  allocated : Option Nat
  storageCapacity : Nat
  capacity : Nat
  limit : Nat
  used : Nat
deriving DecidableEq, Repr

/-- A node arena; its size is not recorded anywhere but in its capacity. -/
structure NodeArena where
  allocated : Option Nat
  capacity : Nat
deriving DecidableEq, Repr

/-- `storageFailed` says that the status is `AIVM_VM_STATUS_ERROR` since storage could not be claimed: no instruction
runs until the next reset. -/
structure VmStorage where
  runtimeProfile : RuntimeProfile
  storageFailed : Bool
  stack : Bool
  locals : Bool
  scratchPairs : Bool
  stringArena : ByteArena
  bytesArena : ByteArena
  nodes : NodeArena
  nodeAttrs : NodeArena
  nodeChildren : NodeArena
deriving DecidableEq, Repr

/-- Which of the arrays the host can allocate. -/
structure StorageGrants where
  stack : Bool
  locals : Bool
  scratchPairs : Bool
  stringArena : Bool
  bytesArena : Bool
  nodes : Bool
  nodeAttrs : Bool
  nodeChildren : Bool
deriving DecidableEq, Repr

def StorageGrants.all : StorageGrants := ⟨true, true, true, true, true, true, true, true⟩

namespace VmStorage

/-- Zeroed memory, which is also what `prepare_vm_for_init` makes of memory never used for a VM. -/
def zeroed : VmStorage where
  runtimeProfile := .production
  storageFailed := false
  stack := false
  locals := false
  scratchPairs := false
  stringArena := ⟨none, 0, 0, 0, 0⟩
  bytesArena := ⟨none, 0, 0, 0, 0⟩
  nodes := ⟨none, 0⟩
  nodeAttrs := ⟨none, 0⟩
  nodeChildren := ⟨none, 0⟩

/-- `aivm_set_runtime_profile`: the capacities change, and neither the storage nor the limits do. -/
def setRuntimeProfile (profile : RuntimeProfile) (s : VmStorage) : VmStorage :=
  let limits := runtimeProfileLimits profile
  { s with
    runtimeProfile := profile
    stringArena := { s.stringArena with capacity := limits.stringArenaCapacity }
    bytesArena := { s.bytesArena with capacity := limits.bytesArenaCapacity }
    nodes := { s.nodes with capacity := limits.nodeCapacity }
    nodeAttrs := { s.nodeAttrs with capacity := limits.nodeAttrCapacity }
    nodeChildren := { s.nodeChildren with capacity := limits.nodeChildCapacity } }

end VmStorage

/-! ## `aivm_vm_ensure_storage` -/

/-- A byte arena is allocated, or replaced when less than the capacity is recorded for it. -/
def ByteArena.ensure (granted : Bool) (defaultCapacity : Nat) (a : ByteArena) : ByteArena :=
  let capacity := if a.capacity = 0 then defaultCapacity else a.capacity
  let a := { a with capacity := capacity }
  if (a.allocated.isNone ∨ a.storageCapacity < capacity) ∧ granted then
    { a with allocated := some capacity, storageCapacity := capacity }
  else a

/-- A node arena is allocated only where there is none. -/
def NodeArena.ensure (granted : Bool) (a : NodeArena) : NodeArena :=
  if a.allocated.isNone ∧ granted then { a with allocated := some a.capacity } else a

namespace VmStorage

/-- The check at the end of `aivm_vm_ensure_storage`. -/
def claimed (s : VmStorage) : Bool :=
  s.stack && s.locals && s.scratchPairs &&
    s.stringArena.allocated.isSome && s.stringArena.capacity ≤ s.stringArena.storageCapacity &&
    s.bytesArena.allocated.isSome && s.bytesArena.capacity ≤ s.bytesArena.storageCapacity &&
    s.nodes.allocated.isSome && s.nodeAttrs.allocated.isSome && s.nodeChildren.allocated.isSome

def ensureStorage (g : StorageGrants) (s : VmStorage) : VmStorage :=
  { s with
    stack := s.stack || g.stack
    locals := s.locals || g.locals
    scratchPairs := s.scratchPairs || g.scratchPairs
    stringArena := s.stringArena.ensure g.stringArena (runtimeProfileLimits .production).stringArenaCapacity
    bytesArena := s.bytesArena.ensure g.bytesArena (runtimeProfileLimits .production).bytesArenaCapacity
    nodes := s.nodes.ensure g.nodes
    nodeAttrs := s.nodeAttrs.ensure g.nodeAttrs
    nodeChildren := s.nodeChildren.ensure g.nodeChildren }

end VmStorage

/-! ## `aivm_vm_lifecycle.c` -/

def ByteArena.reset (initialCapacity : Nat) (a : ByteArena) : ByteArena :=
  { a with used := 0, limit := min a.capacity initialCapacity }

namespace VmStorage

/-- `aivm_reset_state` up to the construction of the argument node, whose allocations follow as events of their own. -/
def resetState (g : StorageGrants) (s : VmStorage) : VmStorage :=
  let s := s.ensureStorage g
  if s.claimed then
    { s with
      storageFailed := false
      stringArena := s.stringArena.reset stringArenaInitialCapacity
      bytesArena := s.bytesArena.reset bytesArenaInitialCapacity }
  else { s with storageFailed := true }

/-- `aivm_init*`. -/
def init (profile : RuntimeProfile) (g : StorageGrants) (s : VmStorage) : VmStorage :=
  (s.setRuntimeProfile profile).resetState g

/-- `aivm_dispose`: everything is freed, and only the byte arenas forget their capacity. -/
def dispose (s : VmStorage) : VmStorage :=
  { s with
    stack := false
    locals := false
    scratchPairs := false
    stringArena := { s.stringArena with allocated := none, capacity := 0, storageCapacity := 0 }
    bytesArena := { s.bytesArena with allocated := none, capacity := 0, storageCapacity := 0 }
    nodes := { s.nodes with allocated := none }
    nodeAttrs := { s.nodeAttrs with allocated := none }
    nodeChildren := { s.nodeChildren with allocated := none } }

end VmStorage

/-! ## Compaction -/

/-- A string or a bytes view that a compaction copies: where it starts in the arena and how many bytes it takes. -/
structure ArenaPiece where
  start : Nat
  size : Nat
deriving DecidableEq, Repr

/-- What an arena held when its compaction began, and whether the host provides the workspace. `rooted` says that a
value is held at all. -/
structure ArenaLive where
  pieces : List ArenaPiece
  rooted : Bool
  granted : Bool
deriving DecidableEq, Repr

def ArenaLive.total (live : ArenaLive) : Nat := (live.pieces.map ArenaPiece.size).sum

namespace VmStorage

/-- `aivm_compact_string_arena`: the new arena has the capacity of now, and the record of its size is left alone. -/
def compactStringArena (live : ArenaLive) (s : VmStorage) : Bool × VmStorage :=
  let a := s.stringArena
  if a.used = 0 then (true, s)
  else if live.granted ∧ live.total ≤ a.capacity then
    (true, { s with stringArena := { a with allocated := some a.capacity, used := live.total } })
  else (false, s)

/-- `aivm_compact_bytes_arena`. -/
def compactBytesArena (live : ArenaLive) (s : VmStorage) : Bool × VmStorage :=
  let a := s.bytesArena
  if a.used = 0 then (true, s)
  else if ¬ live.rooted then (true, { s with bytesArena := { a with used := 0 } })
  else if live.granted ∧ live.total ≤ a.capacity then
    (true, { s with bytesArena :=
      { a with allocated := some a.capacity, storageCapacity := a.capacity, used := live.total } })
  else (false, s)

end VmStorage

/-! ## Allocation -/

/-- The loops of `ensure_string_arena_capacity` and `ensure_bytes_arena_capacity`; `admits` is the host's answer to
growth beyond a limit. -/
def ByteArena.growLimit (admits : Nat → Bool) (step needed : Nat) : Nat → ByteArena → ByteArena
  | 0, a => a
  | fuel + 1, a =>
      if a.limit < needed ∧ a.limit < a.capacity ∧ admits a.limit then
        growLimit admits step needed fuel { a with limit := arenaGrowLimit a.limit step a.capacity }
      else a

/-- The growth of a limit; it rises by at least one in each round. -/
def ByteArena.ensureCapacity (admits : Nat → Bool) (step needed : Nat) (a : ByteArena) : ByteArena :=
  a.growLimit admits step needed (a.capacity - a.limit)

namespace VmStorage

/-- Only a tooling VM asks its host. -/
def admits (host : Nat → Bool) (s : VmStorage) (limit : Nat) : Bool := s.runtimeProfile ≠ .tooling || host limit

def growStringArena (host : Nat → Bool) (size : Nat) (s : VmStorage) : VmStorage :=
  { s with stringArena :=
    s.stringArena.ensureCapacity (s.admits host) stringArenaGrowthStep (s.stringArena.used + size) }

/-- `aivm_string_arena_reserve`: grow the limit, or else compact and grow again. -/
def stringArenaReserve (host : Nat → Bool) (live : ArenaLive) (size : Nat) (s : VmStorage) : Bool × VmStorage :=
  let s := s.growStringArena host size
  if s.stringArena.used + size ≤ s.stringArena.limit then (true, s)
  else
    match s.compactStringArena live with
    | (false, s) => (false, s)
    | (true, s) =>
        let s := s.growStringArena host size
        (decide (s.stringArena.used + size ≤ s.stringArena.limit), s)

/-- `aivm_string_arena_alloc`. -/
def stringArenaAlloc (host : Nat → Bool) (live : ArenaLive) (size : Nat) (s : VmStorage) : VmStorage :=
  match s.stringArenaReserve host live size with
  | (true, s) => { s with stringArena := { s.stringArena with used := s.stringArena.used + size } }
  | (false, s) => s

/-- `aivm_bytes_arena_alloc`. -/
def bytesArenaAlloc (host : Nat → Bool) (size : Nat) (s : VmStorage) : VmStorage :=
  let a := s.bytesArena.ensureCapacity (s.admits host) bytesArenaGrowthStep (s.bytesArena.used + size)
  if a.used + size ≤ a.limit then { s with bytesArena := { a with used := a.used + size } }
  else { s with bytesArena := a }

end VmStorage

/-- `realloc` to a larger capacity; `none` where the host refuses. -/
def NodeArena.realloc (granted : Bool) (capacity : Nat) (a : NodeArena) : Option NodeArena :=
  if a.capacity < capacity then
    if granted then some ⟨some capacity, capacity⟩ else none
  else some a

namespace VmStorage

/-- `aivm_vm_try_grow_node_arenas`; `host` is the answer to growth by a number of bytes. -/
def tryGrowNodeArenas (host : Nat → Bool) (g : StorageGrants) (neededNodes neededAttrs neededChildren : Nat)
    (s : VmStorage) : VmStorage :=
  let nodeCapacity := grownCapacity s.nodes.capacity neededNodes
  let attrCapacity := grownCapacity s.nodeAttrs.capacity neededAttrs
  let childCapacity := grownCapacity s.nodeChildren.capacity neededChildren
  let growth := (nodeCapacity - s.nodes.capacity) * nodeRecordSize +
    (attrCapacity - s.nodeAttrs.capacity) * nodeAttrSize + (childCapacity - s.nodeChildren.capacity) * nodeChildSize
  if s.runtimeProfile ≠ .tooling ∨ ¬ host growth then s
  else
    match s.nodes.realloc g.nodes nodeCapacity with
    | none => s
    | some nodes =>
        let s := { s with nodes := nodes }
        match s.nodeAttrs.realloc g.nodeAttrs attrCapacity with
        | none => s
        | some nodeAttrs =>
            let s := { s with nodeAttrs := nodeAttrs }
            match s.nodeChildren.realloc g.nodeChildren childCapacity with
            | none => s
            | some nodeChildren => { s with nodeChildren := nodeChildren }

end VmStorage

/-! ## Runs -/

/-- A call of the API, or a step of an instruction that touches the storage. -/
inductive StorageEvent where
  | init (profile : RuntimeProfile) (g : StorageGrants)
  | setRuntimeProfile (profile : RuntimeProfile)
  | resetState (g : StorageGrants)
  | dispose
  | stringReserve (host : Nat → Bool) (live : ArenaLive) (size : Nat)
  | stringAlloc (host : Nat → Bool) (live : ArenaLive) (size : Nat)
  | bytesAlloc (host : Nat → Bool) (size : Nat)
  | growNodeArenas (host : Nat → Bool) (g : StorageGrants) (neededNodes neededAttrs neededChildren : Nat)
  | compactNodes
  | compactStrings (live : ArenaLive)
  | compactBytes (live : ArenaLive)

namespace VmStorage

/-- A step of an instruction happens only while instructions run; a node compaction copies into the arrays there are. -/
def step (s : VmStorage) : StorageEvent → VmStorage
  | .init profile g => s.init profile g
  | .setRuntimeProfile profile => s.setRuntimeProfile profile
  | .resetState g => s.resetState g
  | .dispose => s.dispose
  | .stringReserve host live size => if s.storageFailed then s else (s.stringArenaReserve host live size).2
  | .stringAlloc host live size => if s.storageFailed then s else s.stringArenaAlloc host live size
  | .bytesAlloc host size => if s.storageFailed then s else s.bytesArenaAlloc host size
  | .growNodeArenas host g nodes attrs children =>
      if s.storageFailed then s else s.tryGrowNodeArenas host g nodes attrs children
  | .compactNodes => s
  | .compactStrings live => (s.compactStringArena live).2
  | .compactBytes live => (s.compactBytesArena live).2

/-- The storage after a run from zeroed memory. -/
def after (events : List StorageEvent) : VmStorage := events.foldl step zeroed

end VmStorage

/-- The events that set up the worker VM of an `ASYNC_CALL`: it is initialized with the default profile and only then
given the profile of its parent. -/
def startCallSubroutineWorker (parent : RuntimeProfile) (g : StorageGrants) : List StorageEvent :=
  [.init .production g, .setRuntimeProfile parent]

end Aivm
