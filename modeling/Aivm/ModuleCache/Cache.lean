import Aivm.Lib.Runs
import Aivm.ModuleCache.Objects
import Aivm.Program.Theorems

/-!
# The module cache

`AivmModuleCache` and its operations. The arrays of entry `i` have fixed addresses, where a memory has blocks only while
the entry is active: what was in an entry that is cleared or that a failed copy has zeroed again is gone. Programs are
copied with the storage that the host allocates; `none` is a read that the source does not define.
-/

namespace Aivm.ModuleCache

open Blocks

def maxModules : Nat := 64
def maxNameLength : Nat := 128
def maxBytes : Nat := 32 * 1024 * 1024
def sizeMax : Nat := 2 ^ 64 - 1

inductive CacheStatus where
  | ok
  | invalid
  | limit
  | duplicate
  | notFound
deriving DecidableEq, Repr

/-- The addresses of the cache's own arrays are below all others. -/
def cacheEnd : Nat := 4 * maxModules

/-- The allocator of the host: what it grants is free and not part of the cache. -/
structure Allocator where
  alloc : Memory Block → (size : Nat) → Option Nat
  fresh : ∀ {m size a}, alloc m size = some a → m a = none ∧ cacheEnd ≤ a

/-- What the compiler takes for a program without its arrays, an instruction, a value and an entry of a catalog. -/
structure Sizes where
  program : Nat
  instruction : Nat
  value : Nat
  cell : Nat

/-! ## Copying programs -/

section Copy

variable (alloc : Allocator)

/-- `aivm_program_clear` of a program that has not allocated anything. -/
def clearObject (p : ProgramObject) (m : Memory Block) : Memory Block :=
  let m := set m p.instructionStorage (.instructions (List.replicate programInlineInstructions ⟨.nop, 0⟩))
  let m := set m p.constantStorage (.constants (List.replicate programInlineConstants .void))
  let m := set m p.stringStorage (.bytes (List.replicate programMaxStringBytes 0))
  set m p.bytesStorage (.bytes (List.replicate programMaxBytesStorage 0))

/-- `aivm_program_instructions_reserve` and `aivm_program_constants_reserve`: the pointer to the items, and what was
allocated for them. -/
def reserve (inlineStorage inlineCount itemSize count : Nat) (blank : Block) (m : Memory Block) :
    Option (Option Nat × Option Nat × Memory Block) :=
  if count ≤ inlineCount then some (if count = 0 then none else some inlineStorage, none, m)
  else if sizeMax / itemSize < count then none
  else
    match alloc.alloc m (count * itemSize) with
    | none => none
    | some a => some (some a, some a, set m a blank)

/-- The loop of `aivm_worker_catalog_copy`. Where an artifact is refused, the artifacts so far and the entries are
released. -/
def copyCells (entries : Nat) : List CatalogCell → List CatalogCell → Memory Block →
    Option (Option (List CatalogCell) × Memory Block)
  | [], copied, m => some (some copied, m)
  | cell :: cells, copied, m =>
      match alloc.alloc m (if cell.artifactLength = 0 then 1 else cell.artifactLength) with
      | none => some (none, free (entries :: copied.map (·.artifact)) m)
      | some a => do
          let data ← readBytesAt m cell.artifact 0 cell.artifactLength
          copyCells entries cells (copied ++ [{ cell with artifact := a }]) (set m a (.bytes data))

/-- `aivm_worker_catalog_copy`, with the pointer to the entries. -/
def copyCatalog (sizes : Sizes) (src : ProgramObject) (m : Memory Block) :
    Option (Option (Option Nat) × Memory Block) :=
  if src.catalogCount = 0 then some (some none, m)
  else
    match alloc.alloc m (src.catalogCount * sizes.cell) with
    | none => some (none, m)
    | some a => do
        let cells ← readItems Block.asCatalog m src.catalogEntries src.catalogCount
        let (copied, m) ← copyCells alloc a cells [] (set m a (.catalog []))
        match copied with
        | none => return (none, m)
        | some cells => return (some (some a), set m a (.catalog cells))

/-- `pointer_in_range`, for the offset within a storage of which `used` bytes are used. -/
def offsetInRange (offset used : Nat) : Option Nat := if used < offset then none else some offset

/-- A constant with a pointer into the copied storage; no constant for a pointer out of range. -/
def rebase (dst src : ProgramObject) : Value → Option Value
  | .string (.arena a offset) =>
      if a = src.stringStorage then
        (offsetInRange offset src.stringStorageUsed).map fun offset => .string (.arena dst.stringStorage offset)
      else none
  | .string _ => none
  | .bytes (.arena a offset) length =>
      if length = 0 then some (.bytes .null 0)
      else if a = src.bytesStorage then
        (offsetInRange offset src.bytesStorageUsed).map fun offset => .bytes (.arena dst.bytesStorage offset) length
      else none
  | .bytes _ length => if length = 0 then some (.bytes .null 0) else none
  | v => some v

/-- `aivm_program_instructions_mutable`. -/
def ProgramObject.mutableInstructions (p : ProgramObject) : Nat :=
  p.allocatedInstructionStorage.getD p.instructionStorage

/-- `aivm_program_constants_mutable`. -/
def ProgramObject.mutableConstants (p : ProgramObject) : Nat := p.allocatedConstantStorage.getD p.constantStorage

/-- Items at the start of an array of `capacity` items. -/
def padded {α : Type} (items : List α) (capacity : Nat) (blank : α) : List α :=
  items ++ List.replicate (capacity - items.length) blank

/-- The loops of `copy_program`, behind the allocations; whether all constants point into the storage. -/
def copyBody (dst src : ProgramObject) (m : Memory Block) : Option (Bool × Memory Block) := do
  let instructions ← readItems Block.asInstructions m src.instructions src.instructionCount
  let m := set m dst.mutableInstructions (.instructions (padded instructions programInlineInstructions ⟨.nop, 0⟩))
  let text ← readBytesAt m src.stringStorage 0 src.stringStorageUsed
  let m := set m dst.stringStorage (.bytes (padded text programMaxStringBytes 0))
  let data ← readBytesAt m src.bytesStorage 0 src.bytesStorageUsed
  let m := set m dst.bytesStorage (.bytes (padded data programMaxBytesStorage 0))
  let values ← readItems Block.asConstants m src.constants src.constantCount
  match values.mapM (rebase dst src) with
  | none => return (false, m)
  | some values =>
      return (true, set m dst.mutableConstants (.constants (padded values programInlineConstants .void)))

/-- What `copy_program` sets before it allocates. -/
def ProgramObject.header (dst src : ProgramObject) : ProgramObject :=
  { dst with
    formatVersion := src.formatVersion
    formatFlags := src.formatFlags
    sections := src.sections
    instructionCount := src.instructionCount
    constantCount := src.constantCount
    stringStorageUsed := src.stringStorageUsed
    bytesStorageUsed := src.bytesStorageUsed }

/-- `copy_program` into an empty program: whether it succeeds, and the copy as far as it has come. -/
def copyProgram (sizes : Sizes) (dst src : ProgramObject) (m : Memory Block) :
    Option (Bool × ProgramObject × Memory Block) :=
  if programMaxSections < src.sections.length ∨ programMaxStringBytes < src.stringStorageUsed ∨
      programMaxBytesStorage < src.bytesStorageUsed then some (false, dst, m)
  else
    let m := clearObject dst m
    let dst := dst.header src
    match reserve alloc dst.instructionStorage programInlineInstructions sizes.instruction src.instructionCount
        (.instructions (List.replicate src.instructionCount ⟨.nop, 0⟩)) m with
    | none => some (false, dst, m)
    | some (instructions, allocatedInstructionStorage, m) =>
        let dst := { dst with instructions, allocatedInstructionStorage }
        match reserve alloc dst.constantStorage programInlineConstants sizes.value src.constantCount
            (.constants (List.replicate src.constantCount .void)) m with
        | none => some (false, dst, m)
        | some (constants, allocatedConstantStorage, m) =>
            let dst := { dst with constants, allocatedConstantStorage }
            match copyCatalog alloc sizes src m with
            | none => none
            | some (none, m) => some (false, dst, m)
            | some (some catalogEntries, m) =>
                let dst := { dst with catalogEntries, catalogCount := src.catalogCount }
                (copyBody dst src m).map fun (copied, m) => (copied, dst, m)

end Copy

/-! ## The cache -/

structure CacheEntry where
  name : List Byte
  program : ProgramObject
  estimatedBytes : Nat
deriving DecidableEq, Repr

structure Cache where
  entries : Fin maxModules → Option CacheEntry
  count : Nat
  estimatedBytesUsed : Nat

/-- The cache, and the memory it shares with the host. -/
structure World where
  cache : Cache
  memory : Memory Block

/-- `aivm_module_cache_init`. -/
def Cache.init : Cache := ⟨fun _ => none, 0, 0⟩

/-- `valid_name`; names hold no NUL. -/
def validName (name : List Byte) : Bool := name ≠ [] ∧ name.length < maxNameLength

/-- One `size_add_checked` of the estimate, whose term is left out where the sum does not fit. -/
def addBytes (total add : Nat) : Nat := if total + add ≤ sizeMax then total + add else total

/-- `estimate_program_bytes`. -/
def estimateProgramBytes (sizes : Sizes) (p : ProgramObject) : Nat :=
  let total := addBytes sizes.program (p.instructionCount * sizes.instruction % 2 ^ 64)
  let total := addBytes total (p.constantCount * sizes.value % 2 ^ 64)
  let total := addBytes total p.stringStorageUsed
  addBytes total p.bytesStorageUsed

/-- `find_entry`. -/
def Cache.findEntry (c : Cache) (name : List Byte) : Option (Fin maxModules) :=
  (List.finRange maxModules).find? fun i => (c.entries i).any (·.name = name)

/-- The program of a zeroed entry. -/
def emptyProgram (i : Fin maxModules) : ProgramObject where
  formatVersion := 0
  formatFlags := 0
  sections := []
  instructions := none
  instructionCount := 0
  constants := none
  constantCount := 0
  instructionStorage := 4 * i
  allocatedInstructionStorage := none
  constantStorage := 4 * i + 1
  allocatedConstantStorage := none
  stringStorage := 4 * i + 2
  stringStorageUsed := 0
  bytesStorage := 4 * i + 3
  bytesStorageUsed := 0
  catalogEntries := none
  catalogCount := 0

/-- `aivm_program_release` of the program of an entry, and its zeroing. -/
def releaseEntry (p : ProgramObject) (m : Memory Block) : Memory Block := free (p.owned m) m

/-- `aivm_module_cache_put`. -/
def put (alloc : Allocator) (sizes : Sizes) (name : List Byte) (program : ProgramObject) (w : World) :
    Option (CacheStatus × World) :=
  if ¬ validName name then some (.invalid, w)
  else if (w.cache.findEntry name).isSome then some (.duplicate, w)
  else if maxModules ≤ w.cache.count then some (.limit, w)
  else
    let estimate := estimateProgramBytes sizes program
    let needed := w.cache.estimatedBytesUsed + estimate
    if sizeMax < needed ∨ maxBytes < needed then some (.limit, w)
    else
      match (List.finRange maxModules).find? fun i => (w.cache.entries i).isNone with
      | none => some (.limit, w)
      | some i =>
          match copyProgram alloc sizes (emptyProgram i) program w.memory with
          | none => none
          | some (false, copy, m) => some (.invalid, { w with memory := releaseEntry copy m })
          | some (true, copy, m) =>
              some (.ok,
                { cache :=
                    { entries := Function.update w.cache.entries i (some ⟨name, copy, estimate⟩)
                      count := w.cache.count + 1
                      estimatedBytesUsed := needed }
                  memory := m })

/-- `aivm_module_cache_get`. -/
def get (name : List Byte) (c : Cache) : CacheStatus × Option ProgramObject :=
  if ¬ validName name then (.invalid, none)
  else
    match (c.findEntry name).bind c.entries with
    | none => (.notFound, none)
    | some entry => (.ok, some entry.program)

/-- What the active entries own. -/
def World.owned (w : World) : List Nat :=
  (List.finRange maxModules).flatMap fun i =>
    match w.cache.entries i with
    | none => []
    | some entry => entry.program.owned w.memory

/-- `aivm_module_cache_clear`. -/
def clear (w : World) : World := ⟨.init, free w.owned w.memory⟩

/-! ## Loading -/

/-- What `write_string_constant` appends to the storage. -/
def storedText : Value → List Byte
  | .string (.lit text) => text ++ [0]
  | _ => []

/-- What `write_bytes_constant` appends to the storage. -/
def storedData : Value → List Byte
  | .bytes (.ext data) _ => data
  | _ => []

/-- A constant of which the text or the data is stored at an offset. -/
def layConstant (stringStorage bytesStorage texts data : Nat) : Value → Value
  | .string _ => .string (.arena stringStorage texts)
  | .bytes _ length => .bytes (.arena bytesStorage data) length
  | v => v

/-- The constants, whose texts and data are stored one after the other. -/
def layConstants (stringStorage bytesStorage : Nat) : (texts data : Nat) → List Value → List Value
  | _, _, [] => []
  | texts, data, v :: vs =>
      layConstant stringStorage bytesStorage texts data v ::
        layConstants stringStorage bytesStorage (texts + (storedText v).length) (data + (storedData v).length) vs

/-- The entries of a catalog with their artifacts from an address on. -/
def loadedCells (artifacts : Nat) : List WorkerCatalogEntry → List CatalogCell
  | [] => []
  | e :: es =>
      ⟨e.functionTarget, e.requiredCapabilities, e.transportAbi, e.bytecodeVersion, e.identity, artifacts,
        e.artifact.length⟩ :: loadedCells (artifacts + 1) es

/-- The blocks of a loaded program, from its first address on. -/
def loadedBlocks (base : Nat) (r : ProgramRecord) : List Block :=
  [.instructions r.instructions, .constants (layConstants (base + 2) (base + 3) 0 0 r.constants),
    .bytes (padded (r.constants.flatMap storedText) programMaxStringBytes 0),
    .bytes (padded (r.constants.flatMap storedData) programMaxBytesStorage 0),
    .catalog (loadedCells (base + 5) r.workerCatalog)] ++ r.workerCatalog.map fun e => .bytes e.artifact

/-- A program that was loaded to an address; whether its items are in its arrays or allocated makes no difference to a
reader, and they are in its arrays here. -/
def loadedObject (base : Nat) (r : ProgramRecord) : ProgramObject where
  formatVersion := r.formatVersion
  formatFlags := r.formatFlags
  sections := r.sections
  instructions := some base
  instructionCount := r.instructions.length
  constants := some (base + 1)
  constantCount := r.constants.length
  instructionStorage := base
  allocatedInstructionStorage := none
  constantStorage := base + 1
  allocatedConstantStorage := none
  stringStorage := base + 2
  stringStorageUsed := r.stringStorageUsed
  bytesStorage := base + 3
  bytesStorageUsed := r.bytesStorageUsed
  catalogEntries := some (base + 4)
  catalogCount := r.workerCatalog.length

/-- Blocks from an address on. -/
def place (base : Nat) (blocks : List Block) (m : Memory Block) : Memory Block := fun x =>
  if base ≤ x ∧ x < base + blocks.length then blocks[x - base]? else m x

/-- `aivm_module_cache_load_aibc1`; the program is loaded to `base`, over what an uninitialized record holds, and
released again. -/
def load (alloc : Allocator) (sizes : Sizes) (host : LoadHost) (uninitialized : ProgramRecord) (base : Nat)
    (name bytes : List Byte) (w : World) : Option (CacheStatus × World) :=
  if ¬ validName name then some (.invalid, w)
  else
    match loadProgram host bytes uninitialized with
    | .ok r => do
        let blocks := loadedBlocks base r
        let (status, w) ← put alloc sizes name (loadedObject base r) { w with memory := place base blocks w.memory }
        return (status, { w with memory := free (List.range' base blocks.length) w.memory })
    | .fail _ => some (.invalid, w)
    | _ => none

/-! ## Runs -/

inductive CacheCommand where
  | put (name : List Byte)
  | load (name : List Byte)
  | get (name : List Byte)
  | clear
  | host
deriving DecidableEq, Repr

/-- The operations of the cache, and whatever the host does meanwhile with memory that is not the cache's: it builds,
mutates, releases and reloads programs. -/
inductive Step (sizes : Sizes) (w : World) : CacheCommand → World → Prop where
  | put {alloc name program status w'} : put alloc sizes name program w = some (status, w') → Step sizes w (.put name) w'
  | load {alloc host uninitialized base name bytes status w'} :
      cacheEnd ≤ base →
      (∀ r, loadProgram host bytes uninitialized = .ok r → ∀ k < (loadedBlocks base r).length,
        w.memory (base + k) = none) →
      load alloc sizes host uninitialized base name bytes w = some (status, w') → Step sizes w (.load name) w'
  | get {name} : Step sizes w (.get name) w
  | clear : Step sizes w .clear (clear w)
  | host {memory} : (∀ a, a < cacheEnd ∨ a ∈ w.owned → memory a = w.memory a) → Step sizes w .host { w with memory }

end Aivm.ModuleCache
