import Aivm.Gc.SafePoint
import Aivm.Machine.Stack
import Aivm.Machine.Text
import Aivm.Workers.BoundaryCopy

/-!
# Ordinary instructions

Most instructions pop their operands, look at the stores, allocate, and push a result. What they may do is a fixed list
of operations; a routine is a computation together with a proof that it is built from them, so that whatever each
operation keeps is kept by every ordinary instruction.
-/

namespace Aivm

/-- What the machine reports when its own counts do not fit together. -/
def machineDiagnostics : List String := ["VM state invariant failed", "VM locals invariant failed"]

/-- A fault that is no report about the machine itself. -/
def Fault.Regular (f : Fault) : Prop :=
  f.error ≠ .none ∧ ∀ text ∈ machineDiagnostics, ¬ text.toList <+: f.detail.toList

/-- A text that starts with another letter is no report about the machine. -/
theorem Fault.Regular.of_head {error : VmError} {c : Char} {text : String} (he : error ≠ .none)
    (hc : text.toList.head? = some c) (hne : c ≠ 'V') : Fault.Regular ⟨error, text⟩ := by
  obtain ⟨cs, hcs⟩ := List.head?_eq_some_iff.1 hc
  refine ⟨he, fun diagnostic hm hp => hne ?_⟩
  rw [hcs] at hp
  simp only [machineDiagnostics, List.mem_cons, List.not_mem_nil, or_false] at hm
  obtain rfl | rfl := hm <;> simp at hp <;> exact hp.1.symm

/-- A value that carries no handle of a pair, a task or a worker. -/
def Value.isPlain : Value → Bool
  | .pair _ => false
  | .task _ => false
  | .workerRef _ => false
  | .workerTasks _ => false
  | _ => true

/-- What an ordinary instruction can see. Slots above the locals and the index of the string arena are hidden. -/
def Vm.seen (vm : Vm) : Vm :=
  { vm with staleLocals := [], stringIntern := ⟨[], 0, false⟩, hostClock := 0, events := [] }

/-- Write a slot of a table with `capacity` slots, of which the unused ones at the end are left out. -/
def putSlot {α : Type} (capacity slot : Nat) (a : α) (slots : List α) : List α :=
  if slot < slots.length then slots.set slot a
  else if slots.length < capacity then slots ++ [a]
  else slots

/-- The first free slot of a table. -/
def freeSlot {α : Type} (slots : List (Option α)) : Nat := (slots.findIdx? Option.isNone).getD slots.length

/-- A pointer some bytes further on. -/
def StrPtr.advance (n : Nat) : StrPtr → StrPtr
  | .null => .null
  | .lit text => .lit (text.drop n)
  | .arena block offset => .arena block (offset + n)

namespace VmM

variable {α : Type}

/-- The part of the state an ordinary instruction can see. -/
def look : VmM Vm := fun vm => .ok vm.seen vm

/-- Set an error where none has been set. -/
def orFault (f : Fault) (x : VmM α) : VmM α := onFail (fun vm => if vm.status = .error then vm else setVmError f vm) x

/-- Set an error, whatever has been set before. -/
def override (f : Fault) (x : VmM α) : VmM α := onFail (setVmError f) x

/-- Give up where the host does not grant an allocation. -/
def claim (env : Env) (what : String) : VmM Unit := fun vm => if env.allocates vm what then .ok () vm else .fail vm

end VmM

/-! ## Operations -/

namespace VmM

/-- `CONST`. -/
def pushConstant (index : Nat) : VmM Unit := do
  let vm ← get
  match vm.program.constants[index]? with
  | none => throw ⟨.invalidProgram, "Invalid CONST index."⟩
  | some v => stackPush v

def storeLocal (index : Nat) : VmM Unit := stackPop >>= localSet index

def loadLocal (index : Nat) : VmM Unit := do
  let vm ← get
  match localGet vm index with
  | none => throw (localOutOfRange "load" index (localsBase vm) vm)
  | some v => stackPush v

/-- Pop two values and push a pair of them. -/
def storePair : VmM Unit := do
  let second ← stackPop
  let first ← stackPop
  let handle ← createScratchPair first second
  stackPush (.pair handle)

/-- Push a component of a pair. -/
def loadPair (handle : Nat) (component : ScratchPair → Value) : VmM Unit := do
  let vm ← get
  match vm.lookupScratchPair handle with
  | none => giveUp
  | some p => stackPush (component p)

/-- `aivm_vm_copy_string_range_to_arena` on the first bytes of a string: a copy from the arena is taken out of it before
room is made. -/
def copyRange (env : Env) (p : StrPtr) (length : Nat) : VmM StrPtr := do
  let vm ← get
  let text ← deref (vm.cstr p)
  let copy := text.take length
  if vm.pointerInStringArena p ∧ lookupStringOffset vm copy = none then
    claim env "string snapshot"
  copyStringRangeToArena env copy

/-- `aivm_vm_copy_string_splice_to_arena` on the first bytes of two strings. -/
def copySplice (env : Env) (p : StrPtr) (prefixLength : Nat) (q : StrPtr) (suffixLength : Nat) : VmM StrPtr := do
  let vm ← get
  let first ← deref (vm.cstr p)
  let second ← deref (vm.cstr q)
  let text := first.take prefixLength ++ second.take suffixLength
  if CStrings.find 0 text vm.stringArena.length vm.stringArena 0 = none then
    if vm.pointerInStringArena p then
      claim env "string snapshot"
    if vm.pointerInStringArena q then
      claim env "string snapshot"
  copyStringSpliceToArena env text

/-- `utf8_byte_offset_for_rune`. The last position found is remembered for the pointer that was walked, whatever lies
there later. -/
def utf8ByteOffsetForRune (p : StrPtr) (rune : Nat) : VmM Nat := do
  let vm ← get
  let cached : Bool := vm.utf8OffsetCache.text = p ∧ vm.utf8OffsetCache.rune ≤ rune
  let startRune := if cached then vm.utf8OffsetCache.rune else 0
  let startByte := if cached then vm.utf8OffsetCache.byte else 0
  let rest ← deref (vm.cstr (p.advance startByte))
  let walk := walkRunes rest.length (rune - startRune) rest
  modify fun vm => { vm with utf8OffsetCache := ⟨p, startRune + walk.2, startByte + walk.1⟩ }
  return startByte + walk.1

def putNodeBuilder (slot : Nat) (b : Option NodeBuilderRecord) : VmM Unit :=
  modify fun vm => { vm with nodeBuilders := putSlot nodeBuilderCapacity slot b vm.nodeBuilders }

def putMap (slot : Nat) (m : Option MapRecord) : VmM Unit :=
  modify fun vm => { vm with maps := putSlot mapCapacity slot m vm.maps }

end VmM

/-! ## Routines -/

/-- What an ordinary instruction is built from. -/
inductive Built (env : Env) : {α : Type} → VmM α → Prop where
  | pure {α : Type} (a : α) : Built env (Pure.pure a)
  | bind {α β : Type} {x : VmM α} {f : α → VmM β} : Built env x → (∀ a, Built env (f a)) → Built env (x >>= f)
  | look : Built env VmM.look
  | deref {α : Type} (x : Option α) : Built env (VmM.deref x)
  | throw {α : Type} {f : Fault} : f.Regular → Built env (VmM.throw f : VmM α)
  | giveUp {α : Type} : Built env (VmM.giveUp : VmM α)
  | orFault {α : Type} {f : Fault} {x : VmM α} : f.Regular → Built env x → Built env (VmM.orFault f x)
  | override {α : Type} {f : Fault} {x : VmM α} : f.Regular → Built env x → Built env (VmM.override f x)
  | claim (what : String) : Built env (VmM.claim env what)
  | pop : Built env stackPop
  | push {v : Value} : v.isPlain = true → Built env (stackPush v)
  | pushConstant (index : Nat) : Built env (VmM.pushConstant index)
  | storeLocal (index : Nat) : Built env (VmM.storeLocal index)
  | loadLocal (index : Nat) : Built env (VmM.loadLocal index)
  | storePair : Built env VmM.storePair
  | loadFirst (handle : Nat) : Built env (VmM.loadPair handle ScratchPair.first)
  | loadSecond (handle : Nat) : Built env (VmM.loadPair handle ScratchPair.second)
  | safePoint : Built env (collectSafePoint env)
  | createNode (kind id : StrPtr) (attrs : List NodeAttr) (children : ChildSource) :
      Built env (createNodeRecord env kind id attrs children)
  | copyString (p : StrPtr) : Built env (copyStringToArena env p)
  | copyRange (p : StrPtr) (length : Nat) : Built env (VmM.copyRange env p length)
  | copySplice (p : StrPtr) (prefixLength : Nat) (q : StrPtr) (suffixLength : Nat) :
      Built env (VmM.copySplice env p prefixLength q suffixLength)
  | allocString (text : List Byte) : Built env (stringArenaAlloc env text)
  | allocBytes (data : List Byte) : Built env (bytesArenaAlloc env data)
  | admitGrowth (growth : Nat) : Built env (admitHostMemoryGrowth env growth)
  | byteOffset (p : StrPtr) (rune : Nat) : Built env (VmM.utf8ByteOffsetForRune p rune)
  | putNodeBuilder (slot : Nat) (b : Option NodeBuilderRecord) : Built env (VmM.putNodeBuilder slot b)
  | putMap (slot : Nat) (m : Option MapRecord) : Built env (VmM.putMap slot m)

/-- An ordinary instruction, or a part of one. -/
structure Routine (env : Env) (α : Type) where
  run : VmM α
  built : Built env run

namespace Routine

variable {env : Env} {α β : Type}

instance : Monad (Routine env) where
  pure a := ⟨Pure.pure a, .pure a⟩
  bind x f := ⟨x.run >>= fun a => (f a).run, .bind x.built fun a => (f a).built⟩

@[simp] theorem pure_run (a : α) : (Pure.pure a : Routine env α).run = Pure.pure a := rfl

@[simp] theorem bind_run (x : Routine env α) (f : α → Routine env β) :
    (x >>= f).run = x.run >>= fun a => (f a).run := rfl

def look : Routine env Vm := ⟨VmM.look, .look⟩
def deref (x : Option α) : Routine env α := ⟨VmM.deref x, .deref x⟩

def throw (f : Fault) (h : f.Regular := by simp [Fault.Regular, machineDiagnostics, toString]) : Routine env α :=
  ⟨VmM.throw f, .throw h⟩

def giveUp : Routine env α := ⟨VmM.giveUp, .giveUp⟩

def orFault (f : Fault) (x : Routine env α)
    (h : f.Regular := by simp [Fault.Regular, machineDiagnostics, toString]) : Routine env α :=
  ⟨VmM.orFault f x.run, .orFault h x.built⟩

def override (f : Fault) (x : Routine env α)
    (h : f.Regular := by simp [Fault.Regular, machineDiagnostics, toString]) : Routine env α :=
  ⟨VmM.override f x.run, .override h x.built⟩

def claim (what : String) : Routine env Unit := ⟨VmM.claim env what, .claim what⟩
def pop : Routine env Value := ⟨stackPop, .pop⟩
def push (v : Value) (h : v.isPlain = true := by exact Eq.refl true) : Routine env Unit := ⟨stackPush v, .push h⟩
def pushConstant (index : Nat) : Routine env Unit := ⟨VmM.pushConstant index, .pushConstant index⟩
def storeLocal (index : Nat) : Routine env Unit := ⟨VmM.storeLocal index, .storeLocal index⟩
def loadLocal (index : Nat) : Routine env Unit := ⟨VmM.loadLocal index, .loadLocal index⟩
def storePair : Routine env Unit := ⟨VmM.storePair, .storePair⟩
def loadFirst (handle : Nat) : Routine env Unit := ⟨VmM.loadPair handle ScratchPair.first, .loadFirst handle⟩
def loadSecond (handle : Nat) : Routine env Unit := ⟨VmM.loadPair handle ScratchPair.second, .loadSecond handle⟩
def safePoint : Routine env Unit := ⟨collectSafePoint env, .safePoint⟩

def createNode (kind id : StrPtr) (attrs : List NodeAttr) (children : ChildSource) : Routine env Nat :=
  ⟨createNodeRecord env kind id attrs children, .createNode kind id attrs children⟩

def copyString (p : StrPtr) : Routine env StrPtr := ⟨copyStringToArena env p, .copyString p⟩

def copyRange (p : StrPtr) (length : Nat) : Routine env StrPtr := ⟨VmM.copyRange env p length, .copyRange p length⟩

def copySplice (p : StrPtr) (prefixLength : Nat) (q : StrPtr) (suffixLength : Nat) : Routine env StrPtr :=
  ⟨VmM.copySplice env p prefixLength q suffixLength, .copySplice p prefixLength q suffixLength⟩

def allocString (text : List Byte) : Routine env StrPtr := ⟨stringArenaAlloc env text, .allocString text⟩
def allocBytes (data : List Byte) : Routine env BytesPtr := ⟨bytesArenaAlloc env data, .allocBytes data⟩
def admitGrowth (growth : Nat) : Routine env Unit := ⟨admitHostMemoryGrowth env growth, .admitGrowth growth⟩

def byteOffset (p : StrPtr) (rune : Nat) : Routine env Nat := ⟨VmM.utf8ByteOffsetForRune p rune, .byteOffset p rune⟩

def putNodeBuilder (slot : Nat) (b : Option NodeBuilderRecord) : Routine env Unit :=
  ⟨VmM.putNodeBuilder slot b, .putNodeBuilder slot b⟩

def putMap (slot : Nat) (m : Option MapRecord) : Routine env Unit := ⟨VmM.putMap slot m, .putMap slot m⟩

/-- Claim host memory or fail. -/
def allocate (f : Fault) (what : String)
    (h : f.Regular := by simp [Fault.Regular, machineDiagnostics, toString]) : Routine env Unit :=
  override f (claim what) h

/-- `operand_to_index`. -/
def operandToIndex (operand : Int) : Routine env Nat :=
  if operand < 0 then throw ⟨.invalidProgram, "Negative operand is invalid."⟩ else return operand.toNat

end Routine

end Aivm
