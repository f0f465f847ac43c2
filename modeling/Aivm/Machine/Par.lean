import Aivm.Machine.Tasks

/-!
# Parallel blocks

`PAR_BEGIN`, `PAR_FORK` and `PAR_JOIN`. A join makes a node of every value forked since the last begin; tasks among
them are awaited in order and consumed when the block has been pushed.
-/

namespace Aivm

open VmM

variable (env : Env) (nested : Vm → Option Vm)

/-- `PAR_BEGIN`. -/
def parBegin (operand : Int) : VmM Unit := do
  let expectedCount ← (Routine.operandToIndex operand : Routine env Nat).run
  let vm ← get
  if parContextCapacity < vm.parContexts.length + 1 then
    throw ⟨.invalidProgram, "PAR_BEGIN exceeded context capacity."⟩
  else
    modify fun vm => { vm with parContexts := vm.parContexts ++ [⟨expectedCount, vm.parValues.length⟩] }
    advance

/-- `PAR_FORK`. -/
def parFork : VmM Unit := do
  let vm ← get
  if vm.parContexts = [] then
    throw ⟨.invalidProgram, "PAR_FORK requires active Par context."⟩
  else if parValueCapacity < vm.parValues.length + 1 then
    throw ⟨.invalidProgram, "PAR_FORK exceeded value capacity."⟩
  else
    let v ← stackPop
    modify fun vm => { vm with parValues := vm.parValues ++ [v] }
    advance

/-- The value of a task that can be awaited, and the handle that is consumed by that; any other value is itself. -/
def joinedValue (v : Value) : VmM (Value × List Nat) :=
  match v with
  | .task handle => do
      match ← attempt (findTerminalTaskResult env nested handle) with
      | some result => return (result, [handle])
      | none => return (v, [])
  | _ => return (v, [])

/-- The loop of `PAR_JOIN`: the nodes and the consumed tasks. -/
def joinValues (start : Nat) : Nat → Nat → VmM (List Nat × List Nat)
  | 0, _ => return ([], [])
  | remaining + 1, i => do
      let vm ← get
      match vm.parValues[start + i]? with
      | none => throw ⟨.invalidProgram, "PAR_JOIN value index was invalid."⟩
      | some v =>
          let joined ← joinedValue env nested v
          let child ← (createRuntimeNodeFromValue env joined.1).run
          let rest ← joinValues start remaining (i + 1)
          return (child :: rest.1, joined.2 ++ rest.2)

/-- Consume the tasks that have been joined. -/
def releaseJoined : List Nat → VmM Unit
  | [] => return
  | handle :: handles => do
      releaseConsumedTaskResult env handle
      releaseJoined handles

/-- The node of a block, under the next block id. -/
def createParBlock (children : List Nat) : VmM Nat := do
  let vm ← get
  modify fun vm => { vm with nextParNodeId := vm.nextParNodeId + 1 }
  (Routine.createNode (litPtr "Block") (.lit (ascii "par_" ++ natDecimal vm.nextParNodeId)) [] (.array children) :
    Routine env Nat).run

/-- Leave a parallel block with its node. -/
def closePar (start block : Nat) : VmM Unit := do
  modify fun vm => { vm with parContexts := vm.parContexts.dropLast, parValues := vm.parValues.take start }
  stackPush (.node block)

/-- `PAR_JOIN`. A task that cannot be awaited leaves its error behind, which is looked at when all values have been
joined. -/
def parJoin (operand : Int) : VmM Unit := do
  let joinCount ← (Routine.operandToIndex operand : Routine env Nat).run
  let vm ← get
  match vm.parContexts.getLast? with
  | none => throw ⟨.invalidProgram, "PAR_JOIN requires active Par context."⟩
  | some context =>
      if context.expectedCount ≠ joinCount ∨ vm.parValues.length < context.startIndex ∨
          vm.parValues.length - context.startIndex ≠ joinCount then
        throw ⟨.invalidProgram, "PAR_JOIN branch count mismatch."⟩
      else if vmNodeChildCapacity < joinCount then
        throw ⟨.invalidProgram, "PAR_JOIN exceeded child capacity."⟩
      else
        let joined ← joinValues env nested context.startIndex joinCount 0
        let vm ← get
        if vm.status = .error then
          giveUp
        else
          let block ← createParBlock env joined.1
          closePar context.startIndex block
          releaseJoined env joined.2
          advance

end Aivm
