import Aivm.Machine.Routine
import Aivm.Machine.Text

/-!
# Scalar instructions

The arithmetic and comparison instructions of `aivm_step`, with the numeric helpers of `aivm_vm_value.c` and
`aivm_value_equals`. Signed arithmetic that overflows has no defined result.
-/

namespace Aivm

open Routine

variable (env : Env)

/-! ## Values -/

/-- A result that fits a signed 64-bit integer. -/
def int64 (i : Int) : Option Int := if -(2 ^ 63) ≤ i ∧ i < 2 ^ 63 then some i else none

/-- `aivm_vm_value_is_numeric` and `aivm_vm_value_as_number`. -/
def Value.asNumber (ops : FloatOps) : Value → Option UInt64
  | .int i => some (ops.ofInt i)
  | .number x => some x
  | _ => none

/-- `aivm_vm_numeric_result`. -/
def numericResult (ops : FloatOps) (x : UInt64) : Value :=
  if ops.eq (ops.ofInt (ops.toInt x)) x then .int (ops.toInt x) else .number x

/-- `aivm_vm_double_pow_whole`. -/
def doublePowWhole (ops : FloatOps) (base exponent : UInt64) : Option UInt64 :=
  let exp := ops.toInt exponent
  if ¬ ops.eq (ops.ofInt exp) exponent then some (ops.ofInt 0)
  else if exp = -(2 ^ 63) then none
  else
    let result := (List.range exp.natAbs).foldl (fun r _ => ops.mul r base) (ops.ofInt 1)
    some (if exp < 0 then ops.div (ops.ofInt 1) result else result)

/-- `aivm_cstring_equals`. -/
def cstringEquals (h : Heap) (p q : StrPtr) : Option Bool :=
  if p = q then some true
  else if p = .null ∨ q = .null then some false
  else do return (← h.cstr p) = (← h.cstr q)

/-- `aivm_value_equals`. -/
def valueEquals (ops : FloatOps) (h : Heap) (left right : Value) : Option Bool :=
  match left.asNumber ops, right.asNumber ops with
  | some x, some y => some (ops.eq x y)
  | _, _ =>
      match left, right with
      | .void, .void => some true
      | .bool a, .bool b => some (a = b)
      | .null, .null => some true
      | .string p, .string q => cstringEquals h p q
      | .bytes d n, .bytes e m =>
          if n ≠ m then some false
          else if n = 0 then some true
          else if d = .null ∨ e = .null then some false
          else do return (← h.bytesAt d n) = (← h.bytesAt e n)
      | .node a, .node b => some (a = b)
      | .pair a, .pair b => some (a = b)
      | .nodeBuilder a, .nodeBuilder b => some (a = b)
      | .mapBuilder a, .mapBuilder b => some (a = b)
      | .map a, .map b => some (a = b)
      | .unknown, .unknown => some true
      | _, _ => some false

/-! ## Instructions -/

/-- The return addresses shown by error texts. -/
def returnAddresses (vm : Vm) : String :=
  let ret := fun i => ((vm.callFrames.reverse[i]?).map CallFrame.returnInstructionPointer).getD 0
  s!"ip={vm.instructionPointer} ret0={ret 0} ret1={ret 1}"

/-- The text of a string operand in an error message. -/
def operandText (h : Heap) : Value → Option String
  | .string .null => some ""
  | .string p => (h.cstr p).map fun text => detailText (text.take 40)
  | _ => some ""

/-- Push the value for a `double`. -/
def pushNumber (x : UInt64) : Routine env Unit :=
  push (numericResult env.floats x) (by unfold numericResult; split <;> rfl)

/-- Push a whole number where it fits. -/
def pushInt (i : Int) : Routine env Unit := do
  let i ← deref (int64 i)
  push (.int i)

/-- `PUSH_INT`. -/
def pushIntOp (operand : Int) : Routine env Unit := push (.int operand)

/-- `PUSH_BOOL`. -/
def pushBoolOp (operand : Int) : Routine env Unit := push (.bool (operand ≠ 0))

/-- `POP`. -/
def popOp : Routine env Unit := do
  let _ ← pop

/-- `STORE_LOCAL`. -/
def storeLocalOp (operand : Int) : Routine env Unit := operandToIndex operand >>= storeLocal

/-- `LOAD_LOCAL`. -/
def loadLocalOp (operand : Int) : Routine env Unit := operandToIndex operand >>= loadLocal

/-- `CONST`. -/
def constOp (operand : Int) : Routine env Unit := operandToIndex operand >>= pushConstant

/-- `aivm_vm_set_add_numeric_type_error`. -/
def addNumericTypeError (left right : Value) : Routine env Unit := do
  let vm ← look
  let leftText ← deref (operandText vm.toHeap left)
  let rightText ← deref (operandText vm.toHeap right)
  throw ⟨.typeMismatch, s!"ADD_INT requires int operands. left={left.typeName}(\"{leftText}\") " ++
    s!"right={right.typeName}(\"{rightText}\") " ++ returnAddresses vm⟩

/-- `ADD_INT`. -/
def addInt : Routine env Unit := do
  let right ← pop
  let left ← pop
  match left.asNumber env.floats, right.asNumber env.floats with
  | some x, some y =>
      match left, right with
      | .int a, .int b => pushInt env (a + b)
      | _, _ => pushNumber env (env.floats.add x y)
  | _, _ => addNumericTypeError env left right

/-- A numeric instruction on its right and left operand: one way for two whole numbers, if any, and one for all. -/
def numericOp (ints : Option (Int → Int → Int)) (numbers : UInt64 → UInt64 → Routine env Unit) : Routine env Unit := do
  let right ← pop
  let left ← pop
  match left.asNumber env.floats, right.asNumber env.floats with
  | some x, some y =>
      match ints, left, right with
      | some f, .int a, .int b => pushInt env (f a b)
      | _, _, _ => numbers x y
  | _, _ => throw ⟨.typeMismatch, "Numeric operation requires number operands."⟩

/-- `SUB_NUM`. -/
def subNum : Routine env Unit :=
  numericOp env (some fun a b => a - b) fun x y => pushNumber env (env.floats.sub x y)

/-- `MUL_NUM`. -/
def mulNum : Routine env Unit :=
  numericOp env (some fun a b => a * b) fun x y => pushNumber env (env.floats.mul x y)

/-- `DIV_NUM`. -/
def divNum : Routine env Unit :=
  numericOp env none fun x y =>
    if env.floats.eq y (env.floats.ofInt 0) then throw ⟨.typeMismatch, "DIV requires non-zero divisor."⟩
    else pushNumber env (env.floats.div x y)

/-- `MOD_NUM`. The remainder of the smallest number by `-1` is not defined. -/
def modNum : Routine env Unit := do
  let right ← pop
  let left ← pop
  match left.asNumber env.floats, right.asNumber env.floats with
  | some x, some y =>
      if env.floats.eq y (env.floats.ofInt 0) then throw ⟨.typeMismatch, "MOD requires non-zero divisor."⟩
      else
        match left, right with
        | .int a, .int b => do
            let _ ← deref (int64 (a.tdiv b))
            push (.int (a.tmod b))
        | _, _ =>
            let quotient := env.floats.ofInt (env.floats.toInt (env.floats.div x y))
            pushNumber env (env.floats.sub x (env.floats.mul quotient y))
  | _, _ => throw ⟨.typeMismatch, "Numeric operation requires number operands."⟩

/-- `POW_NUM`. -/
def powNum : Routine env Unit :=
  numericOp env none fun x y => do
    let r ← deref (doublePowWhole env.floats x y)
    pushNumber env r

/-- `LT_NUM`. -/
def ltNum : Routine env Unit := do
  let right ← pop
  let left ← pop
  match left.asNumber env.floats, right.asNumber env.floats with
  | some x, some y => push (.bool (env.floats.lt x y))
  | _, _ => throw ⟨.typeMismatch, "LT requires number operands."⟩

/-- `EQ_INT`. -/
def eqInt : Routine env Unit := do
  let right ← pop
  let left ← pop
  match left, right with
  | .int a, .int b => push (.bool (a = b))
  | _, _ => throw ⟨.typeMismatch, "EQ_INT requires int operands."⟩

/-- `EQ`. -/
def eqOp : Routine env Unit := do
  let right ← pop
  let left ← pop
  let vm ← look
  let same ← deref (valueEquals env.floats vm.toHeap left right)
  push (.bool same)

/-- `VALUE_KIND`. -/
def valueKind : Routine env Unit := do
  let v ← pop
  match v with
  | .task _ | .workerRef _ | .workerTasks _ =>
      throw ⟨.typeMismatch, "VALUE_KIND received invalid value type."⟩
  | v => push (.string (← copyString (litPtr v.typeName)))

/-! ## Pairs -/

/-- `MAKE_PAIR`. -/
def makePair : Routine env Unit := do
  let vm ← look
  if scratchPairCapacity ≤ vm.scratchPairs.length then
    safePoint
  storePair

/-- The union member that holds a handle, as it is printed for a value of any type. -/
def Value.handleMember : Value → Int
  | .int i => i
  | .node h | .pair h | .nodeBuilder h | .mapBuilder h | .map h | .task h | .workerRef h | .workerTasks h => h
  | _ => 0

/-- The handle of a pair in the table. -/
def pairOperand (opName : String) (h : ∀ text : String, Fault.Regular ⟨.typeMismatch, opName ++ text⟩) :
    Routine env Nat := do
  let v ← pop
  let vm ← look
  let wrong : String := s!" requires pair operand. actual={v.typeName} handle={v.handleMember} " ++
    s!"pairCount={vm.scratchPairs.length} " ++ returnAddresses vm
  match v with
  | .pair handle =>
      match vm.lookupScratchPair handle with
      | some _ => return handle
      | none => throw ⟨.typeMismatch, opName ++ wrong⟩ (h wrong)
  | _ => throw ⟨.typeMismatch, opName ++ wrong⟩ (h wrong)

/-- `PAIR_FIRST`. -/
def pairFirst : Routine env Unit := do
  let handle ← pairOperand env "PAIR_FIRST" (by simp [Fault.Regular, machineDiagnostics])
  loadFirst handle

/-- `PAIR_SECOND`. -/
def pairSecond : Routine env Unit := do
  let handle ← pairOperand env "PAIR_SECOND" (by simp [Fault.Regular, machineDiagnostics])
  loadSecond handle

end Aivm
