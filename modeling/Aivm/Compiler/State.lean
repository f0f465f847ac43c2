import Aivm.Compiler.Nodes
import Aivm.Program.Draft

/-!
# The state of a compilation

The context of the native compiler and the steps that change it. A rejected compilation keeps the message that was set
last; a step that gives up without a message of its own leaves the message as it was.
-/

namespace Aivm

/-! ## Computations -/

inductive FrontResult (σ α : Type) where
  | ok (value : α) (state : σ)
  | rejected (message : Option Text)
  | outOfFuel

/-- A computation of a front end. -/
def FrontM (σ α : Type) : Type := σ → FrontResult σ α

namespace FrontM

variable {σ α β : Type}

instance : Monad (FrontM σ) where
  pure a := fun s => .ok a s
  bind m f := fun s =>
    match m s with
    | .ok a s => f a s
    | .rejected message => .rejected message
    | .outOfFuel => .outOfFuel

def get : FrontM σ σ := fun s => .ok s s

def modify (f : σ → σ) : FrontM σ Unit := fun s => .ok () (f s)

/-- `return 0`. -/
def giveUp : FrontM σ α := fun _ => .rejected none

/-- `simple_failf`; the message buffer holds 255 bytes. -/
def failf (message : Text) : FrontM σ α := fun _ => .rejected (some (message.take 255))

/-- `simple_fail`. -/
def fail (message : String) : FrontM σ α := failf (ascii message)

/-- A failure of the computation gets another message. -/
def orFailf (message : Text) (m : FrontM σ α) : FrontM σ α := fun s =>
  match m s with
  | .rejected _ => failf message s
  | r => r

def orFail (message : String) (m : FrontM σ α) : FrontM σ α := orFailf (ascii message) m

def ofOption (message : Text) : Option α → FrontM σ α
  | some a => pure a
  | none => failf message

theorem pure_run (a : α) (s : σ) : (pure a : FrontM σ α) s = .ok a s := rfl

theorem bind_ok {m : FrontM σ α} {f : α → FrontM σ β} {s s' : σ} {b : β} :
    (m >>= f) s = .ok b s' ↔ ∃ a t, m s = .ok a t ∧ f a t = .ok b s' := by
  change (match m s with
    | .ok a s => f a s
    | .rejected message => .rejected message
    | .outOfFuel => .outOfFuel) = _ ↔ _
  cases m s <;> simp

theorem pure_ok {a b : α} {s s' : σ} : (pure a : FrontM σ α) s = .ok b s' ↔ a = b ∧ s = s' := by
  rw [pure_run, FrontResult.ok.injEq]

theorem get_bind (f : σ → FrontM σ α) (s : σ) : (get >>= f) s = f s s := rfl

theorem modify_ok {f : σ → σ} {s s' : σ} {u} : modify f s = .ok u s' ↔ s' = f s := by
  simp [modify, eq_comm]

theorem giveUp_ok {s s' : σ} {a : α} : ¬ (giveUp : FrontM σ α) s = .ok a s' := by
  simp [giveUp]

theorem failf_ok {message} {s s' : σ} {a : α} : ¬ (failf message : FrontM σ α) s = .ok a s' := by
  simp [failf]

theorem fail_ok {message} {s s' : σ} {a : α} : ¬ (fail message : FrontM σ α) s = .ok a s' := failf_ok

theorem orFailf_ok {message} {m : FrontM σ α} {s s' : σ} {a : α} : orFailf message m s = .ok a s' ↔ m s = .ok a s' := by
  unfold orFailf
  cases m s <;> simp [failf]

theorem orFail_ok {message} {m : FrontM σ α} {s s' : σ} {a : α} : orFail message m s = .ok a s' ↔ m s = .ok a s' :=
  orFailf_ok

theorem ofOption_ok {message} {x : Option α} {s s' : σ} {a : α} :
    (ofOption message x : FrontM σ α) s = .ok a s' ↔ x = some a ∧ s' = s := by
  cases x with
  | none => simp [ofOption, failf]
  | some b => simp [ofOption, pure_run, eq_comm]

theorem bind_outOfFuel {m : FrontM σ α} {f : α → FrontM σ β} {s : σ} :
    (m >>= f) s = .outOfFuel ↔ m s = .outOfFuel ∨ ∃ a t, m s = .ok a t ∧ f a t = .outOfFuel := by
  change (match m s with
    | .ok a s => f a s
    | .rejected message => .rejected message
    | .outOfFuel => .outOfFuel) = _ ↔ _
  cases m s <;> simp

theorem ofOption_outOfFuel {message} {x : Option α} {s : σ} : ¬ (ofOption message x : FrontM σ α) s = .outOfFuel := by
  cases x with
  | none => simp [ofOption, failf]
  | some a => simp [ofOption, pure_run]

theorem orFailf_outOfFuel {message} {m : FrontM σ α} {s : σ} : orFailf message m s = .outOfFuel ↔ m s = .outOfFuel := by
  unfold orFailf
  cases m s <;> simp [failf]

end FrontM

/-! ## The context -/

def simpleMaxSources : Nat := 256
def simpleMaxFuncs : Nat := 1024
def simpleMaxFixups : Nat := 2048
def simpleMaxLocals : Nat := 1024
def simpleMaxLoopDepth : Nat := 128
def simpleMaxLoopFixups : Nat := 1024
def vmLocalsCapacity : Nat := 16384

/-- `SimpleFnDef`; the body is kept as its nodes. -/
structure FnDef where
  name : Text
  paramsRaw : Text
  body : List Node
  compiled : Bool
  compiling : Bool
  entryIp : Nat

structure CallFixup where
  instructionIndex : Nat
  target : Text
deriving DecidableEq, Repr

structure LoopFrame where
  startIp : Nat
  breakSites : List Nat
  continueSites : List Nat
deriving DecidableEq, Repr

/-- `SimpleCompileContext` with the locals of the function in work. The innermost loop comes first, and the slot of a
local is its position. -/
structure CompileState where
  program : Draft
  funcs : List FnDef
  fixups : List CallFixup
  loopFrames : List LoopFrame
  locals : List Text

abbrev CompileM := FrontM CompileState

namespace CompileM

open FrontM

/-- Store a part of the program, if it fits. -/
def store (message : String) (f : Draft → Option Draft) : CompileM Unit := fun s =>
  match f s.program with
  | some d => .ok () { s with program := d }
  | none => fail message s

/-- `simple_emit_instruction`. -/
def emit (opcode : Opcode) (operand : Operand) : CompileM Unit :=
  store "emit instruction: instruction capacity exceeded" (·.emit opcode operand)

def emitOp (opcode : Opcode) : CompileM Unit := emit opcode (.ofNat 0)

/-- `program->instruction_count`. -/
def instructionCount : CompileM Nat := do return (← get).program.instructions.length

/-- `program->instruction_storage[index].operand_int = target`. -/
def patch (target index : Nat) : CompileM Unit :=
  modify fun s => { s with program := s.program.patch index (.ofNat target) }

def patchAll (target : Nat) : List Nat → CompileM Unit
  | [] => pure ()
  | index :: rest => do
      patch target index
      patchAll target rest

/-- Find a constant in the table, or put it there. -/
def addConst (full : String) (like : Literal → Bool) (c : Literal) : CompileM Nat := do
  let d := (← get).program
  match d.findConstant like with
  | some index => return index
  | none => do
      store full (·.addConstant c)
      return d.constants.length

/-- `simple_add_string_const`. -/
def addStringConst (text : Text) : CompileM Nat := do
  let d := (← get).program
  let full := if d.constants.length < programInlineConstants then "add string const: string storage exceeded"
    else "add string const: constant capacity exceeded"
  addConst full (· = .string (.ofBuffer text)) (.string (.ofBuffer text))

/-- `simple_add_number_const`. -/
def addNumberConst (bits : UInt64) : CompileM Nat :=
  addConst "add number const: constant capacity exceeded"
    (fun c => match c with
      | .number other => doubleEq other bits
      | _ => false)
    (.number bits)

/-- `simple_add_void_const`. -/
def addVoidConst : CompileM Nat := addConst "add void const: constant capacity exceeded" (· = .void) .void

def emitConst (index : Nat) : CompileM Unit := emit .const (.ofNat index)

/-- `simple_emit_empty_string_const`. -/
def emitEmptyStringConst : CompileM Unit := do
  emitConst (← orFail "failed adding empty string const" (addStringConst []))

/-- `simple_emit_void_const`. -/
def emitVoidConst : CompileM Unit := do
  emitConst (← orFail "failed adding void const" addVoidConst)

/-- `simple_add_fixup`. -/
def addFixup (instructionIndex : Nat) (target : Text) : CompileM Unit := do
  if simpleMaxFixups ≤ (← get).fixups.length ∨ 64 ≤ target.length then giveUp
  else modify fun s => { s with fixups := s.fixups ++ [⟨instructionIndex, target⟩] }

/-- `simple_locals_lookup`, when the local may be missing. -/
def allocLocal (name : Text) : CompileM Nat := do
  let locals := (← get).locals
  match locals.findIdx? (· = name) with
  | some slot => return slot
  | none =>
      if simpleMaxLocals ≤ locals.length then
        failf (ascii "local table capacity exceeded (name=" ++ name ++ ascii " max=1024)")
      else if vmLocalsCapacity ≤ locals.length then
        failf (ascii "vm local slot capacity exceeded (name=" ++ name ++ ascii " max=16384)")
      else if 64 ≤ name.length then
        failf (ascii "local name too long: " ++ name)
      else do
        modify fun s => { s with locals := locals ++ [name] }
        return locals.length

/-- `simple_locals_lookup` of a local that has to be there. -/
def findLocal (message name : Text) : CompileM Nat := do
  ofOption message ((← get).locals.findIdx? (· = name))

end CompileM

/-! ## Functions -/

/-- `simple_find_func`. -/
def findFunc (funcs : List FnDef) (name : Text) : Option Nat := funcs.findIdx? (·.name = name)

def trimWith (isSkipped : Byte → Bool) (t : Text) : Text := (t.dropWhile isSkipped).rdropWhile isSkipped

/-- `simple_split_params`. -/
def splitParams (raw : Text) : Option (List Text) :=
  let params := ((raw.splitOn comma).map (trimWith fun b => b = 32 ∨ b = 9)).filter (· ≠ [])
  if simpleMaxLocals < params.length ∨ params.any (64 < ·.length + 1) then none else some params

/-- `simple_param_count`. -/
def paramCount (raw : Text) : Option Nat := (splitParams raw).map List.length

/-- `simple_dynamic_candidate_allowed`. -/
def dynamicCandidateAllowed (candidates name : Text) : Bool :=
  candidates = [] ∨ (name ≠ [] ∧ name ∈ (candidates.splitOn comma).map (trimWith isBlank))

end Aivm
