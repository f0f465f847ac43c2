import Aivm.Compiler.Compile
import Aivm.Lib.StructuredCode

/-!
# What the source says

The structured code of a function: branches and loops where the compiler patches jumps, functions where it patches calls,
and constants by what they denote. It depends on the function table only through the names and the parameters.
-/

namespace Aivm

open StructuredCode

/-- A constant that a source denotes. -/
inductive SourceConst where
  | string (text : CText)
  | number (bits : UInt64)
  | null
  | void
deriving DecidableEq, Repr

def SourceConst.literal : SourceConst → Literal
  | .string text => .string text
  | .number bits => .number bits
  | .null => .null
  | .void => .void

/-- An instruction before its constant or function has got a number. -/
inductive BasicOp where
  | op (opcode : Opcode) (operand : Operand)
  | const (c : SourceConst)
  | call (fn : Nat)
deriving DecidableEq, Repr

/-- In what role a node is compiled. -/
inductive Role where
  | expr
  | stmt
  | block
deriving DecidableEq, Repr

/-- The way to a node from the body of its function: which child to take, from the inside out. -/
abbrev Path := List Nat

abbrev SourceCode := Code BasicOp (Role × Path)

/-- The name and the parameters of a function. -/
structure FnSig where
  name : Text
  paramsRaw : Text
deriving DecidableEq, Repr

def FnDef.sig (fn : FnDef) : FnSig := ⟨fn.name, fn.paramsRaw⟩

/-- The first function of a name. -/
def findSig (sigs : List FnSig) (name : Text) : Option Nat := sigs.findIdx? (·.name = name)

/-! ## Translations -/

/-- A translation: from the locals in scope to code, an answer, and the locals behind it. -/
def Gen (α : Type) : Type := List Text → Option (SourceCode × α × List Text)

namespace Gen

instance : Monad Gen where
  pure a := fun locals => some (.done, a, locals)
  bind g f := fun locals => do
    let (c, a, locals) ← g locals
    let (c', b, locals) ← f a locals
    return (.seq c c', b, locals)

def reject {α : Type} : Gen α := fun _ => none

def ofOption {α : Type} : Option α → Gen α
  | some a => pure a
  | none => reject

def basic (i : BasicOp) : Gen Unit := fun locals => some (.basic i, (), locals)

def op (opcode : Opcode) : Gen Unit := basic (.op opcode (.ofNat 0))

def const (c : SourceConst) : Gen Unit := basic (.const c)

def text (t : Text) : Gen Unit := const (.string (.ofBuffer t))

def getLocals : Gen (List Text) := fun locals => some (.done, locals, locals)

/-- The slot of a local, new if need be. -/
def alloc (name : Text) : Gen Nat := fun locals =>
  match locals.findIdx? (· = name) with
  | some slot => some (.done, slot, locals)
  | none => some (.done, locals.length, locals ++ [name])

def find (name : Text) : Gen Nat := fun locals => do
  let slot ← locals.findIdx? (· = name)
  return (.done, slot, locals)

/-- Drop the locals declared since there were `scope`. -/
def restore (scope : Nat) : Gen Unit := fun locals => some (.done, (), locals.take scope)

/-- A branch on the value before it. -/
def branch {α β : Type} (g : Gen α) (h : Gen β) : Gen (α × β) := fun locals => do
  let (c, a, locals) ← g locals
  let (c', b, locals) ← h locals
  return (.branch c c', (a, b), locals)

def loop {α : Type} (g : Gen α) : Gen α := fun locals => do
  let (c, a, locals) ← g locals
  return (.loop c, a, locals)

def breakLoop : Gen Unit := fun locals => some (.breakLoop, (), locals)

def continueLoop : Gen Unit := fun locals => some (.continueLoop, (), locals)

def mark {α : Type} (m : Role × Path) (g : Gen α) : Gen α := fun locals => do
  let (c, a, locals) ← g locals
  return (.mark m c, a, locals)

theorem bind_run {α β : Type} {g : Gen α} {k : α → Gen β} {l l' l'' : List Text} {c c' : SourceCode} {a : α} {b : β}
    (hg : g l = some (c, a, l')) (hk : k a l' = some (c', b, l'')) : (g >>= k) l = some (.seq c c', b, l'') := by
  change (do
    let (c, a, locals) ← g l
    let (c', b, locals) ← k a locals
    return (Code.seq c c', b, locals)) = _
  simp [hg, hk]

end Gen

/-! ## Nodes -/

/-- What a child of a node stands for. -/
structure Piece where
  kind : Text
  expr : Gen Unit
  stmt : Gen Bool
  block : Gen Bool

section Pieces

variable (sigs : List FnSig)

def genSeq : List Piece → Gen Unit
  | [] => return
  | p :: ps => do
      p.expr
      genSeq ps

def genCall (attrs : Text) (args : List Piece) (popResult : Bool) : Gen Unit := do
  let target ← .ofOption (attrSpan attrs "target" 128)
  if isSyscallTarget target then
    .text (mappedTarget target)
    genSeq args
    .basic (.op .callSys (.ofNat args.length))
  else
    genSeq args
    .basic (.call (← .ofOption (findSig sigs target)))
  if popResult then .op .pop

/-- One branch for each candidate, and the system call for a missing function behind them. -/
def genDynamicBranches (candidates : Option Text) (targetSlot : Nat) (args : List Piece) :
    List FnSig → Nat → Gen Unit
  | [], _ => do
      .text (ascii "sys.dynamic.missingFunction")
      .basic (.op .loadLocal (.ofNat targetSlot))
      .basic (.op .callSys (.ofNat 1))
  | sig :: rest, index => do
      let count ← .ofOption (paramCount sig.paramsRaw)
      if count ≠ args.length ∨ (candidates.any fun c => ¬ dynamicCandidateAllowed c sig.name) then
        genDynamicBranches candidates targetSlot args rest (index + 1)
      else do
        .basic (.op .loadLocal (.ofNat targetSlot))
        .text sig.name
        .op .eq
        let _ ← .branch
          (do
            genSeq args
            .basic (.call index))
          (genDynamicBranches candidates targetSlot args rest (index + 1))

def genDynamicCall (attrs : Text) : List Piece → Gen Unit
  | [] => .reject
  | target :: args => do
      let name := ascii "__dynamic_target_" ++ natDecimal (← .getLocals).length
      target.expr
      let slot ← .alloc name
      .basic (.op .storeLocal (.ofNat slot))
      genDynamicBranches (attrSpan attrs "candidates" 512) slot args sigs 0

def genVar (attrs : Text) : Gen Unit := do
  let slot ← .find (← .ofOption (attrSpan attrs "name" 64))
  .basic (.op .loadLocal (.ofNat slot))

def genLit (strtod : Text → Option UInt64) (kind attrs : Text) : Gen Unit := do
  if kind ≠ ascii "Lit" then .reject
  else
    let value ← .ofOption (attrSpan attrs "value" 4096)
    match litForm strtod (attrIsQuoted attrs "value") value with
    | .bool b => .basic (.op .pushBool (.ofNat (if b then 1 else 0)))
    | .null => .const .null
    | .int i => .basic (.op .pushInt i)
    | .number bits => .const (.number bits)
    | .string text => .text text
    | .undecodable => .reject

def genConcat : List Piece → (first : Bool) → Gen Unit
  | [], first => if first then .reject else return
  | p :: ps, first => do
      p.expr
      if first then pure () else .op .strConcat
      genConcat ps false

def genField (attrs : Text) : List Piece → Gen Unit
  | [] => .reject
  | value :: _ => do
      .text (← .ofOption (attrSpan attrs "key" 256))
      value.expr
      .op .makeFieldString

def genMap (fields : List Piece) : Gen Unit := do
  genSeq fields
  .basic (.op .pushInt (.ofNat fields.length))
  .op .makeMap

def genOperation (o : Operation) (pieces : List Piece) : Gen Unit := do
  if pieces.length < o.arity then .reject
  else
    genSeq (pieces.take o.arity)
    .op o.opcode

def genIfExpr : List Piece → Gen Unit
  | cond :: thenPiece :: elsePiece :: _ => do
      cond.expr
      let _ ← .branch thenPiece.expr elsePiece.expr
  | _ => .reject

def genBlockExpr : List Piece → Gen Unit
  | [] => .text []
  | [last] =>
      if endsAsStmt last.kind then do
        if ← last.stmt then return else .text []
      else last.expr
  | p :: ps => do
      if ← p.stmt then return else genBlockExpr ps

def genExpr (strtod : Text → Option UInt64) (kind attrs : Text) (pieces : List Piece) : Gen Unit :=
  match exprForm kind with
  | .call => genCall sigs attrs pieces false
  | .callDynamic => genDynamicCall sigs attrs pieces
  | .var => genVar attrs
  | .strConcat => genConcat pieces true
  | .field => genField attrs pieces
  | .map => genMap pieces
  | .operation o => genOperation o pieces
  | .conditional => genIfExpr pieces
  | .block => genBlockExpr pieces
  | .other => genLit strtod kind attrs

def genBranch (p : Piece) : Gen Bool :=
  if isBlockKind p.kind then p.block
  else do
    p.expr
    .op .pop
    return false

def genIfStmt : List Piece → Gen Bool
  | cond :: thenPiece :: elsePiece :: _ => do
      cond.expr
      let (thenReturn, elseReturn) ← .branch (genBranch thenPiece) (genBranch elsePiece)
      return thenReturn && elseReturn
  | _ => .reject

def genLoopStmt : List Piece → Gen Bool
  | [] => .reject
  | body :: _ => do
      let _ ← .loop (genBranch body)
      return false

def genLet (attrs : Text) : List Piece → Gen Bool
  | [] => .reject
  | value :: _ => do
      let slot ← .alloc (← .ofOption (attrSpan attrs "name" 64))
      value.expr
      .basic (.op .storeLocal (.ofNat slot))
      return false

def genReturn (pieces : List Piece) : Gen Bool := do
  match pieces with
  | [] => .const .void
  | value :: _ => value.expr
  .op .return_
  return true

def genStmts : List Piece → Gen Bool
  | [] => return false
  | p :: ps => do
      if ← p.stmt then return true else genStmts ps

def genBlock (pieces : List Piece) : Gen Bool := do
  let scope := (← .getLocals).length
  let didReturn ← genStmts pieces
  .restore scope
  return didReturn

def genStmt (strtod : Text → Option UInt64) (path : Path) (kind attrs : Text) (pieces : List Piece) : Gen Bool :=
  match stmtForm kind with
  | .letStmt => genLet attrs pieces
  | .call => do
      genCall sigs attrs pieces true
      return false
  | .breakStmt => do
      .breakLoop
      return false
  | .continueStmt => do
      .continueLoop
      return false
  | .returnStmt => genReturn pieces
  | .conditional => genIfStmt pieces
  | .loop => genLoopStmt pieces
  | .block => genBlock pieces
  | .other => do
      .mark (.expr, path) (genExpr sigs strtod kind attrs pieces)
      .op .pop
      return false

end Pieces

mutual

/-- What the node at a path stands for. -/
def genNode (sigs : List FnSig) (strtod : Text → Option UInt64) (path : Path) : Node → Piece
  | .mk kind attrs _ children _ =>
      { kind := kind
        expr := .mark (.expr, path) (genExpr sigs strtod kind attrs (genNodes sigs strtod path 0 children))
        stmt := .mark (.stmt, path) (genStmt sigs strtod path kind attrs (genNodes sigs strtod path 0 children))
        block := .mark (.block, path) (genBlock (genNodes sigs strtod path 0 children)) }

/-- What the children of the node at a path stand for, from child `i` on. -/
def genNodes (sigs : List FnSig) (strtod : Text → Option UInt64) (path : Path) (i : Nat) : List Node → List Piece
  | [] => []
  | n :: ns => genNode sigs strtod (i :: path) n :: genNodes sigs strtod path (i + 1) ns

end

/-! ## Functions -/

def genParams : List Text → Gen Unit
  | [] => return
  | p :: ps => do
      let _ ← .alloc p
      genParams ps

def genPrologue : List Text → Gen Unit
  | [] => return
  | p :: ps => do
      let slot ← .find p
      .basic (.op .storeLocal (.ofNat slot))
      genPrologue ps

/-- The code of a function: its parameters are stored, and a body that falls off its end returns void. -/
def genFn (sigs : List FnSig) (strtod : Text → Option UInt64) (paramsRaw : Text) (body : List Node) : Gen Unit := do
  let params ← .ofOption (splitParams paramsRaw)
  genParams params
  genPrologue params.reverse
  match body with
  | [] => .reject
  | body :: _ =>
      if isBlockKind body.kind then do
        if ← (genNode sigs strtod [] body).block then pure ()
        else do
          .const .void
          .op .return_
      else .reject

end Aivm
