import Aivm.Compiler.State

/-!
# The native compiler

`simple_compile_expr_ext`, `simple_compile_stmt_ext` and what they use. The compiler calls itself on the children of a
node only, so each function takes its children together with what compiling them does.
-/

namespace Aivm

open FrontM CompileM

/-- A child of a node: compiling it as an expression, as a statement, and as a block of statements. -/
structure Child where
  kind : Text
  expr : CompileM Unit
  stmt : CompileM Bool
  block : CompileM Bool

/-! ## Kinds -/

/-- An expression that compiles its operands and ends in one instruction. The message is for a missing operand;
`overrides` says that it also takes the place of the message of an operand. -/
structure Operation where
  arity : Nat
  opcode : Opcode
  message : Text
  overrides : Bool

inductive ExprForm where
  | call
  | callDynamic
  | var
  | strConcat
  | field
  | map
  | operation (o : Operation)
  | conditional
  | block
  | other

/-- The branches of `simple_compile_expr_ext` on the kind of a node, in their order. -/
def exprForm (kind : Text) : ExprForm :=
  let is (name : String) : Bool := kind = ascii name
  let starts (name : String) : Bool := (ascii name).isPrefixOf kind
  let operation (arity : Nat) (opcode : Opcode) (message : String) : ExprForm :=
    .operation ⟨arity, opcode, ascii message, false⟩
  let overriding (arity : Nat) (opcode : Opcode) (message : String) : ExprForm :=
    .operation ⟨arity, opcode, ascii message, true⟩
  let named (arity : Nat) (opcode : Opcode) (message : String) : ExprForm :=
    .operation ⟨arity, opcode, kind ++ ascii message, false⟩
  let namedOverriding (arity : Nat) (opcode : Opcode) (message : String) : ExprForm :=
    .operation ⟨arity, opcode, kind ++ ascii message, true⟩
  if is "Call" then .call
  else if is "CallDynamic" then .callDynamic
  else if is "Var" then .var
  else if is "StrConcat" then .strConcat
  else if is "StrEscape" then operation 1 .strEscape "StrEscape missing arg"
  else if starts "Field" then .field
  else if is "MapBuilderNew" then operation 0 .mapBuilderNew ""
  else if is "MapBuilderFinish" then namedOverriding 1 .mapBuilderFinish " requires one argument"
  else if is "MapCount" then namedOverriding 1 .mapCount " requires one argument"
  else if is "MapHasString" then overriding 2 .mapHasString "MapHasString requires (map,key)"
  else if is "MapBuilderPutStringInt" then namedOverriding 3 .mapBuilderPutStringInt " requires three arguments"
  else if is "MapGetStringIntOr" then namedOverriding 3 .mapGetStringIntOr " requires three arguments"
  else if starts "Map" then .map
  else if starts "MakeBlock" then operation 1 .makeBlock "MakeBlock missing id expression"
  else if starts "MakeNodeBuilder" then overriding 2 .nodeBuilderNew "MakeNodeBuilder requires (kind,id)"
  else if starts "BuilderAppendChild" then
    overriding 2 .nodeBuilderAppendChild "BuilderAppendChild requires (builder,child)"
  else if starts "BuilderAppendAttr" then
    overriding 2 .nodeBuilderAppendAttr "BuilderAppendAttr requires (builder,attr)"
  else if starts "FinishNodeBuilder" then overriding 1 .nodeBuilderFinish "FinishNodeBuilder requires builder"
  else if starts "MakeNode" then operation 2 .makeNodeEmpty "MakeNode requires (kind,id)"
  else if starts "AppendChild" then operation 2 .appendChild "AppendChild requires (node,child)"
  else if starts "AppendAttr" then operation 2 .appendAttr "AppendAttr requires (node,attr)"
  else if starts "MakePair" then operation 2 .makePair "MakePair requires (first,second)"
  else if starts "PairFirst" then named 1 .pairFirst " requires pair operand"
  else if starts "PairSecond" then named 1 .pairSecond " requires pair operand"
  else if starts "MakeLitString" then named 2 .makeLitString " requires (id,value)"
  else if starts "MakeLitInt" then named 2 .makeLitInt " requires (id,value)"
  else if starts "MakeLitBool" then named 2 .makeLitBool " requires (id,value)"
  else if starts "MakeFieldString" then named 2 .makeFieldString " requires (id,value)"
  else if starts "MakeErr" then operation 4 .makeErr "MakeErr requires (id,code,message,nodeId)"
  else if is "StringUtf8ByteCount" then named 1 .strUtf8ByteCount " missing arg"
  else if is "StringScalarLength" then named 1 .strScalarLength " missing arg"
  else if is "StringFromCodePoint" then named 1 .strFromCodepoint " missing arg"
  else if is "StringDecodeUnicodeHex4" then named 1 .strDecodeUnicodeHex4 " missing arg"
  else if is "StringDecodeUnicodeSurrogatePairHex4" then
    operation 2 .strDecodeUnicodeSurrogatePairHex4 "StringDecodeUnicodeSurrogatePairHex4 missing args"
  else if is "BytesLength" then operation 1 .bytesLength "BytesLength missing arg"
  else if is "BytesFromUtf8String" then named 1 .bytesFromUtf8String " missing arg"
  else if is "BytesToUtf8String" then named 1 .bytesToUtf8String " missing arg"
  else if is "BytesFromBase64" then named 1 .bytesFromBase64 " missing arg"
  else if is "BytesToBase64" then named 1 .bytesToBase64 " missing arg"
  else if is "BytesFromByte" then named 1 .bytesFromByte " missing arg"
  else if is "BytesU32LE" then named 1 .bytesU32Le " missing arg"
  else if is "BytesI64LE" then named 1 .bytesI64Le " missing arg"
  else if is "BytesAt" then named 2 .bytesAt " missing args"
  else if is "BytesConcat" then named 2 .bytesConcat " missing args"
  else if is "BytesSlice" then operation 3 .bytesSlice "BytesSlice missing args"
  else if is "StringSlice" then named 3 .strSubstring " missing args"
  else if is "StringRemove" then named 3 .strRemove " missing args"
  else if is "StringFind" then named 3 .strFind " missing args"
  else if is "ToString" then named 1 .toString " missing arg"
  else if is "AttrCount" then named 1 .attrCount " missing arg"
  else if is "ChildCount" then named 1 .childCount " missing arg"
  else if is "ValueKind" then named 1 .valueKind " missing arg"
  else if is "NodeKind" then named 1 .nodeKind " missing arg"
  else if is "NodeId" then named 1 .nodeId " missing arg"
  else if is "Add" then named 2 .addInt " missing args"
  else if is "Sub" then named 2 .subNum " missing args"
  else if is "Mul" then named 2 .mulNum " missing args"
  else if is "Div" then named 2 .divNum " missing args"
  else if is "Mod" then named 2 .modNum " missing args"
  else if is "Pow" then named 2 .powNum " missing args"
  else if is "Lt" then named 2 .ltNum " missing args"
  else if is "Eq" then named 2 .eq " missing args"
  else if is "AttrKey" then named 2 .attrKey " missing args"
  else if is "AttrValueString" then named 2 .attrValueString " missing args"
  else if is "AttrValueInt" then named 2 .attrValueInt " missing args"
  else if is "AttrValueBool" then named 2 .attrValueBool " missing args"
  else if is "AttrValueKind" then named 2 .attrValueKind " missing args"
  else if is "ChildAt" then named 2 .childAt " missing args"
  else if is "If" then .conditional
  else if is "Block" then .block
  else .other

inductive StmtForm where
  | letStmt
  | call
  | breakStmt
  | continueStmt
  | returnStmt
  | conditional
  | loop
  | block
  | other
deriving DecidableEq, Repr

/-- The branches of `simple_compile_stmt_ext`. -/
def stmtForm (kind : Text) : StmtForm :=
  let is (name : String) : Bool := kind = ascii name
  if is "Let" then .letStmt
  else if is "Call" then .call
  else if is "Break" then .breakStmt
  else if is "Continue" then .continueStmt
  else if is "Return" then .returnStmt
  else if is "If" then .conditional
  else if is "Loop" then .loop
  else if is "Block" then .block
  else .other

/-- The kinds that end a block expression without a value. -/
def endsAsStmt (kind : Text) : Bool :=
  match stmtForm kind with
  | .letStmt | .returnStmt | .breakStmt | .continueStmt | .loop => true
  | _ => false

def isBlockKind (kind : Text) : Bool := kind = ascii "Block"

/-! ## Calls -/

/-- `is_syscall_target`. -/
def isSyscallTarget (target : Text) : Bool :=
  (ascii "sys.").isPrefixOf target ∨
    target ∈ ["io.print", "io.write", "io.readLine", "io.readAllStdin", "io.fileExists", "io.readFile", "io.writeFile",
      "io.makeDir"].map ascii

/-- The system call behind a target. -/
def mappedTarget (target : Text) : Text :=
  if target = ascii "io.print" ∨ target = ascii "io.write" then ascii "sys.stdout.writeLine"
  else if target = ascii "io.readLine" then ascii "sys.console.readLine"
  else if target = ascii "io.readAllStdin" then ascii "sys.console.readAllStdin"
  else if target = ascii "io.fileExists" then ascii "sys.fs.file.exists"
  else if target = ascii "io.readFile" then ascii "sys.fs.file.read"
  else if target = ascii "io.writeFile" then ascii "sys.fs.file.write"
  else if target = ascii "io.makeDir" then ascii "sys.fs.dir.create"
  else target

/-- The loops over arguments that stop at 32. -/
def compileArgs : List Child → Nat → CompileM Nat
  | [], count => return count
  | arg :: args, count =>
      if 32 ≤ count then fail "call arg count exceeds native compiler limit"
      else do
        arg.expr
        compileArgs args (count + 1)

/-- A call of the function at `index`: the entry of a compiled function, and a fix-up otherwise. -/
def emitCall (emitMessage fixupMessage : String) (index : Nat) (target : Text) : CompileM Unit := do
  let site ← instructionCount
  orFail emitMessage (emitOp .call)
  match (← get).funcs[index]? with
  | some fn => if fn.compiled then patch fn.entryIp site else orFail fixupMessage (addFixup site target)
  | none => giveUp

/-- `simple_compile_call_ext`. -/
def compileCall (attrs : Text) (args : List Child) (popResult : Bool) : CompileM Unit := do
  let target ← ofOption (ascii "call missing target") (attrSpan attrs "target" 128)
  if isSyscallTarget target then
    let index ← orFail "failed adding syscall target const" (addStringConst (mappedTarget target))
    orFail "failed emitting syscall target const" (emitConst index)
    let argCount ← compileArgs args 0
    orFail "failed emitting CALL_SYS" (emit .callSys (.ofNat argCount))
  else
    let argCount ← compileArgs args 0
    let funcs := (← get).funcs
    let index ← ofOption (ascii "unknown function target: " ++ target) (findFunc funcs target)
    let expected ← ofOption (ascii "failed parsing params for target: " ++ target)
      (funcs[index]?.bind fun fn => paramCount fn.paramsRaw)
    if argCount ≠ expected then
      failf (ascii "call target " ++ target ++ ascii " expects " ++ natDecimal expected ++ ascii " args, got " ++
        natDecimal argCount)
    else
      emitCall "failed emitting CALL" "failed storing call fixup" index target
  if popResult then orFail "failed emitting POP" (emitOp .pop)

/-- The arguments of a dynamic call, once for each candidate. -/
def compileDynamicArgs : List Child → CompileM Unit
  | [] => return
  | arg :: args => do
      orFail "dynamic call argument compile failed" arg.expr
      compileDynamicArgs args

/-- The branch of a dynamic call for one candidate; answers where its end jump stands. -/
def compileDynamicBranch (targetSlot : Nat) (args : List Child) (fn : FnDef) (index endJumpCount : Nat) :
    CompileM Nat := do
  orFail "dynamic call target compare emit failed" (do
    let nameConst ← addStringConst fn.name
    emit .loadLocal (.ofNat targetSlot)
    emitConst nameConst
    emitOp .eq)
  let jumpFalse ← instructionCount
  orFail "dynamic call branch emit failed" (emitOp .jumpIfFalse)
  compileDynamicArgs args
  emitCall "dynamic call CALL emit failed" "dynamic call fixup failed" index fn.name
  if 128 ≤ endJumpCount then fail "dynamic call branch capacity exceeded"
  else do
    let endJump ← instructionCount
    orFail "dynamic call end jump emit failed" (emitOp .jump)
    patch (← instructionCount) jumpFalse
    return endJump

/-- The loop over the functions of the table from `index` on; answers the end jumps. -/
def compileDynamicBranches (candidates : Option Text) (targetSlot : Nat) (args : List Child) :
    List FnDef → Nat → List Nat → CompileM (List Nat)
  | [], _, endJumps => return endJumps
  | fn :: fns, index, endJumps => do
      let count ← ofOption (ascii "failed parsing params for dynamic target: " ++ fn.name) (paramCount fn.paramsRaw)
      if count ≠ args.length ∨ (candidates.any fun c => ¬ dynamicCandidateAllowed c fn.name) then
        compileDynamicBranches candidates targetSlot args fns (index + 1) endJumps
      else do
        let endJump ← compileDynamicBranch targetSlot args fn index endJumps.length
        compileDynamicBranches candidates targetSlot args fns (index + 1) (endJumps ++ [endJump])

/-- `simple_compile_dynamic_call_ext`. -/
def compileDynamicCall (attrs : Text) : List Child → CompileM Unit
  | [] => fail "dynamic call missing target expression"
  | target :: args =>
      if 32 < args.length then fail "dynamic call arg count exceeds native compiler limit"
      else do
        let name := ascii "__dynamic_target_" ++ natDecimal (← get).locals.length
        let slot ← orFail "dynamic call target compile failed" (do
          target.expr
          let slot ← allocLocal name
          emit .storeLocal (.ofNat slot)
          return slot)
        let endJumps ← compileDynamicBranches (attrSpan attrs "candidates" 512) slot args (← get).funcs 0 []
        orFail "dynamic call fallback emit failed" (do
          emitConst (← addStringConst (ascii "sys.dynamic.missingFunction"))
          emit .loadLocal (.ofNat slot)
          emit .callSys (.ofNat 1))
        patchAll (← instructionCount) endJumps

/-! ## Expressions -/

/-- `simple_compile_var_expr`. -/
def compileVar (attrs : Text) : CompileM Unit := do
  let name ← ofOption (ascii "var missing name") (attrSpan attrs "name" 64)
  let slot ← findLocal (ascii "unknown local variable: " ++ name) name
  emit .loadLocal (.ofNat slot)

/-- What the value of a literal says. -/
inductive LitForm where
  | bool (value : Bool)
  | null
  | int (value : Operand)
  | number (bits : UInt64)
  | string (text : Text)
  | undecodable

/-- The branches for a literal; `strtod` reads a whole text or fails. -/
def litForm (strtod : Text → Option UInt64) (quoted : Bool) (value : Text) : LitForm :=
  let text : LitForm :=
    match unescapeString value 4096 with
    | some text => .string text
    | none => .undecodable
  if quoted then text
  else if value = ascii "true" then .bool true
  else if value = ascii "false" then .bool false
  else if value = ascii "null" then .null
  else
    match strtoll value with
    | some i => .int i
    | none =>
        if 46 ∈ value then
          match strtod value with
          | some bits => .number bits
          | none => text
        else text

/-- `simple_compile_expr_node` on the kinds that reach it: literals, and kinds that are not supported. -/
def compileLit (strtod : Text → Option UInt64) (kind attrs : Text) : CompileM Unit := do
  if kind ≠ ascii "Lit" then failf (ascii "unsupported expr kind: " ++ kind)
  else
    let value ← ofOption (ascii "lit missing value") (attrSpan attrs "value" 4096)
    match litForm strtod (attrIsQuoted attrs "value") value with
    | .bool b => emit .pushBool (.ofNat (if b then 1 else 0))
    | .null => do
        let index := (← get).program.constants.length
        store "lit null constant capacity exceeded" (·.addConstant .null)
        emitConst index
    | .int i => emit .pushInt i
    | .number bits => do emitConst (← addNumberConst bits)
    | .string text => do emitConst (← addStringConst text)
    | .undecodable =>
        failf (ascii "string literal decode failed: raw=" ++ value ++ ascii " attrs=" ++ attrs)

/-- The loop of `StrConcat`. -/
def compileConcat : List Child → (first : Bool) → CompileM Unit
  | [], first => if first then giveUp else return
  | child :: children, first => do
      child.expr
      if first then pure () else orFail "failed emitting STR_CONCAT" (emitOp .strConcat)
      compileConcat children false

def compileField (attrs : Text) (children : List Child) : CompileM Unit := do
  let key ← ofOption (ascii "field missing key") (attrSpan attrs "key" 256)
  match children with
  | [] => fail "field missing value"
  | value :: _ => do
      emitConst (← addStringConst key)
      value.expr
      emitOp .makeFieldString

/-- The loop over the fields of a map. -/
def compileFields : List Child → CompileM Unit
  | [] => return
  | child :: children =>
      if child.kind ≠ ascii "Field" then failf (ascii "map child must be Field, got " ++ child.kind)
      else do
        child.expr
        compileFields children

def compileMap (children : List Child) : CompileM Unit := do
  compileFields children
  emit .pushInt (.ofNat children.length)
  emitOp .makeMap

def compileOperands (o : Operation) : List Child → CompileM Unit
  | [] => return
  | child :: children => do
      if o.overrides then orFailf o.message child.expr else child.expr
      compileOperands o children

def compileOperation (o : Operation) (children : List Child) : CompileM Unit := do
  if children.length < o.arity then failf o.message
  else
    compileOperands o (children.take o.arity)
    emitOp o.opcode

/-- `simple_compile_if_expr_ext`. -/
def compileIfExpr : List Child → CompileM Unit
  | cond :: thenChild :: elseChild :: _ => do
      cond.expr
      let jumpFalse ← instructionCount
      orFail "failed emitting JUMP_IF_FALSE" (emitOp .jumpIfFalse)
      thenChild.expr
      let jumpEnd ← instructionCount
      orFail "failed emitting JUMP" (emitOp .jump)
      patch (← instructionCount) jumpFalse
      elseChild.expr
      patch (← instructionCount) jumpEnd
  | _ => fail "if expr shape invalid"

/-- A block as an expression; the locals it declares stay. -/
def compileBlockExpr : List Child → CompileM Unit
  | [] => emitEmptyStringConst
  | [last] =>
      if endsAsStmt last.kind then do
        if ← last.stmt then return else emitEmptyStringConst
      else last.expr
  | child :: children => do
      if ← child.stmt then return else compileBlockExpr children

/-- `simple_compile_expr_ext`. -/
def compileExpr (strtod : Text → Option UInt64) (kind attrs : Text) (children : List Child) : CompileM Unit :=
  match exprForm kind with
  | .call => compileCall attrs children false
  | .callDynamic => compileDynamicCall attrs children
  | .var => compileVar attrs
  | .strConcat => compileConcat children true
  | .field => compileField attrs children
  | .map => compileMap children
  | .operation o => compileOperation o children
  | .conditional => compileIfExpr children
  | .block => compileBlockExpr children
  | .other => compileLit strtod kind attrs

/-! ## Statements -/

/-- A branch or a loop body: a block of statements, or an expression whose value is dropped. -/
def compileBranch (child : Child) : CompileM Bool :=
  if isBlockKind child.kind then child.block
  else do
    child.expr
    emitOp .pop
    return false

/-- `simple_compile_if_stmt_ext`. -/
def compileIfStmt : List Child → CompileM Bool
  | cond :: thenChild :: elseChild :: _ => do
      cond.expr
      let jumpFalse ← instructionCount
      emitOp .jumpIfFalse
      let thenReturn ← compileBranch thenChild
      let jumpEnd ← instructionCount
      emitOp .jump
      patch (← instructionCount) jumpFalse
      let elseReturn ← compileBranch elseChild
      patch (← instructionCount) jumpEnd
      return thenReturn && elseReturn
  | _ => fail "if stmt shape invalid"

/-- `simple_compile_loop_stmt_ext`. -/
def compileLoopStmt : List Child → CompileM Bool
  | [] => fail "loop stmt shape invalid"
  | body :: _ => do
      if simpleMaxLoopDepth ≤ (← get).loopFrames.length then fail "loop nesting depth exceeded"
      else
        let loopStart ← instructionCount
        modify fun s => { s with loopFrames := ⟨loopStart, [], []⟩ :: s.loopFrames }
        let _ ← compileBranch body
        emit .jump (.ofNat loopStart)
        match (← get).loopFrames with
        | [] => giveUp
        | frame :: frames => do
            patchAll (← instructionCount) frame.breakSites
            patchAll loopStart frame.continueSites
            modify fun s => { s with loopFrames := frames }
            return false

/-- A jump of the innermost loop, which `record` notes in its frame. -/
def compileLoopJump (outside tooMany : String) (sites : LoopFrame → List Nat) (record : Nat → LoopFrame → LoopFrame) :
    CompileM Bool := do
  match (← get).loopFrames with
  | [] => fail outside
  | frame :: frames =>
      if simpleMaxLoopFixups ≤ (sites frame).length then fail tooMany
      else do
        let site ← instructionCount
        emitOp .jump
        modify fun s => { s with loopFrames := record site frame :: frames }
        return false

def compileBreak : CompileM Bool :=
  compileLoopJump "break used outside loop" "too many break statements in loop" LoopFrame.breakSites
    fun site frame => { frame with breakSites := frame.breakSites ++ [site] }

def compileContinue : CompileM Bool :=
  compileLoopJump "continue used outside loop" "too many continue statements in loop" LoopFrame.continueSites
    fun site frame => { frame with continueSites := frame.continueSites ++ [site] }

def compileLet (attrs : Text) (children : List Child) : CompileM Bool := do
  let name ← ofOption (ascii "let stmt missing name") (attrSpan attrs "name" 64)
  let slot ← orFailf (ascii "local allocation failed for " ++ name) (allocLocal name)
  match children with
  | [] => fail "let stmt missing expression"
  | value :: _ => do
      value.expr
      orFail "let stmt STORE_LOCAL failed" (emit .storeLocal (.ofNat slot))
      return false

def compileReturn (children : List Child) : CompileM Bool := do
  match children with
  | [] => orFail "empty return emit failed" emitVoidConst
  | value :: _ => value.expr
  orFail "return emit failed" (emitOp .return_)
  return true

/-- The statements of a block, up to one that returns. -/
def compileStmts : List Child → CompileM Bool
  | [] => return false
  | child :: children => do
      if ← child.stmt then return true else compileStmts children

/-- `simple_compile_block_ext`: the locals it declares are dropped. -/
def compileBlock (children : List Child) : CompileM Bool := do
  let scope := (← get).locals.length
  let didReturn ← compileStmts children
  modify fun s => { s with locals := s.locals.take scope }
  return didReturn

/-- `simple_compile_stmt_ext`. -/
def compileStmt (strtod : Text → Option UInt64) (kind attrs : Text) (children : List Child) : CompileM Bool :=
  match stmtForm kind with
  | .letStmt => compileLet attrs children
  | .call => do
      compileCall attrs children true
      return false
  | .breakStmt => compileBreak
  | .continueStmt => compileContinue
  | .returnStmt => compileReturn children
  | .conditional => compileIfStmt children
  | .loop => compileLoopStmt children
  | .block => compileBlock children
  | .other => do
      compileExpr strtod kind attrs children
      emitOp .pop
      return false

/-! ## Nodes and functions -/

mutual

/-- The compiler on a node. -/
def compileNode (strtod : Text → Option UInt64) : Node → Child
  | .mk kind attrs _ children _ =>
      { kind := kind
        expr := compileExpr strtod kind attrs (compileNodes strtod children)
        stmt := compileStmt strtod kind attrs (compileNodes strtod children)
        block := compileBlock (compileNodes strtod children) }

def compileNodes (strtod : Text → Option UInt64) : List Node → List Child
  | [] => []
  | n :: ns => compileNode strtod n :: compileNodes strtod ns

end

def allocParams : List Text → CompileM Unit
  | [] => return
  | p :: ps => do
      let _ ← orFailf (ascii "failed to allocate param " ++ p) (allocLocal p)
      allocParams ps

/-- The prologue, from the last parameter to the first. -/
def storeParams (name : Text) : List Text → CompileM Unit
  | [] => return
  | p :: ps => do
      orFailf (ascii "failed param prologue for " ++ name) (do
        let slot ← findLocal [] p
        emit .storeLocal (.ofNat slot))
      storeParams name ps

def setFn (index : Nat) (f : FnDef → FnDef) : CompileM Unit :=
  modify fun s => { s with funcs := s.funcs.modify index f }

/-- `simple_compile_fn_by_index`. -/
def compileFnByIndex (strtod : Text → Option UInt64) (index : Nat) : CompileM Unit := do
  match (← get).funcs[index]? with
  | none => giveUp
  | some fn =>
      if fn.compiled ∨ fn.compiling then return
      else do
        let entry ← instructionCount
        setFn index fun fn => { fn with compiling := true, entryIp := entry }
        modify fun s => { s with locals := [] }
        let params ← ofOption (ascii "invalid params for function " ++ fn.name) (splitParams fn.paramsRaw)
        allocParams params
        storeParams fn.name params.reverse
        match fn.body with
        | [] => failf (ascii "function " ++ fn.name ++ ascii " missing Block body")
        | body :: _ =>
            if isBlockKind body.kind then do
              let didReturn ← (compileNode strtod body).block
              if didReturn then pure ()
              else do
                orFailf (ascii "failed implicit void for " ++ fn.name) emitVoidConst
                orFailf (ascii "failed implicit return for " ++ fn.name) (emitOp .return_)
              setFn index fun fn => { fn with compiled := true, compiling := false }
            else
              failf (ascii "function " ++ fn.name ++ ascii " missing Block body")

/-! ## Graphs -/

/-- The loop over the fix-ups, which may add fix-ups of its own. -/
def resolveFixups (strtod : Text → Option UInt64) : Nat → Nat → CompileM Unit
  | 0, _ => fun _ => .outOfFuel
  | fuel + 1, i => do
      match (← get).fixups[i]? with
      | none => return
      | some fixup => do
          let index ← ofOption (ascii "unresolved call target " ++ fixup.target)
            (findFunc (← get).funcs fixup.target)
          compileFnByIndex strtod index
          if (← instructionCount) ≤ fixup.instructionIndex then fail "call fixup index out of range"
          else
            match (← get).funcs[index]? with
            | none => giveUp
            | some fn => do
                patch fn.entryIp fixup.instructionIndex
                resolveFixups strtod fuel (i + 1)

/-- The part of `parse_simple_program_graph_to_program_file` behind the collection; the state is the fresh one. -/
def compileEntry (strtod : Text → Option UInt64) (fixupFuel : Nat) (entryExport : Text) : CompileM Unit := do
  let funcs := (← get).funcs
  let index ← ofOption (ascii "entry export '" ++ entryExport ++ ascii "' not found") (findFunc funcs entryExport)
  let fn ← ofOption [] funcs[index]?
  let params ← ofOption (ascii "graph compile: invalid entry params for " ++ fn.name) (splitParams fn.paramsRaw)
  if 0 < params.length then
    orFail "graph compile: failed emitting argv bootstrap" (do
      emitConst (← addStringConst (ascii "sys.process.args"))
      emitOp .callSys)
  let bootstrap ← instructionCount
  orFail "graph compile: failed emitting bootstrap call/halt" (do
    emitOp .call
    emitOp .halt)
  compileFnByIndex strtod index
  match (← get).funcs[index]? with
  | none => giveUp
  | some fn => do
      patch fn.entryIp bootstrap
      resolveFixups strtod fixupFuel 0
      if (← instructionCount) = 0 then fail "graph compile: produced empty program"

end Aivm
