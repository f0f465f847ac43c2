import Aivm.Program.Draft

/-!
# Bytecode in text form

`parse_bytecode_aos_to_program_text`: one pass over the `Const#` entries of a text and one over the `Inst#` entries. An
entry with a system call target that arrives at the last slot of the instruction storage writes behind the storage; C
gives such a run no meaning, which is an outcome of its own.
-/

namespace Aivm

/-- `strstr`: the text from the first occurrence on. -/
def strstr (needle : Text) : Text → Option Text
  | [] => if needle = [] then some [] else none
  | b :: rest => if needle.isPrefixOf (b :: rest) then some (b :: rest) else strstr needle rest

/-- What a search for the next entry finds. -/
inductive NextEntry where
  | done
  | malformed
  | entry (attrs rest : Text)
deriving DecidableEq, Repr

/-- The next entry behind `marker`: what stands between the next parentheses, and the text behind them. -/
def nextEntry (marker text : Text) : NextEntry :=
  match strstr marker text with
  | none => .done
  | some found =>
      match found.dropWhile (· ≠ openParen) with
      | [] => .malformed
      | _ :: inside =>
          match inside.dropWhile (· ≠ closeParen) with
          | [] => .malformed
          | _ :: rest =>
              let attrs := inside.takeWhile (· ≠ closeParen)
              if 512 < attrs.length + 1 then .malformed else .entry attrs rest

/-- The opcodes that the text form can name. -/
def opcodeNames : List (String × Opcode) :=
  [("NOP", .nop), ("HALT", .halt), ("STUB", .stub), ("PUSH_INT", .pushInt), ("POP", .pop),
    ("STORE_LOCAL", .storeLocal), ("LOAD_LOCAL", .loadLocal), ("ADD_INT", .addInt), ("JUMP", .jump),
    ("JUMP_IF_FALSE", .jumpIfFalse), ("PUSH_BOOL", .pushBool), ("CALL", .call), ("RET", .ret), ("EQ_INT", .eqInt),
    ("EQ", .eq), ("CONST", .const), ("STR_CONCAT", .strConcat), ("TO_STRING", .toString), ("STR_ESCAPE", .strEscape),
    ("RETURN", .return_), ("STR_SUBSTRING", .strSubstring), ("STR_REMOVE", .strRemove), ("CALL_SYS", .callSys),
    ("ASYNC_CALL", .asyncCall), ("ASYNC_CALL_SYS", .asyncCallSys), ("AWAIT", .await), ("WORKER_REF", .workerRef),
    ("WORKER_RUN", .workerRun), ("TASK_CANCEL", .taskCancel), ("WORKER_RUN_ALL", .workerRunAll),
    ("WORKER_TASK_AT", .workerTaskAt), ("PAR_BEGIN", .parBegin), ("PAR_FORK", .parFork), ("PAR_JOIN", .parJoin),
    ("PAR_CANCEL", .parCancel), ("STR_UTF8_BYTE_COUNT", .strUtf8ByteCount),
    ("STR_SCALAR_LENGTH", .strScalarLength), ("VALUE_KIND", .valueKind), ("NODE_BUILDER_NEW", .nodeBuilderNew),
    ("NODE_BUILDER_APPEND_CHILD", .nodeBuilderAppendChild), ("NODE_BUILDER_APPEND_ATTR", .nodeBuilderAppendAttr),
    ("NODE_BUILDER_FINISH", .nodeBuilderFinish), ("NODE_KIND", .nodeKind), ("NODE_ID", .nodeId),
    ("ATTR_COUNT", .attrCount), ("ATTR_KEY", .attrKey), ("ATTR_VALUE_KIND", .attrValueKind),
    ("ATTR_VALUE_STRING", .attrValueString), ("ATTR_VALUE_INT", .attrValueInt),
    ("ATTR_VALUE_BOOL", .attrValueBool), ("CHILD_COUNT", .childCount), ("CHILD_AT", .childAt),
    ("MAKE_BLOCK", .makeBlock), ("APPEND_CHILD", .appendChild), ("MAKE_ERR", .makeErr),
    ("MAKE_LIT_STRING", .makeLitString), ("MAKE_LIT_INT", .makeLitInt), ("MAKE_NODE", .makeNode),
    ("MAKE_FIELD_STRING", .makeFieldString), ("MAKE_MAP", .makeMap), ("MAKE_NODE_EMPTY", .makeNodeEmpty),
    ("APPEND_ATTR", .appendAttr), ("BYTES_FROM_UTF8_STRING", .bytesFromUtf8String),
    ("BYTES_TO_UTF8_STRING", .bytesToUtf8String), ("BYTES_FROM_BASE64", .bytesFromBase64),
    ("BYTES_TO_BASE64", .bytesToBase64), ("BYTES_FROM_BYTE", .bytesFromByte), ("BYTES_U32_LE", .bytesU32Le),
    ("BYTES_I64_LE", .bytesI64Le), ("MAP_BUILDER_NEW", .mapBuilderNew),
    ("MAP_BUILDER_PUT_STRING_INT", .mapBuilderPutStringInt), ("MAP_BUILDER_FINISH", .mapBuilderFinish),
    ("MAP_COUNT", .mapCount), ("MAP_HAS_STRING", .mapHasString), ("MAP_GET_STRING_INT_OR", .mapGetStringIntOr),
    ("MAKE_PAIR", .makePair), ("PAIR_FIRST", .pairFirst), ("PAIR_SECOND", .pairSecond), ("SUB_NUM", .subNum),
    ("MUL_NUM", .mulNum), ("DIV_NUM", .divNum), ("MOD_NUM", .modNum), ("POW_NUM", .powNum), ("LT_NUM", .ltNum)]

/-- `opcode_from_text`. -/
def opcodeFromText (text : Text) : Option Opcode :=
  (opcodeNames.find? fun (name, _) => ascii name = text).map Prod.snd

/-- `bytecode_add_string_const`. -/
def Draft.addString (d : Draft) (text : Text) : Option (Draft × Nat) :=
  match d.findConstant (· = .string (.ofBuffer text)) with
  | some index => some (d, index)
  | none => do
      let d' ← d.addConstant (.string (.ofBuffer text))
      return (d', d.constants.length)

/-! ## Constants -/

/-- The constant of an entry; `count` constants stand before it. -/
def entryConstant (strtod : Text → Option UInt64) (count : Nat) (attrs : Text) : Option Literal := do
  let kind ← attrSpan attrs "kind" 32
  if kind = ascii "int" ∨ kind = ascii "number" then
    match attrInt64 attrs "value" with
    | some v => some (.int v)
    | none => if kind = ascii "number" then ((attrSpan attrs "value" 128).bind strtod).map .number else none
  else if kind = ascii "bool" then (attrBool attrs "value").map .bool
  else if kind = ascii "string" then do
    let raw ← attrSpan attrs "value" 1024
    let text ← unescapeString raw 1024
    return .string (.ofBuffer text)
  else if kind = ascii "node" then some (.node (count + 1))
  else if kind = ascii "null" then some .null
  else if kind = ascii "void" then some .void
  else none

/-- The loop over the `Const#` entries. -/
def parseConstEntries (strtod : Text → Option UInt64) : Nat → Text → Draft → Option Draft
  | 0, _, _ => none
  | fuel + 1, text, d =>
      match nextEntry (ascii "Const#") text with
      | .done => some d
      | .malformed => none
      | .entry attrs rest => do
          let c ← entryConstant strtod d.constants.length attrs
          let d ← d.addConstant c
          parseConstEntries strtod fuel rest d

/-! ## Instructions -/

inductive AosResult where
  | program (d : Draft)
  | rejected
  | overrun

/-- What the field `s` of an entry puts before its instruction: a constant for the target of a system call. -/
def entryTarget (legacy : Bool) (opcode : Opcode) (attrs : Text) (d : Draft) : Option Draft :=
  match attrSpan attrs "s" 512 with
  | none => some d
  | some target =>
      if ¬ legacy ∨ (opcode ≠ .callSys ∧ opcode ≠ .asyncCallSys) then none
      else do
        let (d, index) ← d.addString target
        d.emit .const (.ofNat index)

/-- The field `b` is absent, or zero in the legacy form. -/
def entryZeroB (legacy : Bool) (attrs : Text) : Bool :=
  ¬ hasAttrKey attrs "b" ∨ (legacy ∧ (attrInt64 attrs "b").any fun b => b.1 = 0)

/-- One `Inst#` entry; only the first check of the capacity guards the instruction itself. -/
def parseInstEntry (legacy : Bool) (attrs : Text) (d : Draft) : AosResult :=
  if programInlineInstructions ≤ d.instructions.length then .rejected
  else
    match (attrSpan attrs "op" 64).bind opcodeFromText with
    | none => .rejected
    | some opcode =>
        match entryTarget legacy opcode attrs d with
        | none => .rejected
        | some d =>
            if ¬ entryZeroB legacy attrs then .rejected
            else
              match d.emit opcode ((attrInt64 attrs "a").getD (.ofNat 0)) with
              | some d => .program d
              | none => .overrun

/-- The loop over the `Inst#` entries. -/
def parseInstEntries (legacy : Bool) : Nat → Text → Draft → AosResult
  | 0, _, _ => .rejected
  | fuel + 1, text, d =>
      match nextEntry (ascii "Inst#") text with
      | .done => if 0 < d.instructions.length then .program d else .rejected
      | .malformed => .rejected
      | .entry attrs rest =>
          match parseInstEntry legacy attrs d with
          | .program d => parseInstEntries legacy fuel rest d
          | r => r

/-- `parse_bytecode_aos_to_program_text`; every round of the two loops but the last takes an entry off the text. -/
def parseBytecodeAos (strtod : Text → Option UInt64) (source : Text) (legacy : Bool) : AosResult :=
  if (strstr (ascii "Bytecode#") source).isNone then .rejected
  else
    match parseConstEntries strtod (source.length + 1) source .empty with
    | none => .rejected
    | some d => parseInstEntries legacy (source.length + 1) source d

end Aivm
