import Aivm.Compiler.Compile

/-!
# Source graphs

`simple_collect_from_file` gathers the functions of a file and of the files it imports, and
`parse_simple_program_graph_to_program_file` compiles them from the entry function on.
-/

namespace Aivm

open FrontM

/-- What the compiler asks of its surroundings: the files, the resolution of imports, and `strtod` on a whole text. -/
structure SourceHost where
  readTextFile : Text → Option Text
  resolveImportPath : (path attrs : Text) → Option Text
  strtod : Text → Option UInt64

structure CollectState where
  sources : List Text
  funcs : List FnDef
  entryExport : Text

abbrev CollectM := FrontM CollectState

def pathMax : Nat := 4096

/-- `simple_add_source`. -/
def addSource (path : Text) : CollectM Unit := do
  let s ← get
  if path ∈ s.sources then return
  else if simpleMaxSources ≤ s.sources.length ∨ pathMax ≤ path.length then giveUp
  else modify fun s => { s with sources := s.sources ++ [path] }

/-- `simple_add_func`: the first definition of a name counts. -/
def addFunc (name paramsRaw : Text) (body : List Node) : CollectM Unit := do
  let s ← get
  if simpleMaxFuncs ≤ s.funcs.length then giveUp
  else if (findFunc s.funcs name).isSome then return
  else if 64 ≤ name.length ∨ 256 ≤ paramsRaw.length then giveUp
  else modify fun s => { s with funcs := s.funcs ++ [⟨name, paramsRaw, body, false, false, 0⟩] }

/-- The text between the braces of a file that starts with `Program`, and the text behind them. -/
def programBody (text : Text) : Option (Option (Text × Text)) :=
  let start := text.dropWhile isBlank
  let ended : Bool :=
    match start.drop 7 with
    | [] => true
    | b :: _ => b = hash ∨ b = openParen ∨ b = openBrace ∨ isBlank b
  if ¬ ((ascii "Program").isPrefixOf start ∧ ended) then none
  else
    match start.dropWhile (· ≠ openBrace) with
    | [] => some none
    | _ :: rest => some (findMatching openBrace closeBrace rest)

/-- A node at the top of a file; `collect` gathers an imported file. -/
def collectNode (host : SourceHost) (collect : Text → CollectM Unit) (path : Text) (allowEntryExport : Bool) :
    Node → CollectM Unit
  | .mk kind attrs _ children _ =>
      if kind = ascii "Import" then do
        collect (← ofOption (ascii "collect: import missing path in " ++ path ++ ascii " attrs=" ++ attrs)
          (host.resolveImportPath path attrs))
      else if kind = ascii "Export" then
        match attrSpan attrs "name" 64 with
        | some name => modify fun s => if allowEntryExport ∧ s.entryExport = [] then { s with entryExport := name } else s
        | none => return
      else if kind = ascii "Let" then do
        let name ← ofOption (ascii "collect: let missing name in " ++ path) (attrSpan attrs "name" 64)
        match children with
        | [] => return
        | value :: _ =>
            if value.kind = ascii "Fn" then
              orFailf (ascii "collect: failed adding function " ++ name ++ ascii " from " ++ path)
                (addFunc name ((attrSpan value.attrs "params" 256).getD []) value.children)
            else return
      else return

def collectNodes (host : SourceHost) (collect : Text → CollectM Unit) (path : Text) (allowEntryExport : Bool) :
    List Node → CollectM Unit
  | [] => return
  | n :: ns => do
      collectNode host collect path allowEntryExport n
      collectNodes host collect path allowEntryExport ns

/-- `simple_collect_from_file`. A file that is imported again is gathered again, so files that import each other are
gathered without end: the fuel bounds the nesting of imports. -/
def collectFromFile (host : SourceHost) : Nat → Bool → Text → CollectM Unit
  | 0, _, _ => fun _ => .outOfFuel
  | fuel + 1, allowEntryExport, path => do
      let text ← ofOption (ascii "collect: failed reading " ++ path) (host.readTextFile path)
      orFailf (ascii "collect: failed adding source " ++ path) (addSource path)
      match programBody text with
      | none => failf (ascii "collect: missing Program in " ++ path)
      | some none => failf (ascii "collect: malformed Program braces in " ++ path)
      | some (some (body, behind)) => do
          let (nodes, stop) := parseNodes body
          collectNodes host (collectFromFile host fuel false) path allowEntryExport nodes
          let rest := stop.dropWhile isBlank
          if rest = [] then return
          else
            failf (ascii "collect: parse failed in " ++ path ++ ascii " near offset " ++
              natDecimal (text.length - (rest.length + 1 + behind.length)))

/-- The state in which `parse_simple_program_graph_to_program_file` starts to emit code. -/
def CollectState.compileState (s : CollectState) : CompileState := ⟨.empty, s.funcs, [], [], []⟩

/-- The entry function of a graph. -/
def CollectState.entry (s : CollectState) : Text := if s.entryExport = [] then ascii "start" else s.entryExport

/-- `parse_simple_program_graph_to_program_file`, with fuel for the imports and for the fix-ups. -/
def compileGraph (host : SourceHost) (importFuel fixupFuel : Nat) (path : Text) : FrontResult CompileState Unit :=
  match collectFromFile host importFuel true path ⟨[], [], []⟩ with
  | .ok () collected => compileEntry host.strtod fixupFuel collected.entry collected.compileState
  | .rejected message => .rejected message
  | .outOfFuel => .outOfFuel

end Aivm
