import Aivm.Compiler.Text

/-!
# Source nodes

`simple_parse_next_node` reads one node `Kind#id(attrs) { body }`. Every loop of the compiler over the children of a node
reads nodes from its body until there is none, so a body is kept as the nodes that can be read from it and the text
where reading stops.
-/

namespace Aivm

/-- The text before the bracket that closes the open one, and the text behind it; brackets in strings do not count. -/
def scanClose (opening closing : Byte) : Nat → Bool → Text → Option (Text × Text)
  | _, _, [] => none
  | _, true, [_] => none
  | depth, true, b :: e :: rest =>
      if b = backslash then do
        let (inside, after) ← scanClose opening closing depth true rest
        return (b :: e :: inside, after)
      else do
        let (inside, after) ← scanClose opening closing depth (b ≠ quote) (e :: rest)
        return (b :: inside, after)
  | depth, false, b :: rest =>
      if b = closing ∧ depth = 1 then some ([], rest)
      else do
        let depth := if b = opening then depth + 1 else if b = closing then depth - 1 else depth
        let (inside, after) ← scanClose opening closing depth (b = quote) rest
        return (b :: inside, after)

/-- `simple_find_matching_paren` and `simple_find_matching_brace`, behind the opening bracket. -/
def findMatching (opening closing : Byte) (text : Text) : Option (Text × Text) :=
  scanClose opening closing 1 false text

/-- `SimpleNodeView`, with the text behind the node. -/
structure NodeView where
  kind : Text
  attrs : Text
  body : Text
  next : Text
deriving DecidableEq, Repr

/-- The attributes in parentheses, and the text behind them. -/
def parseAttrs : Text → Option (Text × Text)
  | [] => some ([], [])
  | b :: rest =>
      if b = openParen then do
        let (attrs, after) ← findMatching openParen closeParen rest
        if 512 < attrs.length + 1 then none else some (attrs, after)
      else some ([], b :: rest)

/-- The body in braces, and the text behind it. -/
def parseBody : Text → Option (Text × Text)
  | [] => some ([], [])
  | b :: rest => if b = openBrace then findMatching openBrace closeBrace rest else some ([], b :: rest)

/-- The text behind the identifier of a node. -/
def skipId : Text → Text
  | [] => []
  | b :: rest =>
      if b = hash then rest.dropWhile fun b => ¬ isSpace b ∧ b ≠ openParen ∧ b ≠ openBrace else b :: rest

def isKindByte (b : Byte) : Bool := ¬ isSpace b ∧ b ≠ openParen ∧ b ≠ openBrace ∧ b ≠ hash

/-- `simple_parse_next_node`. -/
def parseNextNode (text : Text) : Option NodeView := do
  let start := text.dropWhile isSpace
  let kind := start.takeWhile isKindByte
  let behindKind := start.dropWhile isKindByte
  if kind = [] ∨ behindKind = [] ∨ 32 < kind.length + 1 then none
  else
    let (attrs, behindAttrs) ← parseAttrs (skipId behindKind)
    let (body, next) ← parseBody (behindAttrs.dropWhile isSpace)
    return ⟨kind, attrs, body, next⟩

/-! ## Trees -/

/-- A node with what can be read of its body: the children, and the text in which no further node is found. -/
inductive Node where
  | mk (kind attrs body : Text) (children : List Node) (rest : Text)
deriving Repr

namespace Node

def kind : Node → Text
  | mk kind _ _ _ _ => kind

def attrs : Node → Text
  | mk _ attrs _ _ _ => attrs

def body : Node → Text
  | mk _ _ body _ _ => body

def children : Node → List Node
  | mk _ _ _ children _ => children

def rest : Node → Text
  | mk _ _ _ _ rest => rest

end Node

/-- Read nodes until there is none. -/
def parseNodesFrom : Nat → Text → List Node × Text
  | 0, text => ([], text)
  | fuel + 1, text =>
      match parseNextNode text with
      | none => ([], text)
      | some view =>
          let (children, rest) := parseNodesFrom fuel view.body
          let (siblings, stop) := parseNodesFrom fuel view.next
          (.mk view.kind view.attrs view.body children rest :: siblings, stop)

/-- The nodes of a text; a text is longer than the body of a node in it and than what follows the node. -/
def parseNodes (text : Text) : List Node × Text := parseNodesFrom (text.length + 1) text

end Aivm
