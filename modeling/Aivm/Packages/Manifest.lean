import Aivm.Packages.Restore

/-!
# Manifest edits

The package manager adds a package to the text of a project manifest, and removes one from it. It adds a declaration
behind a bracket that it matches, and removes the lines whose first name is that of the package.
-/

namespace Aivm

/-! ## Declarations -/

def includeWord : Text := ascii "Include"

/-- The text of a declaration, up to the first closing parenthesis. -/
def declarationAt (cursor : Text) : Option Text :=
  if closeParen ∈ cursor then some (cursor.takeWhile (· ≠ closeParen)) else none

/-- The value of an attribute, into a buffer of `outLen` bytes. -/
def attributeOf (declaration : Text) (key : String) (outLen : Nat) : Option Text :=
  match nextValue (ascii key ++ ascii "=" ++ [quote]) quote declaration with
  | .value v _ => if outLen < v.length + 1 then none else some v
  | _ => none

/-- `pm_parse_include_attr`: the key, its value and the quote behind it stand before the parenthesis. -/
def parseIncludeAttr (cursor : Text) (key : String) (outLen : Nat) : Option Text :=
  (declarationAt cursor).bind fun declaration => attributeOf declaration key outLen

/-- `pm_parse_include`; a missing version counts as an empty one. -/
def parseInclude (cursor : Text) : Option Dependency :=
  match parseIncludeAttr cursor "name" 128 with
  | none => none
  | some name => some ⟨name, (parseIncludeAttr cursor "version" 64).getD []⟩

/-- A cursor reads as a declaration of a package. -/
def Names (package cursor : Text) : Prop := ∃ d, parseInclude cursor = some d ∧ d.name = package

instance (package cursor : Text) : Decidable (Names package cursor) :=
  decidable_of_iff ((parseInclude cursor).any fun d => d.name = package) (by simp [Names, Option.any_eq_true])

/-- `pm_manifest_has_include`. -/
def manifestHasInclude (manifest package : Text) : Bool :=
  (occurrences includeWord manifest).any fun cursor => Names package cursor

/-! ## Adding -/

def isUpper (b : Byte) : Bool := 65 ≤ b ∧ b ≤ 90

/-- `pm_sanitize_id` of a byte. -/
def sanitizeIdByte (b : Byte) : Byte :=
  if isUpper b then b + 32
  else if isDigit b ∨ (97 ≤ b ∧ b ≤ 122) then b
  else 95

/-- `pm_sanitize_id`. -/
def sanitizeId (input : Text) (outLen : Nat) : Option Text :=
  if input = [] ∨ outLen ≤ input.length then none else some (input.map sanitizeIdByte)

/-- `pm_find_matching_delim` from a byte on: the text from the matching delimiter on. -/
def matchFrom (left right : Byte) : (depth : Nat) → (inString : Bool) → (previous : Option Byte) → Text → Option Text
  | _, _, _, [] => none
  | depth, inString, previous, b :: text =>
      let inString := if b = quote ∧ previous ≠ some backslash then !inString else inString
      if inString then matchFrom left right depth inString (some b) text
      else if b = left then matchFrom left right (depth + 1) inString (some b) text
      else if b = right then
        if depth = 1 then some (b :: text) else matchFrom left right (depth - 1) inString (some b) text
      else matchFrom left right depth inString (some b) text

/-- `pm_find_matching_delim`. -/
def findMatchingDelim (opening : Text) (left right : Byte) : Option Text :=
  if opening.head? = some left then matchFrom left right 0 false none opening else none

def projectWord : Text := ascii "Project"

/-- `pm_find_project_attr_close`. -/
def findProjectAttrClose (manifest : Text) : Option Text :=
  match strstr projectWord manifest with
  | none => none
  | some project => findMatchingDelim (project.dropWhile (· ≠ openParen)) openParen closeParen

/-- The text before a position, which is given by the text from it on. -/
def textBefore (manifest position : Text) : Text := manifest.take (manifest.length - position.length)

/-- Where `pm_append_include_to_manifest` puts the new line: the texts that are kept, what is written around the line, and
how many bytes are set aside for it. -/
structure Insertion where
  before : Text
  opening : Text
  closing : Text
  after : Text
  extra : Nat
deriving DecidableEq, Repr

/-- The place for the new line in `pm_append_include_to_manifest`. -/
def insertionPoint (manifest : Text) : Option Insertion :=
  match findProjectAttrClose manifest with
  | none => none
  | some attrClose =>
      let attrsEnd := attrClose.drop 1
      let next := attrsEnd.dropWhile isSpace
      if next.head? = some openBrace then
        match findMatchingDelim next openBrace closeBrace with
        | none => none
        | some projectEnd =>
            let before := textBefore manifest projectEnd
            some ⟨before, if before ≠ [] ∧ before.getLast? ≠ some 10 then [10] else [], [], projectEnd, 0⟩
      else
        -- the blanks behind the attributes are not copied
        some ⟨textBefore manifest attrsEnd, ascii " \x7b\n", ascii "  \x7d\n", next, (ascii " \x7b\n  \x7d\n").length⟩

/-- The new line. -/
def includeLine (id : Text) (record : PackageRecord) : Text :=
  ascii "    Include#dep_" ++ id ++ ascii "(name=\"" ++ record.name ++ ascii "\" version=\"" ++ record.version ++
    ascii "\")\n"

/-- A manifest that is written, and the size of the memory for it. -/
structure ManifestEdit where
  text : Text
  allocated : Nat
deriving DecidableEq, Repr

/-- `pm_append_include_to_manifest`. -/
def appendInclude (manifest : Text) (record : PackageRecord) : Option ManifestEdit :=
  match insertionPoint manifest, sanitizeId record.name 160 with
  | some i, some id =>
      let line := includeLine id record
      if 384 ≤ line.length then none
      else some ⟨i.before ++ i.opening ++ line ++ i.closing ++ i.after, manifest.length + line.length + i.extra + 2⟩
  | _, _ => none

/-! ## Removing -/

/-- The lines of a text, each with its line break. -/
def textLines : Text → List Text
  | [] => []
  | b :: text =>
      if b = 10 then [b] :: textLines text
      else
        match textLines text with
        | [] => [[b]]
        | line :: lines => (b :: line) :: lines

/-- A line that `pm_remove_include_from_manifest` drops: an `Include` stands in it or behind it, and the start of the line
reads as a declaration of the package. -/
def Dropped (package line : Text) (lines : List Text) : Prop :=
  (strstr includeWord (line ++ lines.flatten)).isSome ∧ Names package (line.take 1023)

instance (package line : Text) (lines : List Text) : Decidable (Dropped package line lines) :=
  inferInstanceAs (Decidable (_ ∧ _))

/-- The loop of `pm_remove_include_from_manifest`: what is written so far, and how many lines were dropped. -/
def removeLines (package : Text) (outputLen : Nat) : List Text → Text → Nat → Option (Text × Nat)
  | [], out, removed => some (out, removed)
  | line :: lines, out, removed =>
      if Dropped package line lines then removeLines package outputLen lines out (removed + 1)
      else if outputLen < out.length + line.length + 1 then none
      else removeLines package outputLen lines (out ++ line) removed

/-- `pm_remove_include_from_manifest`. -/
def removeInclude (manifest package : Text) : Option (Text × Nat) :=
  removeLines package (manifest.length + 1) (textLines manifest) [] 0

/-! ## What an edit should do -/

/-- What a declaration says. -/
def readDeclaration (declaration : Text) : Option Dependency :=
  match attributeOf declaration "name" 128 with
  | none => none
  | some name => some ⟨name, (attributeOf declaration "version" 64).getD []⟩

def readAt (cursor : Text) : Option (Text × Dependency) :=
  (declarationAt cursor).bind fun declaration => (readDeclaration declaration).map fun d => (declaration, d)

/-- The declarations of a text, each with what it says. -/
def declarations (text : Text) : List (Text × Dependency) := (occurrences includeWord text).filterMap readAt

/-- A text without its last parenthesis is a declaration of the package. -/
structure Declares (package declaration : Text) : Prop where
  start : includeWord <+: declaration
  single : closeParen ∉ declaration
  named : ∃ d, readDeclaration declaration = some d ∧ d.name = package

/-- Only declarations of the package are deleted, and white space. -/
inductive OnlyDeletes (package : Text) : Text → Text → Prop
  | done : OnlyDeletes package [] []
  | keep (b : Byte) {text out : Text} (h : OnlyDeletes package text out) : OnlyDeletes package (b :: text) (b :: out)
  | white (b : Byte) {text out : Text} (hb : isSpace b) (h : OnlyDeletes package text out) :
      OnlyDeletes package (b :: text) out
  | declaration {declaration text out : Text} (hd : Declares package declaration) (h : OnlyDeletes package text out) :
      OnlyDeletes package (declaration ++ closeParen :: text) out

/-- A removal deletes the declarations of the package, no other declaration, and no other text. -/
structure Removes (package manifest out : Text) : Prop where
  deletes : OnlyDeletes package manifest out
  others : declarations out = (declarations manifest).filter fun d => d.2.name ≠ package

/-- An addition stays in its memory, and puts one declaration between the others and nothing else. -/
structure Adds (manifest : Text) (d : Dependency) (edit : ManifestEdit) : Prop where
  fits : edit.text.length + 1 ≤ edit.allocated
  text : ∃ before inserted after, manifest = before ++ after ∧ edit.text = before ++ inserted ++ after
  added : ∃ own before after, declarations manifest = before ++ after ∧
    declarations edit.text = before ++ (own, d) :: after

/-- What the two edits should do to a manifest. -/
structure EditsRight (manifest : Text) (record : PackageRecord) (package : Text) : Prop where
  adds : ∃ edit out removed, appendInclude manifest record = some edit ∧
    Adds manifest ⟨record.name, record.version⟩ edit ∧
    removeInclude edit.text record.name = some (out, removed) ∧ Removes record.name edit.text out ∧
    declarations out = declarations manifest
  removes : ∃ out removed, removeInclude manifest package = some (out, removed) ∧ Removes package manifest out

/-! ## When they do it -/

/-- A record whose texts fit their buffers and can stand between quotes and in parentheses. -/
structure Quotable (record : PackageRecord) : Prop where
  name : quote ∉ record.name ∧ openParen ∉ record.name ∧ closeParen ∉ record.name
  version : quote ∉ record.version ∧ openParen ∉ record.version ∧ closeParen ∉ record.version
  nameFits : record.name.length < 128
  versionFits : record.version.length < 64

/-- The text up to the next parenthesis is kept. -/
def KeptToClose (package : Text) : List Text → Prop
  | [] => True
  | line :: lines => ¬ Dropped package line lines ∧ (closeParen ∈ line ∨ KeptToClose package lines)

/-- No line is dropped, with other lines behind them. -/
def AllKept (package : Text) (others : List Text) : List Text → Prop
  | [] => True
  | line :: lines => ¬ Dropped package line (lines ++ others) ∧ AllKept package others lines

/-- Each line that is dropped holds declarations of the package only, and each `Include` on another line has another name
and ends before the next line that is dropped. -/
def Removable (package : Text) : List Text → Prop
  | [] => True
  | line :: lines =>
      (if Dropped package line lines then
        OnlyDeletes package line [] ∧ ∀ d ∈ declarations line, d.2.name = package
      else
        ∀ cursor ∈ occurrences includeWord line,
          ¬ Names package (cursor ++ lines.flatten) ∧ (closeParen ∈ cursor ∨ KeptToClose package lines)) ∧
        Removable package lines

/-- The white space behind the attributes that an addition does not lose. -/
def whiteKept : List Text := [[], [32], [10], [32, 10]]

/-- The name of the record does not give another version. -/
def OwnVersion (record : PackageRecord) : Prop := ascii "version=" <:+ record.name → record.version = ascii " version="

/-- Where an addition and its removal do what they should: each `Include` before the new line is closed there, the white
space behind the attributes is at most a blank and a line break, the record reads back from one line, and no other line
reads as its declaration. -/
structure Addable (manifest : Text) (record : PackageRecord) (i : Insertion) : Prop where
  closed : ∀ cursor ∈ occurrences includeWord i.before, closeParen ∈ cursor
  white : ∃ white ∈ whiteKept, manifest = i.before ++ white ++ i.after
  named : record.name ≠ []
  oneLine : 10 ∉ record.name ∧ 10 ∉ record.version
  ownVersion : OwnVersion record
  oneName : ¬ (includeWord <:+: record.name ∧ ascii "name=" <:+ record.name)
  keptBefore : ∀ line ∈ textLines (i.before ++ i.opening), ¬ Names record.name (line.take 1023)
  keptAfter : AllKept record.name [] (textLines i.after)

end Aivm
