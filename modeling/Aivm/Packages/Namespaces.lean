import Aivm.Packages.Values

/-!
# Namespaces of packages

The namespaces that a package declares are collected in a list between quotes, and those of all restored packages in a
registry of lines. Both are searched for a namespace before it is added.
-/

namespace Aivm

/-! ## Dotted names -/

/-- `islower`. -/
def isLower (b : Byte) : Bool := 97 ≤ b ∧ b ≤ 122

/-- The loop of `pm_is_dotted_namespace`. -/
def dottedFrom : (sawDot expectStart : Bool) → Text → Bool
  | sawDot, expectStart, [] => sawDot ∧ ¬ expectStart
  | sawDot, true, b :: rest => isLower b ∧ dottedFrom sawDot false rest
  | sawDot, false, b :: rest =>
      if b = 46 then dottedFrom true true rest else (isLower b ∨ isDigit b) ∧ dottedFrom sawDot false rest

/-- `pm_is_dotted_namespace`. -/
def isDottedNamespace (text : Text) : Bool := text ≠ [] ∧ dottedFrom false true text

/-! ## Collection -/

/-- The errors that the namespaces of packages may cause. -/
inductive NamespaceError where
  | invalidDeclaration
  | tooLong
  | invalid (v : Text)
  | duplicate (v : Text)
  | listOverflow
  | undeclared
  | invalidList
  | registryOverflow
deriving DecidableEq, Repr

/-- The text of the error. -/
def NamespaceError.message : NamespaceError → Text
  | invalidDeclaration => ascii "invalid package namespace declaration"
  | tooLong => ascii "package namespace is too long"
  | invalid v => ascii "invalid package namespace: " ++ v
  | duplicate v => ascii "duplicate package namespace: " ++ v
  | listOverflow => ascii "package namespace list overflow"
  | undeclared => ascii "package library entries must declare namespaces"
  | invalidList => ascii "invalid package namespace list"
  | registryOverflow => ascii "package namespace registry overflow"

def namespaceMarker : Text := ascii "namespace = \""
def entryMarker : Text := ascii "entry = \""

/-- The size of `metadata->namespaces`. -/
def namespaceListSize : Nat := 512

/-- The size of `restored_namespaces`. -/
def namespaceRegistrySize : Nat := 1024

/-- The loop that counts a marker; every round but the last consumes something. -/
def countFrom (marker : Text) : Nat → Text → Nat
  | 0, _ => 0
  | fuel + 1, text =>
      match strstr marker text with
      | none => 0
      | some found => countFrom marker fuel (found.drop marker.length) + 1

/-- The declarations of library entries in a descriptor. -/
def entryCount (descriptor : Text) : Nat := countFrom entryMarker (descriptor.length + 1) descriptor

/-- A namespace between quotes behind those of a list. -/
def quotedList (list : Text) (count : Nat) (v : Text) : Text :=
  list ++ (if 0 < count then ascii ", " else []) ++ quote :: (v ++ [quote])

/-- The list of some namespaces. -/
def listText : List Text → Text
  | [] => []
  | v :: values => quote :: (v ++ [quote]) ++ values.flatMap fun w => comma :: 32 :: quote :: (w ++ [quote])

/-- One round of `pm_collect_source_namespaces`. -/
def addNamespace (list : Text) (count : Nat) (v : Text) : Except NamespaceError Text :=
  if 128 < v.length + 1 then .error .tooLong
  else if ¬ isDottedNamespace v then .error (.invalid v)
  else if list ≠ [] ∧ (strstr v list).isSome then .error (.duplicate v)
  else if namespaceListSize < (quotedList list count v).length + 1 then .error .listOverflow
  else .ok (quotedList list count v)

/-- The loop of `pm_collect_source_namespaces`. -/
def collectFrom : Nat → Text → Text → Nat → Except NamespaceError (Text × Nat)
  | 0, _, list, count => .ok (list, count)
  | fuel + 1, cursor, list, count =>
      match nextValue namespaceMarker quote cursor with
      | .absent => .ok (list, count)
      | .unterminated => .error .invalidDeclaration
      | .value v rest => do collectFrom fuel rest (← addNamespace list count v) (count + 1)

/-- `pm_collect_source_namespaces` up to the collection of dependencies and targets: the list of the namespaces. -/
def collectNamespaces (descriptor : Text) : Except NamespaceError Text := do
  let (list, count) ← collectFrom (descriptor.length + 1) descriptor [] 0
  if 0 < entryCount descriptor ∧ count ≠ entryCount descriptor then .error .undeclared else .ok list

/-! ## Restore -/

/-- `pm_namespace_seen`. -/
def namespaceSeen (registry v : Text) : Bool :=
  v ≠ [] ∧ v.length + 2 < 160 ∧ (strstr (10 :: (v ++ [10])) registry).isSome

/-- One round of the loop of `ailang_package_manager_restore` over the namespaces of a package. -/
def registerNamespace (registry v : Text) : Except NamespaceError Text :=
  if 128 < v.length + 1 then .error .tooLong
  else if namespaceSeen registry v then .error (.duplicate v)
  else if namespaceRegistrySize < (registry ++ v ++ [10]).length + 1 then .error .registryOverflow
  else .ok (registry ++ v ++ [10])

/-- The loop of `ailang_package_manager_restore` over the list of a package. -/
def registerFrom : Nat → Text → Text → Except NamespaceError Text
  | 0, _, registry => .ok registry
  | fuel + 1, cursor, registry =>
      match nextValue [quote] quote cursor with
      | .absent => .ok registry
      | .unterminated => .error .invalidList
      | .value v rest => do registerFrom fuel rest (← registerNamespace registry v)

/-- What the restoration of a package does with its namespaces. -/
def restorePackageNamespaces (registry descriptor : Text) : Except NamespaceError Text := do
  let list ← collectNamespaces descriptor
  registerFrom (list.length + 1) list registry

/-- What `ailang_package_manager_restore` does with the namespaces of the packages it restores. -/
def restoreNamespaces (descriptors : List Text) : Except NamespaceError Text :=
  descriptors.foldlM restorePackageNamespaces [10]

/-! ## What a registry of namespaces should be -/

/-- The namespaces that a descriptor declares. -/
def declaredNamespaces (descriptor : Text) : List Text := (markedValues namespaceMarker quote descriptor).1

/-- The bytes of the list that a descriptor's namespaces take. -/
def listLength (values : List Text) : Nat := (values.map fun v => v.length + 2).sum + 2 * (values.length - 1)

/-- A descriptor that passes the checks of its namespaces, but for duplicates, and whose list fits its buffer. -/
structure NamespacesFit (descriptor : Text) : Prop where
  terminated : (markedValues namespaceMarker quote descriptor).2 = true
  dotted : ∀ v ∈ declaredNamespaces descriptor, isDottedNamespace v = true
  short : ∀ v ∈ declaredNamespaces descriptor, v.length < 128
  list : listLength (declaredNamespaces descriptor) < namespaceListSize
  entries : entryCount descriptor = 0 ∨ entryCount descriptor = (declaredNamespaces descriptor).length

/-- The namespaces of all packages fit the registry. -/
def RegistryFits (descriptors : List Text) : Prop :=
  ((descriptors.flatMap declaredNamespaces).map fun v => v.length + 1).sum + 1 < namespaceRegistrySize

/-- A run ends with the report of a duplicate. -/
def ReportsDuplicate {α : Type} (r : Except NamespaceError α) : Prop := ∃ v, r = .error (.duplicate v)

/-- Duplicates are reported just if a namespace is declared twice. -/
structure DuplicatesExact (descriptors : List Text) : Prop where
  collected : ∀ d ∈ descriptors, ReportsDuplicate (collectNamespaces d) ↔ ¬ (declaredNamespaces d).Nodup
  restored : ReportsDuplicate (restoreNamespaces descriptors) ↔ ¬ (descriptors.flatMap declaredNamespaces).Nodup

/-- No name is a part of one before it. -/
def NoPart (values : List Text) : Prop := values.Pairwise fun first later => ¬ later <:+: first

/-- A package in which a namespace is a part of one that is declared before it declares one twice. -/
def PartsAreDuplicates (descriptors : List Text) : Prop :=
  ∀ d ∈ descriptors, ¬ NoPart (declaredNamespaces d) → ¬ (declaredNamespaces d).Nodup

end Aivm
