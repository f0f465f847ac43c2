import Aivm.Compiler.Graph
import Aivm.Packages.Lines
import Aivm.Packages.Namespaces
import Aivm.Packages.Toml

/-!
# The lock file

What a restore writes of the packages it has restored, and what the search for a package and the list of packages read of
it. The readers look keys up from the header of a package to the end of the file.
-/

namespace Aivm

/-- A text in a buffer of `n` bytes. -/
abbrev Buffer (n : Nat) := { t : Text // t.length < n }

/-! ## The writer -/

/-- The fields of `AilangPackageTargetMetadata`; those in brackets hold the text of an array. -/
structure LockedTarget where
  id : Text
  aliases : Text
  defaultRunner : Text
  artifactTypes : Text
  hostAbi : Nat
  options : Text
  runTools : Text
  publishTools : Text

/-- What a restore keeps of a package; a package without a name is not asked for. -/
structure LockedPackage where
  name : Buffer 128
  name_ne : name.1 ≠ []
  version : Buffer 64
  repo : Buffer 512
  packageRoot : Buffer 256
  commit : Buffer 128
  path : Buffer pathMax
  types : Text
  namespaces : List Text
  list_fits : (listText namespaces).length < namespaceListSize
  targets : List LockedTarget

/-- The values of a `[[package]]` block; those of arrays hold the text between the brackets. -/
structure LockEntry where
  name : Text
  version : Text
  repo : Text
  packageRoot : Text
  commit : Text
  path : Text
  types : Text
  namespaces : Text
  targets : List LockedTarget

/-- The values that are written of a package. -/
def LockedPackage.entry (p : LockedPackage) : LockEntry where
  name := p.name.1
  version := p.version.1
  repo := p.repo.1
  packageRoot := p.packageRoot.1
  commit := p.commit.1
  path := p.path.1
  types := p.types
  namespaces := listText p.namespaces
  targets := p.targets

def keyLine (key : String) (value : Text) : Text := ascii key ++ ascii " = " ++ quote :: (value ++ [quote])

def arrayLine (key : String) (value : Text) : Text :=
  ascii key ++ ascii " = " ++ openBracket :: (value ++ [closeBracket])

def LockedTarget.lines (package : Text) (t : LockedTarget) : List Text :=
  [ascii "[[target]]", keyLine "package" package, keyLine "id" t.id, arrayLine "aliases" t.aliases,
    keyLine "defaultRunner" t.defaultRunner, arrayLine "artifactTypes" t.artifactTypes,
    ascii "hostAbi = " ++ natDecimal t.hostAbi, arrayLine "options" t.options, arrayLine "runTools" t.runTools,
    arrayLine "publishTools" t.publishTools, []]

/-- The lines of a package behind its header. -/
def LockEntry.lines (e : LockEntry) : List Text :=
  [keyLine "name" e.name, keyLine "version" e.version, keyLine "repo" e.repo, keyLine "packageRoot" e.packageRoot,
    keyLine "commit" e.commit, keyLine "path" e.path, arrayLine "types" e.types, arrayLine "namespaces" e.namespaces, []] ++
  e.targets.flatMap (LockedTarget.lines e.name)

def packageMarker : Text := ascii "[[package]]"

def LockEntry.block (e : LockEntry) : Text := linesText (packageMarker :: e.lines)

/-- The text of a lock file while packages are added. -/
def lockPart (registry : Text) (entries : List LockEntry) : Text :=
  linesText [keyLine "schema" (ascii "ailang.lock.v1"), keyLine "registry" registry, []] ++ entries.flatMap LockEntry.block

/-- The text of a lock file. -/
def lockText (registry : Text) (entries : List LockEntry) : Text :=
  lockPart registry entries ++ if entries = [] then ascii "# no packages\n" else []

/-- `AILANG_PM_LOCK_LIMIT`. -/
def lockLimit : Nat := 262144

def lockBlock (p : LockedPackage) : Text := p.entry.block

/-- The lock text that `ailang_package_manager_restore` writes. -/
def restoreLock (registry : Text) (packages : List LockedPackage) : Option Text :=
  if (lockText registry (packages.map LockedPackage.entry)).length < lockLimit then
    some (lockText registry (packages.map LockedPackage.entry))
  else none

/-! ## The readers -/

/-- `pm_is_absolute_path`. -/
def isAbsolutePath : Text → Bool
  | [] => false
  | b :: _ => b = 47 ∨ b = backslash

/-- `pm_join_path`. -/
def packageJoinPath (left right : Text) (outLen : Nat) : Option Text :=
  let out := if left = [] then right else left ++ 47 :: right
  if out.length < outLen then some out else none

/-- `pm_resolve_project_local_path`. -/
def resolveProjectLocalPath (project path : Text) (outLen : Nat) : Option Text :=
  if isAbsolutePath path then if path.length < outLen then some path else none else packageJoinPath project path outLen

/-- The root of a package that has this path and this root in its project. -/
def joinPackageRoot (project path root : Text) (outLen : Nat) : Option Text := do
  let localPath ← resolveProjectLocalPath project path pathMax
  packageJoinPath localPath root outLen

/-- What `ailang_package_manager_find_package_root` reads at the header of a package. -/
def packageRootAt (project name : Text) (outLen : Nat) (found : Text) : Option Text :=
  if tomlGetString found "name" 128 ≠ some name then none
  else do
    let path ← tomlGetString found "path" pathMax
    let root ← tomlGetString found "packageRoot" pathMax
    joinPackageRoot project path root outLen

/-- `ailang_package_manager_find_package_root` where no configured path applies. -/
def findPackageRoot (project text name : Text) (outLen : Nat) : Option Text :=
  if name = [] then none else (occurrences packageMarker text).findSome? (packageRootAt project name outLen)

/-- The loop of `pm_toml_array_to_display`. -/
def displayFrom : Bool → Text → Text
  | _, [] => []
  | inQuote, b :: rest =>
      if b = quote then displayFrom (!inQuote) rest
      else if ¬ inQuote ∧ isSpace b then displayFrom inQuote rest
      else b :: displayFrom inQuote rest

/-- `pm_toml_array_to_display`, into a buffer of `outLen` bytes. -/
def arrayToDisplay (array : Text) (outLen : Nat) : Option Text :=
  if outLen < (displayFrom false array).length + 1 then none else some (displayFrom false array)

/-- A line of `ailang_package_manager_list`. -/
def listLine (name version namespaces : Text) : Text :=
  name ++ (if version = [] then [] else [32]) ++ version ++
    (if namespaces = [] then [] else ascii " namespaces=") ++ namespaces ++ [10]

/-- What `ailang_package_manager_list` appends at the header of a package. -/
def listPackageAt (outLen : Nat) (out found : Text) : Option Text :=
  match tomlGetString found "name" 128 with
  | none => some out
  | some name => do
      let version := (tomlGetString found "version" 64).getD []
      let namespaces := (tomlGetArray found "namespaces" 512).getD []
      let display ← if namespaces = [] then some [] else arrayToDisplay namespaces 512
      let out := out ++ listLine name version display
      if outLen ≤ out.length then none else some out

/-- `ailang_package_manager_list` of a lock file, into a buffer of `outLen` bytes. -/
def packageList (text : Text) (outLen : Nat) : Option Text :=
  (occurrences packageMarker text).foldlM (listPackageAt outLen) []

/-! ## What should be read back -/

/-- A value without quotes, brackets and line breaks. -/
def IsPlain (v : Text) : Prop := quote ∉ v ∧ openBracket ∉ v ∧ closeBracket ∉ v ∧ (10 : Byte) ∉ v

instance (v : Text) : Decidable (IsPlain v) := inferInstanceAs (Decidable (_ ∧ _ ∧ _ ∧ _))

/-- The text of an array whose values have no brackets and line breaks. -/
def IsArrayText (v : Text) : Prop := openBracket ∉ v ∧ closeBracket ∉ v ∧ (10 : Byte) ∉ v

structure LockedTarget.Plain (t : LockedTarget) : Prop where
  id : IsPlain t.id
  aliases : IsArrayText t.aliases
  defaultRunner : IsPlain t.defaultRunner
  artifactTypes : IsArrayText t.artifactTypes
  options : IsArrayText t.options
  runTools : IsArrayText t.runTools
  publishTools : IsArrayText t.publishTools

structure LockedPackage.Plain (p : LockedPackage) : Prop where
  name : IsPlain p.name.1
  version : IsPlain p.version.1
  repo : IsPlain p.repo.1
  packageRoot : IsPlain p.packageRoot.1
  commit : IsPlain p.commit.1
  path : IsPlain p.path.1
  types : IsArrayText p.types
  namespaces : ∀ v ∈ p.namespaces, IsPlain v
  targets : ∀ t ∈ p.targets, t.Plain

/-- The root of a package by its own values. -/
def LockedPackage.root (project : Text) (p : LockedPackage) (outLen : Nat) : Option Text :=
  joinPackageRoot project p.path.1 p.packageRoot.1 outLen

/-- The line of a package by its own values. -/
def LockedPackage.listed (p : LockedPackage) : Text :=
  listLine p.name.1 p.version.1 (List.intercalate [comma] p.namespaces)

/-- The readers find of each package what is its own. -/
structure LockReadsBack (text : Text) (packages : List LockedPackage) : Prop where
  found : ∀ project outLen, ∀ p ∈ packages, ∀ out, p.root project outLen = some out →
    findPackageRoot project text p.name.1 outLen = some out
  absent : ∀ project outLen name, name ∉ packages.map (fun p => p.name.1) → findPackageRoot project text name outLen = none
  listed : ∀ outLen, (packages.flatMap LockedPackage.listed).length < outLen →
    packageList text outLen = some (packages.flatMap LockedPackage.listed)

/-- No value that stands before a key in the lines of a package ends in that key and its sign. -/
structure LockedPackage.KeysClear (p : LockedPackage) : Prop where
  path : ∀ v ∈ [p.name.1, p.version.1, p.repo.1, p.packageRoot.1, p.commit.1], ¬ ascii "path = " <:+ v
  packageRoot : ∀ v ∈ [p.name.1, p.version.1, p.repo.1], ¬ ascii "packageRoot = " <:+ v
  version : ¬ ascii "version = " <:+ p.name.1

end Aivm
