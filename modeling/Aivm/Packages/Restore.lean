import Mathlib.Data.List.DropRight
import Aivm.Packages.LockFile
import Aivm.Packages.Records

/-!
# The queue of a restore

A restore asks for the packages of its manifest and, package by package, for what each of them depends on. A package that is
asked for without a version gets one from a later request or from the registry.
-/

namespace Aivm

/-- `AilangPackageDependency`. All buffers of names and all of versions have one size, so copies are not cut. -/
structure Dependency where
  name : Text
  version : Text
deriving DecidableEq, Repr

/-- `AILANG_PM_MAX_DEPENDENCIES`. -/
def maxDependencies : Nat := 64

/-! ## The dependencies of a package -/

/-- The loop of `pm_is_package_name`. -/
def packageNameFrom : (expectStart : Bool) → Text → Bool
  | expectStart, [] => ¬ expectStart
  | true, b :: rest => isLower b ∧ packageNameFrom false rest
  | false, b :: rest => if b = 45 then packageNameFrom true rest else (isLower b ∨ isDigit b) ∧ packageNameFrom false rest

/-- `pm_is_package_name`. -/
def isPackageName (text : Text) : Bool := text ≠ [] ∧ packageNameFrom true text

/-- The name of the package that comes with the SDK. -/
def sdkName : Text := ascii "ailang"

/-- The errors of `pm_collect_source_dependencies`. -/
inductive DependencyError where
  | invalidDeclaration
  | nameTooLong
  | invalidName (name : Text)
  | unquoted (name : Text)
  | invalidVersion (name : Text)
  | versionTooLong (name : Text)
  | tooMany
deriving DecidableEq, Repr

def DependencyError.message : DependencyError → Text
  | invalidDeclaration => ascii "invalid package dependency declaration"
  | nameTooLong => ascii "package dependency name is too long"
  | invalidName name => ascii "invalid package dependency name: " ++ name
  | unquoted name => ascii "package dependency must use an exact quoted version: " ++ name
  | invalidVersion name => ascii "invalid package dependency version: " ++ name
  | versionTooLong name => ascii "package dependency version is too long: " ++ name
  | tooMany => ascii "too many package dependencies"

/-- The version of a dependency, from behind its sign. -/
def dependencyVersion (name value : Text) : Except DependencyError Text :=
  match value.dropWhile isSpace with
  | [] => .error (.unquoted name)
  | b :: rest =>
      if b ≠ quote then .error (.unquoted name)
      else if quote ∉ rest then .error (.invalidVersion name)
      else
        let version := rest.takeWhile (· ≠ quote)
        if version = [] ∨ 64 < version.length + 1 then .error (.versionTooLong name) else .ok version

/-- A line of the section, from its first byte that is no blank. -/
def dependencyLine (line : Text) : Except DependencyError Dependency :=
  if equals ∉ line then .error .invalidDeclaration
  else
    let name := (line.takeWhile (· ≠ equals)).rdropWhile isSpace
    if name = [] ∨ 128 < name.length + 1 then .error .nameTooLong
    else if ¬ isPackageName name ∨ name = sdkName then .error (.invalidName name)
    else do
      let version ← dependencyVersion name ((line.dropWhile (· ≠ equals)).drop 1)
      .ok ⟨name, version⟩

/-- The loop of `pm_collect_source_dependencies`. -/
def collectDependencies : List Text → List Dependency → Except DependencyError (List Dependency)
  | [], found => .ok found
  | line :: lines, found =>
      match line.dropWhile isSpace with
      | [] => collectDependencies lines found
      | b :: rest =>
          if b = 35 then collectDependencies lines found
          else if b = openBracket then .ok found
          else do
            let dependency ← dependencyLine (b :: rest)
            if maxDependencies ≤ found.length then .error .tooMany
            else collectDependencies lines (found ++ [dependency])

/-- `pm_collect_source_dependencies`. -/
def collectSourceDependencies (descriptor : Text) : Except DependencyError (List Dependency) :=
  match strstr (ascii "[dependencies]") descriptor with
  | none => .ok []
  | some section_ => collectDependencies ((section_.dropWhile (· ≠ 10)).drop 1 |>.splitOn 10) []

/-! ## The queue -/

/-- The errors of a restore; those of a checkout and of targets are given by their text. -/
inductive RestoreError where
  | sdkOwned
  | invalidRequest
  | versionConflict (name existing requested : Text)
  | tooMany
  | record (e : RecordError)
  | checkout (text : Text)
  | namespaces (e : NamespaceError)
  | dependencies (e : DependencyError)
  | targets (text : Text)
  | lockOverflow

def RestoreError.message : RestoreError → Text
  | sdkOwned => ascii "ailang is provided by the selected SDK, not package restore"
  | invalidRequest => ascii "invalid package dependency request"
  | versionConflict name existing requested =>
      ascii "package dependency version conflict: " ++ name ++ 32 :: existing ++ ascii " vs " ++ requested
  | tooMany => ascii "too many package dependencies"
  | record e => e.message
  | checkout text => text
  | namespaces e => e.message
  | dependencies e => e.message
  | targets text => text
  | lockOverflow => ascii "lockfile output overflow"

/-- `pm_restore_queue_index`. -/
def queueIndex (queue : List Dependency) (name : Text) : Option Nat := queue.findIdx? fun d => d.name = name

/-- The version of an entry. -/
def queuedVersion (queue : List Dependency) (index : Nat) : Text := (queue[index]?.map Dependency.version).getD []

def setVersion (queue : List Dependency) (index : Nat) (version : Text) : List Dependency :=
  queue.modify index fun d => { d with version := version }

/-- `pm_restore_queue_add`. -/
def queueAdd (queue : List Dependency) (request : Dependency) : Except RestoreError (List Dependency) :=
  if request.name = [] then .error .invalidRequest
  else
    match queueIndex queue request.name with
    | some existing =>
        let version := queuedVersion queue existing
        if version ≠ [] ∧ request.version ≠ [] ∧ version ≠ request.version then
          .error (.versionConflict request.name version request.version)
        else if version = [] ∧ request.version ≠ [] then .ok (setVersion queue existing request.version)
        else .ok queue
    | none => if maxDependencies ≤ queue.length then .error .tooMany else .ok (queue ++ [request])

/-- What `pm_scan_manifest_includes_for_restore` does with an include that has no path. -/
def scanInclude (queue : List Dependency) (include_ : Dependency) : Except RestoreError (List Dependency) :=
  if include_.name = sdkName then .error .sdkOwned else queueAdd queue include_

/-! ## Restore -/

/-- What a restore has of a package once its sources are there. -/
structure Checkout where
  packageRoot : Text
  path : Text
  descriptor : Text

/-- What a restore meets outside: the registry, its files by package, the sources of the packages and their targets. -/
structure RestoreEnv where
  registry : Text
  registryFile : Text → Option Text
  checkout : PackageRecord → Except Text Checkout
  targets : Text → Except Text (List LockedTarget)

structure RestoredPackage where
  entry : LockEntry
  dependencies : List Dependency

/-- The state of the loop of `ailang_package_manager_restore`. -/
structure RestoreState where
  queue : List Dependency
  index : Nat
  namespaces : Text
  packages : List RestoredPackage

def entriesIn (packages : List RestoredPackage) : List LockEntry := packages.map RestoredPackage.entry

/-- The version that the registry gives an entry without one, or the check of the one it has. -/
def settleVersion (queue : List Dependency) (index : Nat) (record : PackageRecord) :
    Except RestoreError (List Dependency) :=
  if queuedVersion queue index = [] then .ok (setVersion queue index record.version)
  else if queuedVersion queue index ≠ record.version then
    .error (.versionConflict record.name (queuedVersion queue index) record.version)
  else .ok queue

/-- One round of the loop, for the entry at the index of the state. -/
def restoreRound (env : RestoreEnv) (s : RestoreState) (e : Dependency) : Except RestoreError RestoreState := do
  let record ← (loadRecord (env.registryFile e.name) e.name e.version).mapError .record
  let queue ← settleVersion s.queue s.index record
  let source ← (env.checkout record).mapError .checkout
  let list ← (collectNamespaces source.descriptor).mapError .namespaces
  let dependencies ← (collectSourceDependencies source.descriptor).mapError .dependencies
  let targets ← (env.targets source.descriptor).mapError .targets
  let queue ← dependencies.foldlM queueAdd queue
  let namespaces ← (registerFrom (list.length + 1) list s.namespaces).mapError .namespaces
  let entry : LockEntry :=
    { name := record.name, version := record.version, repo := record.repo, packageRoot := source.packageRoot
      commit := record.commit, path := source.path, types := record.types, namespaces := list, targets := targets }
  let packages := s.packages ++ [⟨entry, dependencies⟩]
  if lockLimit ≤ (lockPart env.registry (entriesIn packages)).length then .error .lockOverflow
  else .ok ⟨queue, s.index + 1, namespaces, packages⟩

/-- The loop of `ailang_package_manager_restore`; `none` where the rounds do not suffice. -/
def restoreLoop (env : RestoreEnv) : Nat → RestoreState → Option (Except RestoreError RestoreState)
  | 0, _ => none
  | fuel + 1, s =>
      match s.queue[s.index]? with
      | none => some (.ok s)
      | some e =>
          match restoreRound env s e with
          | .error error => some (.error error)
          | .ok s' => restoreLoop env fuel s'

/-- The state in which the loop begins. -/
def restoreStart (env : RestoreEnv) (includes : List Dependency) : Except RestoreError RestoreState :=
  if lockLimit ≤ (lockPart env.registry []).length then .error .lockOverflow
  else do
    let queue ← includes.foldlM scanInclude []
    .ok ⟨queue, 0, [10], []⟩

/-- The lock text that is written at the end. -/
def finishRestore (env : RestoreEnv) (s : RestoreState) : Except RestoreError (RestoreState × Text) :=
  if lockLimit ≤ (lockText env.registry (entriesIn s.packages)).length then .error .lockOverflow
  else .ok (s, lockText env.registry (entriesIn s.packages))

/-- `ailang_package_manager_restore`, from the includes of the manifest on; `none` where the rounds do not suffice. -/
def restore (env : RestoreEnv) (fuel : Nat) (includes : List Dependency) :
    Option (Except RestoreError (RestoreState × Text)) :=
  match restoreStart env includes with
  | .error error => some (.error error)
  | .ok s => (restoreLoop env fuel s).map fun outcome => outcome >>= finishRestore env

/-! ## What a restore promises -/

/-- The requests of a restore: those of the manifest and those of the packages it has restored. -/
def requestsOf (includes : List Dependency) (packages : List RestoredPackage) : List Dependency :=
  includes ++ packages.flatMap RestoredPackage.dependencies

/-- Each package of a restore has one version. -/
structure OneVersion (env : RestoreEnv) (includes : List Dependency) (s : RestoreState) (text : Text) : Prop where
  /-- The names in the queue are distinct. -/
  distinct : (s.queue.map Dependency.name).Nodup
  /-- Each entry of the queue has one block of the lock text. -/
  blocks : text = lockText env.registry (entriesIn s.packages)
  processed : s.packages.map (fun p => p.entry.name) = s.queue.map Dependency.name
  /-- What a package depends on is processed as well. -/
  dependencies : ∀ p ∈ s.packages, ∀ d ∈ p.dependencies, d.name ∈ s.packages.map (fun p => p.entry.name)
  /-- A version that is requested is the one of the package. -/
  requested : ∀ r ∈ requestsOf includes s.packages, r.version ≠ [] →
    ∃ p ∈ s.packages, p.entry.name = r.name ∧ p.entry.version = r.version
  /-- Two versions are requested of no package. -/
  agreed : ∀ r ∈ requestsOf includes s.packages, ∀ r' ∈ requestsOf includes s.packages, r.name = r'.name →
    r.version ≠ [] → r'.version ≠ [] → r.version = r'.version

/-- A restore ends, and with one version for each package where it succeeds. -/
structure ResolvesOnce (env : RestoreEnv) (includes : List Dependency) : Prop where
  ends : ∃ outcome, ∀ fuel, maxDependencies < fuel → restore env fuel includes = some outcome
  succeeds : ∀ fuel s text, restore env fuel includes = some (.ok (s, text)) → OneVersion env includes s text

/-- The file of a package in the registry carries its name. -/
def CarriesNames (registryFile : Text → Option Text) : Prop :=
  ∀ name text, registryFile name = some text → tomlGetString text "name" 128 = some name

/-- A package that has an empty version by default is not one that others may depend on. -/
def DefaultsNamed (registryFile : Text → Option Text) : Prop :=
  ∀ name record, loadRecord (registryFile name) name [] = .ok record → isPackageName name = true → name ≠ sdkName →
    record.version ≠ []

end Aivm
