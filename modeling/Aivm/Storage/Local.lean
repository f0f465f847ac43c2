import Aivm.Compiler.Graph

/-!
# Local storage

The values that applications keep between runs. Each pair of an application and a key has a file of its own, whose path
is made of both after all bytes but a few have been replaced.
-/

namespace Aivm

/-- The variables of the environment that name the home of the storage. -/
structure StorageHome where
  ailangHome : Option Text
  userHome : Option Text

/-- A file system as far as files are concerned. -/
abbrev Files := Text → Option (List Byte)

/-! ## Paths -/

def separator : Byte := 47

/-- The bytes that are kept in a segment. -/
def isSegmentByte (b : Byte) : Bool :=
  (97 ≤ b ∧ b ≤ 122) ∨ (65 ≤ b ∧ b ≤ 90) ∨ (48 ≤ b ∧ b ≤ 57) ∨ b = 46 ∨ b = 95 ∨ b = 45

def sanitizeByte (b : Byte) : Byte := if isSegmentByte b then b else 95

/-- `native_storage_sanitize_segment`, into a buffer of `outLen` bytes. -/
def sanitizeSegment (input : Text) (outLen : Nat) : Option Text :=
  if outLen < 2 ∨ input = [] ∨ outLen ≤ input.length then none
  else
    let out := input.map sanitizeByte
    if out = ascii "." ∨ out = ascii ".." then none else some out

/-- `join_path`. -/
def joinPath (left right : Text) (outLen : Nat) : Option Text :=
  let out := left ++ separator :: right
  if out.length < outLen then some out else none

/-- `native_storage_home`; the home of the user is cut off at the end of the buffer. -/
def storageHome (home : StorageHome) : Option Text :=
  match home.ailangHome with
  | some (b :: path) => if (b :: path).length < pathMax then some (b :: path) else none
  | _ =>
      match home.userHome with
      | some (b :: path) => some ((b :: path ++ separator :: ascii ".ailang").take (pathMax - 1))
      | _ => none

/-- `native_storage_local_dir`. -/
def storageLocalDir (home : StorageHome) (appId : Text) : Option Text := do
  let root ← storageHome home
  let appSegment ← sanitizeSegment appId 256
  let storageRoot ← joinPath root (ascii "storage") pathMax
  let root ← joinPath storageRoot (ascii "local") pathMax
  joinPath root appSegment pathMax

/-- `native_storage_local_path`. -/
def storageLocalPath (home : StorageHome) (appId key : Text) : Option Text := do
  let dir ← storageLocalDir home appId
  let keySegment ← sanitizeSegment key 256
  let fileSegment := keySegment ++ ascii ".txt"
  if 320 ≤ fileSegment.length then none else joinPath dir fileSegment pathMax

/-! ## Calls -/

/-- An application and one of its keys. -/
abbrev StorageKey := CText × CText

/-- The calls of `sys.storage.local`. -/
inductive StorageCall where
  | get (at_ : StorageKey)
  | set (at_ : StorageKey) (value : CText)
  | delete (at_ : StorageKey)
  | exists_ (at_ : StorageKey)

/-- The key that a call is about. -/
def StorageCall.key : StorageCall → StorageKey
  | get k => k
  | set k _ => k
  | delete k => k
  | exists_ k => k

/-- The result of a call; `invalid` is `AIVM_SYSCALL_ERR_INVALID`. -/
inductive StorageResult where
  | invalid
  | string (text : Text)
  | bool (b : Bool)
deriving DecidableEq, Repr

/-- The path of a key. -/
def storagePath (home : StorageHome) (k : StorageKey) : Option Text := storageLocalPath home k.1.1 k.2.1

/-- `native_syscall_storage_local_get`. -/
def storageLocalGet (home : StorageHome) (files : Files) (k : StorageKey) : StorageResult :=
  match storagePath home k with
  | none => .invalid
  | some path =>
      match files path with
      | none => .string []
      | some bytes => .string (CText.ofBuffer bytes).1

/-- `native_syscall_storage_local_set`, where the host grants the directory and the file or refuses them. -/
def storageLocalSet (home : StorageHome) (files : Files) (granted : Bool) (k : StorageKey) (value : CText) :
    StorageResult × Files :=
  match storageLocalDir home k.1.1, storagePath home k with
  | some _, some path => if granted then (.bool true, Function.update files path (some value.1)) else (.bool false, files)
  | _, _ => (.invalid, files)

/-- `native_syscall_storage_local_delete`; a file that is not there counts as deleted. -/
def storageLocalDelete (home : StorageHome) (files : Files) (granted : Bool) (k : StorageKey) : StorageResult × Files :=
  match storagePath home k with
  | none => (.invalid, files)
  | some path =>
      if granted ∨ files path = none then (.bool true, Function.update files path none) else (.bool false, files)

/-- `native_syscall_storage_local_exists`. -/
def storageLocalExists (home : StorageHome) (files : Files) (k : StorageKey) : StorageResult :=
  match storagePath home k with
  | none => .invalid
  | some path => .bool (files path).isSome

/-- A call, with what the host does. -/
def storageCall (home : StorageHome) (files : Files) (granted : Bool) : StorageCall → StorageResult × Files
  | .get k => (storageLocalGet home files k, files)
  | .set k value => storageLocalSet home files granted k value
  | .delete k => storageLocalDelete home files granted k
  | .exists_ k => (storageLocalExists home files k, files)

/-! ## Histories -/

/-- A change that has succeeded. -/
inductive StoredEvent where
  | set (k : StorageKey) (value : CText)
  | deleted (k : StorageKey)

/-- What a call has changed, if it has succeeded. -/
def StorageCall.event (result : StorageResult) : StorageCall → Option StoredEvent
  | set k value => if result = .bool true then some (.set k value) else none
  | delete k => if result = .bool true then some (.deleted k) else none
  | _ => none

/-- The effect of an event on what is known of a key. -/
def StoredEvent.apply (k : StorageKey) (known : Option CText) : StoredEvent → Option CText
  | set k' value => if k' = k then some value else known
  | deleted k' => if k' = k then none else known

/-- The value of the last successful `set` of a key that no `delete` of it has followed. -/
def lastSet (k : StorageKey) (history : List StoredEvent) : Option CText :=
  history.foldl (StoredEvent.apply k) none

/-- Calls on some keys, from a file system without any of their files on. -/
inductive StorageRun (home : StorageHome) (keys : Set StorageKey) : List StoredEvent → Files → Prop where
  | start {files : Files} : (∀ k ∈ keys, ∀ path, storagePath home k = some path → files path = none) →
      StorageRun home keys [] files
  | called {history : List StoredEvent} {files files' : Files} {call : StorageCall} {result : StorageResult}
      (granted : Bool) : StorageRun home keys history files → call.key ∈ keys →
      storageCall home files granted call = (result, files') →
      StorageRun home keys (history ++ (call.event result).toList) files'

/-- A name for a directory or a file, which leads nowhere else. -/
def IsSegment (name : Text) : Prop :=
  name ≠ [] ∧ name ≠ ascii "." ∧ name ≠ ascii ".." ∧ separator ∉ name

/-- The path is that of a file in the directory of the application, and this is in the root of the storage. -/
def DirectChild (home : StorageHome) (k : StorageKey) (path : Text) : Prop :=
  ∃ root app file, storageHome home = some root ∧ IsSegment app ∧ IsSegment file ∧
    storageLocalDir home k.1.1 = some (root ++ separator :: ascii "storage" ++ separator :: ascii "local" ++
      separator :: app) ∧
    path = root ++ separator :: ascii "storage" ++ separator :: ascii "local" ++ separator :: app ++ separator :: file

/-- The storage is a map for each application. -/
structure StorageIsMap (home : StorageHome) (keys : Set StorageKey) (history : List StoredEvent) (files : Files) :
    Prop where
  get : ∀ k ∈ keys, storagePath home k ≠ none →
    storageLocalGet home files k = .string (((lastSet k history).map Subtype.val).getD [])
  exists_ : ∀ k ∈ keys, storagePath home k ≠ none →
    storageLocalExists home files k = .bool (lastSet k history).isSome
  apart : ∀ call granted, call.key ∈ keys → ∀ k ∈ keys, k ≠ call.key →
    storageLocalGet home (storageCall home files granted call).2 k = storageLocalGet home files k ∧
      storageLocalExists home (storageCall home files granted call).2 k = storageLocalExists home files k
  inside : ∀ k ∈ keys, ∀ path, storagePath home k = some path → DirectChild home k path

/-- Different accepted keys have different names after the replacement of bytes. -/
def KeysApart (home : StorageHome) (keys : Set StorageKey) : Prop :=
  ∀ k ∈ keys, ∀ k' ∈ keys, storagePath home k ≠ none → storagePath home k' ≠ none →
    sanitizeSegment k.1.1 256 = sanitizeSegment k'.1.1 256 → sanitizeSegment k.2.1 256 = sanitizeSegment k'.2.1 256 →
    k = k'

end Aivm
