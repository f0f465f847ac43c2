import Aivm.Packages.Lines
import Aivm.Packages.Toml

/-!
# Registry records

What the package manager reads of the registry file of a package, and the version it chooses.
-/

namespace Aivm

/-- `AilangPackageRecord`; `types` holds the text of an array. -/
structure PackageRecord where
  name : Text
  version : Text
  repo : Text
  packageRoot : Text
  ref : Text
  commit : Text
  types : Text
deriving DecidableEq, Repr

/-- The errors of `pm_load_record`. -/
inductive RecordError where
  | notFound (name : Text)
  | invalid (name : Text)
  | noVersion (name : Text)
  | versionNotFound (name version : Text)
deriving DecidableEq, Repr

def RecordError.message : RecordError → Text
  | notFound name => ascii "package not found in registry: " ++ name
  | invalid name => ascii "invalid package registry record: " ++ name
  | noVersion name => ascii "package has no version: " ++ name
  | versionNotFound name version => ascii "package version not found: " ++ name ++ 64 :: version

def versionMarker : Text := ascii "[versions.\""

/-- The header of the section of a version. -/
def versionHeader (version : Text) : Text := versionMarker ++ version ++ ascii "\"]"

/-- `pm_toml_get_version_string`. -/
def tomlGetVersionString (text version : Text) (key : String) (outLen : Nat) : Option Text :=
  if 160 ≤ (versionHeader version).length then none
  else
    match strstr (versionHeader version) text with
    | none => none
    | some found => tomlGetString found key outLen

/-- `pm_first_version`. -/
def firstVersion (text : Text) (outLen : Nat) : Option Text :=
  match nextValue versionMarker quote text with
  | .value v _ => if outLen < v.length + 1 then none else some v
  | _ => none

/-- The version of a record: the one that is asked for, else the default one, else the first one. -/
def recordVersion (text version : Text) : Option Text :=
  if version ≠ [] then some version
  else
    match tomlGetString text "defaultVersion" 64 with
    | some v => some v
    | none => firstVersion text 64

/-- `pm_load_record` of the file of a package, where there is one. A version that is asked for fits its buffer. -/
def loadRecord (file : Option Text) (name version : Text) : Except RecordError PackageRecord :=
  match file with
  | none => .error (.notFound name)
  | some text =>
      match tomlGetString text "name" 128, tomlGetString text "repo" 512, tomlGetString text "packageRoot" 256,
        tomlGetArray text "types" 256 with
      | some own, some repo, some packageRoot, some types =>
          match recordVersion text version with
          | none => .error (.noVersion name)
          | some v =>
              match tomlGetVersionString text v "ref" 128, tomlGetVersionString text v "commit" 128 with
              | some ref, some commit =>
                  .ok ⟨own, v, repo, packageRoot, ref, commit, types⟩
              | _, _ => .error (.versionNotFound name v)
      | _, _, _, _ => .error (.invalid name)

section

variable {text name version : Text} {file : Option Text} {record : PackageRecord}

/-- What a record holds was found in the file. -/
structure RecordFound (text version : Text) (record : PackageRecord) : Prop where
  name : tomlGetString text "name" 128 = some record.name
  repo : tomlGetString text "repo" 512 = some record.repo
  packageRoot : tomlGetString text "packageRoot" 256 = some record.packageRoot
  types : tomlGetArray text "types" 256 = some record.types
  version : recordVersion text version = some record.version
  ref : tomlGetVersionString text record.version "ref" 128 = some record.ref
  commit : tomlGetVersionString text record.version "commit" 128 = some record.commit

theorem loadRecord_ok : loadRecord file name version = .ok record ↔
    ∃ text, file = some text ∧ RecordFound text version record := by
  constructor
  · intro h
    cases file with
    | none => cases h
    | some text =>
        refine ⟨text, rfl, ?_⟩
        rw [loadRecord] at h
        split at h
        · rename_i own repo packageRoot types hname hrepo hroot htypes
          split at h
          · cases h
          · rename_i v hversion
            split at h
            · rename_i ref commit href hcommit
              cases h
              exact ⟨hname, hrepo, hroot, htypes, hversion, href, hcommit⟩
            · cases h
        · cases h
  · rintro ⟨text, rfl, hname, hrepo, hroot, htypes, hversion, href, hcommit⟩
    rw [loadRecord]
    simp only [hname, hrepo, hroot, htypes, hversion, href, hcommit]

/-- A version that is asked for is the one of the record. -/
theorem RecordFound.requested (h : RecordFound text version record) (hne : version ≠ []) : record.version = version := by
  have hversion := h.version
  rw [recordVersion, if_pos hne, Option.some.injEq] at hversion
  exact hversion.symm

theorem tomlGetVersionString_length {key : String} {v : Text} {outLen : Nat}
    (h : tomlGetVersionString text version key outLen = some v) : v.length < outLen := by
  rw [tomlGetVersionString] at h
  split at h
  · cases h
  · split at h
    · cases h
    · exact tomlGetString_length h

end

/-! ## Where the values of a record stand -/

/-- A line of a registry file; a key may have blanks around its sign. -/
inductive RegistryLine where
  | blank
  | comment (text : Text)
  | header (name : Text)
  | string (key value : Text) (spaced : Bool)
  | array (key value : Text) (spaced : Bool)
deriving DecidableEq, Repr

def keySign (spaced : Bool) : Text := if spaced then ascii " = " else ascii "="

/-- A key with its sign and the byte that opens its value. -/
def keyMarker (key : Text) (spaced : Bool) (opening : Byte) : Text := key ++ keySign spaced ++ [opening]

def RegistryLine.text : RegistryLine → Text
  | .blank => []
  | .comment text => 35 :: text
  | .header name => openBracket :: (name ++ [closeBracket])
  | .string key value spaced => keyMarker key spaced quote ++ (value ++ [quote])
  | .array key value spaced => keyMarker key spaced openBracket ++ (value ++ [closeBracket])

def lineTexts (lines : List RegistryLine) : List Text := lines.map RegistryLine.text

/-- The text of a registry file. -/
def registryFileText (lines : List RegistryLine) : Text := linesText (lineTexts lines)

/-- Values have no quotes, and arrays no closing brackets. -/
def RegistryLine.Clean : RegistryLine → Prop
  | .string _ value _ => quote ∉ value
  | .array _ value _ => closeBracket ∉ value
  | _ => True

instance : (l : RegistryLine) → Decidable l.Clean
  | .blank => .isTrue trivial
  | .comment _ => .isTrue trivial
  | .header _ => .isTrue trivial
  | .string _ value _ => inferInstanceAs (Decidable (quote ∉ value))
  | .array _ value _ => inferInstanceAs (Decidable (closeBracket ∉ value))

def RegistryLine.IsHeader : RegistryLine → Prop
  | .header _ => True
  | _ => False

/-- The name of the section of a version. -/
def versionName (version : Text) : Text := ascii "versions.\"" ++ version ++ [quote]

/-- Where `pm_toml_get_string` and `pm_toml_get_array` read a key. -/
def keyPosition (text key : Text) (opening : Byte) : Option Text :=
  match strstr (keyMarker key true opening) text with
  | some found => some found
  | none => strstr (keyMarker key false opening) text

/-- A value is read from a line before the first header whose key is exactly this one. -/
def TopString (lines : List RegistryLine) (key : String) (value : Text) : Prop :=
  ∃ before spaced after, lines = before ++ .string (ascii key) value spaced :: after ∧ (∀ l ∈ before, ¬ l.IsHeader) ∧
    keyPosition (registryFileText lines) (ascii key) quote = some (registryFileText (.string (ascii key) value spaced :: after))

def TopArray (lines : List RegistryLine) (key : String) (value : Text) : Prop :=
  ∃ before spaced after, lines = before ++ .array (ascii key) value spaced :: after ∧ (∀ l ∈ before, ¬ l.IsHeader) ∧
    keyPosition (registryFileText lines) (ascii key) openBracket = some (registryFileText (.array (ascii key) value spaced :: after))

/-- A value is read from a line in the section of a version whose key is exactly this one. -/
def SectionString (lines : List RegistryLine) (version : Text) (key : String) (value : Text) : Prop :=
  ∃ before between spaced after found,
    lines = before ++ .header (versionName version) :: (between ++ .string (ascii key) value spaced :: after) ∧
    (∀ l ∈ between, ¬ l.IsHeader) ∧ strstr (versionHeader version) (registryFileText lines) = some found ∧
    keyPosition found (ascii key) quote = some (registryFileText (.string (ascii key) value spaced :: after))

/-- The data of a record come from the lines of their own keys, those of a version from its own section; a key that is
nowhere counts as an empty array. -/
structure RecordFromLines (lines : List RegistryLine) (record : PackageRecord) : Prop where
  name : TopString lines "name" record.name
  repo : TopString lines "repo" record.repo
  packageRoot : TopString lines "packageRoot" record.packageRoot
  types : TopArray lines "types" record.types ∨
    keyPosition (registryFileText lines) (ascii "types") openBracket = none ∧ record.types = []
  ref : SectionString lines record.version "ref" record.ref
  commit : SectionString lines record.version "commit" record.commit

/-- No line before the one of a key mentions it, and none at all in the spelling that is looked for first. -/
def FirstMention (key : Text) (opening : Byte) (spaced : Bool) (before lines : List Text) : Prop :=
  (∀ l ∈ before, ¬ keyMarker key spaced opening <:+: l) ∧
    (spaced = false → ∀ l ∈ lines, ¬ keyMarker key true opening <:+: l)

instance (key : Text) (opening : Byte) (spaced : Bool) (before lines : List Text) :
    Decidable (FirstMention key opening spaced before lines) := inferInstanceAs (Decidable (_ ∧ _))

/-- The first line that mentions a key is one before the first header whose key is exactly this one. -/
def TopStringFirst (lines : List RegistryLine) (key : String) : Prop :=
  ∃ before value spaced after, lines = before ++ .string (ascii key) value spaced :: after ∧
    (∀ l ∈ before, ¬ l.IsHeader) ∧ FirstMention (ascii key) quote spaced (lineTexts before) (lineTexts lines)

def TopArrayFirst (lines : List RegistryLine) (key : String) : Prop :=
  ∃ before value spaced after, lines = before ++ .array (ascii key) value spaced :: after ∧
    (∀ l ∈ before, ¬ l.IsHeader) ∧ FirstMention (ascii key) openBracket spaced (lineTexts before) (lineTexts lines)

/-- From the first mention of the header of a version on, the first line that mentions a key is one of the section of the
version whose key is exactly this one. -/
def SectionStringFirst (lines : List RegistryLine) (version : Text) (key : String) : Prop :=
  ∃ before between value spaced after passed,
    lines = before ++ .header (versionName version) :: (between ++ .string (ascii key) value spaced :: after) ∧
    (∀ l ∈ between, ¬ l.IsHeader) ∧
    strstr (versionHeader version) (registryFileText lines) =
      some (linesText (passed ++ lineTexts (.string (ascii key) value spaced :: after))) ∧
    FirstMention (ascii key) quote spaced passed (passed ++ lineTexts (.string (ascii key) value spaced :: after))

/-- The keys of a record are first mentioned where they belong. -/
structure KeysFirst (lines : List RegistryLine) (version : Text) : Prop where
  name : TopStringFirst lines "name"
  repo : TopStringFirst lines "repo"
  packageRoot : TopStringFirst lines "packageRoot"
  types : TopArrayFirst lines "types" ∨ ∀ l ∈ lines, ∀ spaced, ¬ keyMarker (ascii "types") spaced openBracket <:+: l.text
  ref : SectionStringFirst lines version "ref"
  commit : SectionStringFirst lines version "commit"

end Aivm
