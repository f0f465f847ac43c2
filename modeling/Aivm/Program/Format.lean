import Aivm.Program.Load

/-!
# The AiBC1 format

What a byte string has to look like to be a program: a header, then sections with their types and lengths. A worker
catalog holds artifacts that are programs again.
-/

namespace Aivm

open ByteReader

/-! ## Items of the sections -/

/-- A constant as the format spells it: a bool is a byte of which only zero is false. -/
inductive Constant where
  | int (value : Int)
  | bool (byte : Byte)
  | string (text : List Byte)
  | void
  | bytes (data : List Byte)
  | null
  | number (bits : UInt64)
deriving DecidableEq, Repr

namespace Constant

def encode : Constant → List Byte
  | .int value => 1 :: le 8 (ofI64 value)
  | .bool byte => [2, byte]
  | .string text => 3 :: (le 4 text.length ++ text)
  | .void => [4]
  | .bytes data => 5 :: (le 4 data.length ++ data)
  | .null => [6]
  | .number bits => 7 :: le 8 bits.toNat

def value : Constant → Value
  | .int value => .int value
  | .bool byte => .bool (byte ≠ 0)
  | .string text => .string (.lit text)
  | .void => .void
  | .bytes data => .bytes (.ext data) data.length
  | .null => .null
  | .number bits => .number bits

/-- What a constant takes of the string storage, its NUL included. -/
def textSize : Constant → Nat
  | .string text => text.length + 1
  | _ => 0

/-- What a constant takes of the bytes storage. -/
def dataSize : Constant → Nat
  | .bytes data => data.length
  | _ => 0

def Wf : Constant → Prop
  | .int value => IsI64 value
  | _ => True

/-- A bool that is spelled as zero or one. -/
def Canonical : Constant → Prop
  | .bool byte => byte = 0 ∨ byte = 1
  | _ => True

instance (c : Constant) : Decidable c.Wf := by
  cases c <;> unfold Wf <;> infer_instance

instance (c : Constant) : Decidable c.Canonical := by
  cases c <;> unfold Canonical <;> infer_instance

end Constant

def Instruction.encode (i : Instruction) : List Byte := le 4 i.opcode.ctorIdx ++ le 8 (ofI64 i.operandInt)

def Instruction.Wf (i : Instruction) : Prop := IsI64 i.operandInt

namespace WorkerCatalogEntry

def encode (e : WorkerCatalogEntry) : List Byte :=
  le 4 e.functionTarget ++ (le 4 e.requiredCapabilities ++ (le 4 e.transportAbi ++ (le 4 e.bytecodeVersion ++
    (le 4 e.artifact.length ++ (e.identity ++ e.artifact)))))

/-- What an entry says of itself. -/
structure Wf (e : WorkerCatalogEntry) : Prop where
  target : e.functionTarget < 2 ^ 32
  capabilities : e.requiredCapabilities < 2 ^ 16
  abi : e.transportAbi = workerTransportAbiBytesV1
  version : e.bytecodeVersion = 2
  identity :
    e.identity = workerIdentity e.functionTarget e.requiredCapabilities e.transportAbi e.bytecodeVersion e.artifact

end WorkerCatalogEntry

/-! ## Sections -/

inductive ImageSection where
  | instructions (items : List Instruction)
  | constants (items : List Constant)
  | workerCatalog (items : List WorkerCatalogEntry)
  | other (sectionType : Nat) (payload : List Byte)
deriving DecidableEq, Repr

/-- A counted run of items. -/
def encodeItems {α : Type} (encode : α → List Byte) (items : List α) : List Byte :=
  le 4 items.length ++ items.flatMap encode

namespace ImageSection

def sectionType : ImageSection → Nat
  | .instructions _ => sectionInstructions
  | .constants _ => sectionConstants
  | .workerCatalog _ => sectionWorkerCatalog
  | .other sectionType _ => sectionType

def payload : ImageSection → List Byte
  | .instructions items => encodeItems Instruction.encode items
  | .constants items => encodeItems Constant.encode items
  | .workerCatalog items => encodeItems WorkerCatalogEntry.encode items
  | .other _ payload => payload

def encode (s : ImageSection) : List Byte := le 4 s.sectionType ++ (le 4 s.payload.length ++ s.payload)

def code : ImageSection → List Instruction
  | .instructions items => items
  | _ => []

def table : ImageSection → List Constant
  | .constants items => items
  | _ => []

def workers : ImageSection → List WorkerCatalogEntry
  | .workerCatalog items => items
  | _ => []

def isKnown (sectionType : Nat) : Bool :=
  sectionType = sectionInstructions ∨ sectionType = sectionConstants ∨ sectionType = sectionWorkerCatalog

/-- The limits of the format and of the storage. -/
def ItemsWf : ImageSection → Prop
  | .instructions items => ∀ i ∈ items, i.Wf
  | .constants items =>
      (∀ c ∈ items, c.Wf) ∧ (items.map Constant.textSize).sum ≤ programMaxStringBytes ∧
        (items.map Constant.dataSize).sum ≤ programMaxBytesStorage
  | .workerCatalog items => items.length ≤ workerCatalogMaxEntries ∧ ∀ e ∈ items, e.Wf
  | .other sectionType _ => sectionType < 2 ^ 32 ∧ isKnown sectionType = false

structure Wf (s : ImageSection) : Prop where
  size : s.payload.length < 2 ^ 32
  items : s.ItemsWf

/-- The host grants the storage of a section of `bytes`. -/
def Granted (host : LoadHost) (bytes : List Byte) : ImageSection → Prop
  | .instructions items => items.length ≤ programInlineInstructions ∨ host.instructions bytes items.length
  | .constants items => items.length ≤ programInlineConstants ∨ host.constants bytes items.length
  | .workerCatalog items =>
      items = [] ∨ host.entries (encodeItems WorkerCatalogEntry.encode items) items.length ∧
        ∀ e ∈ items, host.artifact (encodeItems WorkerCatalogEntry.encode items) e.artifact.length
  | .other _ _ => True

end ImageSection

/-! ## Programs -/

structure Image where
  flags : Nat
  sections : List ImageSection
deriving DecidableEq, Repr, Inhabited

namespace Image

def encodeHeader (flags count : Nat) : List Byte := [65, 73, 66, 67] ++ (le 4 2 ++ (le 4 flags ++ le 4 count))

def encode (image : Image) : List Byte :=
  encodeHeader image.flags image.sections.length ++ image.sections.flatMap ImageSection.encode

def code (image : Image) : List Instruction := image.sections.flatMap ImageSection.code
def table (image : Image) : List Constant := image.sections.flatMap ImageSection.table
def workers (image : Image) : List WorkerCatalogEntry := image.sections.flatMap ImageSection.workers

/-- The known sections among some types stand at most once. -/
def Distinct (sectionTypes : List Nat) : Prop := (sectionTypes.filter ImageSection.isKnown).Nodup

instance (sectionTypes : List Nat) : Decidable (Distinct sectionTypes) := by
  unfold Distinct
  infer_instance

structure Wf (image : Image) : Prop where
  flags : image.flags < 2 ^ 32
  count : image.sections.length ≤ programMaxSections
  sections : ∀ s ∈ image.sections, s.Wf
  distinct : Distinct (image.sections.map ImageSection.sectionType)

end Image

/-- The bytes start with an image, and so does every artifact in it. -/
inductive Holds (host : LoadHost) : List Byte → Image → Prop
  | mk {bytes image} (artifact : WorkerCatalogEntry → Image) (wf : image.Wf) (start : At bytes 0 image.encode)
      (granted : ∀ s ∈ image.sections, s.Granted host bytes)
      (nested : ∀ e ∈ image.workers, Holds host e.artifact (artifact e))
      (target : ∀ e ∈ image.workers, e.functionTarget < (artifact e).code.length) : Holds host bytes image

/-- An entry whose artifact is a program with the entry's function. -/
def WorkerCatalogEntry.Runs (host : LoadHost) (e : WorkerCatalogEntry) : Prop :=
  ∃ image, Holds host e.artifact image ∧ e.functionTarget < image.code.length

theorem holds_iff {host bytes image} :
    Holds host bytes image ↔ image.Wf ∧ At bytes 0 image.encode ∧ (∀ s ∈ image.sections, s.Granted host bytes) ∧
      ∀ e ∈ image.workers, e.Runs host := by
  constructor
  · rintro ⟨artifact, wf, start, granted, nested, target⟩
    exact ⟨wf, start, granted, fun e he => ⟨artifact e, nested e he, target e he⟩⟩
  · rintro ⟨wf, start, granted, runs⟩
    choose! artifact nested using runs
    exact ⟨artifact, wf, start, granted, fun e he => (nested e he).1, fun e he => (nested e he).2⟩

/-! ## Hosts -/

/-- A host that never refuses. -/
def LoadHost.generous : LoadHost where
  instructions _ _ := true
  constants _ _ := true
  entries _ _ := true
  artifact _ _ := true

/-- What one host grants, the other grants too. -/
structure LoadHost.Le (host host' : LoadHost) : Prop where
  instructions : ∀ bytes count, host.instructions bytes count → host'.instructions bytes count
  constants : ∀ bytes count, host.constants bytes count → host'.constants bytes count
  entries : ∀ bytes count, host.entries bytes count → host'.entries bytes count
  artifact : ∀ bytes length, host.artifact bytes length → host'.artifact bytes length

theorem LoadHost.le_generous (host : LoadHost) : host.Le .generous := by
  constructor <;> intros <;> rfl

theorem ImageSection.Granted.mono {host host' bytes s} (hle : LoadHost.Le host host') (h : Granted host bytes s) :
    Granted host' bytes s := by
  cases s with
  | instructions items => exact h.imp id (hle.instructions _ _)
  | constants items => exact h.imp id (hle.constants _ _)
  | workerCatalog items => exact h.imp id fun h => ⟨hle.entries _ _ h.1, fun e he => hle.artifact _ _ (h.2 e he)⟩
  | other sectionType payload => trivial

theorem Holds.mono {host host' bytes image} (hle : LoadHost.Le host host') (h : Holds host bytes image) :
    Holds host' bytes image := by
  induction h with
  | mk artifact wf start granted nested target ih =>
      exact ⟨artifact, wf, start, fun s hs => (granted s hs).mono hle, ih, target⟩

/-- The bytes start with a well-formed program, whatever the host grants. -/
def Encodes (bytes : List Byte) (image : Image) : Prop := Holds .generous bytes image

end Aivm
