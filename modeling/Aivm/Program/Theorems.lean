import Aivm.Program.Lemmas.Bounds
import Aivm.Program.Lemmas.Failure

/-!
# Loading inverts encoding

The loader accepts exactly the byte strings that start with a program of the format, and hands out that program; the
artifacts of worker catalogs are held to the same.
-/

namespace Aivm

open ByteReader Parse

/-- The loader on a whole byte string: no nesting of artifacts is deeper than the string is long. -/
def loadProgram (host : LoadHost) (bytes : List Byte) (outProgram : ProgramRecord) : Parse LoadFailure ProgramRecord :=
  loadAibc1 host (bytes.length + 1) bytes outProgram

variable {host : LoadHost} {bytes : List Byte} {p q : ProgramRecord}

theorem loadProgram_ok_iff : loadProgram host bytes p = .ok q ↔ ∃ image, Holds host bytes image ∧ q = image.record :=
  loadAibc1_ok_iff (Nat.lt_succ_self _)

theorem loadProgram_proper : (loadProgram host bytes p).Proper :=
  loadAibc1_proper (Nat.lt_succ_self _)

/-! ## Round trip -/

/-- A host that grants every allocation. -/
def LoadHost.Grants (host : LoadHost) : Prop := LoadHost.Le .generous host

/-- What a record shows of an image. -/
structure Image.ShownBy (image : Image) (p : ProgramRecord) : Prop where
  version : p.formatVersion = 2
  flags : p.formatFlags = image.flags
  instructions : p.instructions = image.code
  constants : p.constants = image.table.map Constant.value
  workerCatalog : p.workerCatalog = image.workers

theorem Holds.shownBy {image} (h : Holds host bytes image) : image.ShownBy image.record := by
  obtain ⟨hi, hc, hw⟩ := (holds_iff.1 h).1.record_contents
  refine ⟨installAll_formatVersion, ?_, hi, hc, hw⟩
  exact installAll_formatFlags

/-- Every image loads, and every byte string that loads starts with an image. -/
theorem loadProgram_inverts_encode :
    (∀ (host : LoadHost) (bytes : List Byte) (image : Image) (outProgram : ProgramRecord), host.Grants →
      Encodes bytes image → ∃ p, loadProgram host bytes outProgram = .ok p ∧ image.ShownBy p) ∧
    ∀ (host : LoadHost) (bytes : List Byte) (outProgram : ProgramRecord), (loadProgram host bytes outProgram).Proper ∧
      ∀ p, loadProgram host bytes outProgram = .ok p → ∃ image, Encodes bytes image ∧ image.ShownBy p := by
  constructor
  · intro host bytes image outProgram hgrants hencodes
    have hholds : Holds host bytes image := hencodes.mono hgrants
    exact ⟨image.record, loadProgram_ok_iff.2 ⟨image, hholds, rfl⟩, hholds.shownBy⟩
  · intro host bytes outProgram
    refine ⟨loadProgram_proper, ?_⟩
    intro p hp
    obtain ⟨image, hholds, rfl⟩ := loadProgram_ok_iff.1 hp
    exact ⟨image, hholds.mono host.le_generous, hholds.shownBy⟩

/-- A program of one instruction. -/
def workerImage : Image := ⟨0, [.instructions [⟨.halt, -1⟩]]⟩

def workerEntry : WorkerCatalogEntry :=
  ⟨0, 3, 1, 2, workerIdentity 0 3 1 2 workerImage.encode, workerImage.encode⟩

/-- A program with every kind of section and of constant. -/
def hostImage : Image :=
  ⟨7, [.other 9 [1, 2],
    .constants [.int (-2), .bool 1, .string [104, 105], .void, .bytes [0, 255], .null, .number 4611686018427387904],
    .workerCatalog [workerEntry], .instructions [⟨.const, 0⟩, ⟨.halt, 0⟩]]⟩

theorem workerImage_encodes : Encodes workerImage.encode workerImage := by
  refine holds_iff.2 ⟨⟨by decide, by decide, ?_, by decide⟩, at_self _, ?_, ?_⟩
  · simp only [workerImage, List.mem_singleton, forall_eq]
    exact ⟨by decide, by simp [ImageSection.ItemsWf, Instruction.Wf, IsI64]⟩
  · simp [workerImage, ImageSection.Granted, LoadHost.generous]
  · simp [workerImage, Image.workers, ImageSection.workers]

theorem workerEntry_wf : workerEntry.Wf := by
  constructor <;> simp [workerEntry, workerTransportAbiBytesV1]

theorem hostImage_encodes : Encodes hostImage.encode hostImage := by
  refine holds_iff.2 ⟨⟨by decide, by decide, ?_, by decide⟩, at_self _, ?_, ?_⟩
  · simp only [hostImage, List.forall_mem_cons]
    refine ⟨⟨by decide, by decide, rfl⟩, ⟨by decide, ?_⟩, ⟨by decide +kernel, by decide, ?_⟩, ⟨by decide, ?_⟩, by simp⟩
    · refine ⟨?_, by decide, by decide⟩
      simp [Constant.Wf, IsI64]
    · simp only [List.forall_mem_cons]
      exact ⟨workerEntry_wf, by simp⟩
    · simp [ImageSection.ItemsWf, Instruction.Wf, IsI64]
  · simp [hostImage, ImageSection.Granted, LoadHost.generous, programInlineInstructions, programInlineConstants]
  · simp only [hostImage, Image.workers, ImageSection.workers, List.flatMap_cons, List.flatMap_nil, List.nil_append,
      List.append_nil, List.mem_singleton, forall_eq]
    exact ⟨workerImage, workerImage_encodes, by decide⟩

def emptyRecord : ProgramRecord := ⟨[], false, [], false, 0, 0, 0, [], 0, 0, []⟩

theorem loadProgram_hostImage :
    ∃ p, loadProgram .generous hostImage.encode emptyRecord = .ok p ∧ hostImage.ShownBy p :=
  loadProgram_inverts_encode.1 .generous _ _ _ LoadHost.generous.le_generous hostImage_encodes

/-- One constant, a bool that is spelled as two. -/
def looseBool : List Byte :=
  [65, 73, 66, 67, 2, 0, 0, 0, 0, 0, 0, 0, 1, 0, 0, 0, 2, 0, 0, 0, 6, 0, 0, 0, 1, 0, 0, 0, 2, 2]

theorem at_le_inj {bytes : List Byte} {offset width n m : Nat} (hn : At bytes offset (le width n) ∧ n < 256 ^ width)
    (hm : At bytes offset (le width m) ∧ m < 256 ^ width) : n = m := by
  have hread : (readLe bytes width offset : Parse LoadFailure Nat) = .ok n := readLe_ok.2 hn
  rw [readLe_ok.2 hm] at hread
  exact (Parse.ok.inj hread).symm

theorem Encodes.looseBool_table {image} (h : Encodes looseBool image) : image.table = [.bool 2] := by
  obtain ⟨hwf, hat, _, _⟩ := holds_iff.1 h
  obtain ⟨flags, ss⟩ := image
  rw [Image.encode, at_append, Image.length_encodeHeader, Image.encodeHeader, at_append, at_append, at_append,
    length_le, length_le] at hat
  obtain ⟨⟨_, _, _, hcount⟩, hat⟩ := hat
  have hmax : ss.length ≤ 32 := hwf.count
  have hone : ss.length = 1 := at_le_inj ⟨hcount, by omega⟩ ⟨by decide, by decide⟩
  obtain ⟨s, rfl⟩ := List.length_eq_one_iff.1 hone
  have hs := hwf.sections s (by simp)
  simp only [List.flatMap_cons, List.flatMap_nil, List.append_nil, ImageSection.encode, at_append, length_le] at hat
  obtain ⟨htype, hsize, hpayload⟩ := hat
  have htwo : s.sectionType = sectionConstants := at_le_inj ⟨htype, hs.type_lt⟩ ⟨by decide, by decide⟩
  have hsix : s.payload.length = 6 := at_le_inj ⟨hsize, hs.size⟩ ⟨by decide, by decide⟩
  obtain ⟨cs, rfl⟩ := hs.eq_constants htwo
  rw [ImageSection.payload, encodeItems, at_append, length_le] at hpayload
  have hitems : cs.length = 1 :=
    at_le_inj ⟨hpayload.1, length_items_lt Constant.length_encode_pos hs.size⟩ ⟨by decide, by decide⟩
  obtain ⟨c, rfl⟩ := List.length_eq_one_iff.1 hitems
  simp only [ImageSection.payload, encodeItems, List.length_append, length_le, List.flatMap_cons, List.flatMap_nil,
    List.append_nil] at hsix hpayload
  have hlen : 2 = c.encode.length := by omega
  have hspelled : c.encode = [2, 2] := (hpayload.2.slice hlen).symm
  simp only [Image.table, ImageSection.table, List.flatMap_cons, List.flatMap_nil, List.append_nil]
  cases c with
  | bool byte => simpa [Constant.encode] using hspelled
  | _ => simp [Constant.encode] at hspelled

theorem loadProgram_looseBool :
    (∃ p, loadProgram .generous looseBool emptyRecord = .ok p) ∧
      ¬ ∃ image, Encodes looseBool image ∧ ∀ c ∈ image.table, c.Canonical := by
  constructor
  · exact ⟨(⟨0, [.constants [.bool 2]]⟩ : Image).record, by decide +kernel⟩
  · rintro ⟨image, hencodes, hcanonical⟩
    rw [hencodes.looseBool_table] at hcanonical
    exact absurd (hcanonical _ (List.mem_singleton_self _)) (by decide)

/-! ## Worker catalogs -/

/-- The byte strings that are loaded with a byte string: itself, and the artifacts in it. -/
inductive LoadedWith (host : LoadHost) : List Byte → List Byte → Prop
  | self (holder : List Byte) : LoadedWith host holder holder
  | artifact {holder inner : List Byte} {outProgram held : ProgramRecord} {e : WorkerCatalogEntry}
      (hheld : loadProgram host holder outProgram = .ok held) (he : e ∈ held.workerCatalog)
      (h : LoadedWith host e.artifact inner) : LoadedWith host holder inner

/-- What is checked of an entry in the catalog of `holder`. -/
structure WorkerCatalogEntry.Validated (host : LoadHost) (holder : List Byte) (e : WorkerCatalogEntry) : Prop where
  abi : e.transportAbi = workerTransportAbiBytesV1
  capabilities : e.requiredCapabilities < 2 ^ 16
  identity :
    e.identity = workerIdentity e.functionTarget e.requiredCapabilities e.transportAbi e.bytecodeVersion e.artifact
  shorter : e.artifact.length < holder.length
  loads : ∃ worker, (∀ outProgram, loadProgram host e.artifact outProgram = .ok worker) ∧
    worker.formatVersion = e.bytecodeVersion ∧ e.functionTarget < worker.instructions.length

/-- The catalog of a loaded record is the whole of its section. -/
def CatalogFills (bytes : List Byte) (p : ProgramRecord) : Prop :=
  ((∀ s ∈ p.sections, s.sectionType ≠ sectionWorkerCatalog) ∧ p.workerCatalog = []) ∨
    ∃ start, ⟨sectionWorkerCatalog, (encodeItems WorkerCatalogEntry.encode p.workerCatalog).length, start % 2 ^ 32⟩ ∈
        p.sections ∧ At bytes start (encodeItems WorkerCatalogEntry.encode p.workerCatalog)

theorem Holds.validated {image e} (h : Holds host bytes image) (he : e ∈ image.workers) : e.Validated host bytes := by
  obtain ⟨hwf, hat, _, hruns⟩ := holds_iff.1 h
  have hentry := hwf.worker he
  obtain ⟨worker, hworker, htarget⟩ := hruns e he
  have hshown := hworker.shownBy
  refine ⟨hentry.abi, hentry.capabilities, hentry.identity, hwf.artifact_lt hat he, worker.record,
    fun _ => loadProgram_ok_iff.2 ⟨worker, hworker, rfl⟩, ?_, ?_⟩
  · rw [hshown.version, hentry.version]
  · rwa [hshown.instructions]

theorem Holds.catalogFills {image} (h : Holds host bytes image) : CatalogFills bytes image.record := by
  obtain ⟨hwf, hat, _, _⟩ := holds_iff.1 h
  unfold CatalogFills
  rw [h.shownBy.workerCatalog]
  exact hwf.catalog_layout hat

/-- The input has a good header and some good sections, then a section that is given up without a release: what the
good sections show stays behind, and so does the storage of an instruction section that outgrew the record. -/
def Leaks (host : LoadHost) (bytes : List Byte) : Prop :=
  ∃ (flags count : Nat) (good : List ImageSection) (owned : Nat), At bytes 0 (Image.encodeHeader flags count) ∧
    flags < 2 ^ 32 ∧ count ≤ programMaxSections ∧ good.length < count ∧
    (∀ s ∈ good, s.Wf ∧ s.Granted host bytes ∧ ∀ e ∈ s.workers, e.Runs host) ∧
    Image.Distinct (good.map ImageSection.sectionType) ∧ At bytes 16 (good.flatMap ImageSection.encode) ∧
    Abandoned host bytes (good.map ImageSection.sectionType) (16 + (good.flatMap ImageSection.encode).length) owned ∧
    ((∃ s ∈ good, s.Shows) ∨ programInlineInstructions < owned)

theorem accepted_iff {s : ImageSection} {ss : List ImageSection} {cursor} (hs : s ∈ ss)
    (hat : At bytes cursor (ss.flatMap ImageSection.encode)) :
    s.Accepted host bytes (fun artifact => loadAibc1 host bytes.length artifact p) ↔
      s.Wf ∧ s.Granted host bytes ∧ ∀ e ∈ s.workers, e.Runs host := by
  unfold ImageSection.Accepted
  apply and_congr_right
  intro hwf
  apply and_congr_right
  intro _
  apply forall₂_congr
  intro e he
  exact (hwf.worker he).served_iff fun q => loadAibc1_ok_iff (hwf.artifact_lt hs hat he)

theorem left_behind_iff {good : List ImageSection} {flags count owned table} {f : LoadFailure}
    (hdistinct : Image.Distinct (good.map ImageSection.sectionType))
    (hf : f.program = ownInstructions owned { installAll 16 good (headerRecord flags count) with sections := table }) :
    ¬ f.program.Empty ↔ (∃ s ∈ good, s.Shows) ∨ programInlineInstructions < owned := by
  rw [hf, ownInstructions_empty_iff, installAll_empty_iff hdistinct]
  constructor
  · intro h
    by_cases hshows : ∃ s ∈ good, s.Shows
    · exact .inl hshows
    · refine .inr (Nat.lt_of_not_le fun howned => h ⟨?_, howned⟩)
      exact fun s hs hs' => hshows ⟨s, hs, hs'⟩
  · rintro (⟨s, hs, hshows⟩ | howned) ⟨hnone, hle⟩
    · exact hnone s hs hshows
    · omega

/-- A failed load leaves an empty record, except after the inputs that leak. -/
theorem failed_load_empty_iff (host : LoadHost) (bytes : List Byte) (outProgram : ProgramRecord) :
    (∀ f, loadProgram host bytes outProgram = .fail f → f.program.Empty) ↔ ¬ Leaks host bytes := by
  have hversion : ∀ artifact worker, loadAibc1 host bytes.length artifact outProgram = .ok worker →
      worker.formatVersion = 2 := loadAibc1_version outProgram
  have huntouched : ∀ flags count, Untouched ⟨false, false, false⟩ (headerRecord flags count) := fun _ _ _ => ⟨rfl, rfl⟩
  constructor
  · rintro hempty ⟨flags, count, good, owned, hhead, hflags, hcount, hlen, hgood, hdistinct, hat, habandoned, hleft⟩
    obtain ⟨f, table, hnext, hf⟩ := @Abandoned.fails host bytes
      (fun artifact => loadAibc1 host bytes.length artifact outProgram) (installAll 16 good (headerRecord flags count))
      _ _ _ _ habandoned (tracks_markAll good)
    refine (left_behind_iff hdistinct hf).2 hleft (hempty f ?_)
    rw [loadProgram, loadAibc1_of_header hhead hflags hcount,
      loadSections_fail (huntouched flags count) (by have := hat.le; omega) hversion]
    exact ⟨good, hlen, fun s hs => (accepted_iff hs hat).2 (hgood s hs), hat, fresh_none.2 hdistinct, hnext⟩
  · intro hleaks f hload
    rcases loadAibc1_fail hload with h | ⟨flags, count, hhead, hflags, hcount, h⟩
    · exact h
    have hlen := hhead.le
    rw [Image.length_encodeHeader] at hlen
    obtain ⟨good, hgoodlen, hgood, hat, hfresh, hnext⟩ := (loadSections_fail (huntouched flags count) (by omega) hversion).1 h
    rcases loadNext_fail (tracks_markAll good) hnext with h | ⟨owned, table, habandoned, hf⟩
    · exact h
    by_contra hne
    have hdistinct := fresh_none.1 hfresh
    exact hleaks ⟨flags, count, good, owned, hhead, hflags, hcount, hgoodlen,
      fun s hs => (accepted_iff hs hat).1 (hgood s hs), hdistinct, hat, habandoned, (left_behind_iff hdistinct hf).1 hne⟩

/-- A header for two sections, a section of one instruction, and nothing more. -/
def cutShort : List Byte :=
  [65, 73, 66, 67, 2, 0, 0, 0, 0, 0, 0, 0, 2, 0, 0, 0, 1, 0, 0, 0, 16, 0, 0, 0, 1, 0, 0, 0, 1, 0, 0, 0, 0, 0, 0, 0, 0, 0, 0, 0]

theorem loadProgram_cutShort : ∃ f, loadProgram .generous cutShort emptyRecord = .fail f ∧ ¬ f.program.Empty := by
  refine ⟨⟨.truncated, 40, ⟨[⟨.halt, 0⟩], false, [], false, 2, 0, 2, [⟨1, 16, 24⟩], 0, 0, []⟩⟩, by decide +kernel, ?_⟩
  intro h
  cases h.instructions

end Aivm
