import Aivm.Program.Lemmas.Sections

/-!
# What a failed load leaves behind

Some error paths of the loader release the record, others return and leave it as it is. Which path is taken depends on
the section that fails and not on the sections before it.
-/

namespace Aivm

open ByteReader Parse

variable {host : LoadHost} {bytes : List Byte} {load : List Byte → Parse LoadFailure ProgramRecord}
variable {p q : ProgramRecord} {seen : SeenSections} {f : LoadFailure}

/-- The record shows nothing and owns nothing. -/
structure ProgramRecord.Empty (p : ProgramRecord) : Prop where
  instructions : p.instructions = []
  constants : p.constants = []
  workerCatalog : p.workerCatalog = []
  instructionStorage : p.allocatedInstructionStorage = false
  constantStorage : p.allocatedConstantStorage = false

theorem releaseProgram_empty (p : ProgramRecord) : (releaseProgram p).Empty := ⟨rfl, rfl, rfl, rfl, rfl⟩

/-- A failure that has released the record. -/
def Releases {α : Type} (x : Parse LoadFailure α) : Prop := ∀ f, x = .fail f → f.program.Empty

theorem releases_ok {α : Type} {a : α} : Releases (.ok a) := by
  intro f h
  cases h

theorem releases_error {α status offset} : Releases (constantLoadError status offset p : Parse LoadFailure α) := by
  intro f h
  cases h
  exact releaseProgram_empty p

theorem Releases.bind {α β : Type} {x : Parse LoadFailure α} {k : α → Parse LoadFailure β} (hx : Releases x)
    (hk : ∀ a, Releases (k a)) : Releases (x >>= k) := by
  intro f h
  rcases bind_fail.1 h with h | ⟨a, _, h⟩
  · exact hx f h
  · exact hk a f h

theorem Releases.ite {α : Type} {c : Prop} [Decidable c] {x y : Parse LoadFailure α} (hx : Releases x) (hy : Releases y) :
    Releases (if c then x else y) := by
  split
  · exact hx
  · exact hy

theorem readBytes_releases {offset count} : Releases (readBytes bytes offset count) := by
  intro f h
  unfold readBytes at h
  split at h <;> cases h

theorem readLe_releases {width offset} : Releases (readLe bytes width offset) :=
  readBytes_releases.bind fun _ => releases_ok

theorem constantRoom_releases {sectionEnd cursor count} : Releases (constantRoom sectionEnd cursor count p) :=
  releases_error.ite releases_ok

/-- A constant that cannot be read releases the record. -/
theorem loadConstant_releases {sectionEnd cursor} : Releases (loadConstant bytes sectionEnd cursor p) := by
  unfold loadConstant
  apply releases_error.ite
  apply readLe_releases.bind
  intro kind
  split_ifs
  · exact constantRoom_releases.bind fun _ => readLe_releases.bind fun _ => releases_ok
  · exact constantRoom_releases.bind fun _ => readLe_releases.bind fun _ => releases_ok
  · exact constantRoom_releases.bind fun _ => readLe_releases.bind fun _ => releases_ok
  · exact releases_ok
  · exact constantRoom_releases.bind fun _ => readLe_releases.bind fun _ => constantRoom_releases.bind fun _ =>
      releases_error.ite (readBytes_releases.bind fun _ => releases_ok)
  · exact releases_ok
  · exact constantRoom_releases.bind fun _ => readLe_releases.bind fun _ => constantRoom_releases.bind fun _ =>
      releases_error.ite (readBytes_releases.bind fun _ => releases_ok)
  · exact releases_error

theorem loadConstants_releases {sectionEnd count cursor} : Releases (loadConstants bytes sectionEnd count cursor p) := by
  induction count generalizing cursor p with
  | zero => exact releases_ok
  | succ count ih => exact loadConstant_releases.bind fun _ => ih.bind fun _ => releases_ok

theorem loadCatalogSection_releases {start size} : Releases (loadCatalogSection host bytes load start size p) := by
  unfold loadCatalogSection
  apply readBytes_releases.bind
  intro payload
  split
  · exact releases_ok
  · exact releases_error
  · intro f h
    cases h
  · intro f h
    cases h

/-! ## Sections that are abandoned -/

/-- A 32-bit field of the input. -/
def Field (bytes : List Byte) (offset n : Nat) : Prop := At bytes offset (le 4 n) ∧ n < 256 ^ 4

/-- One of the instructions from `cursor` on has an unknown opcode. -/
def BadOpcode (bytes : List Byte) (cursor count : Nat) : Prop :=
  ∃ i opcode, i < count ∧ Field bytes (cursor + 12 * i) opcode ∧ opMax < opcode

/-- The section at `cursor`, after sections of the given types, is given up without a release; storage for `owned`
instructions has been taken by then. -/
inductive Abandoned (host : LoadHost) (bytes : List Byte) (sectionTypes : List Nat) (cursor : Nat) : (owned : Nat) → Prop
  | truncated (h : bytes.length < cursor + 8) : Abandoned host bytes sectionTypes cursor 0
  | outside {t size} (htype : Field bytes cursor t) (hsize : Field bytes (cursor + 4) size)
      (h : bytes.length < cursor + 8 + size) : Abandoned host bytes sectionTypes cursor 0
  | repeated {t size} (htype : Field bytes cursor t) (hsize : Field bytes (cursor + 4) size)
      (hin : cursor + 8 + size ≤ bytes.length) (ht : t = sectionInstructions ∨ t = sectionConstants)
      (h : t ∈ sectionTypes) : Abandoned host bytes sectionTypes cursor 0
  | short {t size} (htype : Field bytes cursor t) (hsize : Field bytes (cursor + 4) size)
      (hin : cursor + 8 + size ≤ bytes.length) (ht : t = sectionInstructions ∨ t = sectionConstants)
      (hnew : t ∉ sectionTypes) (h : size < 4) : Abandoned host bytes sectionTypes cursor 0
  | misfit {size count} (htype : Field bytes cursor sectionInstructions) (hsize : Field bytes (cursor + 4) size)
      (hin : cursor + 8 + size ≤ bytes.length) (hnew : sectionInstructions ∉ sectionTypes) (hfour : 4 ≤ size)
      (hcount : Field bytes (cursor + 8) count) (h : size ≠ 4 + count * 12) : Abandoned host bytes sectionTypes cursor 0
  | opcode {size count} (htype : Field bytes cursor sectionInstructions) (hsize : Field bytes (cursor + 4) size)
      (hin : cursor + 8 + size ≤ bytes.length) (hnew : sectionInstructions ∉ sectionTypes)
      (hcount : Field bytes (cursor + 8) count) (hfit : size = 4 + count * 12)
      (hgranted : count ≤ programInlineInstructions ∨ host.instructions bytes count)
      (h : BadOpcode bytes (cursor + 12) count) : Abandoned host bytes sectionTypes cursor count
  | refused {size count} (htype : Field bytes cursor sectionConstants) (hsize : Field bytes (cursor + 4) size)
      (hin : cursor + 8 + size ≤ bytes.length) (hnew : sectionConstants ∉ sectionTypes) (hfour : 4 ≤ size)
      (hcount : Field bytes (cursor + 8) count) (hlarge : programInlineConstants < count)
      (h : host.constants bytes count = false) : Abandoned host bytes sectionTypes cursor 0

theorem badOpcode_succ {count cursor} : BadOpcode bytes cursor (count + 1) ↔
    (∃ opcode, Field bytes cursor opcode ∧ opMax < opcode) ∨ BadOpcode bytes (cursor + 12) count := by
  constructor
  · rintro ⟨i, opcode, hi, hfield, hbad⟩
    cases i with
    | zero => exact .inl ⟨opcode, hfield, hbad⟩
    | succ i =>
        refine .inr ⟨i, opcode, by omega, ?_, hbad⟩
        rwa [show cursor + 12 + 12 * i = cursor + 12 * (i + 1) by omega]
  · rintro (⟨opcode, hfield, hbad⟩ | ⟨i, opcode, hi, hfield, hbad⟩)
    · exact ⟨0, opcode, by omega, hfield, hbad⟩
    · refine ⟨i + 1, opcode, by omega, ?_, hbad⟩
      rwa [show cursor + 12 * (i + 1) = cursor + 12 + 12 * i by omega]

theorem field_iff {offset n} : Field bytes offset n ↔ (readLe bytes 4 offset : Parse LoadFailure Nat) = .ok n :=
  readLe_ok.symm

theorem loadInstructions_fail {count cursor} (hc : cursor + count * 12 ≤ bytes.length) :
    (∃ f, loadInstructions bytes p count cursor = .fail f) ↔ BadOpcode bytes cursor count := by
  induction count generalizing cursor with
  | zero =>
      constructor
      · rintro ⟨f, h⟩
        cases h
      · rintro ⟨i, _, hi, _⟩
        omega
  | succ count ih =>
      obtain ⟨raw, hraw⟩ : ∃ n, (readLe bytes 4 cursor : Parse LoadFailure Nat) = .ok n := readLe_total (by omega)
      obtain ⟨operand, hoperand⟩ : ∃ n, (readLe bytes 8 (cursor + 4) : Parse LoadFailure Nat) = .ok n :=
        readLe_total (by omega)
      rw [badOpcode_succ, ← ih (by omega)]
      simp only [loadInstructions, hraw, hoperand, ok_bind, field_iff, ok.injEq, exists_eq_left', ite_fail, bind_fail]
      by_cases hbad : opMax < raw
      · simp [hbad, loadError]
      · simp [hbad]

theorem loadInstructions_fail_program {count cursor} (h : loadInstructions bytes p count cursor = .fail f) :
    f.program = p := by
  induction count generalizing cursor with
  | zero => cases h
  | succ count ih =>
      simp only [loadInstructions, bind_fail, readLe_ne_fail, false_or, ite_fail] at h
      obtain ⟨raw, _, operand, _, ⟨_, h⟩ | ⟨_, h⟩⟩ := h
      · cases h
        rfl
      · rcases h with h | ⟨rest, _, h⟩
        · exact ih h
        · cases h

@[simp] theorem ownInstructions_zero (p : ProgramRecord) : ownInstructions 0 p = p := by
  cases p
  simp [ownInstructions]

theorem instructionsReserve_none {count} : instructionsReserve host bytes count p = none ↔
    ¬ (count ≤ programInlineInstructions ∨ host.instructions bytes count) := by
  unfold instructionsReserve
  grind

theorem constantsReserve_none {count} : constantsReserve host bytes count p = none ↔
    programInlineConstants < count ∧ host.constants bytes count = false := by
  unfold constantsReserve
  grind

theorem loadInstructionSection_fail {start size} (hin : start + size ≤ bytes.length)
    (h : loadInstructionSection host bytes start size p = .fail f) :
    f.program.Empty ∨ (size < 4 ∧ f.program = p) ∨ ∃ count, Field bytes start count ∧ 4 ≤ size ∧
      ((size ≠ 4 + count * 12 ∧ f.program = p) ∨
        (size = 4 + count * 12 ∧ (count ≤ programInlineInstructions ∨ host.instructions bytes count) ∧
          BadOpcode bytes (start + 4) count ∧ f.program = ownInstructions count p)) := by
  simp only [loadInstructionSection, ite_fail, bind_fail, readLe_ne_fail, false_or] at h
  rcases h with ⟨hshort, h⟩ | ⟨hfour, count, hcount, h⟩
  · cases h
    exact .inr (.inl ⟨hshort, rfl⟩)
  have hfield := field_iff.2 hcount
  rcases h with ⟨hmisfit, h⟩ | ⟨hfit, h⟩
  · cases h
    exact .inr (.inr ⟨count, hfield, by omega, .inl ⟨hmisfit, rfl⟩⟩)
  · have hfit : size = 4 + count * 12 := not_not.1 hfit
    cases hreserve : instructionsReserve host bytes count p with
    | none =>
        rw [hreserve] at h
        exact .inl (releases_error f h)
    | some p' =>
        rw [hreserve] at h
        obtain ⟨hgranted, rfl⟩ := instructionsReserve_some.1 hreserve
        rcases bind_fail.1 h with h | ⟨is, _, h⟩
        · have hbad := (loadInstructions_fail (by omega)).1 ⟨f, h⟩
          exact .inr (.inr ⟨count, hfield, by omega, .inr ⟨hfit, hgranted, hbad, loadInstructions_fail_program h⟩⟩)
        · cases h

theorem loadConstantSection_fail {start size} (h : loadConstantSection host bytes start size p = .fail f) :
    f.program.Empty ∨ (size < 4 ∧ f.program = p) ∨ ∃ count, Field bytes start count ∧ 4 ≤ size ∧
      programInlineConstants < count ∧ host.constants bytes count = false ∧ f.program = p := by
  simp only [loadConstantSection, ite_fail, bind_fail, readLe_ne_fail, false_or] at h
  rcases h with ⟨hshort, h⟩ | ⟨hfour, count, hcount, h⟩
  · cases h
    exact .inr (.inl ⟨hshort, rfl⟩)
  · cases hreserve : constantsReserve host bytes count p with
    | none =>
        rw [hreserve] at h
        cases h
        obtain ⟨hlarge, hrefused⟩ := constantsReserve_none.1 hreserve
        exact .inr (.inr ⟨count, field_iff.2 hcount, by omega, hlarge, hrefused, rfl⟩)
    | some p' =>
        rw [hreserve] at h
        left
        refine Releases.bind loadConstants_releases ?_ f h
        rintro ⟨vs, cursor, p''⟩
        exact releases_error.ite releases_ok

/-- The sections met so far have the given types. -/
def Tracks (seen : SeenSections) (sectionTypes : List Nat) : Prop :=
  (seen.instructions = true ↔ sectionInstructions ∈ sectionTypes) ∧
    (seen.constants = true ↔ sectionConstants ∈ sectionTypes)

theorem loadNext_fail {sectionTypes cursor} (htracks : Tracks seen sectionTypes)
    (h : loadNext host bytes load seen cursor p = .fail f) :
    f.program.Empty ∨ ∃ owned table, Abandoned host bytes sectionTypes cursor owned ∧
      f.program = ownInstructions owned { p with sections := table } := by
  have hsame : ∃ table, p = ownInstructions 0 { p with sections := table } := ⟨p.sections, by simp⟩
  simp only [loadNext, ite_fail, bind_fail, readLe_ne_fail, false_or] at h
  rcases h with ⟨htruncated, h⟩ | ⟨_, t, ht, size, hsize, h⟩
  · cases h
    exact .inr ⟨0, _, .truncated htruncated, hsame.choose_spec⟩
  have htype := field_iff.2 ht
  have hfield := field_iff.2 hsize
  rcases h with ⟨houtside, h⟩ | ⟨hin, h⟩
  · cases h
    exact .inr ⟨0, _, .outside htype hfield houtside, hsame.choose_spec⟩
  rcases h with h | ⟨_, _, h⟩
  swap
  · cases h
  have hin : cursor + 8 + size ≤ bytes.length := by omega
  simp only [loadSection, ite_fail, bind_fail] at h
  rcases h with ⟨rfl, h⟩ | ⟨_, ⟨rfl, h⟩ | ⟨_, ⟨rfl, h⟩ | ⟨_, h⟩⟩⟩
  · rcases h with ⟨hseen, h⟩ | ⟨hseen, h | ⟨_, _, h⟩⟩
    · cases h
      exact .inr ⟨0, _, .repeated htype hfield hin (.inl rfl) (htracks.1.1 hseen), (ownInstructions_zero _).symm⟩
    · have hnew : sectionInstructions ∉ sectionTypes := fun hmem => hseen (htracks.1.2 hmem)
      rcases loadInstructionSection_fail hin h with h | ⟨hshort, h⟩ | ⟨count, hcount, hfour, ⟨hmisfit, h⟩ | ⟨hfit, hgranted, hbad, h⟩⟩
      · exact .inl h
      · exact .inr ⟨0, _, .short htype hfield hin (.inl rfl) hnew hshort, h.trans (ownInstructions_zero _).symm⟩
      · exact .inr ⟨0, _, .misfit htype hfield hin hnew hfour hcount hmisfit, h.trans (ownInstructions_zero _).symm⟩
      · exact .inr ⟨count, _, .opcode htype hfield hin hnew hcount hfit hgranted hbad, h⟩
    · cases h
  · rcases h with ⟨hseen, h⟩ | ⟨hseen, h | ⟨_, _, h⟩⟩
    · cases h
      exact .inr ⟨0, _, .repeated htype hfield hin (.inr rfl) (htracks.2.1 hseen), (ownInstructions_zero _).symm⟩
    · have hnew : sectionConstants ∉ sectionTypes := fun hmem => hseen (htracks.2.2 hmem)
      rcases loadConstantSection_fail h with h | ⟨hshort, h⟩ | ⟨count, hcount, hfour, hlarge, hrefused, h⟩
      · exact .inl h
      · exact .inr ⟨0, _, .short htype hfield hin (.inr rfl) hnew hshort, h.trans (ownInstructions_zero _).symm⟩
      · exact .inr ⟨0, _, .refused htype hfield hin hnew hfour hcount hlarge hrefused,
          h.trans (ownInstructions_zero _).symm⟩
    · cases h
  · rcases h with ⟨_, h⟩ | ⟨_, h | ⟨_, _, h⟩⟩
    · exact .inl (releases_error f h)
    · exact .inl (loadCatalogSection_releases f h)
    · cases h
  · cases h

/-- A field is read from inside the input. -/
theorem Field.le {offset n} (h : Field bytes offset n) : offset + 4 ≤ bytes.length := by
  have := h.1.le
  rwa [length_le] at this

theorem loadNext_of_section {cursor t size x} (htype : Field bytes cursor t) (hsize : Field bytes (cursor + 4) size)
    (hin : cursor + 8 + size ≤ bytes.length)
    (h : loadSection host bytes load seen t (cursor + 8) size (p.enter cursor t size) = .fail x) :
    loadNext host bytes load seen cursor p = .fail x := by
  have hlen := hsize.le
  rw [field_iff] at htype hsize
  rw [loadNext, if_neg (by omega), htype, ok_bind, hsize, ok_bind, if_neg (by omega), h, fail_bind]

/-- An abandoned section fails and keeps the record. -/
theorem Abandoned.fails {sectionTypes cursor owned} (habandoned : Abandoned host bytes sectionTypes cursor owned)
    (htracks : Tracks seen sectionTypes) :
    ∃ f table, loadNext host bytes load seen cursor p = .fail f ∧
      f.program = ownInstructions owned { p with sections := table } := by
  have hzero : ∀ q : ProgramRecord, q = ownInstructions 0 q := fun q => (ownInstructions_zero q).symm
  cases habandoned with
  | truncated h =>
      refine ⟨⟨.truncated, cursor, p⟩, p.sections, ?_, by simp⟩
      rw [loadNext, if_pos h]
      rfl
  | @outside t size htype hsize h =>
      refine ⟨⟨.sectionOob, cursor + 8, p⟩, p.sections, ?_, by simp⟩
      have hlen := hsize.le
      rw [field_iff] at htype hsize
      rw [loadNext, if_neg (by omega), htype, ok_bind, hsize, ok_bind, if_pos h]
      rfl
  | @repeated t size htype hsize hin ht h =>
      refine ⟨⟨.invalidSection, cursor + 8, p.enter cursor t size⟩, _, loadNext_of_section htype hsize hin ?_, hzero _⟩
      rcases ht with rfl | rfl
      · rw [loadSection, if_pos rfl, if_pos (htracks.1.2 h)]
        rfl
      · rw [loadSection, if_neg (by decide), if_pos rfl, if_pos (htracks.2.2 h)]
        rfl
  | @short t size htype hsize hin ht hnew h =>
      refine ⟨⟨.invalidSection, cursor + 8, p.enter cursor t size⟩, _, loadNext_of_section htype hsize hin ?_, hzero _⟩
      rcases ht with rfl | rfl
      · rw [loadSection, if_pos rfl, if_neg fun hs => hnew (htracks.1.1 hs), loadInstructionSection, if_pos h]
        rfl
      · rw [loadSection, if_neg (by decide), if_pos rfl, if_neg fun hs => hnew (htracks.2.1 hs), loadConstantSection,
          if_pos h]
        rfl
  | @misfit size count htype hsize hin hnew hfour hcount h =>
      refine ⟨⟨.invalidSection, cursor + 8, p.enter cursor sectionInstructions size⟩, _,
        loadNext_of_section htype hsize hin ?_, hzero _⟩
      rw [loadSection, if_pos rfl, if_neg fun hs => hnew (htracks.1.1 hs), loadInstructionSection, if_neg (by omega),
        field_iff.1 hcount, ok_bind, if_pos h]
      rfl
  | @opcode size count htype hsize hin hnew hcount hfit hgranted h =>
      obtain ⟨f, hf⟩ := (loadInstructions_fail (p := ownInstructions owned (p.enter cursor sectionInstructions size))
        (by omega)).2 h
      refine ⟨f, _, loadNext_of_section htype hsize hin ?_, loadInstructions_fail_program hf⟩
      rw [loadSection, if_pos rfl, if_neg fun hs => hnew (htracks.1.1 hs), loadInstructionSection, if_neg (by omega),
        field_iff.1 hcount, ok_bind, if_neg (not_not.2 hfit), instructionsReserve_some.2 ⟨hgranted, rfl⟩]
      simp only [hf, fail_bind]
  | @refused size count htype hsize hin hnew hfour hcount hlarge h =>
      refine ⟨⟨.memory, cursor + 8, p.enter cursor sectionConstants size⟩, _,
        loadNext_of_section htype hsize hin ?_, hzero _⟩
      rw [loadSection, if_neg (by decide), if_pos rfl, if_neg fun hs => hnew (htracks.2.1 hs), loadConstantSection,
        if_neg (by omega), field_iff.1 hcount, ok_bind, constantsReserve_none.2 ⟨hlarge, h⟩]
      rfl

/-! ## The loop over the sections -/

/-- The sections met after some more. -/
def SeenSections.markAll (seen : SeenSections) (ss : List ImageSection) : SeenSections :=
  ss.foldl (fun seen s => seen.mark s.sectionType) seen

theorem loadSections_fail {count cursor} (hp : Untouched seen p) (hc : cursor ≤ bytes.length)
    (hversion : ∀ artifact worker, load artifact = .ok worker → worker.formatVersion = 2) :
    loadSections host bytes load count seen cursor p = .fail f ↔
      ∃ good : List ImageSection, good.length < count ∧ (∀ s ∈ good, s.Accepted host bytes load) ∧
        At bytes cursor (good.flatMap ImageSection.encode) ∧ Fresh seen (good.map ImageSection.sectionType) ∧
          loadNext host bytes load (seen.markAll good) (cursor + (good.flatMap ImageSection.encode).length)
            (installAll cursor good p) = .fail f := by
  induction count generalizing seen cursor p with
  | zero =>
      constructor
      · intro h
        cases h
      · rintro ⟨good, hlen, _⟩
        omega
  | succ count ih =>
      rw [loadSections_succ, bind_fail]
      constructor
      · rintro (h | ⟨⟨seen', next, p'⟩, hnext, h⟩)
        · exact ⟨[], by simp, by simp, at_nil.2 hc, fresh_nil, h⟩
        · obtain ⟨s, hs, hat, hhas, rfl, rfl, rfl⟩ := (loadNext_ok hp hversion).1 hnext
          obtain ⟨good, hlen, hall, hats, hfresh, h⟩ := (ih hp.install hat.le).1 h
          refine ⟨s :: good, by simpa using hlen, List.forall_mem_cons.2 ⟨hs, hall⟩, ?_, fresh_cons.2 ⟨hhas, hfresh⟩, ?_⟩
          · rw [List.flatMap_cons, at_append]
            exact ⟨hat, hats⟩
          · rw [List.flatMap_cons, List.length_append, ← Nat.add_assoc]
            exact h
      · rintro ⟨good, hlen, hall, hat, hfresh, h⟩
        cases good with
        | nil => exact .inl h
        | cons s good =>
            obtain ⟨hs, hall⟩ := List.forall_mem_cons.1 hall
            obtain ⟨hhas, hfresh⟩ := fresh_cons.1 hfresh
            rw [List.flatMap_cons, at_append] at hat
            rw [List.flatMap_cons, List.length_append, ← Nat.add_assoc] at h
            refine .inr ⟨_, (loadNext_ok hp hversion).2 ⟨s, hs, hat.1, hhas, rfl, rfl, rfl⟩, ?_⟩
            exact (ih hp.install hat.1.le).2 ⟨good, by simpa using hlen, hall, hat.2, hfresh, h⟩

theorem markAll_instructions {ss : List ImageSection} : (seen.markAll ss).instructions = true ↔
    seen.instructions = true ∨ sectionInstructions ∈ ss.map ImageSection.sectionType := by
  induction ss generalizing seen with
  | nil => simp [SeenSections.markAll]
  | cons s ss ih =>
      rw [SeenSections.markAll, List.foldl_cons, ← SeenSections.markAll, ih]
      simp only [SeenSections.mark, Bool.or_eq_true, decide_eq_true_eq, List.map_cons, List.mem_cons, or_assoc,
        @eq_comm _ s.sectionType]

theorem markAll_constants {ss : List ImageSection} : (seen.markAll ss).constants = true ↔
    seen.constants = true ∨ sectionConstants ∈ ss.map ImageSection.sectionType := by
  induction ss generalizing seen with
  | nil => simp [SeenSections.markAll]
  | cons s ss ih =>
      rw [SeenSections.markAll, List.foldl_cons, ← SeenSections.markAll, ih]
      simp only [SeenSections.mark, Bool.or_eq_true, decide_eq_true_eq, List.map_cons, List.mem_cons, or_assoc,
        @eq_comm _ s.sectionType]

theorem tracks_markAll (ss : List ImageSection) :
    Tracks (SeenSections.markAll ⟨false, false, false⟩ ss) (ss.map ImageSection.sectionType) := by
  constructor
  · simp [markAll_instructions]
  · simp [markAll_constants]

/-! ## What the good sections leave -/

/-- A section that shows something in the record. -/
def ImageSection.Shows (s : ImageSection) : Prop := s.code ≠ [] ∨ s.table ≠ [] ∨ s.workers ≠ []

theorem installAll_owns {ss} (cursor : Nat) (hshow : ∀ s ∈ ss, ¬ s.Shows) :
    (installAll cursor ss p).allocatedInstructionStorage = p.allocatedInstructionStorage ∧
      (installAll cursor ss p).allocatedConstantStorage = p.allocatedConstantStorage := by
  induction ss generalizing cursor p with
  | nil => exact ⟨rfl, rfl⟩
  | cons s ss ih =>
      obtain ⟨hs, hss⟩ := List.forall_mem_cons.1 hshow
      rw [installAll, (ih _ hss).1, (ih _ hss).2]
      simp only [ImageSection.Shows, not_or, not_not] at hs
      cases s with
      | instructions items =>
          obtain rfl : items = [] := hs.1
          simp [ImageSection.install, ownInstructions, ImageSection.record, ProgramRecord.enter]
      | constants items =>
          obtain rfl : items = [] := hs.2.1
          simp [ImageSection.install, ownConstants, storeConstants, ImageSection.record, ProgramRecord.enter]
      | workerCatalog items => exact ⟨rfl, rfl⟩
      | other t payload => exact ⟨rfl, rfl⟩

theorem installAll_empty_iff {ss flags count} (hfresh : Image.Distinct (ss.map ImageSection.sectionType)) :
    (installAll 16 ss (headerRecord flags count)).Empty ↔ ∀ s ∈ ss, ¬ s.Shows := by
  have hblank : Blank ⟨false, false, false⟩ (headerRecord flags count) := ⟨fun _ => rfl, fun _ => rfl, fun _ => rfl⟩
  obtain ⟨hi, hc, hw⟩ := installAll_contents 16 hblank (fresh_none.2 hfresh)
  constructor
  · intro h s hs
    have hcode := h.instructions.symm.trans hi
    have htable := h.constants.symm.trans hc
    have hworkers := h.workerCatalog.symm.trans hw
    simp only [headerRecord, List.nil_append, List.nil_eq, List.map_eq_nil_iff, List.flatMap_eq_nil_iff] at hcode htable hworkers
    simp only [ImageSection.Shows, not_or, not_not]
    exact ⟨hcode s hs, htable s hs, hworkers s hs⟩
  · intro h
    obtain ⟨hinstr, hconst⟩ := installAll_owns 16 (p := headerRecord flags count) h
    simp only [ImageSection.Shows, not_or, not_not] at h
    refine ⟨?_, ?_, ?_, hinstr, hconst⟩
    · rw [hi, List.flatMap_eq_nil_iff.2 fun s hs => (h s hs).1]
      rfl
    · rw [hc, List.flatMap_eq_nil_iff.2 fun s hs => (h s hs).2.1]
      rfl
    · rw [hw, List.flatMap_eq_nil_iff.2 fun s hs => (h s hs).2.2]
      rfl

theorem ownInstructions_empty_iff {owned table} :
    (ownInstructions owned { p with sections := table }).Empty ↔ p.Empty ∧ owned ≤ programInlineInstructions := by
  constructor
  · intro h
    have hflag := h.instructionStorage
    simp only [ownInstructions, Bool.or_eq_false_iff, decide_eq_false_iff_not] at hflag
    exact ⟨⟨h.instructions, h.constants, h.workerCatalog, hflag.1, h.constantStorage⟩, by omega⟩
  · rintro ⟨h, howned⟩
    refine ⟨h.instructions, h.constants, h.workerCatalog, ?_, h.constantStorage⟩
    simp only [ownInstructions, h.instructionStorage, Bool.false_or, decide_eq_false_iff_not]
    omega

/-- After a good header the loader is the loop over the sections. -/
theorem loadAibc1_of_header {fuel flags count} (hat : At bytes 0 (Image.encodeHeader flags count)) (hflags : flags < 2 ^ 32)
    (hcount : count ≤ programMaxSections) :
    loadAibc1 host (fuel + 1) bytes p = loadSections host bytes (fun artifact => loadAibc1 host fuel artifact p) count
      ⟨false, false, false⟩ 16 (headerRecord flags count) := by
  have hend := hat.le
  rw [Image.length_encodeHeader] at hend
  simp only [Image.encodeHeader, at_append, length_le] at hat
  have hmax : programMaxSections = 32 := rfl
  have hmagic : (readBytes bytes 0 4 : Parse LoadFailure _) = .ok [65, 73, 66, 67] := readBytes_ok.2 ⟨hat.1, rfl⟩
  have hversion : (readLe bytes 4 4 : Parse LoadFailure _) = .ok 2 := readLe_ok.2 ⟨hat.2.1, by decide⟩
  have hflags' : (readLe bytes 4 8 : Parse LoadFailure _) = .ok flags := readLe_ok.2 ⟨hat.2.2.1, hflags⟩
  have hcount' : (readLe bytes 4 12 : Parse LoadFailure _) = .ok count := readLe_ok.2 ⟨hat.2.2.2, by omega⟩
  have hload : ∀ p', (fun artifact => loadAibc1 host fuel artifact p') = fun artifact => loadAibc1 host fuel artifact p :=
    fun p' => funext fun artifact => loadAibc1_outProgram fuel artifact p' p
  simp only [loadAibc1, clearProgram, hmagic, hversion, hflags', hcount', ok_bind, hload]
  rw [if_neg (by omega), if_neg (by simp), if_neg (by simp), if_neg (by omega)]
  rfl

theorem loadAibc1_fail {fuel} (h : loadAibc1 host (fuel + 1) bytes p = .fail f) :
    f.program.Empty ∨ ∃ flags count, At bytes 0 (Image.encodeHeader flags count) ∧ flags < 2 ^ 32 ∧
      count ≤ programMaxSections ∧ loadSections host bytes (fun artifact => loadAibc1 host fuel artifact p) count
        ⟨false, false, false⟩ 16 (headerRecord flags count) = .fail f := by
  have hread : ∀ {offset count}, (readBytes bytes offset count : Parse LoadFailure _) ≠ .fail f := by
    intro offset count
    unfold readBytes
    split <;> simp
  have hempty : ∀ version flags count, ProgramRecord.Empty ⟨[], false, [], false, version, flags, count, [], 0, 0, []⟩ :=
    fun _ _ _ => ⟨rfl, rfl, rfl, rfl, rfl⟩
  simp only [loadAibc1, clearProgram, ite_fail, bind_fail, hread, readLe_ne_fail, false_or] at h
  rcases h with ⟨_, h⟩ | ⟨_, magic, hmagic, ⟨_, h⟩ | ⟨hm, version, hversion, flags, hflags, count, hcount, h⟩⟩
  · cases h
    exact .inl (hempty _ _ _)
  · cases h
    exact .inl (hempty _ _ _)
  rcases h with ⟨_, h⟩ | ⟨hv, ⟨_, h⟩ | ⟨hmax, h⟩⟩
  · cases h
    exact .inl (hempty _ _ _)
  · cases h
    exact .inl (hempty _ _ _)
  · obtain rfl := not_not.1 hm
    obtain rfl := not_not.1 hv
    rw [readLe_ok] at hversion hflags hcount
    have hload : ∀ p', (fun artifact => loadAibc1 host fuel artifact p') = fun artifact => loadAibc1 host fuel artifact p :=
      fun p' => funext fun artifact => loadAibc1_outProgram fuel artifact p' p
    rw [hload] at h
    refine .inr ⟨flags, count, ?_, hflags.2, Nat.le_of_not_lt hmax, h⟩
    simp only [Image.encodeHeader, at_append, length_le]
    exact ⟨(readBytes_ok.1 hmagic).1, hversion.1, hflags.1, hcount.1⟩

end Aivm
