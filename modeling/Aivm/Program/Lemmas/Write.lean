import Aivm.Program.Draft
import Aivm.Program.Theorems

/-!
# What is written

A draft is written as an image of the format, in which a node constant is spelled as void.
-/

namespace Aivm

open ByteReader

variable {d : Draft}

namespace Literal

/-- How a constant is written. -/
def spelled : Literal → Constant
  | .int value => .int value
  | .number bits => .number bits
  | .bool value => .bool (if value then 1 else 0)
  | .string text => .string text
  | .node _ => .void
  | .null => .null
  | .void => .void

theorem ofBuffer_text (text : CText) : CText.ofBuffer text.1 = text := by
  apply Subtype.ext
  simp only [CText.ofBuffer]
  rw [List.takeWhile_eq_self_iff]
  intro b hb
  have hne : b ≠ 0 := by
    rintro rfl
    exact text.2 hb
  simpa using hne

theorem writeConstant_value (c : Literal) : writeConstant c.value = c.spelled.encode := by
  cases c with
  | string text =>
      change 3 :: (le 4 (CText.ofBuffer text.1).1.length ++ (CText.ofBuffer text.1).1) = 3 :: (le 4 text.1.length ++ text.1)
      rw [ofBuffer_text]
  | _ => rfl

theorem constantPayloadSize_value (c : Literal) : constantPayloadSize c.value = c.spelled.encode.length := by
  cases c with
  | string text =>
      change 1 + 4 + (CText.ofBuffer text.1).1.length = (3 :: (le 4 text.1.length ++ text.1)).length
      rw [ofBuffer_text, List.length_cons, List.length_append, length_le]
      omega
  | int value => exact (congrArg (· + 1) (length_le 8 _)).symm
  | number bits => exact (congrArg (· + 1) (length_le 8 _)).symm
  | _ => rfl

/-- What a constant takes in the file, at most. -/
theorem spelled_length_le (c : Literal) : c.spelled.encode.length ≤ c.textSize + 9 := by
  cases c with
  | string text =>
      simp only [spelled, Constant.encode, textSize, List.length_cons, List.length_append, length_le]
      omega
  | _ => simp [spelled, Constant.encode, textSize]

theorem spelled_textSize (c : Literal) : c.spelled.textSize = c.textSize := by
  cases c <;> rfl

theorem spelled_dataSize (c : Literal) : c.spelled.dataSize = 0 := by
  cases c <;> rfl

theorem spelled_wf (c : Literal) : c.spelled.Wf := by
  cases c with
  | int value => exact value.2
  | _ => trivial

theorem spelled_value_eq_iff (c : Literal) : c.spelled.value = c.value ↔ c.isNode = false := by
  cases c with
  | bool value => cases value <;> decide
  | _ => simp [spelled, Constant.value, value, isNode]

end Literal

namespace Draft

/-- The image that is written for a draft. -/
def image (d : Draft) : Image :=
  ⟨0, if 0 < d.constants.length then
      [.instructions d.instructions, .constants (d.constants.map Literal.spelled)]
    else [.instructions d.instructions]⟩

/-- The values of the constants. -/
def values (d : Draft) : List Value := d.constants.map Literal.value

theorem textSize_le {c : Literal} (h : c ∈ d.constants) : c.textSize ≤ programMaxStringBytes :=
  (List.single_le_sum (by simp) _ (List.mem_map_of_mem h)).trans d.strings_fit

theorem not_tooLong : d.values.any constantTooLong = false := by
  rw [List.any_eq_false]
  intro v hv
  obtain ⟨c, hc, rfl⟩ := List.mem_map.1 hv
  have hsize := textSize_le hc
  cases c with
  | string text =>
      have hmax : programMaxStringBytes = 65536 := rfl
      simp only [Literal.value, constantTooLong, Literal.ofBuffer_text, Literal.textSize] at hsize ⊢
      simp only [decide_eq_true_eq]
      omega
  | _ => simp [Literal.value, constantTooLong]

theorem length_code : (d.instructions.flatMap Instruction.encode).length = d.instructions.length * 12 :=
  length_flatMap_const Instruction.length_encode _

theorem payload_sizes :
    (d.values.map constantPayloadSize).sum = ((d.constants.map Literal.spelled).flatMap Constant.encode).length := by
  unfold values
  generalize d.constants = cs
  induction cs with
  | nil => rfl
  | cons c cs ih =>
      simp only [List.map_cons, List.sum_cons, List.flatMap_cons, List.length_append, ih,
        Literal.constantPayloadSize_value]

theorem written_constants :
    d.values.flatMap writeConstant = (d.constants.map Literal.spelled).flatMap Constant.encode := by
  unfold values
  rw [List.flatMap_map, List.flatMap_map]
  simp only [Literal.writeConstant_value]

theorem spelled_flatMap_le (cs : List Literal) :
    ((cs.map Literal.spelled).flatMap Constant.encode).length ≤ (cs.map Literal.textSize).sum + 9 * cs.length := by
  induction cs with
  | nil => simp
  | cons c cs ih =>
      have := c.spelled_length_le
      simp only [List.map_cons, List.flatMap_cons, List.length_append, List.sum_cons, List.length_cons]
      omega

theorem code_payload_lt : (ImageSection.instructions d.instructions).payload.length < 2 ^ 32 := by
  have hfit : d.instructions.length ≤ 32768 := d.instructions_fit
  simp only [ImageSection.payload, encodeItems, List.length_append, length_le, length_code]
  omega

theorem table_payload_lt : (ImageSection.constants (d.constants.map Literal.spelled)).payload.length < 2 ^ 32 := by
  have hfit : d.constants.length ≤ 1024 := d.constants_fit
  have hstrings : (d.constants.map Literal.textSize).sum ≤ 65536 := d.strings_fit
  have hle := spelled_flatMap_le d.constants
  simp only [ImageSection.payload, encodeItems, List.length_append, length_le]
  omega

theorem image_wf : d.image.Wf := by
  have hcode : (ImageSection.instructions d.instructions).Wf := ⟨code_payload_lt, d.instructions_wf⟩
  have htable : (ImageSection.constants (d.constants.map Literal.spelled)).Wf := by
    refine ⟨table_payload_lt, ?_, ?_, ?_⟩
    · intro c hc
      obtain ⟨l, _, rfl⟩ := List.mem_map.1 hc
      exact l.spelled_wf
    · rw [List.map_map]
      exact le_of_eq_of_le (congrArg List.sum (List.map_congr_left fun c _ => c.spelled_textSize)) d.strings_fit
    · have hzero : ((d.constants.map Literal.spelled).map Constant.dataSize).sum = 0 := by
        rw [List.map_map]
        rw [List.sum_eq_zero_iff]
        intro n hn
        obtain ⟨c, _, rfl⟩ := List.mem_map.1 hn
        exact c.spelled_dataSize
      rw [hzero]
      exact Nat.zero_le _
  unfold image
  by_cases h : 0 < d.constants.length
  · rw [if_pos h]
    exact ⟨by simp, by simp [programMaxSections], by simp [hcode, htable],
      show Image.Distinct [sectionInstructions, sectionConstants] by decide⟩
  · rw [if_neg h]
    exact ⟨by simp, by simp [programMaxSections], by simp [hcode],
      show Image.Distinct [sectionInstructions] by decide⟩

/-- The storage of a draft is inside the record, so no host is asked. -/
theorem image_holds (host : LoadHost) : Holds host d.image.encode d.image := by
  refine holds_iff.2 ⟨image_wf, at_self _, ?_, ?_⟩
  · intro s hs
    unfold image at hs
    split at hs
    · simp only [List.mem_cons, List.not_mem_nil, or_false] at hs
      rcases hs with rfl | rfl
      · exact .inl d.instructions_fit
      · exact .inl (by rw [List.length_map]; exact d.constants_fit)
    · rw [List.mem_singleton.1 hs]
      exact .inl d.instructions_fit
  · intro e he
    unfold image at he
    split at he <;> simp [Image.workers, ImageSection.workers] at he

theorem image_code : d.image.code = d.instructions := by
  unfold image Image.code
  split <;> simp [ImageSection.code]

theorem image_table : d.image.table = d.constants.map Literal.spelled := by
  unfold image Image.table
  split
  · simp [ImageSection.table]
  · rename_i h
    have hnil : d.constants = [] := List.length_eq_zero_iff.1 (by omega)
    simp [ImageSection.table, hnil]

/-! ## The writer on a draft -/

/-- A section of an image as the writer declares it. -/
def declared (s : ImageSection) : WrittenSection := ⟨s.sectionType, s.payload.length, s.payload⟩

theorem writtenSections_values (h : d.instructions ≠ []) :
    writtenSections d.instructions d.values = some (d.image.sections.map declared) := by
  have hfit : d.instructions.length ≤ 32768 := d.instructions_fit
  have hcode := code_payload_lt (d := d)
  have htable := table_payload_lt (d := d)
  have hsmall : ¬ (0xffffffff - 4) / 12 < d.instructions.length := by omega
  have hlen : d.values.length = d.constants.length := by simp [values]
  simp only [ImageSection.payload, encodeItems, List.length_append, length_le, length_code] at hcode htable
  unfold writtenSections image
  rw [if_neg (by simp [h, not_tooLong, hsmall]), hlen, payload_sizes, written_constants, Nat.mod_eq_of_lt hcode,
    Nat.mod_eq_of_lt htable]
  by_cases hc : 0 < d.constants.length
  · simp only [if_pos hc, List.map_cons, List.map_nil, declared, ImageSection.sectionType, ImageSection.payload,
      encodeItems, List.length_append, length_le, length_code, List.length_map]
    rfl
  · simp only [if_neg hc, List.map_cons, List.map_nil, declared, ImageSection.sectionType, ImageSection.payload,
      encodeItems, List.length_append, length_le, length_code]
    rfl

theorem declared_bytes (s : ImageSection) : (declared s).bytes = s.encode := rfl

theorem writeProgramAsAibc1_values (h : d.instructions ≠ []) :
    writeProgramAsAibc1 d.instructions d.values = some d.image.encode := by
  unfold writeProgramAsAibc1
  rw [writtenSections_values h]
  simp only [Option.bind_eq_bind, Option.bind_some, Option.pure_def, List.length_map, List.flatMap_map, Image.encode,
    Image.encodeHeader, declared_bytes, List.append_assoc]
  rfl

/-! ## Round trips -/

/-- What is written for a draft declares its sizes correctly and loads back. -/
def WritesBack (host : LoadHost) (d : Draft) : Prop :=
  (∀ sections, writtenSections d.instructions d.values = some sections →
    ∀ s ∈ sections, s.declaredSize = s.payload.length) ∧
  ∀ bytes, writeProgramAsAibc1 d.instructions d.values = some bytes → ∀ outProgram,
    ∃ p, loadProgram host bytes outProgram = .ok p ∧ p.instructions = d.instructions ∧ p.constants = d.values

theorem spelled_values_iff :
    (d.constants.map Literal.spelled).map Constant.value = d.values ↔ ∀ c ∈ d.constants, c.isNode = false := by
  unfold values
  rw [List.map_map, List.map_inj_left]
  exact forall₂_congr fun c _ => c.spelled_value_eq_iff

theorem writesBack_iff (host : LoadHost) (h : d.instructions ≠ []) :
    d.WritesBack host ↔ ∀ c ∈ d.constants, c.isNode = false := by
  have hload : ∀ outProgram, loadProgram host d.image.encode outProgram = .ok d.image.record := fun _ =>
    loadProgram_ok_iff.2 ⟨d.image, image_holds host, rfl⟩
  have hshown := (image_holds (d := d) host).shownBy
  rw [← spelled_values_iff]
  constructor
  · rintro ⟨_, hback⟩
    obtain ⟨p, hp, _, hconstants⟩ := hback _ (writeProgramAsAibc1_values h) emptyRecord
    rw [hload, Parse.ok.injEq] at hp
    rw [← hconstants, ← hp, hshown.constants, image_table]
  · intro hvalues
    constructor
    · intro sections hsections s hs
      rw [writtenSections_values h, Option.some.injEq] at hsections
      rw [← hsections] at hs
      obtain ⟨section_, _, rfl⟩ := List.mem_map.1 hs
      rfl
    · intro bytes hbytes outProgram
      rw [writeProgramAsAibc1_values h, Option.some.injEq] at hbytes
      subst hbytes
      refine ⟨_, hload outProgram, ?_, ?_⟩
      · rw [hshown.instructions, image_code]
      · rw [hshown.constants, image_table, hvalues]

end Draft

end Aivm
