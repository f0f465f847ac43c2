import Aivm.Lib.ByteReader
import Aivm.Machine.Tasks

/-!
# Batches of worker tasks

`validate_batch` walks over a batch with checks, and `aivm_vm_submit_worker_tasks` walks over its copy of an accepted
batch without any. The batches that are accepted are the lists of framed payloads, and the second walk records them.
-/

namespace Aivm.Batches

open ByteReader

/-- A bytes value: its length is a `size_t`. -/
abbrev BytesValue := { data : List Byte // data.length < 2 ^ 64 }

/-! ## Both walks -/

/-- `read_batch_u32`. -/
def readBatchU32 (bytes : List Byte) (offset : Nat) : Parse Fault Nat := readLe bytes 4 offset

/-- The loop of `validate_batch`. -/
def validateLoop (bytes : List Byte) : Nat → Nat → Nat → Parse Fault Nat
  | fuel, offset, count =>
      if bytes.length ≤ offset then .ok count
      else
        match fuel with
        | 0 => .outOfFuel
        | fuel + 1 =>
            if bytes.length - offset < 4 then
              .fail ⟨.invalidProgram, "WORKER_RUN_ALL batch framing is truncated."⟩
            else do
              let length ← readBatchU32 bytes offset
              if bytes.length - (offset + 4) < length then
                .fail ⟨.invalidProgram, "WORKER_RUN_ALL batch payload is truncated."⟩
              else if count = 2 ^ 64 - 1 then
                .fail ⟨.memoryPressure, "WORKER_RUN_ALL logical task count overflow."⟩
              else validateLoop bytes fuel (offset + 4 + length) (count + 1)

/-- `validate_batch`: the number of payloads. -/
def validateBatch (data : BytesValue) : Parse Fault Nat := do
  let count ← validateLoop data.1 data.1.length 0 0
  if count = 0 then .fail ⟨.invalidProgram, "WORKER_RUN_ALL requires at least one payload."⟩
  else return count

/-- An entry of `payload_offsets` and of `payload_lengths`. -/
structure PayloadEntry where
  offset : Nat
  length : Nat
deriving DecidableEq, Repr

/-- The second walk, with arrays of `capacity` entries. It has no checks, so that offsets may wrap around. -/
def recordLoop (bytes : List Byte) (capacity : Nat) : Nat → Nat → List PayloadEntry → Parse Fault (List PayloadEntry)
  | fuel, offset, entries =>
      if bytes.length ≤ offset then .ok entries
      else
        match fuel with
        | 0 => .outOfFuel
        | fuel + 1 => do
            let length ← readBatchU32 bytes offset
            if capacity ≤ entries.length then .outOfBounds
            else
              let start := (offset + 4) % 2 ^ 64
              recordLoop bytes capacity fuel ((start + length) % 2 ^ 64) (entries ++ [⟨start, length⟩])

/-- What `aivm_vm_submit_worker_tasks` records of a batch with so many payloads. -/
def recordBatch (data : BytesValue) (count : Nat) : Parse Fault (List PayloadEntry) :=
  recordLoop data.1 count data.1.length 0 []

/-! ## Framed payloads -/

/-- A payload behind its length. -/
def batchFrame (payload : List Byte) : List Byte := le 4 payload.length ++ payload

/-- The bytes are these payloads, each in its frame. -/
def IsBatch (payloads : List (List Byte)) (bytes : List Byte) : Prop :=
  (∀ payload ∈ payloads, payload.length < 2 ^ 32) ∧ bytes = payloads.flatMap batchFrame

/-- Where the payloads of a batch stand. -/
def entriesFrom : Nat → List (List Byte) → List PayloadEntry
  | _, [] => []
  | offset, payload :: payloads => ⟨offset + 4, payload.length⟩ :: entriesFrom (offset + 4 + payload.length) payloads

/-- The bytes that an entry stands for. -/
def PayloadEntry.slice (bytes : List Byte) (e : PayloadEntry) : List Byte := (bytes.drop e.offset).take e.length

@[simp] theorem length_batchFrame (payload : List Byte) : (batchFrame payload).length = 4 + payload.length := by
  simp [batchFrame]

theorem isBatch_nil {bytes : List Byte} : IsBatch [] bytes ↔ bytes = [] := by
  simp [IsBatch]

theorem isBatch_cons {payload : List Byte} {payloads : List (List Byte)} {bytes : List Byte} :
    IsBatch (payload :: payloads) bytes ↔
      payload.length < 2 ^ 32 ∧ ∃ rest, bytes = batchFrame payload ++ rest ∧ IsBatch payloads rest := by
  simp only [IsBatch, List.mem_cons, forall_eq_or_imp, List.flatMap_cons]
  constructor
  · rintro ⟨⟨hp, hps⟩, rfl⟩
    exact ⟨hp, _, rfl, hps, rfl⟩
  · rintro ⟨hp, _, rfl, hps, rfl⟩
    exact ⟨⟨hp, hps⟩, rfl⟩

theorem isBatch_empty {payloads : List (List Byte)} : IsBatch payloads [] ↔ payloads = [] := by
  cases payloads with
  | nil => simp [IsBatch]
  | cons payload payloads =>
      simp only [reduceCtorEq, iff_false, isBatch_cons]
      rintro ⟨-, rest, hbytes, -⟩
      have hlength := congrArg List.length hbytes
      simp only [List.length_nil, List.length_append, length_batchFrame] at hlength
      omega

/-- The first frame of a batch, and what follows it. -/
theorem batchFrame_split {bytes : List Byte} (h : 4 ≤ bytes.length) (hlength : ofLe (bytes.take 4) ≤ (bytes.drop 4).length) :
    bytes = batchFrame ((bytes.drop 4).take (ofLe (bytes.take 4))) ++ (bytes.drop 4).drop (ofLe (bytes.take 4)) := by
  have hfour : (bytes.take 4).length = 4 := by
    rw [List.length_take]
    omega
  have hpayload : ((bytes.drop 4).take (ofLe (bytes.take 4))).length = ofLe (bytes.take 4) := by
    rw [List.length_take]
    omega
  have hfield : le 4 (ofLe (bytes.take 4)) = bytes.take 4 := by
    have hle := le_ofLe (bytes.take 4)
    rwa [hfour] at hle
  rw [batchFrame, hpayload, hfield, List.append_assoc, List.take_append_drop, List.take_append_drop]

theorem take_batchFrame {payload rest : List Byte} (h : payload.length < 2 ^ 32) :
    ofLe ((batchFrame payload ++ rest).take 4) = payload.length ∧ (batchFrame payload ++ rest).drop 4 = payload ++ rest := by
  have htake : (batchFrame payload ++ rest).take 4 = le 4 payload.length := by
    rw [batchFrame, List.append_assoc, List.take_left' (length_le _ _)]
  have hdrop : (batchFrame payload ++ rest).drop 4 = payload ++ rest := by
    rw [batchFrame, List.append_assoc, List.drop_left' (length_le _ _)]
  exact ⟨by rw [htake, ofLe_le (by omega)], hdrop⟩

theorem parseBatch_nil (fuel : Nat) : parseBatch fuel [] = .ok [] := by
  cases fuel <;> rfl

/-- One frame of the parser of the machine. -/
theorem parseBatch_succ (fuel : Nat) {bytes : List Byte} (h : bytes ≠ []) : parseBatch (fuel + 1) bytes =
    if bytes.length < 4 then .error ⟨.invalidProgram, "WORKER_RUN_ALL batch framing is truncated."⟩
    else if (bytes.drop 4).length < ofLe (bytes.take 4) then
      .error ⟨.invalidProgram, "WORKER_RUN_ALL batch payload is truncated."⟩
    else
      (parseBatch fuel ((bytes.drop 4).drop (ofLe (bytes.take 4)))).map
        fun payloads => (bytes.drop 4).take (ofLe (bytes.take 4)) :: payloads := by
  cases bytes with
  | nil => exact absurd rfl h
  | cons b bytes =>
      rw [parseBatch]
      · rfl
      · simp

/-- The parser of the machine accepts exactly the batches. -/
theorem parseBatch_ok : ∀ {fuel : Nat} {bytes : List Byte} {payloads}, bytes.length ≤ fuel →
    (parseBatch fuel bytes = .ok payloads ↔ IsBatch payloads bytes) := by
  intro fuel
  induction fuel with
  | zero =>
      intro bytes payloads hfuel
      have hnil : bytes = [] := List.length_eq_zero_iff.1 (by omega)
      subst hnil
      rw [isBatch_empty, parseBatch_nil]
      simp [eq_comm]
  | succ fuel ih =>
      intro bytes payloads hfuel
      by_cases hnil : bytes = []
      · subst hnil
        rw [isBatch_empty, parseBatch_nil]
        simp [eq_comm]
      have hpos := List.length_pos_iff.2 hnil
      rw [parseBatch_succ fuel hnil]
      constructor
      · intro h
        split at h
        · cases h
        rename_i hfour
        split at h
        · cases h
        rename_i hlength
        cases hrest : parseBatch fuel ((bytes.drop 4).drop (ofLe (bytes.take 4))) with
        | error f =>
            rw [hrest] at h
            cases h
        | ok rest =>
            rw [hrest] at h
            cases h
            have hlt := ofLe_lt (bytes.take 4)
            rw [List.length_take, Nat.min_eq_left (by omega)] at hlt
            refine isBatch_cons.2 ⟨?_, _, batchFrame_split (by omega) (by omega), (ih ?_).1 hrest⟩
            · rw [List.length_take]
              omega
            · simp only [List.length_drop]
              omega
      · intro h
        cases payloads with
        | nil => exact absurd (isBatch_nil.1 h) hnil
        | cons payload payloads =>
            obtain ⟨hpayload, rest, rfl, hrest⟩ := isBatch_cons.1 h
            obtain ⟨hof, hdrop⟩ := @take_batchFrame payload rest hpayload
            simp only [List.length_append, length_batchFrame] at hfuel
            have hparse := (@ih rest payloads (by omega)).2 hrest
            rw [hof, hdrop, if_neg (by simp; omega), if_neg (by simp), List.drop_left, List.take_left, hparse]
            rfl

/-- How many payloads there are in all, some of which have been counted. -/
def countParsed (count : Nat) : Except Fault (List (List Byte)) → Parse Fault Nat
  | .ok payloads => .ok (count + payloads.length)
  | .error f => .fail f

/-- The first walk counts what the parser of the machine finds. -/
theorem validateLoop_eq {bytes : List Byte} (hsize : bytes.length < 2 ^ 64) : ∀ {fuel offset count},
    bytes.length - offset ≤ fuel → count ≤ offset →
      validateLoop bytes fuel offset count = countParsed count (parseBatch fuel (bytes.drop offset)) := by
  intro fuel
  induction fuel with
  | zero =>
      intro offset count hfuel _
      rw [validateLoop, if_pos (by omega), List.drop_of_length_le (by omega), parseBatch_nil]
      rfl
  | succ fuel ih =>
      intro offset count hfuel hcount
      rw [validateLoop]
      by_cases hend : bytes.length ≤ offset
      · rw [if_pos hend, List.drop_of_length_le hend, parseBatch_nil]
        rfl
      · have hne : bytes.drop offset ≠ [] := by
          simp only [ne_eq, List.drop_eq_nil_iff]
          omega
        rw [if_neg hend, parseBatch_succ fuel hne, List.length_drop]
        by_cases hfour : bytes.length - offset < 4
        · simp only [if_pos hfour, countParsed]
        · have hread : readBatchU32 bytes offset = .ok (ofLe ((bytes.drop offset).take 4)) := by
            have hinside : offset + 4 ≤ bytes.length := by omega
            simp [readBatchU32, readLe, readBytes, hinside]
          simp only [if_neg hfour, hread, Parse.ok_bind, List.length_drop, List.drop_drop]
          by_cases hlength : bytes.length - (offset + 4) < ofLe ((bytes.drop offset).take 4)
          · simp only [if_pos hlength, countParsed]
          · have hmore : ¬ count = 2 ^ 64 - 1 := by omega
            simp only [if_neg hlength, if_neg hmore]
            rw [ih (by omega) (by omega)]
            cases parseBatch fuel (bytes.drop (offset + 4 + ofLe ((bytes.drop offset).take 4))) with
            | error f => rfl
            | ok payloads => simp [countParsed, Except.map]; omega

/-- The second walk records where the payloads stand. -/
theorem recordLoop_ok {bytes : List Byte} (hsize : bytes.length < 2 ^ 64) {capacity : Nat} :
    ∀ {payloads fuel offset entries}, bytes.length - offset ≤ fuel → offset ≤ bytes.length →
      IsBatch payloads (bytes.drop offset) → entries.length + payloads.length ≤ capacity →
      recordLoop bytes capacity fuel offset entries = .ok (entries ++ entriesFrom offset payloads) := by
  intro payloads
  induction payloads with
  | nil =>
      intro fuel offset entries _ _ hbatch _
      have hend := List.drop_eq_nil_iff.1 (isBatch_nil.1 hbatch)
      cases fuel <;> simp [recordLoop, hend, entriesFrom]
  | cons payload payloads ih =>
      intro fuel offset entries hfuel hoffset hbatch hcapacity
      obtain ⟨hpayload, rest, hbytes, hrest⟩ := isBatch_cons.1 hbatch
      have hlength := congrArg List.length hbytes
      simp only [List.length_drop, List.length_append, length_batchFrame] at hlength
      cases fuel with
      | zero => omega
      | succ fuel =>
          have hread : readBatchU32 bytes offset = .ok payload.length := by
            have hinside : offset + 4 ≤ bytes.length := by omega
            simp [readBatchU32, readLe, readBytes, hinside, hbytes, (take_batchFrame hpayload).1]
          have hdrop : bytes.drop (offset + 4 + payload.length) = rest := by
            rw [Nat.add_assoc, ← List.drop_drop, hbytes]
            exact List.drop_left' (length_batchFrame payload)
          simp only [List.length_cons] at hcapacity
          rw [recordLoop, if_neg (by omega)]
          simp only [hread, Parse.ok_bind]
          rw [if_neg (by omega), Nat.mod_eq_of_lt (by omega), Nat.mod_eq_of_lt (by omega),
            ih (by omega) (by omega) (hdrop ▸ hrest) (by simp; omega)]
          simp [entriesFrom]

/-- The entries stand for the payloads. -/
theorem slice_entriesFrom {bytes : List Byte} : ∀ {payloads offset}, IsBatch payloads (bytes.drop offset) →
    (entriesFrom offset payloads).map (PayloadEntry.slice bytes) = payloads := by
  intro payloads
  induction payloads with
  | nil => simp [entriesFrom]
  | cons payload payloads ih =>
      intro offset hbatch
      obtain ⟨hpayload, rest, hbytes, hrest⟩ := isBatch_cons.1 hbatch
      have hslice : (bytes.drop (offset + 4)).take payload.length = payload := by
        rw [← List.drop_drop, hbytes, (take_batchFrame hpayload).2, List.take_left]
      have hdrop : bytes.drop (offset + 4 + payload.length) = rest := by
        rw [Nat.add_assoc, ← List.drop_drop, hbytes]
        exact List.drop_left' (length_batchFrame payload)
      rw [entriesFrom, List.map_cons, ih (hdrop ▸ hrest), PayloadEntry.slice, hslice]

/-! ## Both walks agree -/

/-- The machine takes the payloads that the first walk has counted, and fails as it does. -/
theorem validateBatch_eq (data : BytesValue) :
    validateBatch data = countParsed 0 (Aivm.validateBatch data.1) := by
  have hloop := @validateLoop_eq data.1 data.2 data.1.length 0 0 (by omega) (by omega)
  rw [List.drop_zero] at hloop
  rw [validateBatch, hloop, Aivm.validateBatch]
  cases parseBatch data.1.length data.1 with
  | error f => rfl
  | ok payloads =>
      cases payloads with
      | nil => rfl
      | cons payload payloads => simp [countParsed]

/-- The machine accepts one frame or more. -/
theorem accepted_iff (data : BytesValue) {payloads : List (List Byte)} :
    Aivm.validateBatch data.1 = .ok payloads ↔ payloads ≠ [] ∧ IsBatch payloads data.1 := by
  have hparse := @parseBatch_ok data.1.length data.1 payloads (Nat.le_refl _)
  rw [← hparse, Aivm.validateBatch]
  cases parseBatch data.1.length data.1 with
  | error f => simp
  | ok found =>
      cases found with
      | nil =>
          constructor
          · intro h
            cases h
          · rintro ⟨hne, h⟩
            cases h
            exact absurd rfl hne
      | cons payload found =>
          constructor
          · intro h
            cases h
            simp
          · exact And.right

theorem countParsed_ok {found : Except Fault (List (List Byte))} {count : Nat} :
    countParsed 0 found = .ok count ↔ ∃ payloads, found = .ok payloads ∧ count = payloads.length := by
  cases found <;> simp [countParsed, eq_comm]

theorem countParsed_proper (count : Nat) (found : Except Fault (List (List Byte))) :
    (countParsed count found).Proper := by
  cases found <;> simp [countParsed]

theorem length_entriesFrom : ∀ (offset : Nat) (payloads : List (List Byte)),
    (entriesFrom offset payloads).length = payloads.length
  | _, [] => rfl
  | offset, payload :: payloads => by simp [entriesFrom, length_entriesFrom]

/-- A batch is accepted if it is one or more frames. No byte outside is read. What is recorded of an accepted batch is
where its payloads stand, in order, and there are as many entries as were counted. -/
structure ParsedExactly (data : BytesValue) : Prop where
  accepts : ∀ count, validateBatch data = .ok count ↔
    ∃ payloads, payloads ≠ [] ∧ IsBatch payloads data.1 ∧ count = payloads.length
  proper : (validateBatch data).Proper
  recorded : ∀ count, validateBatch data = .ok count → ∃ payloads entries, IsBatch payloads data.1 ∧
    recordBatch data count = .ok entries ∧ entries = entriesFrom 0 payloads ∧ entries.length = count ∧
    entries.map (PayloadEntry.slice data.1) = payloads

/-- Worker batch framing is parsed exactly, by both walks. -/
theorem parsedExactly (data : BytesValue) : ParsedExactly data := by
  have haccepts : ∀ count, validateBatch data = .ok count ↔
      ∃ payloads, payloads ≠ [] ∧ IsBatch payloads data.1 ∧ count = payloads.length := by
    intro count
    rw [validateBatch_eq, countParsed_ok]
    simp only [accepted_iff, and_assoc]
  constructor
  · exact haccepts
  · rw [validateBatch_eq]
    exact countParsed_proper _ _
  · intro count h
    obtain ⟨payloads, -, hbatch, rfl⟩ := (haccepts count).1 h
    have hrecord := @recordLoop_ok data.1 data.2 payloads.length payloads data.1.length 0 [] (by omega) (by omega)
      (by simpa using hbatch) (by simp)
    have hslice := @slice_entriesFrom data.1 payloads 0 (by simpa using hbatch)
    exact ⟨payloads, _, hbatch, by simpa [recordBatch] using hrecord, rfl, length_entriesFrom 0 payloads, hslice⟩

end Aivm.Batches
