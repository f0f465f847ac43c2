import Aivm.Program.Format

/-!
# What the loader accepts

For each part of the loader, the byte strings on which it succeeds, and what it then leaves in the record.
-/

namespace Aivm

open ByteReader Parse

variable {host : LoadHost} {bytes : List Byte} {load : List Byte → Parse LoadFailure ProgramRecord}
variable {p q : ProgramRecord}

@[simp] theorem loadError_ne_ok {α status offset} {a : α} : loadError status offset p ≠ .ok a := by
  simp [loadError]

@[simp] theorem constantLoadError_ne_ok {α status offset} {a : α} : constantLoadError status offset p ≠ .ok a := by
  simp [constantLoadError]

@[simp] theorem loadError_proper {α status offset} : (loadError status offset p : Parse LoadFailure α).Proper := trivial

@[simp] theorem constantLoadError_proper {α status offset} :
    (constantLoadError status offset p : Parse LoadFailure α).Proper := trivial

/-! ## Instructions -/

theorem length_flatMap_const {α : Type} {f : α → List Byte} {n : Nat} (hf : ∀ a, (f a).length = n) (xs : List α) :
    (xs.flatMap f).length = xs.length * n := by
  induction xs with
  | nil => simp
  | cons x xs ih =>
      simp only [List.flatMap_cons, List.length_append, hf, ih, List.length_cons, Nat.add_mul]
      omega

theorem ctorIdx_ofNat_opcode {n : Nat} (h : n ≤ opMax) : (Opcode.ofNat n).ctorIdx = n := by
  have hall : ∀ n : Fin 93, (Opcode.ofNat n).ctorIdx = n := by decide
  exact hall ⟨n, Nat.lt_succ_of_le h⟩

theorem ctorIdx_opcode_le (o : Opcode) : o.ctorIdx ≤ opMax := by
  cases o <;> decide

@[simp] theorem Instruction.length_encode (i : Instruction) : i.encode.length = 12 := by
  simp [encode]

theorem loadInstructions_ok {count cursor is} (hc : cursor ≤ bytes.length) :
    loadInstructions bytes p count cursor = .ok is ↔
      is.length = count ∧ (∀ i ∈ is, i.Wf) ∧ At bytes cursor (is.flatMap Instruction.encode) := by
  induction count generalizing cursor is with
  | zero =>
      simp only [loadInstructions, pure_eq, ok.injEq, List.length_eq_zero_iff]
      constructor
      · rintro rfl
        simpa [at_nil] using hc
      · rintro ⟨rfl, _⟩
        rfl
  | succ count ih =>
      simp only [loadInstructions, bind_ok, readLe_ok, ite_ok loadError_ne_ok, pure_eq, ok.injEq]
      constructor
      · rintro ⟨raw, ⟨hraw, _⟩, operand, ⟨hoperand, hlt⟩, hop, rest, hrest, rfl⟩
        have hend := hoperand.le
        rw [length_le] at hend
        obtain ⟨hlen, hwf, hat⟩ := (ih (by omega)).1 hrest
        have hcode : Instruction.encode ⟨Opcode.ofNat raw, toI64 operand⟩ = le 4 raw ++ le 8 operand := by
          simp [Instruction.encode, ctorIdx_ofNat_opcode (Nat.le_of_not_lt hop), ofI64_toI64 hlt]
        simp only [List.length_cons, hlen, List.forall_mem_cons, List.flatMap_cons, hcode, at_append, length_le,
          List.length_append]
        exact ⟨trivial, ⟨toI64_isI64 hlt, hwf⟩, ⟨hraw, hoperand⟩, hat⟩
      · rintro ⟨hlen, hwf, hat⟩
        cases is with
        | nil => simp at hlen
        | cons i is =>
            simp only [List.length_cons, Nat.add_right_cancel_iff] at hlen
            simp only [List.forall_mem_cons] at hwf
            rw [List.flatMap_cons, at_append, Instruction.length_encode] at hat
            obtain ⟨hi, hrest⟩ := hat
            unfold Instruction.encode at hi
            rw [at_append, length_le] at hi
            have hop := ctorIdx_opcode_le i.opcode
            have hend := hi.2.le
            rw [length_le] at hend
            refine ⟨i.opcode.ctorIdx, ⟨hi.1, by unfold opMax at hop; omega⟩, ofI64 i.operandInt,
              ⟨hi.2, ofI64_lt _⟩, by omega, is, (ih (by omega)).2 ⟨hlen, hwf.2, hrest⟩, ?_⟩
            rw [Opcode.ofNat_ctorIdx, toI64_ofI64 hwf.1]

/-- The record after storage for `count` instructions was granted. -/
def ownInstructions (count : Nat) (p : ProgramRecord) : ProgramRecord :=
  { p with allocatedInstructionStorage := p.allocatedInstructionStorage || programInlineInstructions < count }

theorem instructionsReserve_some {count} : instructionsReserve host bytes count p = some q ↔
    (count ≤ programInlineInstructions ∨ host.instructions bytes count) ∧ q = ownInstructions count p := by
  unfold instructionsReserve ownInstructions
  cases p
  grind

theorem loadInstructionSection_ok {start size} (hend : start + size ≤ bytes.length) :
    loadInstructionSection host bytes start size p = .ok q ↔
      ∃ is : List Instruction, (∀ i ∈ is, i.Wf) ∧ is.length < 2 ^ 32 ∧
        (is.length ≤ programInlineInstructions ∨ host.instructions bytes is.length) ∧
        At bytes start (encodeItems Instruction.encode is) ∧ size = (encodeItems Instruction.encode is).length ∧
        q = { ownInstructions is.length p with instructions := is } := by
  simp only [loadInstructionSection, ite_ok loadError_ne_ok, bind_ok, readLe_ok]
  constructor
  · rintro ⟨hsize, count, ⟨hcount, hlt⟩, hfill, h⟩
    split at h
    · simp at h
    · rename_i p' hreserve
      obtain ⟨hgranted, rfl⟩ := instructionsReserve_some.1 hreserve
      simp only [bind_ok, pure_eq, ok.injEq] at h
      obtain ⟨is, his, rfl⟩ := h
      obtain ⟨rfl, hwf, hat⟩ := (loadInstructions_ok (by omega)).1 his
      refine ⟨is, hwf, hlt, hgranted, ?_, ?_, rfl⟩
      · rw [encodeItems, at_append, length_le]
        exact ⟨hcount, hat⟩
      · simp only [encodeItems, List.length_append, length_le, length_flatMap_const Instruction.length_encode]
        omega
  · rintro ⟨is, hwf, hlt, hgranted, hat, rfl, rfl⟩
    rw [encodeItems, at_append, length_le] at hat
    simp only [encodeItems, List.length_append, length_le, length_flatMap_const Instruction.length_encode] at hend ⊢
    refine ⟨by omega, is.length, ⟨hat.1, hlt⟩, by omega, ?_⟩
    rw [instructionsReserve_some.2 ⟨hgranted, rfl⟩]
    simp only [bind_ok]
    exact ⟨is, (loadInstructions_ok (by omega)).2 ⟨rfl, hwf, hat.2⟩, rfl⟩

/-! ## Constants -/

/-- The storage a run of constants takes. -/
def storeConstants (cs : List Constant) (p : ProgramRecord) : ProgramRecord :=
  { p with
    stringStorageUsed := p.stringStorageUsed + (cs.map Constant.textSize).sum
    bytesStorageUsed := p.bytesStorageUsed + (cs.map Constant.dataSize).sum }

/-- The storage is within its limits. -/
def StorageFits (p : ProgramRecord) : Prop :=
  p.stringStorageUsed ≤ programMaxStringBytes ∧ p.bytesStorageUsed ≤ programMaxBytesStorage

theorem constantRoom_ok {sectionEnd cursor count u} :
    constantRoom sectionEnd cursor count p = .ok u ↔ cursor + count ≤ sectionEnd := by
  unfold constantRoom
  rw [ite_ok constantLoadError_ne_ok]
  simp

theorem readLe_byte {ε : Type} {cursor n} :
    (readLe bytes 1 cursor : Parse ε Nat) = .ok n ↔ ∃ b : Byte, At bytes cursor [b] ∧ n = b.toNat := by
  rw [readLe_ok]
  constructor
  · rintro ⟨hat, hn⟩
    refine ⟨UInt8.ofNat n, hat, ?_⟩
    rw [UInt8.toNat_ofNat']
    omega
  · rintro ⟨b, hat, rfl⟩
    have hb := b.toNat_lt
    simp only [le, UInt8.ofNat_toNat]
    exact ⟨hat, by omega⟩

theorem at_cons {cursor b e} : At bytes cursor (b :: e) ↔ At bytes cursor [b] ∧ At bytes (cursor + 1) e :=
  at_append (e := [b])

theorem loadConstant_sound {sectionEnd cursor v next} (hp : StorageFits p)
    (h : loadConstant bytes sectionEnd cursor p = .ok (v, next, q)) :
    ∃ c : Constant, c.Wf ∧ At bytes cursor c.encode ∧ next = cursor + c.encode.length ∧ next ≤ sectionEnd ∧
      v = c.value ∧ q = storeConstants [c] p ∧ StorageFits q := by
  unfold loadConstant at h
  simp only [ite_ok constantLoadError_ne_ok, bind_ok, readLe_byte] at h
  obtain ⟨hroom, kind, ⟨b, hb, rfl⟩, h⟩ := h
  have hkind : ∀ {n : Nat}, n < 256 → b.toNat = n → b = UInt8.ofNat n := fun _ hb => hb ▸ UInt8.ofNat_toNat.symm
  split at h
  · rename_i hk
    obtain rfl := hkind (by decide) hk
    simp only [bind_ok, constantRoom_ok, readLe_ok, pure_eq, ok.injEq, Prod.mk.injEq] at h
    obtain ⟨_, hfit, bits, ⟨hat, hlt⟩, rfl, rfl, rfl⟩ := h
    refine ⟨.int (toI64 bits), toI64_isI64 hlt, ?_, by simp [Constant.encode], by omega, rfl, rfl, hp⟩
    rw [Constant.encode, ofI64_toI64 hlt, at_cons]
    exact ⟨hb, hat⟩
  · split at h
    · rename_i hk
      obtain rfl := hkind (by decide) hk
      simp only [bind_ok, constantRoom_ok, readLe_ok, pure_eq, ok.injEq, Prod.mk.injEq] at h
      obtain ⟨_, hfit, bits, ⟨hat, hlt⟩, rfl, rfl, rfl⟩ := h
      refine ⟨.number (UInt64.ofNat bits), trivial, ?_, by simp [Constant.encode], by omega, rfl, rfl, hp⟩
      rw [Constant.encode, UInt64.toNat_ofNat', Nat.mod_eq_of_lt (by omega), at_cons]
      exact ⟨hb, hat⟩
    · split at h
      · rename_i hk
        obtain rfl := hkind (by decide) hk
        simp only [bind_ok, constantRoom_ok, readLe_byte, pure_eq, ok.injEq, Prod.mk.injEq] at h
        obtain ⟨_, hfit, _, ⟨byte, hat, rfl⟩, rfl, rfl, rfl⟩ := h
        refine ⟨.bool byte, trivial, at_cons.2 ⟨hb, hat⟩, rfl, by omega, ?_, rfl, hp⟩
        simp [Constant.value, ← UInt8.toNat_inj]
      · split at h
        · rename_i hk
          obtain rfl := hkind (by decide) hk
          cases h
          exact ⟨.null, trivial, hb, rfl, by omega, rfl, rfl, hp⟩
        · split at h
          · rename_i hk
            obtain rfl := hkind (by decide) hk
            simp only [bind_ok, constantRoom_ok, readLe_ok, readBytes_ok, ite_ok constantLoadError_ne_ok, pure_eq,
              ok.injEq, Prod.mk.injEq] at h
            obtain ⟨_, hfit, length, ⟨hlength, _⟩, _, hfit', hlimit, text, ⟨htext, rfl⟩, rfl, rfl, rfl⟩ := h
            refine ⟨.string text, trivial, ?_, by simp [Constant.encode]; omega, by omega, rfl, ?_, ?_⟩
            · rw [Constant.encode, at_cons, at_append, length_le]
              exact ⟨hb, hlength, htext⟩
            · simp [storeConstants, Constant.textSize, Constant.dataSize]
              omega
            · exact ⟨by simp only; omega, hp.2⟩
          · split at h
            · rename_i hk
              obtain rfl := hkind (by decide) hk
              cases h
              exact ⟨.void, trivial, hb, rfl, by omega, rfl, rfl, hp⟩
            · split at h
              · rename_i hk
                obtain rfl := hkind (by decide) hk
                simp only [bind_ok, constantRoom_ok, readLe_ok, readBytes_ok, ite_ok constantLoadError_ne_ok, pure_eq,
                  ok.injEq, Prod.mk.injEq] at h
                obtain ⟨_, hfit, length, ⟨hlength, _⟩, _, hfit', hlimit, data, ⟨hdata, rfl⟩, rfl, rfl, rfl⟩ := h
                refine ⟨.bytes data, trivial, ?_, by simp [Constant.encode]; omega, by omega, rfl, ?_, ?_⟩
                · rw [Constant.encode, at_cons, at_append, length_le]
                  exact ⟨hb, hlength, hdata⟩
                · simp [storeConstants, Constant.textSize, Constant.dataSize]
                · exact ⟨hp.1, by simp only; omega⟩
              · simp at h

theorem loadConstant_complete {sectionEnd cursor} {c : Constant} (hwf : c.Wf) (hat : At bytes cursor c.encode)
    (hend : cursor + c.encode.length ≤ sectionEnd) (hfits : StorageFits (storeConstants [c] p)) :
    loadConstant bytes sectionEnd cursor p = .ok (c.value, cursor + c.encode.length, storeConstants [c] p) := by
  have hpos : 0 < c.encode.length := by cases c <;> simp [Constant.encode]
  unfold loadConstant
  simp only [ite_ok constantLoadError_ne_ok, bind_ok, readLe_byte]
  refine ⟨by omega, ?_⟩
  cases c with
  | int value =>
      rw [Constant.encode, at_cons] at hat
      simp only [Constant.encode, List.length_cons, length_le] at hend
      refine ⟨1, ⟨1, hat.1, rfl⟩, ?_⟩
      simp only [↓reduceIte, bind_ok, constantRoom_ok, readLe_ok]
      refine ⟨(), by omega, ofI64 value, ⟨hat.2, ofI64_lt _⟩, ?_⟩
      simp [toI64_ofI64 hwf, Constant.value, Constant.encode, storeConstants, Constant.textSize, Constant.dataSize]
  | bool byte =>
      rw [Constant.encode, at_cons] at hat
      simp only [Constant.encode, List.length_cons, List.length_nil] at hend
      refine ⟨2, ⟨2, hat.1, rfl⟩, ?_⟩
      simp only [Nat.reduceEqDiff, ↓reduceIte, bind_ok, constantRoom_ok, readLe_byte]
      refine ⟨(), by omega, byte.toNat, ⟨byte, hat.2, rfl⟩, ?_⟩
      simp [Constant.value, Constant.encode, storeConstants, Constant.textSize, Constant.dataSize, ← UInt8.toNat_inj]
  | string text =>
      rw [Constant.encode, at_cons, at_append, length_le] at hat
      simp only [Constant.encode, List.length_cons, List.length_append, length_le] at hend
      simp only [StorageFits, storeConstants, List.map_cons, List.map_nil, List.sum_cons, List.sum_nil,
        Constant.textSize, Constant.dataSize] at hfits
      have hmax : programMaxStringBytes = 65536 := rfl
      refine ⟨3, ⟨3, hat.1, rfl⟩, ?_⟩
      simp only [Nat.reduceEqDiff, ↓reduceIte, bind_ok, constantRoom_ok, readLe_ok, readBytes_ok,
        ite_ok constantLoadError_ne_ok]
      refine ⟨(), by omega, text.length, ⟨hat.2.1, by omega⟩, (), by omega, by omega, text, ⟨hat.2.2, rfl⟩, ?_⟩
      simp [Constant.value, Constant.encode, storeConstants, Constant.textSize, Constant.dataSize]
      omega
  | void =>
      refine ⟨4, ⟨4, hat, rfl⟩, ?_⟩
      simp [Constant.value, Constant.encode, storeConstants, Constant.textSize, Constant.dataSize]
  | bytes data =>
      rw [Constant.encode, at_cons, at_append, length_le] at hat
      simp only [Constant.encode, List.length_cons, List.length_append, length_le] at hend
      simp only [StorageFits, storeConstants, List.map_cons, List.map_nil, List.sum_cons, List.sum_nil,
        Constant.textSize, Constant.dataSize] at hfits
      have hmax : programMaxBytesStorage = 32768 := rfl
      refine ⟨5, ⟨5, hat.1, rfl⟩, ?_⟩
      simp only [Nat.reduceEqDiff, ↓reduceIte, bind_ok, constantRoom_ok, readLe_ok, readBytes_ok,
        ite_ok constantLoadError_ne_ok]
      refine ⟨(), by omega, data.length, ⟨hat.2.1, by omega⟩, (), by omega, by omega, data, ⟨hat.2.2, rfl⟩, ?_⟩
      simp [Constant.value, Constant.encode, storeConstants, Constant.textSize, Constant.dataSize]
      omega
  | null =>
      refine ⟨6, ⟨6, hat, rfl⟩, ?_⟩
      simp [Constant.value, Constant.encode, storeConstants, Constant.textSize, Constant.dataSize]
  | number bits =>
      rw [Constant.encode, at_cons] at hat
      simp only [Constant.encode, List.length_cons, length_le] at hend
      have hbits := bits.toNat_lt
      refine ⟨7, ⟨7, hat.1, rfl⟩, ?_⟩
      simp only [Nat.reduceEqDiff, ↓reduceIte, bind_ok, constantRoom_ok, readLe_ok]
      refine ⟨(), by omega, bits.toNat, ⟨hat.2, by omega⟩, ?_⟩
      simp [Constant.value, Constant.encode, storeConstants, Constant.textSize, Constant.dataSize]

theorem storeConstants_cons (c : Constant) (cs : List Constant) (p : ProgramRecord) :
    storeConstants (c :: cs) p = storeConstants cs (storeConstants [c] p) := by
  simp [storeConstants, Nat.add_assoc]

theorem StorageFits.of_store {cs} (h : StorageFits (storeConstants cs p)) : StorageFits p :=
  ⟨Nat.le_trans (Nat.le_add_right _ _) h.1, Nat.le_trans (Nat.le_add_right _ _) h.2⟩

theorem loadConstants_ok {sectionEnd count cursor vs next} (hp : StorageFits p) (hc : cursor ≤ sectionEnd)
    (hend : sectionEnd ≤ bytes.length) :
    loadConstants bytes sectionEnd count cursor p = .ok (vs, next, q) ↔
      ∃ cs : List Constant, cs.length = count ∧ (∀ c ∈ cs, c.Wf) ∧ At bytes cursor (cs.flatMap Constant.encode) ∧
        next = cursor + (cs.flatMap Constant.encode).length ∧ next ≤ sectionEnd ∧ vs = cs.map Constant.value ∧
          q = storeConstants cs p ∧ StorageFits q := by
  induction count generalizing cursor p q vs next with
  | zero =>
      simp only [loadConstants, pure_eq, ok.injEq, Prod.mk.injEq, List.length_eq_zero_iff]
      constructor
      · rintro ⟨rfl, rfl, rfl⟩
        exact ⟨[], rfl, by simp, at_nil.2 (by omega), rfl, hc, rfl, rfl, hp⟩
      · rintro ⟨cs, rfl, _, _, rfl, _, rfl, rfl, _⟩
        exact ⟨rfl, rfl, rfl⟩
  | succ count ih =>
      simp only [loadConstants, bind_ok, pure_eq, ok.injEq, Prod.mk.injEq]
      constructor
      · rintro ⟨⟨v, next₁, p₁⟩, hv, ⟨vs', next', q'⟩, hvs, rfl, rfl, rfl⟩
        obtain ⟨c, hwf, hat, rfl, hle, rfl, rfl, hfits⟩ := loadConstant_sound hp hv
        obtain ⟨cs, rfl, hwfs, hats, rfl, hles, rfl, rfl, hfits'⟩ := (ih hfits hle).1 hvs
        refine ⟨c :: cs, rfl, List.forall_mem_cons.2 ⟨hwf, hwfs⟩, ?_, ?_, hles, rfl, (storeConstants_cons ..).symm,
          hfits'⟩
        · rw [List.flatMap_cons, at_append]
          exact ⟨hat, hats⟩
        · simp [List.flatMap_cons, Nat.add_assoc]
      · rintro ⟨cs, hlen, hwf, hat, rfl, hle, rfl, rfl, hfits⟩
        cases cs with
        | nil => simp at hlen
        | cons c cs =>
            simp only [List.length_cons, Nat.add_right_cancel_iff] at hlen
            simp only [List.forall_mem_cons] at hwf
            rw [List.flatMap_cons, at_append] at hat
            rw [List.flatMap_cons, List.length_append] at hle
            rw [storeConstants_cons] at hfits ⊢
            have hle' : cursor + c.encode.length ≤ sectionEnd := by omega
            have hcs := (ih hfits.of_store hle').2 ⟨cs, hlen, hwf.2, hat.2, rfl, by omega, rfl, rfl, hfits⟩
            refine ⟨_, loadConstant_complete hwf.1 hat.1 hle' hfits.of_store, _, hcs, rfl, ?_, rfl⟩
            rw [List.flatMap_cons, List.length_append, Nat.add_assoc]

/-- The record after storage for `count` constants was granted. -/
def ownConstants (count : Nat) (p : ProgramRecord) : ProgramRecord :=
  { p with allocatedConstantStorage := p.allocatedConstantStorage || programInlineConstants < count }

theorem constantsReserve_some {count} : constantsReserve host bytes count p = some q ↔
    (count ≤ programInlineConstants ∨ host.constants bytes count) ∧ q = ownConstants count p := by
  unfold constantsReserve ownConstants
  cases p
  grind

theorem loadConstantSection_ok {start size} (hp : StorageFits p) (hend : start + size ≤ bytes.length) :
    loadConstantSection host bytes start size p = .ok q ↔
      ∃ cs : List Constant, (∀ c ∈ cs, c.Wf) ∧ cs.length < 2 ^ 32 ∧
        (cs.length ≤ programInlineConstants ∨ host.constants bytes cs.length) ∧
        At bytes start (encodeItems Constant.encode cs) ∧ size = (encodeItems Constant.encode cs).length ∧
        StorageFits (storeConstants cs p) ∧
        q = { storeConstants cs (ownConstants cs.length p) with constants := cs.map Constant.value } := by
  simp only [loadConstantSection, ite_ok loadError_ne_ok, bind_ok, readLe_ok]
  constructor
  · rintro ⟨hsize, count, ⟨hcount, hlt⟩, h⟩
    split at h
    · simp at h
    · rename_i p' hreserve
      obtain ⟨hgranted, rfl⟩ := constantsReserve_some.1 hreserve
      simp only [bind_ok] at h
      obtain ⟨⟨vs, next, p''⟩, hvs, h⟩ := h
      have hstart : start + 4 ≤ start + size := by omega
      have hp' : StorageFits (ownConstants count p) := hp
      obtain ⟨cs, rfl, hwf, hat, rfl, _, rfl, rfl, hfits⟩ := (loadConstants_ok hp' hstart hend).1 hvs
      simp only [ite_ok constantLoadError_ne_ok, not_not, pure_eq, ok.injEq] at h
      obtain ⟨hnext, rfl⟩ := h
      refine ⟨cs, hwf, hlt, hgranted, ?_, ?_, hfits, rfl⟩
      · rw [encodeItems, at_append, length_le]
        exact ⟨hcount, hat⟩
      · simp only [encodeItems, List.length_append, length_le]
        omega
  · rintro ⟨cs, hwf, hlt, hgranted, hat, rfl, hfits, rfl⟩
    rw [encodeItems, at_append, length_le] at hat
    simp only [encodeItems, List.length_append, length_le] at hend ⊢
    refine ⟨by omega, cs.length, ⟨hat.1, hlt⟩, ?_⟩
    rw [constantsReserve_some.2 ⟨hgranted, rfl⟩]
    have hstart : start + 4 ≤ start + (4 + (cs.flatMap Constant.encode).length) := by omega
    have hp' : StorageFits (ownConstants cs.length p) := hp
    have hcs := (loadConstants_ok hp' hstart hend).2 ⟨cs, rfl, hwf, hat.2, rfl, by omega, rfl, rfl, hfits⟩
    simp only [bind_ok]
    refine ⟨_, hcs, ?_⟩
    rw [if_neg (by simp only; omega)]
    rfl

/-! ## Worker catalogs -/

theorem length_identityRounds (data : List Byte) (state : List UInt32) :
    (data.foldl identityRound state).length = state.length := by
  induction data generalizing state with
  | nil => rfl
  | cons b data ih => simp [ih, identityRound]

theorem length_workerIdentity (functionTarget requiredCapabilities transportAbi bytecodeVersion : Nat)
    (artifact : List Byte) :
    (workerIdentity functionTarget requiredCapabilities transportAbi bytecodeVersion artifact).length = 32 := by
  simp only [workerIdentity]
  rw [length_flatMap_const fun (s : UInt32) => length_le 4 s.toNat, length_identityRounds]
  rfl

/-- The artifact of an entry loads, with the entry's version and function. -/
def WorkerCatalogEntry.Served (load : List Byte → Parse LoadFailure ProgramRecord) (e : WorkerCatalogEntry) : Prop :=
  ∃ worker, load e.artifact = .ok worker ∧ worker.formatVersion = e.bytecodeVersion ∧
    e.functionTarget < worker.instructions.length

theorem loadCatalogEntry_ok {cursor e} (hversion : ∀ artifact worker, load artifact = .ok worker → worker.formatVersion = 2) :
    loadCatalogEntry host bytes load cursor = .ok e ↔
      e.Wf ∧ e.artifact.length < 2 ^ 32 ∧ At bytes cursor e.encode ∧ host.artifact bytes e.artifact.length ∧
        e.Served load := by
  have hfail : ∀ {s : WorkerCatalogStatus}, (.fail s : Parse WorkerCatalogStatus WorkerCatalogEntry) ≠ .ok e := by simp
  simp only [loadCatalogEntry, ite_ok hfail, bind_ok, readLe_ok, readBytes_ok, ne_eq, not_not]
  constructor
  · rintro ⟨hroom, target, ⟨htarget, hlt₁⟩, capabilities, ⟨hcap, hlt₂⟩, abi, ⟨habi, hlt₃⟩, version, ⟨hver, hlt₄⟩, length,
      ⟨hlength, hlt₅⟩, identity, ⟨hid, hidlen⟩, hfit, rfl, hmask, artifact, ⟨hart, rfl⟩, hident, hgrant, h⟩
    split at h
    · rename_i worker hload
      simp only [ite_ok hfail, ok.injEq, not_not] at h
      obtain ⟨hv, hf, rfl⟩ := h
      refine ⟨⟨hlt₁, by simp only; omega, rfl, by rw [← hv, hversion _ _ hload], hident.symm⟩, hlt₅, ?_, hgrant, worker,
        hload, hv, by simp only; omega⟩
      simp only [WorkerCatalogEntry.encode, at_append, length_le, hidlen]
      exact ⟨htarget, hcap, habi, hver, hlength, hid, hart⟩
    · cases h
    · cases h
    · cases h
  · rintro ⟨hwf, hlength, hat, hgrant, worker, hload, hv, hf⟩
    have hidlen : e.identity.length = 32 := by rw [hwf.identity, length_workerIdentity]
    have hend := hat.le
    simp only [WorkerCatalogEntry.encode, at_append, length_le, hidlen, List.length_append] at hat hend
    obtain ⟨htarget, hcap, habi, hver, hlen, hid, hart⟩ := hat
    have hlt₁ := hwf.target
    have hlt₂ := hwf.capabilities
    have hlt₃ : e.transportAbi < 256 ^ 4 := by rw [hwf.abi]; decide
    have hlt₄ : e.bytecodeVersion < 256 ^ 4 := by rw [hwf.version]; decide
    refine ⟨by omega, _, ⟨htarget, hlt₁⟩, _, ⟨hcap, by omega⟩, _, ⟨habi, hlt₃⟩, _, ⟨hver, hlt₄⟩, _, ⟨hlen, hlength⟩, _,
      ⟨hid, hidlen⟩, by omega, hwf.abi, by omega, _, ⟨hart, rfl⟩, hwf.identity.symm, hgrant, ?_⟩
    rw [hload]
    simp only [ite_ok hfail, not_not, Nat.not_le]
    exact ⟨hv, hf, trivial⟩

theorem WorkerCatalogEntry.Wf.length_encode {e : WorkerCatalogEntry} (h : e.Wf) :
    e.encode.length = 52 + e.artifact.length := by
  have hid : e.identity.length = 32 := by rw [h.identity, length_workerIdentity]
  simp only [encode, List.length_append, length_le, hid]
  omega

theorem loadCatalogEntries_ok {count cursor next es}
    (hversion : ∀ artifact worker, load artifact = .ok worker → worker.formatVersion = 2) (hc : cursor ≤ bytes.length) :
    loadCatalogEntries host bytes load count cursor = .ok (es, next) ↔
      es.length = count ∧ (∀ e ∈ es, e.Wf ∧ e.artifact.length < 2 ^ 32 ∧ host.artifact bytes e.artifact.length ∧
        e.Served load) ∧ At bytes cursor (es.flatMap WorkerCatalogEntry.encode) ∧
        next = cursor + (es.flatMap WorkerCatalogEntry.encode).length := by
  induction count generalizing cursor es next with
  | zero =>
      simp only [loadCatalogEntries, pure_eq, ok.injEq, Prod.mk.injEq, List.length_eq_zero_iff]
      constructor
      · rintro ⟨rfl, rfl⟩
        exact ⟨rfl, by simp, at_nil.2 hc, rfl⟩
      · rintro ⟨rfl, _, _, rfl⟩
        exact ⟨rfl, rfl⟩
  | succ count ih =>
      simp only [loadCatalogEntries, bind_ok, loadCatalogEntry_ok hversion, pure_eq, ok.injEq, Prod.mk.injEq]
      constructor
      · rintro ⟨e, ⟨hwf, hlt, hat, hgrant, hserved⟩, ⟨es', next'⟩, hes, rfl, rfl⟩
        have hend := hat.le
        rw [hwf.length_encode] at hend
        obtain ⟨rfl, hall, hats, rfl⟩ := (ih (by omega)).1 hes
        refine ⟨rfl, List.forall_mem_cons.2 ⟨⟨hwf, hlt, hgrant, hserved⟩, hall⟩, ?_, ?_⟩
        · rw [List.flatMap_cons, at_append, hwf.length_encode, ← Nat.add_assoc]
          exact ⟨hat, hats⟩
        · simp only [List.flatMap_cons, List.length_append, hwf.length_encode]
          omega
      · rintro ⟨hlen, hall, hat, rfl⟩
        cases es with
        | nil => simp at hlen
        | cons e es =>
            simp only [List.length_cons, Nat.add_right_cancel_iff] at hlen
            obtain ⟨⟨hwf, hlt, hgrant, hserved⟩, hall⟩ := List.forall_mem_cons.1 hall
            rw [List.flatMap_cons, at_append, hwf.length_encode, ← Nat.add_assoc] at hat
            have hend := hat.2.le
            refine ⟨e, ⟨hwf, hlt, hat.1, hgrant, hserved⟩, (es, _), (ih (by omega)).2 ⟨hlen, hall, hat.2, rfl⟩, rfl, ?_⟩
            simp only [List.flatMap_cons, List.length_append, hwf.length_encode]
            omega

theorem loadWorkerCatalog_ok {es}
    (hversion : ∀ artifact worker, load artifact = .ok worker → worker.formatVersion = 2) :
    loadWorkerCatalog host bytes load = .ok es ↔
      bytes = encodeItems WorkerCatalogEntry.encode es ∧ es.length ≤ workerCatalogMaxEntries ∧
        (es = [] ∨ host.entries bytes es.length ∧ ∀ e ∈ es, host.artifact bytes e.artifact.length) ∧
        ∀ e ∈ es, e.Wf ∧ e.artifact.length < 2 ^ 32 ∧ e.Served load := by
  have hfail : ∀ {s : WorkerCatalogStatus}, (.fail s : Parse WorkerCatalogStatus (List WorkerCatalogEntry)) ≠ .ok es := by
    simp
  simp only [loadWorkerCatalog, ite_ok hfail, bind_ok, readLe_ok]
  constructor
  · rintro ⟨hfour, count, ⟨hcount, _⟩, hmax, h⟩
    split at h
    · rename_i hzero
      subst hzero
      split at h
      · rename_i hlen
        simp only [pure_eq, ok.injEq] at h
        subst h
        exact ⟨hcount.eq hlen, Nat.zero_le _, .inl rfl, by simp⟩
      · cases h
    · simp only [ite_ok hfail, bind_ok, not_not, pure_eq, ok.injEq] at h
      obtain ⟨hgranted, ⟨es', next⟩, hes, hnext, rfl⟩ := h
      obtain ⟨rfl, hall, hat, rfl⟩ := (loadCatalogEntries_ok hversion (by omega)).1 hes
      have hcat : At bytes 0 (encodeItems WorkerCatalogEntry.encode es') := by
        rw [encodeItems, at_append, length_le]
        exact ⟨hcount, hat⟩
      refine ⟨hcat.eq ?_, by simp only; omega, .inr ⟨hgranted, fun e he => (hall e he).2.2.1⟩,
        fun e he => ⟨(hall e he).1, (hall e he).2.1, (hall e he).2.2.2⟩⟩
      simp only [encodeItems, List.length_append, length_le]
      omega
  · rintro ⟨hbytes, hmax, hgranted, hall⟩
    have hat : At bytes 0 (encodeItems WorkerCatalogEntry.encode es) := hbytes ▸ at_self _
    have hlen : bytes.length = 4 + (es.flatMap WorkerCatalogEntry.encode).length := by
      rw [hbytes, encodeItems, List.length_append, length_le]
    rw [encodeItems, at_append, length_le] at hat
    have hmax' : workerCatalogMaxEntries = 1024 := rfl
    refine ⟨by omega, es.length, ⟨hat.1, by omega⟩, by omega, ?_⟩
    rcases hgranted with rfl | ⟨hentries, hartifacts⟩
    · simpa using hlen
    · split
      · rename_i hzero
        obtain rfl := List.length_eq_zero_iff.1 hzero
        simpa using hlen
      · simp only [ite_ok hfail, bind_ok, not_not]
        refine ⟨(es, _), (loadCatalogEntries_ok hversion (by omega)).2 ⟨rfl, ?_, hat.2, rfl⟩, ?_, rfl⟩
        · exact fun e he => ⟨(hall e he).1, (hall e he).2.1, hartifacts e he, (hall e he).2.2⟩
        · simp only
          omega

end Aivm
