import Aivm.Bytes.Lemmas.Views
import Aivm.Program.Theorems

/-!
# Assembling a program image

The numbers that `BYTES_FROM_BYTE`, `BYTES_U32_LE` and `BYTES_I64_LE` encode, appended one after the other, and how the
loader reads them back.
-/

namespace Aivm

open ByteReader VmM

/-! ## The fields of the loader -/

section Fields

variable {ε : Type} (bytes : List Byte)

/-- `bytes[offset]`. -/
def byteAt (offset : Nat) : Parse ε Nat :=
  match bytes[offset]? with
  | some b => .ok b.toNat
  | none => .outOfBounds

/-- `read_u32_le`. -/
def readU32Le (offset : Nat) : Parse ε Nat := do
  let b0 ← byteAt bytes offset
  let b1 ← byteAt bytes (offset + 1)
  let b2 ← byteAt bytes (offset + 2)
  let b3 ← byteAt bytes (offset + 3)
  return b0 ||| b1 <<< 8 ||| b2 <<< 16 ||| b3 <<< 24

/-- `read_i64_le`. -/
def readI64Le (offset : Nat) : Parse ε Int := do
  let low ← readU32Le bytes offset
  let high ← readU32Le bytes (offset + 4)
  return toI64 (low ||| high <<< 32)

variable {bytes}

theorem or_shiftLeft {a b k : Nat} (ha : a < 2 ^ k) : a ||| b <<< k = a + b * 2 ^ k := by
  rw [Nat.or_comm, ← Nat.shiftLeft_add_eq_or_of_lt ha, Nat.shiftLeft_eq, Nat.add_comm]

/-- The shifted bytes of a field, as a sum. -/
theorem fieldSum (b0 b1 b2 b3 : Byte) :
    b0.toNat ||| b1.toNat <<< 8 ||| b2.toNat <<< 16 ||| b3.toNat <<< 24 = ofLe [b0, b1, b2, b3] := by
  have h0 := b0.toNat_lt
  have h1 := b1.toNat_lt
  have h2 := b2.toNat_lt
  have h01 : b0.toNat ||| b1.toNat <<< 8 = b0.toNat + b1.toNat * 2 ^ 8 := or_shiftLeft (by omega)
  have h012 : b0.toNat + b1.toNat * 2 ^ 8 ||| b2.toNat <<< 16 = b0.toNat + b1.toNat * 2 ^ 8 + b2.toNat * 2 ^ 16 :=
    or_shiftLeft (by omega)
  rw [h01, h012, or_shiftLeft (by omega)]
  simp only [ofLe]
  omega

/-- The fields that the loader reads byte by byte are little-endian numbers. -/
theorem readU32Le_eq (offset : Nat) : (readU32Le bytes offset : Parse ε Nat) = readLe bytes 4 offset := by
  have hget : ∀ i, bytes[offset + i]? = (bytes.drop offset)[i]? := by
    intro i
    rw [List.getElem?_drop]
  have hlen : offset + 4 ≤ bytes.length ↔ 4 ≤ (bytes.drop offset).length := by
    rw [List.length_drop]
    omega
  have hhead := hget 0
  rw [Nat.add_zero] at hhead
  simp only [readU32Le, byteAt, readLe, readBytes, hget, hhead, hlen]
  rcases bytes.drop offset with _ | ⟨b0, _ | ⟨b1, _ | ⟨b2, _ | ⟨b3, rest⟩⟩⟩⟩
  · rfl
  · rfl
  · rfl
  · rfl
  · simp [fieldSum]

theorem ofLe_append (bs cs : List Byte) : ofLe (bs ++ cs) = ofLe bs + 256 ^ bs.length * ofLe cs := by
  induction bs with
  | nil => simp [ofLe]
  | cons b bs ih =>
      simp only [List.cons_append, ofLe, ih, List.length_cons, Nat.pow_succ]
      ring

theorem readI64Le_eq (offset : Nat) : (readI64Le bytes offset : Parse ε Int) = do return toI64 (← readLe bytes 8 offset) := by
  simp only [readI64Le, readU32Le_eq, readLe, readBytes]
  by_cases h : offset + 8 ≤ bytes.length
  · have hlow : ofLe ((bytes.drop offset).take 4) < 2 ^ 32 := by
      refine Nat.lt_of_lt_of_le (ofLe_lt _) ?_
      rw [List.length_take, List.length_drop, Nat.min_eq_left (by omega)]
      norm_num
    have hsplit : (bytes.drop offset).take 8 = (bytes.drop offset).take 4 ++ (bytes.drop (offset + 4)).take 4 := by
      rw [← List.drop_drop, ← List.take_add]
    have hlength : ((bytes.drop offset).take 4).length = 4 := by
      rw [List.length_take, List.length_drop, Nat.min_eq_left (by omega)]
    rw [if_pos (by omega), if_pos (by omega), if_pos h, hsplit]
    simp only [Parse.ok_bind, Parse.pure_eq, or_shiftLeft hlow, ofLe_append, hlength]
    rw [Nat.mul_comm]
    norm_num
  · have hhigh : ¬ offset + 4 + 4 ≤ bytes.length := by omega
    rw [if_neg h, if_neg hhigh]
    split <;> rfl

end Fields

/-! ## Numbers -/

/-- A number as an instruction encodes it. -/
inductive IntField where
  | byte (b : Byte)
  | u32 (n : UInt32)
  | i64 (i : Int64)
deriving DecidableEq

namespace IntField

/-- The operand of the instruction. -/
def operand : IntField → Int
  | .byte b => b.toNat
  | .u32 n => n.toNat
  | .i64 i => i.toInt

def bytes : IntField → List Byte
  | .byte b => [b]
  | .u32 n => le 4 n.toNat
  | .i64 i => le 8 (ofI64 i.toInt)

/-- The instruction that encodes the number. -/
def encode (env : Env) : IntField → Routine env Unit
  | .byte _ => bytesFromByte env
  | .u32 _ => bytesU32Le env
  | .i64 _ => bytesI64Le env

/-- The number stands at an offset, as the loader reads it. -/
def StandsAt (bytes : List Byte) (offset : Nat) : IntField → Prop
  | .byte b => (byteAt bytes offset : Parse LoadFailure Nat) = .ok b.toNat
  | .u32 n => (readU32Le bytes offset : Parse LoadFailure Nat) = .ok n.toNat
  | .i64 i => (readI64Le bytes offset : Parse LoadFailure Int) = .ok i.toInt

theorem standsAt (x : IntField) (before after : List Byte) : StandsAt (before ++ x.bytes ++ after) before.length x := by
  have hat : At (before ++ x.bytes ++ after) before.length x.bytes := at_split before x.bytes after
  cases x with
  | byte b => simp [StandsAt, byteAt, bytes]
  | u32 n =>
      unfold StandsAt
      rw [readU32Le_eq]
      exact readLe_ok.2 ⟨hat, n.toNat_lt⟩
  | i64 i =>
      have hread : (readLe (before ++ bytes (.i64 i) ++ after) 8 before.length : Parse LoadFailure Nat) =
          .ok (ofI64 i.toInt) := readLe_ok.2 ⟨hat, ofI64_lt _⟩
      unfold StandsAt
      rw [readI64Le_eq, hread, Parse.ok_bind, toI64_ofI64 ⟨i.le_toInt, i.toInt_lt⟩]
      rfl

end IntField

variable {env : Env} {vm vm' : Vm} {d : BytesPtr} {n : Nat} {data : List Byte} {below : List Value}

theorem IntField.encode_pushes (x : IntField) (hstack : vm.stack = below ++ [.int x.operand]) :
    PushesBytes vm below x.bytes ((x.encode env).run vm) := by
  cases x with
  | byte b =>
      have hb := b.toNat_lt
      have hbyte := bytesFromByte_pushes env (i := b.toNat) ⟨by omega, by omega⟩ hstack
      rw [Int.toNat_natCast, UInt8.ofNat_toNat] at hbyte
      exact hbyte
  | u32 n =>
      have hn := n.toNat_lt
      exact bytesU32Le_pushes ⟨by simp [operand], by simp only [operand]; omega⟩ hstack
  | i64 i => exact bytesI64Le_pushes hstack

/-! ## Appending -/

/-- Push a number, encode it, and append it to the bytes below it. -/
def appendField (env : Env) (x : IntField) : VmM Unit := do
  stackPush (.int x.operand)
  (x.encode env).run
  (bytesConcat env).run

/-- Append numbers one after the other. -/
def assemble (env : Env) : List IntField → VmM Unit
  | [] => return
  | x :: xs => do
      appendField env x
      assemble env xs

theorem appendField_ok {x : IntField} {u} (hd : vm.bytesAt d n = some data) (hstack : vm.stack = below ++ [.bytes d n])
    (h : appendField env x vm = .ok u vm') :
    vm.Extends vm'.toHeap ∧ ∃ e, vm'.stack = below ++ [.bytes e (data ++ x.bytes).length] ∧
      vm'.bytesAt e (data ++ x.bytes).length = some (data ++ x.bytes) := by
  simp only [appendField, bind_ok] at h
  obtain ⟨_, vm₁, hpush, _, vm₂, hencode, h⟩ := h
  obtain ⟨hstack₁, hheap₁⟩ := stackPush_ok hpush
  obtain ⟨hext₂, e, hstack₂, he⟩ := (x.encode_pushes hstack₁).ok hencode
  have hd₁ : vm₁.bytesAt d n = some data := by rwa [hheap₁]
  have hstack₂' : vm₂.stack = below ++ [.bytes d n, .bytes e x.bytes.length] := by
    rw [hstack₂, hstack, List.append_assoc]
    rfl
  obtain ⟨hext₃, e', hstack₃, he'⟩ := (bytesConcat_pushes (hext₂.bytesAt hd₁) he hstack₂').ok h
  rw [hheap₁] at hext₂
  exact ⟨hext₂.trans hext₃, e', hstack₃, he'⟩

/-- Numbers that have been appended follow the bytes that were there. -/
theorem assemble_ok {xs : List IntField} : ∀ {vm : Vm} {d n data u}, vm.bytesAt d n = some data →
    vm.stack = below ++ [.bytes d n] → assemble env xs vm = .ok u vm' →
      vm.Extends vm'.toHeap ∧ vm'.topBytes = some (data ++ xs.flatMap IntField.bytes) := by
  induction xs with
  | nil =>
      intro vm d n data u hd hstack h
      cases h
      refine ⟨.refl _, ?_⟩
      simp [Vm.topBytes, hstack, hd]
  | cons x xs ih =>
      intro vm d n data u hd hstack h
      simp only [assemble, bind_ok] at h
      obtain ⟨_, vm₁, hx, h⟩ := h
      obtain ⟨hext₁, e, hstack₁, he⟩ := appendField_ok hd hstack hx
      obtain ⟨hext₂, htop⟩ := ih he hstack₁ h
      refine ⟨hext₁.trans hext₂, ?_⟩
      rw [htop, List.flatMap_cons, List.append_assoc]

/-! ## Images -/

def magicFields : List IntField := [.byte 65, .byte 73, .byte 66, .byte 67]

/-- A size or a count. -/
def sizeField (n : Nat) : IntField := .u32 (UInt32.ofNat n)

def codeFields (code : List (Opcode × Int64)) : List IntField :=
  [.u32 1, sizeField (4 + code.length * 12), sizeField code.length] ++
    code.flatMap fun i => [sizeField i.1.ctorIdx, .i64 i.2]

def tableFields (table : List Int64) : List IntField :=
  [.u32 2, sizeField (4 + table.length * 9), sizeField table.length] ++ table.flatMap fun i => [.byte 1, .i64 i]

/-- The numbers of an image with instructions and with integers as constants. -/
def imageFields (flags : UInt32) (code : List (Opcode × Int64)) (table : List Int64) : List IntField :=
  magicFields ++ [.u32 2, .u32 flags, .u32 2] ++ codeFields code ++ tableFields table

/-- The image that they are the numbers of. -/
def assembledImage (flags : UInt32) (code : List (Opcode × Int64)) (table : List Int64) : Image :=
  ⟨flags.toNat, [.instructions (code.map fun i => ⟨i.1, i.2.toInt⟩), .constants (table.map fun i => .int i.toInt)]⟩

theorem toNat_ofNat {n : Nat} (h : n < 2 ^ 32) : (UInt32.ofNat n).toNat = n := by
  rw [UInt32.toNat_ofNat', Nat.mod_eq_of_lt h]

theorem flatMap_imageFields {flags : UInt32} {code : List (Opcode × Int64)} {table : List Int64}
    (hcode : 4 + code.length * 12 < 2 ^ 32) (htable : 4 + table.length * 9 < 2 ^ 32) :
    (imageFields flags code table).flatMap IntField.bytes = (assembledImage flags code table).encode := by
  have hop : ∀ o : Opcode, (UInt32.ofNat o.ctorIdx).toNat = o.ctorIdx := by
    intro o
    have := ctorIdx_opcode_le o
    unfold opMax at this
    exact toNat_ofNat (by omega)
  have hlen₁ : (code.map fun i : Opcode × Int64 => (⟨i.1, i.2.toInt⟩ : Instruction).encode.length).sum =
      code.length * 12 := by
    simp [Instruction.encode]
  have hlen₂ : (table.map fun i => (Constant.int i.toInt).encode.length).sum = table.length * 9 := by
    simp [Constant.encode]
  simp only [imageFields, magicFields, sizeField, codeFields, tableFields, assembledImage, Image.encode, Image.encodeHeader, ImageSection.encode, ImageSection.sectionType,
    ImageSection.payload, encodeItems, List.flatMap_append, List.flatMap_cons, List.flatMap_nil, IntField.bytes,
    List.flatMap_assoc, List.flatMap_map, List.length_append, length_le, List.length_map, List.length_flatMap]
  have htwo : (2 : UInt32).toNat = 2 := rfl
  have hone : (1 : UInt32).toNat = 1 := rfl
  rw [hlen₁, hlen₂, toNat_ofNat hcode, toNat_ofNat htable, toNat_ofNat (by omega : code.length < 2 ^ 32),
    toNat_ofNat (by omega : table.length < 2 ^ 32), htwo, hone]
  simp only [hop, Instruction.encode, Constant.encode, sectionInstructions, sectionConstants, List.append_assoc,
    List.append_nil, List.nil_append, List.cons_append, List.length_cons, List.length_nil]

/-- Where the sizes fit their fields, the image is a well-formed program. -/
theorem assembledImage_encodes {flags : UInt32} {code : List (Opcode × Int64)} {table : List Int64}
    (hcode : 4 + code.length * 12 < 2 ^ 32) (htable : 4 + table.length * 9 < 2 ^ 32) :
    Encodes (assembledImage flags code table).encode (assembledImage flags code table) := by
  have hsize₁ : (code.map fun i : Opcode × Int64 => (⟨i.1, i.2.toInt⟩ : Instruction).encode.length).sum =
      code.length * 12 := by
    simp [Instruction.encode]
  have hsize₂ : (table.map fun i => (Constant.int i.toInt).encode.length).sum = table.length * 9 := by
    simp [Constant.encode]
  refine holds_iff.2 ⟨⟨flags.toNat_lt, by simp [assembledImage, programMaxSections], ?_, ?_⟩, at_self _, ?_, ?_⟩
  · simp only [assembledImage, List.forall_mem_cons, List.not_mem_nil, false_implies, implies_true, and_true]
    refine ⟨⟨?_, ?_⟩, ⟨?_, ?_, ?_, ?_⟩⟩
    · simp only [ImageSection.payload, encodeItems, List.length_append, length_le, List.length_flatMap, List.map_map]
      exact hsize₁ ▸ hcode
    · simp only [ImageSection.ItemsWf, List.forall_mem_map]
      exact fun i _ => ⟨i.2.le_toInt, i.2.toInt_lt⟩
    · simp only [ImageSection.payload, encodeItems, List.length_append, length_le, List.length_flatMap, List.map_map]
      exact hsize₂ ▸ htable
    · simp only [List.forall_mem_map]
      exact fun i _ => ⟨i.le_toInt, i.toInt_lt⟩
    · simp [Constant.textSize, Function.comp_def]
    · simp [Constant.dataSize, Function.comp_def]
  · simp [assembledImage, Image.Distinct, ImageSection.sectionType, sectionInstructions, sectionConstants,
      ImageSection.isKnown]
  · simp [assembledImage, ImageSection.Granted, LoadHost.generous]
  · simp [assembledImage, Image.workers, ImageSection.workers]

/-- An assembled image loads, and gives back the operands and constants. -/
theorem loadProgram_assembled {host : LoadHost} (hgrants : host.Grants) (outProgram : ProgramRecord) {flags : UInt32}
    {code : List (Opcode × Int64)} {table : List Int64} (hcode : 4 + code.length * 12 < 2 ^ 32)
    (htable : 4 + table.length * 9 < 2 ^ 32) :
    ∃ p, loadProgram host ((imageFields flags code table).flatMap IntField.bytes) outProgram = .ok p ∧
      p.formatFlags = flags.toNat ∧ p.instructions = code.map (fun i => ⟨i.1, i.2.toInt⟩) ∧
      p.constants = table.map fun i => .int i.toInt := by
  have hholds : Holds host _ (assembledImage flags code table) := (assembledImage_encodes hcode htable).mono hgrants
  have hshown := hholds.shownBy
  rw [flatMap_imageFields hcode htable]
  refine ⟨_, loadProgram_ok_iff.2 ⟨_, hholds, rfl⟩, hshown.flags, ?_, ?_⟩
  · simpa [assembledImage, Image.code, ImageSection.code] using hshown.instructions
  · rw [hshown.constants]
    simp [assembledImage, Image.table, ImageSection.table, Function.comp_def, Constant.value]

end Aivm
