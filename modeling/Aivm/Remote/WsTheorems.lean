import Aivm.Lib.ByteReader

/-!
# WebSocket frames

`aivm_remote_ws_frame.c`: masked frames from a client are decoded, and frames of the server are encoded without a mask.
-/

namespace Aivm.Remote

open ByteReader

def wsMaxPayload : Nat := 65536

structure WsFrame where
  fin : Bool
  opcode : UInt8
  payload : List UInt8
deriving DecidableEq, Repr

/-! ## Decoding -/

/-- The length of the payload and where its mask stands, according to the last bits of the second byte. -/
def wsLength (bytes : List UInt8) (code : Nat) : Option (Nat × Nat) :=
  if code = 126 then
    if bytes.length < 4 then none else some (ofBe ((bytes.drop 2).take 2), 4)
  else if code = 127 then
    if bytes.length < 10 then none else some (ofBe ((bytes.drop 2).take 8), 10)
  else some (code, 2)

/-- Every byte of a payload with the byte of the mask at its position. -/
def applyMask (mask payload : List UInt8) : List UInt8 := payload.mapIdx fun i b => b ^^^ mask.getD (i % 4) 0

/-- `aivm_ws_decode_client_frame`: the frame and how many bytes it takes. -/
def wsDecodeClientFrame (bytes : List UInt8) : Option (WsFrame × Nat) :=
  match bytes with
  | b0 :: b1 :: _ =>
      if b1 &&& 0x80 = 0 then none
      else
        match wsLength bytes (b1 &&& 0x7f).toNat with
        | none => none
        | some (length, index) =>
            if wsMaxPayload < length then none
            else if bytes.length < index + 4 then none
            else if bytes.length < index + 4 + length then none
            else
              let payload := (bytes.drop (index + 4)).take length
              some (⟨b0 &&& 0x80 ≠ 0, b0 &&& 0x0f, applyMask ((bytes.drop index).take 4) payload⟩, index + 4 + length)
  | _ => none

/-! ## Encoding -/

/-- `aivm_ws_encode_server_control`. A length above 125 is written as a 16-bit number, whatever it is. -/
def wsEncodeServerControl (opcode : UInt8) (payload : List UInt8) (capacity : Nat) : Option (List UInt8) :=
  if wsMaxPayload < payload.length then none
  else if capacity < 2 then none
  else
    let head := 0x80 ||| (opcode &&& 0x0f)
    if payload.length ≤ 125 then
      if capacity < 2 + payload.length then none else some ([head, .ofNat payload.length] ++ payload)
    else if capacity < 4 then none
    else if capacity < 4 + payload.length then none
    else some ([head, 126] ++ be 2 payload.length ++ payload)

/-- `aivm_ws_encode_server_binary`. -/
def wsEncodeServerBinary (payload : List UInt8) (capacity : Nat) : Option (List UInt8) :=
  wsEncodeServerControl 2 payload capacity

/-!
## WebSocket frames on the wire

Every masked frame of a client is read back, in each of the three forms of its length, and no part of it is taken for a
frame. A frame of the server is read back unless its payload has the largest size that is allowed.
-/

/-! ## Frames as the standard has them -/

/-- The forms of a length: in seven bits, in two bytes or in eight bytes. -/
inductive LengthForm where
  | short
  | medium
  | long
deriving DecidableEq, Repr

namespace LengthForm

/-- A length that the form has room for. -/
def Fits (n : Nat) : LengthForm → Prop
  | short => n ≤ 125
  | medium => n < 2 ^ 16
  | long => n < 2 ^ 64

/-- The low bits of the second byte of a frame. -/
def code (n : Nat) : LengthForm → Nat
  | short => n
  | medium => 126
  | long => 127

/-- What follows the second byte. -/
def extra (n : Nat) : LengthForm → List UInt8
  | short => []
  | medium => be 2 n
  | long => be 8 n

end LengthForm

/-- A masked frame of a client with a payload of the allowed size. -/
structure ClientFrame where
  fin : Bool
  reserved : Nat
  reserved_lt : reserved < 8
  opcode : UInt8
  opcode_lt : opcode.toNat < 16
  form : LengthForm
  mask : List UInt8
  mask_length : mask.length = 4
  payload : List UInt8
  payload_le : payload.length ≤ wsMaxPayload
  fits : form.Fits payload.length

namespace ClientFrame

/-- What stands before the mask. -/
def head (f : ClientFrame) : List UInt8 :=
  [.ofNat (f.fin.toNat * 128 + f.reserved * 16 + f.opcode.toNat), .ofNat (128 + f.form.code f.payload.length)] ++
    f.form.extra f.payload.length

def bytes (f : ClientFrame) : List UInt8 := f.head ++ f.mask ++ applyMask f.mask f.payload

end ClientFrame

/-- The length of an unmasked frame, and what follows. -/
def rfcLength : List UInt8 → Option (Nat × List UInt8)
  | [] => none
  | b :: rest =>
      if b.toNat < 126 then some (b.toNat, rest)
      else if b.toNat = 126 then if rest.length < 2 then none else some (ofBe (rest.take 2), rest.drop 2)
      else if b.toNat = 127 then if rest.length < 8 then none else some (ofBe (rest.take 8), rest.drop 8)
      else none

/-- A parser of unmasked frames: the frame, and what follows. -/
def rfcServerFrame : List UInt8 → Option (WsFrame × List UInt8)
  | [] => none
  | b :: rest =>
      match rfcLength rest with
      | none => none
      | some (n, rest) =>
          if rest.length < n then none else some (⟨128 ≤ b.toNat, .ofNat (b.toNat % 16), rest.take n⟩, rest.drop n)

/-! ## Bytes and masks -/

theorem head_bits : ∀ n < 256, (UInt8.ofNat n &&& 0x80 ≠ 0 ↔ 128 ≤ n) ∧ (UInt8.ofNat n &&& 0x7f).toNat = n % 128 ∧
    UInt8.ofNat n &&& 0x0f = .ofNat (n % 16) ∧ (0x80 ||| (UInt8.ofNat n &&& 0x0f)).toNat = 128 + n % 16 := by
  decide +kernel

theorem length_applyMask (mask payload : List UInt8) : (applyMask mask payload).length = payload.length := by
  simp [applyMask]

/-- A mask takes itself away. -/
theorem applyMask_applyMask (mask payload : List UInt8) : applyMask mask (applyMask mask payload) = payload := by
  apply List.ext_getElem
  · simp [length_applyMask]
  · intro i h₁ h₂
    simp [applyMask]

/-! ## Frames of the server -/

/-- The second byte of a frame of the server, and what follows it up to the payload. -/
def lengthField (n : Nat) : List UInt8 := if n ≤ 125 then [.ofNat n] else 126 :: be 2 n

/-- Every frame that is written has a payload of the allowed size behind two bytes or four. -/
theorem encode_some {opcode : UInt8} {payload bytes : List UInt8} {capacity : Nat}
    (h : wsEncodeServerControl opcode payload capacity = some bytes) : payload.length ≤ wsMaxPayload ∧
      bytes = (0x80 ||| (opcode &&& 0x0f)) :: (lengthField payload.length ++ payload) := by
  unfold wsEncodeServerControl at h
  split at h
  · cases h
  split at h
  · cases h
  refine ⟨by omega, ?_⟩
  simp only at h
  split at h
  · rename_i hshort
    split at h
    · cases h
    · cases h
      simp [lengthField, hshort]
  · rename_i hlong
    split at h
    · cases h
    split at h
    · cases h
    · cases h
      simp [lengthField, hlong]

theorem encode_room {opcode : UInt8} {payload : List UInt8} (h : payload.length ≤ wsMaxPayload) :
    wsEncodeServerControl opcode payload (4 + payload.length) =
      some ((0x80 ||| (opcode &&& 0x0f)) :: (lengthField payload.length ++ payload)) := by
  unfold wsEncodeServerControl
  rw [if_neg (by omega), if_neg (by omega)]
  simp only
  split
  · rename_i hshort
    rw [if_neg (by omega)]
    simp [lengthField, hshort]
  · rename_i hlong
    rw [if_neg (by omega), if_neg (by omega)]
    simp [lengthField, hlong]

/-- Up to 65535 bytes the length is read back. -/
theorem rfcLength_field {n : Nat} (h : n < 2 ^ 16) (rest : List UInt8) :
    rfcLength (lengthField n ++ rest) = some (n, rest) := by
  unfold lengthField
  split
  · have hn : (UInt8.ofNat n).toNat = n := by
      rw [UInt8.toNat_ofNat']
      omega
    simp only [List.singleton_append, rfcLength, hn]
    rw [if_pos (by omega)]
  · have htake : (be 2 n ++ rest).take 2 = be 2 n := List.take_left' (length_be 2 n)
    have hdrop : (be 2 n ++ rest).drop 2 = rest := List.drop_left' (length_be 2 n)
    have hlength : ¬ (be 2 n ++ rest).length < 2 := by
      simp only [List.length_append, length_be]
      omega
    have hof : ofBe (be 2 n) = n := ofBe_be (by omega)
    rw [List.cons_append, rfcLength, if_neg (by decide), if_pos (by decide), if_neg hlength, htake, hdrop, hof]

/-- The largest payload is taken to have no bytes. -/
theorem rfcLength_largest (rest : List UInt8) : rfcLength (lengthField wsMaxPayload ++ rest) = some (0, rest) := by
  have hfield : lengthField wsMaxPayload = [126, 0, 0] := by decide
  rw [hfield]
  rfl

/-- What a frame of the server is read as, if it has been written. -/
def SurvivesWire (opcode : UInt8) (payload : List UInt8) : Prop :=
  ∀ capacity bytes, wsEncodeServerControl opcode payload capacity = some bytes →
    rfcServerFrame bytes = some (⟨true, opcode, payload⟩, [])

theorem head_byte (opcode : UInt8) : (0x80 ||| (opcode &&& 0x0f)).toNat = 128 + opcode.toNat % 16 := by
  have hbits := (head_bits opcode.toNat opcode.toNat_lt).2.2.2
  rwa [UInt8.ofNat_toNat] at hbits

/-- A frame is read with the length that its field says. -/
theorem rfcServerFrame_encoded {opcode : UInt8} {payload rest : List UInt8} {n : Nat}
    (h : rfcLength rest = some (n, payload)) (hn : n ≤ payload.length) :
    rfcServerFrame ((0x80 ||| (opcode &&& 0x0f)) :: rest) =
      some (⟨true, .ofNat (opcode.toNat % 16), payload.take n⟩, payload.drop n) := by
  have hfin : 128 ≤ 128 + opcode.toNat % 16 := by omega
  have hcode : (128 + opcode.toNat % 16) % 16 = opcode.toNat % 16 := by omega
  simp only [rfcServerFrame, h, head_byte, hfin, decide_true, hcode]
  rw [if_neg (by omega)]

theorem survivesWire_iff (opcode : UInt8) (payload : List UInt8) : SurvivesWire opcode payload ↔
    wsMaxPayload < payload.length ∨ opcode.toNat < 16 ∧ payload.length < 2 ^ 16 := by
  by_cases hlarge : wsMaxPayload < payload.length
  · refine ⟨fun _ => .inl hlarge, fun _ capacity bytes h => ?_⟩
    have hsize := (encode_some h).1
    omega
  constructor
  · intro hsurvives
    have hread := hsurvives _ _ (encode_room (Nat.le_of_not_lt hlarge))
    by_cases hlargest : payload.length = wsMaxPayload
    · rw [rfcServerFrame_encoded (by rw [hlargest]; exact rfcLength_largest _) (Nat.zero_le _)] at hread
      simp only [Option.some.injEq, Prod.mk.injEq, WsFrame.mk.injEq, List.take_zero, List.drop_zero] at hread
      rw [hread.2] at hlargest
      simp [wsMaxPayload] at hlargest
    · have hsmall : payload.length < 2 ^ 16 := by
        simp only [wsMaxPayload] at hlarge hlargest
        omega
      rw [rfcServerFrame_encoded (rfcLength_field hsmall _) (Nat.le_refl _)] at hread
      simp only [Option.some.injEq, Prod.mk.injEq, WsFrame.mk.injEq] at hread
      refine .inr ⟨?_, hsmall⟩
      rw [← hread.1.2.1, UInt8.toNat_ofNat']
      omega
  · rintro (hmore | ⟨hopcode, hsmall⟩) capacity bytes h
    · exact absurd hmore hlarge
    · obtain ⟨-, rfl⟩ := encode_some h
      rw [rfcServerFrame_encoded (rfcLength_field hsmall _) (Nat.le_refl _), Nat.mod_eq_of_lt hopcode, UInt8.ofNat_toNat]
      simp

/-! ## Frames of a client -/

namespace ClientFrame

variable (f : ClientFrame)

theorem fin_le : f.fin.toNat ≤ 1 := by
  cases f.fin <;> decide

theorem code_lt : f.form.code f.payload.length < 128 := by
  have hfits := f.fits
  cases hform : f.form with
  | short =>
      simp only [hform, LengthForm.Fits] at hfits
      simp only [LengthForm.code]
      omega
  | medium =>
      simp only [LengthForm.code]
      omega
  | long =>
      simp only [LengthForm.code]
      omega

/-- Where the mask stands. -/
def maskIndex : Nat := 2 + (f.form.extra f.payload.length).length

theorem length_bytes : f.bytes.length = f.maskIndex + 4 + f.payload.length := by
  simp only [bytes, head, maskIndex, List.length_append, length_applyMask, f.mask_length, List.length_cons,
    List.length_nil]

/-- The length is read from every byte string that has the head of the frame. -/
theorem wsLength_head (rest : List UInt8) :
    wsLength (f.head ++ rest) (f.form.code f.payload.length) = some (f.payload.length, f.maskIndex) := by
  have hfits := f.fits
  unfold wsLength maskIndex head
  cases hform : f.form with
  | short =>
      simp only [hform, LengthForm.Fits] at hfits
      have h126 : ¬ f.payload.length = 126 := by omega
      have h127 : ¬ f.payload.length = 127 := by omega
      simp [LengthForm.code, LengthForm.extra, h126, h127]
  | medium =>
      simp only [hform, LengthForm.Fits] at hfits
      have hof : ofBe (be 2 f.payload.length) = f.payload.length := ofBe_be (by omega)
      have htake : (be 2 f.payload.length ++ rest).take 2 = be 2 f.payload.length := List.take_left' (length_be _ _)
      simp [LengthForm.code, LengthForm.extra, htake, hof]
  | long =>
      simp only [hform, LengthForm.Fits] at hfits
      have hof : ofBe (be 8 f.payload.length) = f.payload.length := ofBe_be (by omega)
      have htake : (be 8 f.payload.length ++ rest).take 8 = be 8 f.payload.length := List.take_left' (length_be _ _)
      simp [LengthForm.code, LengthForm.extra, htake, hof]

end ClientFrame

/-- A part of a byte string has the same length field, or not enough for one. -/
theorem wsLength_cut {p bytes : List UInt8} (h : p <+: bytes) (code : Nat) :
    wsLength p code = none ∨ wsLength p code = wsLength bytes code := by
  obtain ⟨rest, rfl⟩ := h
  have hfield : ∀ width, 2 + width ≤ p.length → ((p ++ rest).drop 2).take width = (p.drop 2).take width := by
    intro width hwidth
    rw [List.drop_append_of_le_length (by omega), List.take_append_of_le_length (by simp; omega)]
  unfold wsLength
  by_cases h126 : code = 126
  · by_cases hshort : p.length < 4
    · simp [h126, hshort]
    · have hlong : ¬ (p ++ rest).length < 4 := by
        rw [List.length_append]
        omega
      simp only [h126, if_true, if_neg hshort, if_neg hlong, hfield 2 (by omega), or_true]
  · by_cases h127 : code = 127
    · by_cases hshort : p.length < 10
      · simp [h127, hshort]
      · have hlong : ¬ (p ++ rest).length < 10 := by
          rw [List.length_append]
          omega
        rw [if_neg h126, if_pos h127, if_neg hshort, if_neg h126, if_pos h127, if_neg hlong, hfield 8 (by omega)]
        exact .inr rfl
    · simp [h126, h127]

namespace ClientFrame

variable (f : ClientFrame)

/-- What the first two bytes of the frame say. -/
theorem first_bits : (UInt8.ofNat (f.fin.toNat * 128 + f.reserved * 16 + f.opcode.toNat) &&& 0x80 ≠ 0 ↔ f.fin = true) ∧
    UInt8.ofNat (f.fin.toNat * 128 + f.reserved * 16 + f.opcode.toNat) &&& 0x0f = f.opcode := by
  have hfin := f.fin_le
  have hreserved := f.reserved_lt
  have hopcode := f.opcode_lt
  obtain ⟨htop, -, hlow, -⟩ := head_bits (f.fin.toNat * 128 + f.reserved * 16 + f.opcode.toNat) (by omega)
  refine ⟨htop.trans ?_, hlow.trans ?_⟩
  · cases f.fin with
    | true => simp; omega
    | false => simp; omega
  · rw [show (f.fin.toNat * 128 + f.reserved * 16 + f.opcode.toNat) % 16 = f.opcode.toNat by omega, UInt8.ofNat_toNat]

theorem second_bits : UInt8.ofNat (128 + f.form.code f.payload.length) &&& 0x80 ≠ 0 ∧
    (UInt8.ofNat (128 + f.form.code f.payload.length) &&& 0x7f).toNat = f.form.code f.payload.length := by
  have hcode := f.code_lt
  obtain ⟨htop, hlow, -⟩ := head_bits (128 + f.form.code f.payload.length) (by omega)
  exact ⟨htop.2 (by omega), by omega⟩

/-- The frame begins with two bytes. -/
theorem bytes_cons : ∃ tail, f.bytes = .ofNat (f.fin.toNat * 128 + f.reserved * 16 + f.opcode.toNat) ::
    .ofNat (128 + f.form.code f.payload.length) :: tail :=
  ⟨f.form.extra f.payload.length ++ (f.mask ++ applyMask f.mask f.payload), by simp [bytes, head]⟩

theorem wsLength_bytes (rest : List UInt8) :
    wsLength (f.bytes ++ rest) (f.form.code f.payload.length) = some (f.payload.length, f.maskIndex) := by
  have hhead := f.wsLength_head (f.mask ++ applyMask f.mask f.payload ++ rest)
  rwa [← List.append_assoc, ← List.append_assoc] at hhead

/-- A frame is read back, whatever follows it. -/
theorem decode_bytes (rest : List UInt8) :
    wsDecodeClientFrame (f.bytes ++ rest) = some (⟨f.fin, f.opcode, f.payload⟩, f.bytes.length) := by
  obtain ⟨tail, htail⟩ := f.bytes_cons
  have hcons := congrArg (· ++ rest) htail
  simp only [List.cons_append] at hcons
  have hhead : f.head.length = f.maskIndex := by
    simp only [head, maskIndex, List.length_append, List.length_cons, List.length_nil]
  have hbytes : f.bytes ++ rest = f.head ++ (f.mask ++ (applyMask f.mask f.payload ++ rest)) := by
    simp [bytes]
  have hmask : ((f.bytes ++ rest).drop f.maskIndex).take 4 = f.mask := by
    rw [hbytes, List.drop_left' hhead, List.take_left' f.mask_length]
  have hpayload : ((f.bytes ++ rest).drop (f.maskIndex + 4)).take f.payload.length = applyMask f.mask f.payload := by
    rw [hbytes, ← List.drop_drop, List.drop_left' hhead, List.drop_left' f.mask_length,
      List.take_left' (length_applyMask _ _)]
  have hlength := f.length_bytes
  have hmore : (f.bytes ++ rest).length = f.bytes.length + rest.length := List.length_append
  have hsize := f.payload_le
  obtain ⟨hfin, hopcode⟩ := f.first_bits
  obtain ⟨hmasked, hcode⟩ := f.second_bits
  rw [hcons]
  simp only [wsDecodeClientFrame]
  rw [← hcons, if_neg hmasked, hcode, f.wsLength_bytes rest]
  simp only
  rw [if_neg (by omega), if_neg (by omega), if_neg (by omega), hmask, hpayload, applyMask_applyMask, hopcode, hlength]
  simp only [hfin, Bool.decide_eq_true]

/-- No part of a frame is taken for one. -/
theorem decode_cut {p : List UInt8} (h : p <+: f.bytes) (hne : p ≠ f.bytes) : wsDecodeClientFrame p = none := by
  have hshort : p.length < f.bytes.length := by
    obtain ⟨rest, hrest⟩ := h
    have hmore : rest ≠ [] := by
      rintro rfl
      exact hne (by simpa using hrest)
    rw [← hrest, List.length_append]
    have hpos := List.length_pos_iff.2 hmore
    omega
  rw [f.length_bytes] at hshort
  cases p with
  | nil => rfl
  | cons b0 p =>
      cases p with
      | nil => rfl
      | cons b1 p =>
          obtain ⟨tail, htail⟩ := f.bytes_cons
          rw [htail] at h
          obtain ⟨rfl, h'⟩ := List.cons_prefix_cons.1 h
          obtain ⟨rfl, -⟩ := List.cons_prefix_cons.1 h'
          rw [← htail] at h
          have hbytes := f.wsLength_bytes []
          rw [List.append_nil] at hbytes
          obtain ⟨hmasked, hcode⟩ := f.second_bits
          simp only [wsDecodeClientFrame]
          rw [if_neg hmasked, hcode]
          obtain hnone | hsame := wsLength_cut h (f.form.code f.payload.length)
          · rw [hnone]
          · rw [hsame, hbytes]
            simp only
            split
            · rfl
            · split
              · rfl
              · rfl

end ClientFrame

/-- Client frames are read back, whatever follows them, and no part of one is taken for a frame. -/
def ClientFramesRead : Prop :=
  ∀ f : ClientFrame, (∀ rest, wsDecodeClientFrame (f.bytes ++ rest) = some (⟨f.fin, f.opcode, f.payload⟩, f.bytes.length)) ∧
    ∀ p, p <+: f.bytes → p ≠ f.bytes → wsDecodeClientFrame p = none

/-- Frames of both sides are read back if and only if a frame of the server has an opcode of four bits and a length of
sixteen, or is too large to be written. -/
theorem wsFrames_iff (opcode : UInt8) (payload : List UInt8) : ClientFramesRead ∧ SurvivesWire opcode payload ↔
    wsMaxPayload < payload.length ∨ opcode.toNat < 16 ∧ payload.length < 2 ^ 16 := by
  have hclient : ClientFramesRead := fun f => ⟨f.decode_bytes, fun _ => f.decode_cut⟩
  rw [← survivesWire_iff]
  simp [hclient]

/-- A binary frame with the largest payload is read as an empty one. -/
theorem largest_payload_lost : ¬ SurvivesWire 2 (List.replicate wsMaxPayload 0) ∧
    (wsEncodeServerBinary (List.replicate wsMaxPayload 0) (4 + wsMaxPayload)).map (List.take 4) =
      some [0x82, 126, 0, 0] := by
  refine ⟨?_, ?_⟩
  · rw [survivesWire_iff, List.length_replicate]
    decide
  · have hencoded := @encode_room 2 (List.replicate wsMaxPayload 0) (by rw [List.length_replicate])
    rw [List.length_replicate] at hencoded
    rw [wsEncodeServerBinary, hencoded]
    rfl

end Aivm.Remote
