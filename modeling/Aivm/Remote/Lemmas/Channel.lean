import Aivm.Remote.Layout

/-!
# What the codecs accept and write

A frame is accepted exactly if it is the frame of a layout within the limits, and a message is written as the frame of
its own layout.
-/

namespace Aivm.Remote

open ByteReader

variable {bytes : List UInt8} {offset max : Nat}

/-! ## Numbers -/

@[simp] theorem length_u16 (x : UInt16) : (u16 x).length = 2 := length_le _ _
@[simp] theorem length_u32 (x : UInt32) : (u32 x).length = 4 := length_le _ _
@[simp] theorem length_i64 (x : Int64) : (i64 x).length = 8 := length_le _ _

@[simp] theorem length_rawText (raw : List UInt8) : (rawText raw).length = 2 + raw.length := by
  simp [rawText]

theorem ofLe_u16 (x : UInt16) : ofLe (u16 x) = x.toNat := ofLe_le x.toNat_lt
theorem ofLe_u32 (x : UInt32) : ofLe (u32 x) = x.toNat := ofLe_le x.toNat_lt

theorem readU16_ok {x} : readU16 bytes offset = .ok x ↔ At bytes offset (u16 x) := by
  simp only [readU16, Parse.bind_ok, readLe_ok, Parse.pure_eq, Parse.ok.injEq]
  constructor
  · rintro ⟨n, ⟨h, hn⟩, rfl⟩
    rwa [u16, UInt16.toNat_ofNat_of_lt' hn]
  · intro h
    exact ⟨x.toNat, ⟨h, x.toNat_lt⟩, UInt16.ofNat_toNat⟩

theorem readU32_ok {x} : readU32 bytes offset = .ok x ↔ At bytes offset (u32 x) := by
  simp only [readU32, Parse.bind_ok, readLe_ok, Parse.pure_eq, Parse.ok.injEq]
  constructor
  · rintro ⟨n, ⟨h, hn⟩, rfl⟩
    rwa [u32, UInt32.toNat_ofNat_of_lt' hn]
  · intro h
    exact ⟨x.toNat, ⟨h, x.toNat_lt⟩, UInt32.ofNat_toNat⟩

theorem readI64_ok {x} : readI64 bytes offset = .ok x ↔ At bytes offset (i64 x) := by
  simp only [readI64, Parse.bind_ok, readLe_ok, Parse.pure_eq, Parse.ok.injEq]
  constructor
  · rintro ⟨n, ⟨h, hn⟩, rfl⟩
    rwa [i64, UInt64.toUInt64_toInt64, UInt64.toNat_ofNat_of_lt' hn]
  · intro h
    exact ⟨x.toUInt64.toNat, ⟨h, x.toUInt64.toNat_lt⟩, by simp⟩

theorem readU16_proper (h : offset + 2 ≤ bytes.length) : (readU16 bytes offset).Proper :=
  (readLe_proper h).bind fun _ _ => trivial

theorem readU32_proper (h : offset + 4 ≤ bytes.length) : (readU32 bytes offset).Proper :=
  (readLe_proper h).bind fun _ _ => trivial

theorem readI64_proper (h : offset + 8 ≤ bytes.length) : (readI64 bytes offset).Proper :=
  (readLe_proper h).bind fun _ _ => trivial

/-! ## Texts -/

theorem Text.ofBuffer_bytes (t : Text max) : Text.ofBuffer t.bytes = t := by
  obtain ⟨bytes, fits, clean⟩ := t
  simp only [Text.ofBuffer, List.take_of_length_le fits, Text.mk.injEq]
  rw [List.takeWhile_eq_self_iff]
  intro b hb
  have hne : b ≠ 0 := fun h => clean (h ▸ hb)
  simp [hne]

theorem Text.bytes_ofBuffer {raw : List UInt8} (hl : raw.length ≤ max) (hc : (0 : UInt8) ∉ raw) :
    (Text.ofBuffer raw : Text max).bytes = raw := congrArg Text.bytes (Text.ofBuffer_bytes ⟨raw, hl, hc⟩)

theorem readString_ok (hmax : max ≤ 65535) {r} : readString bytes max offset = .ok r ↔
    ∃ raw, raw.length ≤ max ∧ At bytes offset (rawText raw) ∧ r = (.ofBuffer raw, offset + (rawText raw).length) := by
  simp only [readString, Parse.ite_ok, Parse.bind_ok, readU16_ok, Parse.pure_eq, readBytes_ok, Parse.ok.injEq, ne_eq,
    reduceCtorEq, not_false_eq_true]
  constructor
  · rintro ⟨hlen, length, hat, hle, hshort, raw, ⟨hraw, hrl⟩, rfl⟩
    have hof : UInt16.ofNat raw.length = length := by rw [hrl, UInt16.ofNat_toNat]
    refine ⟨raw, by omega, ?_, ?_⟩
    · rw [rawText, at_append, length_u16, hof]
      exact ⟨hat, hraw⟩
    · simp [hrl, Nat.add_assoc]
  · rintro ⟨raw, hl, hat, rfl⟩
    have hbound := hat.le
    rw [length_rawText] at hbound
    rw [rawText, at_append, length_u16] at hat
    have hof : (UInt16.ofNat raw.length).toNat = raw.length := by
      refine UInt16.toNat_ofNat_of_lt' ?_
      show raw.length < 65536
      omega
    refine ⟨by omega, _, hat.1, by omega, by omega, raw, ⟨hat.2, hof.symm⟩, ?_⟩
    simp [hof, Nat.add_assoc]

theorem readString_proper : (readString bytes max offset).Proper := by
  unfold readString
  refine Parse.proper_check fun hlen => (readU16_proper (by omega)).bind fun length _ => ?_
  refine Parse.proper_check fun _ => Parse.proper_check fun hshort => ?_
  exact (readBytes_proper (by omega)).bind fun _ _ => trivial

theorem readStrings_ok (hmax : max ≤ 65535) {count} : ∀ {offset r}, offset ≤ bytes.length →
    (readStrings bytes max count offset = .ok r ↔ ∃ raws : List (List UInt8), raws.length = count ∧
      (∀ raw ∈ raws, raw.length ≤ max) ∧ At bytes offset (rawTexts raws) ∧
      r = (raws.map .ofBuffer, offset + (rawTexts raws).length)) := by
  induction count with
  | zero =>
      intro offset r ho
      simp [readStrings, rawTexts, at_nil, ho, eq_comm]
  | succ count ih =>
      intro offset r ho
      simp only [readStrings, Parse.bind_ok, readString_ok hmax, Parse.pure_eq, Parse.ok.injEq]
      constructor
      · rintro ⟨_, ⟨raw, hl, hat, rfl⟩, rest, hrest, rfl⟩
        obtain ⟨raws, rfl, hls, hats, rfl⟩ := (ih hat.le).1 hrest
        refine ⟨raw :: raws, rfl, by simpa using ⟨hl, hls⟩, ?_, ?_⟩
        · rw [rawTexts, List.flatMap_cons, at_append]
          exact ⟨hat, hats⟩
        · simp [rawTexts, Nat.add_assoc]
      · rintro ⟨raws, hc, hls, hat, rfl⟩
        obtain ⟨raw, raws, rfl⟩ := List.exists_cons_of_length_eq_add_one hc
        rw [rawTexts, List.flatMap_cons, at_append] at hat
        have hc' : raws.length = count := by simpa using hc
        simp only [List.mem_cons, forall_eq_or_imp] at hls
        refine ⟨_, ⟨raw, hls.1, hat.1, rfl⟩, _, (ih hat.1.le).2 ⟨raws, hc', hls.2, hat.2, rfl⟩, ?_⟩
        simp [rawTexts, Nat.add_assoc]

theorem readStrings_proper {count} : ∀ {offset}, (readStrings bytes max count offset).Proper := by
  induction count with
  | zero => exact fun {_} => trivial
  | succ count ih => exact readString_proper.bind fun _ _ => ih.bind fun _ _ => trivial

theorem readVersionAndCaps_ok {version caps} : readVersionAndCaps bytes offset = .ok (version, caps) ↔
    ∃ raws : List (List UInt8), raws.length ≤ maxCaps ∧ (∀ raw ∈ raws, raw.length ≤ maxText) ∧
      At bytes offset (Layout.versionAndCaps version raws) ∧
      offset + (Layout.versionAndCaps version raws).length = bytes.length ∧ caps = raws.map .ofBuffer := by
  simp only [readVersionAndCaps, Parse.ite_ok, Parse.bind_ok, readU16_ok, readU32_ok, Parse.pure_eq, Parse.ok.injEq,
    Prod.mk.injEq, ne_eq, reduceCtorEq, not_false_eq_true, not_not]
  constructor
  · rintro ⟨hlen, v, hv, count, hcount, hcaps, r, hr, hend, rfl, rfl⟩
    obtain ⟨raws, hl, hls, hat, rfl⟩ := (readStrings_ok (by decide) (by omega)).1 hr
    have hof : UInt32.ofNat raws.length = count := by rw [hl, UInt32.ofNat_toNat]
    refine ⟨raws, by omega, hls, ?_, ?_, rfl⟩
    · rw [Layout.versionAndCaps, List.append_assoc, at_append, at_append, hof]
      exact ⟨hv, hcount, by simpa [Nat.add_assoc] using hat⟩
    · simp only [Layout.versionAndCaps, List.length_append, length_u16, length_u32]
      omega
  · rintro ⟨raws, hl, hls, hat, hend, rfl⟩
    simp only [Layout.versionAndCaps, List.length_append, length_u16, length_u32] at hend
    rw [Layout.versionAndCaps, List.append_assoc, at_append, at_append, length_u16, length_u32] at hat
    have hof : (UInt32.ofNat raws.length).toNat = raws.length := by
      refine UInt32.toNat_ofNat_of_lt' ?_
      simp only [maxCaps] at hl
      show raws.length < 4294967296
      omega
    have hraws : readStrings bytes maxText raws.length (offset + 6) =
        .ok (raws.map .ofBuffer, offset + 6 + (rawTexts raws).length) :=
      (readStrings_ok (by decide) (by omega)).2 ⟨raws, rfl, hls, by simpa [Nat.add_assoc] using hat.2.2, rfl⟩
    refine ⟨by omega, version, hat.1, .ofNat raws.length, hat.2.1, by omega, _, by rw [hof]; exact hraws, ?_, rfl, rfl⟩
    simp only
    omega

theorem readVersionAndCaps_proper : (readVersionAndCaps bytes offset).Proper := by
  unfold readVersionAndCaps
  refine Parse.proper_check fun hlen => (readU16_proper (by omega)).bind fun _ _ => ?_
  refine (readU32_proper (by omega)).bind fun _ _ => Parse.proper_check fun _ => ?_
  exact readStrings_proper.bind fun _ _ => Parse.proper_check fun _ => trivial

/-! ## Frames -/

namespace Layout

variable {l : Layout} {id : UInt32}

@[simp] theorem length_frame : (l.frame id).length = headerSize + l.payload.length := by
  simp [frame, headerSize, Nat.add_assoc]
  omega

theorem drop_frame : (l.frame id).drop headerSize = l.payload := by
  have h : ([l.type.code] ++ u32 id ++ u32 (.ofNat l.payload.length)).length = headerSize := by
    simp [headerSize]
  rw [frame, List.drop_left' h]

/-- What stands behind the header, up to the end of the frame, is the payload. -/
theorem payload_of_at {l : Layout} {id : UInt32} {e : List UInt8} :
    At (l.frame id) headerSize e ∧ headerSize + e.length = (l.frame id).length ↔ l.payload = e := by
  rw [length_frame]
  constructor
  · rintro ⟨hat, hlen⟩
    have he := hat.2
    rw [drop_frame, List.take_of_length_le (by omega)] at he
    exact he
  · rintro rfl
    refine ⟨⟨by simp, ?_⟩, rfl⟩
    rw [drop_frame, List.take_length]

end Layout

/-- A header whose length field is right, in front of any payload. -/
theorem readHeaderOf_ok {type id} : readHeaderOf bytes type = .ok id ↔
    ∃ payload : List UInt8, payload.length < 2 ^ 32 ∧
      bytes = [type.code] ++ u32 id ++ u32 (.ofNat payload.length) ++ payload := by
  simp only [readHeaderOf, readHeader, Parse.ite_ok, Parse.bind_ok, readLe_ok, readU32_ok, Parse.pure_eq,
    Parse.ok.injEq, ne_eq, reduceCtorEq, not_false_eq_true, not_not]
  constructor
  · rintro ⟨header, ⟨hlen, t, ⟨ht, htl⟩, id', hid, length, hl, hend, rfl⟩, hcode, rfl⟩
    simp only at hcode hend ⊢
    have hat : At bytes 0 (le 1 t ++ u32 id' ++ u32 length) := by
      rw [at_append, at_append]
      exact ⟨⟨ht, hid⟩, by simpa using hl⟩
    obtain ⟨payload, rfl⟩ := hat.start
    have hpl : payload.length = length.toNat := by
      simp only [List.length_append, length_le, length_u32, headerSize] at hend
      omega
    refine ⟨payload, hpl ▸ length.toNat_lt, ?_⟩
    rw [hpl, UInt32.ofNat_toNat, ← hcode]
    rfl
  · rintro ⟨payload, hpl, rfl⟩
    have hof : (UInt32.ofNat payload.length).toNat = payload.length := UInt32.toNat_ofNat_of_lt' hpl
    have hcode : [type.code] = le 1 type.code.toNat := by
      cases type <;> rfl
    have hat := at_split [] ([type.code] ++ u32 id ++ u32 (.ofNat payload.length)) payload
    rw [List.nil_append, at_append, at_append, hcode] at hat
    obtain ⟨⟨h₁, h₂⟩, h₃⟩ := hat
    refine ⟨⟨type.code, id, .ofNat payload.length⟩,
      ⟨?_, type.code.toNat, ⟨?_, type.code.toNat_lt⟩, id, ?_, .ofNat payload.length, ?_, ?_, ?_⟩, rfl, rfl⟩
    · simp [headerSize]
      omega
    · rw [hcode]
      exact h₁
    · rw [hcode]
      simpa using h₂
    · rw [hcode]
      simpa using h₃
    · simp [hof, headerSize]
      omega
    · simp

theorem readHeaderOf_proper {type} : (readHeaderOf bytes type).Proper := by
  unfold readHeaderOf readHeader
  refine Parse.Proper.bind (Parse.proper_check fun hlen => ?_) fun _ _ => Parse.proper_check fun _ => trivial
  simp only [headerSize, Nat.not_lt] at hlen
  refine (readLe_proper (by omega)).bind fun _ _ => (readU32_proper (by omega)).bind fun _ _ => ?_
  exact (readU32_proper (by omega)).bind fun _ _ => Parse.proper_check fun _ => trivial

theorem rawTexts_length_le {raws : List (List UInt8)} (h : ∀ raw ∈ raws, raw.length ≤ max) :
    (rawTexts raws).length ≤ raws.length * (2 + max) := by
  induction raws with
  | nil => simp [rawTexts]
  | cons raw raws ih =>
      simp only [List.mem_cons, forall_eq_or_imp] at h
      have hrest := ih h.2
      simp only [rawTexts, List.flatMap_cons, List.length_append, length_rawText, List.length_cons, Nat.add_mul] at hrest ⊢
      omega

theorem Layout.Fits.payload_length {l : Layout} (h : l.Fits) : l.payload.length < 2 ^ 32 := by
  have hcaps : ∀ {caps : List (List UInt8)}, caps.length ≤ maxCaps → (∀ cap ∈ caps, cap.length ≤ maxText) →
      (rawTexts caps).length ≤ 16 * 66 := by
    intro caps hl hls
    exact Nat.le_trans (rawTexts_length_le hls) (Nat.mul_le_mul_right _ hl)
  cases l with
  | hello version client caps =>
      have := hcaps h.2.1 h.2.2
      have := h.1
      simp only [maxText] at this
      simp [payload, versionAndCaps]
      omega
  | welcome version caps =>
      have := hcaps h.1 h.2
      simp [payload, versionAndCaps]
      omega
  | deny code text =>
      simp only [Fits, maxErrorText] at h
      simp [payload]
      omega
  | call cap op value =>
      simp only [Fits, maxText] at h
      simp [payload]
      omega
  | result value => simp [payload]
  | error code text =>
      simp only [Fits, maxErrorText] at h
      simp [payload]
      omega

/-- A frame of a layout within the limits passes the checks of its header. -/
theorem readHeaderOf_frame {l : Layout} (h : l.Fits) (id : UInt32) :
    readHeaderOf (l.frame id) l.type = .ok id := readHeaderOf_ok.2 ⟨l.payload, h.payload_length, rfl⟩

/-- The layout of a frame, from what stands behind its header. -/
theorem frame_of_at {l : Layout} {id : UInt32} (hr : readHeaderOf bytes l.type = .ok id)
    (hat : At bytes headerSize l.payload) (hlen : headerSize + l.payload.length = bytes.length) :
    bytes = l.frame id := by
  obtain ⟨payload, hl, rfl⟩ := readHeaderOf_ok.1 hr
  have hdrop : ([l.type.code] ++ u32 id ++ u32 (.ofNat payload.length) ++ payload).drop headerSize = payload :=
    List.drop_left' (by simp [headerSize])
  have hp := hat.2
  have hlen' : payload.length = l.payload.length := by
    simp [headerSize] at hlen
    omega
  rw [hdrop, ← hlen', List.take_length] at hp
  rw [Layout.frame, ← hp]

/-! ## Decoders -/

theorem decodeHello_ok {id m} : decodeHello bytes = .ok (id, m) ↔ ∃ version client caps,
    (Layout.hello version client caps).Fits ∧ bytes = (Layout.hello version client caps).frame id ∧
      m = ⟨version, .ofBuffer client, caps.map .ofBuffer⟩ := by
  simp only [decodeHello, Parse.bind_ok, Parse.pure_eq, Parse.ok.injEq, readString_ok (show maxText ≤ 65535 by decide),
    Prod.mk.injEq]
  constructor
  · rintro ⟨id, hid, _, ⟨client, hc, hat, rfl⟩, ⟨version, caps⟩, hrest, rfl, rfl⟩
    obtain ⟨raws, hl, hls, hats, hend, rfl⟩ := readVersionAndCaps_ok.1 hrest
    refine ⟨version, client, raws, ⟨hc, hl, hls⟩, frame_of_at hid ?_ ?_, rfl⟩
    · rw [Layout.payload, at_append]
      exact ⟨hat, hats⟩
    · rw [Layout.payload, List.length_append]
      simpa [Nat.add_assoc] using hend
  · rintro ⟨version, client, caps, hf, rfl, rfl⟩
    obtain ⟨hat, hend⟩ := Layout.payload_of_at.2 (rfl : (Layout.hello version client caps).payload = _)
    rw [Layout.payload, at_append] at hat
    refine ⟨id, readHeaderOf_frame hf id, _, ⟨client, hf.1, hat.1, rfl⟩, (version, caps.map .ofBuffer),
      readVersionAndCaps_ok.2 ⟨caps, hf.2.1, hf.2.2, hat.2, ?_, rfl⟩, rfl, rfl⟩
    rw [← hend, Layout.payload, List.length_append, Nat.add_assoc]

theorem decodeWelcome_ok {id m} : decodeWelcome bytes = .ok (id, m) ↔ ∃ version caps,
    (Layout.welcome version caps).Fits ∧ bytes = (Layout.welcome version caps).frame id ∧
      m = ⟨version, caps.map .ofBuffer⟩ := by
  simp only [decodeWelcome, Parse.bind_ok, Parse.pure_eq, Parse.ok.injEq, Prod.mk.injEq]
  constructor
  · rintro ⟨id, hid, ⟨version, caps⟩, hrest, rfl, rfl⟩
    obtain ⟨raws, hl, hls, hat, hend, rfl⟩ := readVersionAndCaps_ok.1 hrest
    exact ⟨version, raws, ⟨hl, hls⟩, frame_of_at hid hat hend, rfl⟩
  · rintro ⟨version, caps, hf, rfl, rfl⟩
    obtain ⟨hat, hend⟩ := Layout.payload_of_at.2 (rfl : (Layout.welcome version caps).payload = _)
    exact ⟨id, readHeaderOf_frame hf id, (version, caps.map .ofBuffer),
      readVersionAndCaps_ok.2 ⟨caps, hf.1, hf.2, hat, hend, rfl⟩, rfl, rfl⟩

/-- The decoder of both kinds of notices, given their layouts. -/
theorem decodeNotice_ok (layout : UInt32 → List UInt8 → Layout)
    (hp : ∀ code text, (layout code text).payload = u32 code ++ rawText text)
    (hf : ∀ code text, (layout code text).Fits ↔ text.length ≤ maxErrorText) {type}
    (ht : ∀ code text, (layout code text).type = type) {id m} :
    decodeNotice bytes type = .ok (id, m) ↔ ∃ code text, (layout code text).Fits ∧
      bytes = (layout code text).frame id ∧ m = ⟨code, .ofBuffer text⟩ := by
  simp only [decodeNotice, Parse.bind_ok, Parse.ite_ok, Parse.pure_eq, Parse.ok.injEq, readU32_ok,
    readString_ok (show maxErrorText ≤ 65535 by decide), Prod.mk.injEq, ne_eq, reduceCtorEq, not_false_eq_true, not_not]
  constructor
  · rintro ⟨id, hid, hshort, code, hcode, _, ⟨text, hl, hat, rfl⟩, hend, rfl, rfl⟩
    refine ⟨code, text, (hf _ _).2 hl, frame_of_at (by rwa [ht]) ?_ ?_, rfl⟩
    · rw [hp, at_append, length_u32]
      exact ⟨hcode, hat⟩
    · rw [hp, List.length_append, length_u32, ← Nat.add_assoc]
      exact hend
  · rintro ⟨code, text, hfit, rfl, rfl⟩
    obtain ⟨hat, hend⟩ := Layout.payload_of_at.2 (rfl : (layout code text).payload = _)
    rw [hp, at_append, length_u32] at hat
    rw [hp, List.length_append, length_u32] at hend
    refine ⟨id, ?_, by omega, code, hat.1, _, ⟨text, (hf _ _).1 hfit, hat.2, rfl⟩, by rw [← hend, Nat.add_assoc], rfl, rfl⟩
    rw [← ht code text]
    exact readHeaderOf_frame hfit id

theorem decodeDeny_ok {id m} : decodeDeny bytes = .ok (id, m) ↔ ∃ code text,
    (Layout.deny code text).Fits ∧ bytes = (Layout.deny code text).frame id ∧ m = ⟨code, .ofBuffer text⟩ :=
  decodeNotice_ok .deny (fun _ _ => rfl) (fun _ _ => Iff.rfl) fun _ _ => rfl

theorem decodeError_ok {id m} : decodeError bytes = .ok (id, m) ↔ ∃ code text,
    (Layout.error code text).Fits ∧ bytes = (Layout.error code text).frame id ∧ m = ⟨code, .ofBuffer text⟩ :=
  decodeNotice_ok .error (fun _ _ => rfl) (fun _ _ => Iff.rfl) fun _ _ => rfl

theorem decodeCall_ok {id m} : decodeCall bytes = .ok (id, m) ↔ ∃ cap op value,
    (Layout.call cap op value).Fits ∧ bytes = (Layout.call cap op value).frame id ∧
      m = ⟨.ofBuffer cap, .ofBuffer op, value⟩ := by
  simp only [decodeCall, Parse.bind_ok, Parse.ite_ok, Parse.pure_eq, Parse.ok.injEq, readI64_ok,
    readString_ok (show maxText ≤ 65535 by decide), Prod.mk.injEq, ne_eq, reduceCtorEq, not_false_eq_true, not_not]
  constructor
  · rintro ⟨id, hid, _, ⟨cap, hc, hcat, rfl⟩, _, ⟨op, ho, hoat, rfl⟩, hend, value, hv, rfl, rfl⟩
    refine ⟨cap, op, value, ⟨hc, ho⟩, frame_of_at hid ?_ ?_, rfl⟩
    · rw [Layout.payload, at_append, at_append, List.length_append, ← Nat.add_assoc]
      exact ⟨⟨hcat, hoat⟩, hv⟩
    · rw [Layout.payload, List.length_append, List.length_append, length_i64, ← Nat.add_assoc, ← Nat.add_assoc]
      exact hend
  · rintro ⟨cap, op, value, hf, rfl, rfl⟩
    obtain ⟨hat, hend⟩ := Layout.payload_of_at.2 (rfl : (Layout.call cap op value).payload = _)
    rw [Layout.payload, at_append, at_append, List.length_append, ← Nat.add_assoc] at hat
    rw [Layout.payload, List.length_append, List.length_append, length_i64, ← Nat.add_assoc, ← Nat.add_assoc] at hend
    exact ⟨id, readHeaderOf_frame hf id, _, ⟨cap, hf.1, hat.1.1, rfl⟩, _, ⟨op, hf.2, hat.1.2, rfl⟩, hend, value, hat.2,
      rfl, rfl⟩

theorem decodeResult_ok {id m} : decodeResult bytes = .ok (id, m) ↔ ∃ value,
    (Layout.result value).Fits ∧ bytes = (Layout.result value).frame id ∧ m = ⟨value⟩ := by
  simp only [decodeResult, Parse.bind_ok, Parse.ite_ok, Parse.pure_eq, Parse.ok.injEq, readI64_ok, Prod.mk.injEq, ne_eq,
    reduceCtorEq, not_false_eq_true, not_not]
  constructor
  · rintro ⟨id, hid, hlen, value, hv, rfl, rfl⟩
    exact ⟨value, trivial, frame_of_at hid hv (by simp [Layout.payload, hlen]), rfl⟩
  · rintro ⟨value, hf, rfl, rfl⟩
    obtain ⟨hat, hend⟩ := Layout.payload_of_at.2 (rfl : (Layout.result value).payload = _)
    exact ⟨id, readHeaderOf_frame hf id, by simp [Layout.payload], value, hat, rfl, rfl⟩

/-- A decoder accepts exactly the frames of its layouts within the limits. -/
theorem decode_ok {type id m} : decode bytes type = .ok (id, m) ↔
    ∃ l : Layout, l.type = type ∧ l.Fits ∧ bytes = l.frame id ∧ m = l.message := by
  constructor
  · intro h
    cases type with
    | hello =>
        simp only [decode, Parse.bind_ok, Parse.pure_eq, Parse.ok.injEq, Prod.mk.injEq] at h
        obtain ⟨⟨id, m⟩, h, rfl, rfl⟩ := h
        obtain ⟨version, client, caps, hf, rfl, rfl⟩ := decodeHello_ok.1 h
        exact ⟨_, rfl, hf, rfl, rfl⟩
    | welcome =>
        simp only [decode, Parse.bind_ok, Parse.pure_eq, Parse.ok.injEq, Prod.mk.injEq] at h
        obtain ⟨⟨id, m⟩, h, rfl, rfl⟩ := h
        obtain ⟨version, caps, hf, rfl, rfl⟩ := decodeWelcome_ok.1 h
        exact ⟨_, rfl, hf, rfl, rfl⟩
    | deny =>
        simp only [decode, Parse.bind_ok, Parse.pure_eq, Parse.ok.injEq, Prod.mk.injEq] at h
        obtain ⟨⟨id, m⟩, h, rfl, rfl⟩ := h
        obtain ⟨code, text, hf, rfl, rfl⟩ := decodeDeny_ok.1 h
        exact ⟨_, rfl, hf, rfl, rfl⟩
    | call =>
        simp only [decode, Parse.bind_ok, Parse.pure_eq, Parse.ok.injEq, Prod.mk.injEq] at h
        obtain ⟨⟨id, m⟩, h, rfl, rfl⟩ := h
        obtain ⟨cap, op, value, hf, rfl, rfl⟩ := decodeCall_ok.1 h
        exact ⟨_, rfl, hf, rfl, rfl⟩
    | result =>
        simp only [decode, Parse.bind_ok, Parse.pure_eq, Parse.ok.injEq, Prod.mk.injEq] at h
        obtain ⟨⟨id, m⟩, h, rfl, rfl⟩ := h
        obtain ⟨value, hf, rfl, rfl⟩ := decodeResult_ok.1 h
        exact ⟨_, rfl, hf, rfl, rfl⟩
    | error =>
        simp only [decode, Parse.bind_ok, Parse.pure_eq, Parse.ok.injEq, Prod.mk.injEq] at h
        obtain ⟨⟨id, m⟩, h, rfl, rfl⟩ := h
        obtain ⟨code, text, hf, rfl, rfl⟩ := decodeError_ok.1 h
        exact ⟨_, rfl, hf, rfl, rfl⟩
  · rintro ⟨l, rfl, hf, rfl, rfl⟩
    cases l with
    | hello version client caps =>
        have h : decodeHello _ = .ok (id, _) := decodeHello_ok.2 ⟨version, client, caps, hf, rfl, rfl⟩
        simp [Layout.type, decode, h, Layout.message]
    | welcome version caps =>
        have h : decodeWelcome _ = .ok (id, _) := decodeWelcome_ok.2 ⟨version, caps, hf, rfl, rfl⟩
        simp [Layout.type, decode, h, Layout.message]
    | deny code text =>
        have h : decodeDeny _ = .ok (id, _) := decodeDeny_ok.2 ⟨code, text, hf, rfl, rfl⟩
        simp [Layout.type, decode, h, Layout.message]
    | call cap op value =>
        have h : decodeCall _ = .ok (id, _) := decodeCall_ok.2 ⟨cap, op, value, hf, rfl, rfl⟩
        simp [Layout.type, decode, h, Layout.message]
    | result value =>
        have h : decodeResult _ = .ok (id, _) := decodeResult_ok.2 ⟨value, hf, rfl, rfl⟩
        simp [Layout.type, decode, h, Layout.message]
    | error code text =>
        have h : decodeError _ = .ok (id, _) := decodeError_ok.2 ⟨code, text, hf, rfl, rfl⟩
        simp [Layout.type, decode, h, Layout.message]

theorem decode_proper (type : MessageType) : (decode bytes type).Proper := by
  cases type with
  | hello =>
      refine Parse.Proper.bind ?_ fun _ _ => trivial
      exact readHeaderOf_proper.bind fun _ _ => readString_proper.bind fun _ _ =>
        readVersionAndCaps_proper.bind fun _ _ => trivial
  | welcome =>
      refine Parse.Proper.bind ?_ fun _ _ => trivial
      exact readHeaderOf_proper.bind fun _ _ => readVersionAndCaps_proper.bind fun _ _ => trivial
  | deny => exact decodeNotice_proper.bind fun _ _ => trivial
  | call =>
      refine Parse.Proper.bind ?_ fun _ _ => trivial
      refine readHeaderOf_proper.bind fun _ _ => readString_proper.bind fun _ _ => readString_proper.bind fun _ _ => ?_
      exact Parse.proper_check fun hend => (readI64_proper (by omega)).bind fun _ _ => trivial
  | result =>
      refine Parse.Proper.bind ?_ fun _ _ => trivial
      exact readHeaderOf_proper.bind fun _ _ => Parse.proper_check fun hlen =>
        (readI64_proper (by omega)).bind fun _ _ => trivial
  | error => exact decodeNotice_proper.bind fun _ _ => trivial
where
  decodeNotice_proper {type} : (decodeNotice bytes type).Proper := by
    refine readHeaderOf_proper.bind fun _ _ => Parse.proper_check fun hlen => ?_
    refine (readU32_proper (by omega)).bind fun _ _ => readString_proper.bind fun _ _ => ?_
    exact Parse.proper_check fun _ => trivial

end Aivm.Remote
