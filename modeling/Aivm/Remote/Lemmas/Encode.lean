import Aivm.Lib.Results
import Aivm.Remote.Lemmas.Channel

/-!
# What the encoders write

A message within the limits is written as the frame of its layout, into every buffer that is long enough for it.
-/

namespace Aivm.Remote

open ByteReader

variable {body b : List UInt8} {max capacity : Nat} {id : UInt32}

/-! ## Encoders -/

theorem le_length_eq_u16 {n : Nat} (h : n ≤ 65535) : le 2 n = u16 (.ofNat n) := by
  rw [u16, UInt16.toNat_ofNat_of_lt']
  show n < 65536
  omega

theorem writeFields_ok {fields} :
    writeFields capacity fields body = .ok b ↔ b = body ++ fields ∧ headerSize + b.length ≤ capacity := by
  unfold writeFields
  constructor
  · intro h
    split at h <;> cases h
    simp only [List.length_append]
    exact ⟨trivial, by omega⟩
  · rintro ⟨rfl, h⟩
    simp only [List.length_append] at h
    rw [if_neg (by omega)]

theorem writeString_ok {text : List UInt8} (hmax : max ≤ 65535) (hl : text.length ≤ max) :
    writeString capacity max text body = .ok b ↔ b = body ++ rawText text ∧ headerSize + b.length ≤ capacity := by
  unfold writeString
  rw [if_neg (by omega), rawText, ← le_length_eq_u16 (by omega)]
  constructor
  · intro h
    split at h <;> cases h
    simp only [List.length_append, length_le, List.append_assoc]
    exact ⟨trivial, by omega⟩
  · rintro ⟨rfl, h⟩
    simp only [List.length_append, length_le] at h
    rw [if_neg (by omega), List.append_assoc]

theorem writeStrings_ok (hmax : max ≤ 65535) {texts : List (List UInt8)} : ∀ {body : List UInt8},
    (∀ text ∈ texts, text.length ≤ max) → headerSize + body.length ≤ capacity →
    (writeStrings capacity max texts body = .ok b ↔ b = body ++ rawTexts texts ∧ headerSize + b.length ≤ capacity) := by
  induction texts with
  | nil =>
      intro body _ hb
      simp only [writeStrings, Except.ok.injEq, rawTexts, List.flatMap_nil, List.append_nil]
      constructor
      · rintro rfl
        exact ⟨rfl, hb⟩
      · rintro ⟨rfl, _⟩
        rfl
  | cons text texts ih =>
      intro body hls hb
      simp only [List.mem_cons, forall_eq_or_imp] at hls
      simp only [writeStrings, Results.bind_ok, writeString_ok hmax hls.1]
      constructor
      · rintro ⟨body', ⟨rfl, hcap⟩, h⟩
        obtain ⟨rfl, hcap'⟩ := (ih hls.2 hcap).1 h
        exact ⟨by simp [rawTexts], hcap'⟩
      · rintro ⟨rfl, hcap⟩
        have hcap' : headerSize + (body ++ rawText text).length ≤ capacity := by
          simp only [rawTexts, List.flatMap_cons, List.length_append] at hcap ⊢
          omega
        exact ⟨_, ⟨rfl, hcap'⟩, (ih hls.2 hcap').2 ⟨by simp [rawTexts], hcap⟩⟩

theorem writeHeader_ok {type} (hb : headerSize + body.length ≤ capacity) : writeHeader type id capacity body =
    .ok ([type.code] ++ u32 id ++ u32 (.ofNat body.length) ++ body) := if_neg (by omega)

theorem texts_le (caps : List (Text max)) : ∀ text ∈ caps.map (·.bytes), text.length ≤ max := by
  intro text h
  obtain ⟨cap, _, rfl⟩ := List.mem_map.1 h
  exact cap.fits

theorem length_append_frame {l : Layout} (h : headerSize + l.payload.length ≤ capacity) :
    (l.frame id).length ≤ capacity := by
  rw [Layout.length_frame]
  exact h

theorem encodeNotice_ok {type} {m : Notice} (layout : Layout) (ht : layout.type = type)
    (hp : layout.payload = u32 m.errorCode ++ rawText m.message.bytes) :
    encodeNotice type id m capacity = .ok b ↔ b = layout.frame id ∧ b.length ≤ capacity := by
  simp only [encodeNotice, Results.bind_ok, writeFields_ok,
    writeString_ok (show maxErrorText ≤ 65535 by decide) m.message.fits, List.nil_append]
  constructor
  · rintro ⟨_, ⟨rfl, _⟩, _, ⟨rfl, hcap⟩, h⟩
    rw [writeHeader_ok hcap, Except.ok.injEq] at h
    rw [← hp, ← ht] at h
    rw [← hp] at hcap
    exact ⟨h.symm, h ▸ length_append_frame hcap⟩
  · rintro ⟨rfl, hcap⟩
    rw [Layout.length_frame, hp] at hcap
    refine ⟨_, ⟨rfl, ?_⟩, _, ⟨rfl, hcap⟩, ?_⟩
    · simp only [List.length_append] at hcap
      omega
    · rw [writeHeader_ok hcap, ← hp, ← ht]
      rfl

/-- A message is written as the frame of its layout, into every buffer that is long enough. -/
theorem encode_ok {m : Message} : encode id m capacity = .ok b ↔
    m.WithinLimits ∧ b = m.layout.frame id ∧ b.length ≤ capacity := by
  cases m with
  | hello m =>
      by_cases hlim : maxCaps < m.requestedCaps.length
      · simp [encode, encodeHello, hlim, Message.WithinLimits]
      have hlim' : m.requestedCaps.length ≤ maxCaps := by omega
      have hp : (Message.hello m).layout.payload = rawText m.clientName.bytes ++
          (u16 m.protoVersion ++ u32 (.ofNat m.requestedCaps.length)) ++ rawTexts (m.requestedCaps.map (·.bytes)) := by
        simp [Message.layout, Layout.payload, Layout.versionAndCaps]
      simp only [encode, encodeHello, if_neg hlim, Results.bind_ok, writeFields_ok, Message.WithinLimits, hlim',
        true_and, writeString_ok (show maxText ≤ 65535 by decide) m.clientName.fits, List.nil_append]
      constructor
      · rintro ⟨_, ⟨rfl, _⟩, _, ⟨rfl, hcap⟩, _, h, h'⟩
        obtain ⟨rfl, hcap⟩ := (writeStrings_ok (by decide) (texts_le _) hcap).1 h
        rw [writeHeader_ok hcap, Except.ok.injEq, ← hp] at h'
        rw [← hp] at hcap
        exact ⟨h'.symm, h' ▸ length_append_frame hcap⟩
      · rintro ⟨rfl, hcap⟩
        rw [Layout.length_frame, hp] at hcap
        have hcap₂ : headerSize + (rawText m.clientName.bytes ++
            (u16 m.protoVersion ++ u32 (.ofNat m.requestedCaps.length))).length ≤ capacity := by
          rw [List.length_append] at hcap
          omega
        have hcap₁ : headerSize + (rawText m.clientName.bytes).length ≤ capacity := by
          rw [List.length_append] at hcap₂
          omega
        refine ⟨_, ⟨rfl, hcap₁⟩, _, ⟨rfl, hcap₂⟩, _, (writeStrings_ok (by decide) (texts_le _) hcap₂).2 ⟨rfl, hcap⟩, ?_⟩
        rw [writeHeader_ok hcap, ← hp]
        rfl
  | welcome m =>
      by_cases hlim : maxCaps < m.grantedCaps.length
      · simp [encode, encodeWelcome, hlim, Message.WithinLimits]
      have hlim' : m.grantedCaps.length ≤ maxCaps := by omega
      have hp : (Message.welcome m).layout.payload =
          (u16 m.protoVersion ++ u32 (.ofNat m.grantedCaps.length)) ++ rawTexts (m.grantedCaps.map (·.bytes)) := by
        simp [Message.layout, Layout.payload, Layout.versionAndCaps]
      simp only [encode, encodeWelcome, if_neg hlim, Results.bind_ok, writeFields_ok, Message.WithinLimits, hlim',
        true_and, List.nil_append]
      constructor
      · rintro ⟨_, ⟨rfl, hcap⟩, _, h, h'⟩
        obtain ⟨rfl, hcap⟩ := (writeStrings_ok (by decide) (texts_le _) hcap).1 h
        rw [writeHeader_ok hcap, Except.ok.injEq, ← hp] at h'
        rw [← hp] at hcap
        exact ⟨h'.symm, h' ▸ length_append_frame hcap⟩
      · rintro ⟨rfl, hcap⟩
        rw [Layout.length_frame, hp] at hcap
        have hcap₁ : headerSize + (u16 m.protoVersion ++ u32 (.ofNat m.grantedCaps.length)).length ≤ capacity := by
          rw [List.length_append] at hcap
          omega
        refine ⟨_, ⟨rfl, hcap₁⟩, _, (writeStrings_ok (by decide) (texts_le _) hcap₁).2 ⟨rfl, hcap⟩, ?_⟩
        rw [writeHeader_ok hcap, ← hp]
        rfl
  | deny m =>
      simp only [encode, encodeDeny, Message.WithinLimits, true_and]
      exact encodeNotice_ok (Message.deny m).layout rfl rfl
  | call m =>
      have hp : (Message.call m).layout.payload = rawText m.cap.bytes ++ rawText m.op.bytes ++ i64 m.value := rfl
      simp only [encode, encodeCall, Results.bind_ok, writeFields_ok, Message.WithinLimits, true_and,
        writeString_ok (show maxText ≤ 65535 by decide) m.cap.fits,
        writeString_ok (show maxText ≤ 65535 by decide) m.op.fits, List.nil_append]
      constructor
      · rintro ⟨_, ⟨rfl, _⟩, _, ⟨rfl, _⟩, _, ⟨rfl, hcap⟩, h⟩
        rw [writeHeader_ok hcap, Except.ok.injEq, ← hp] at h
        rw [← hp] at hcap
        exact ⟨h.symm, h ▸ length_append_frame hcap⟩
      · rintro ⟨rfl, hcap⟩
        rw [Layout.length_frame, hp] at hcap
        have hcap₂ : headerSize + (rawText m.cap.bytes ++ rawText m.op.bytes).length ≤ capacity := by
          rw [List.length_append] at hcap
          omega
        have hcap₁ : headerSize + (rawText m.cap.bytes).length ≤ capacity := by
          rw [List.length_append] at hcap₂
          omega
        refine ⟨_, ⟨rfl, hcap₁⟩, _, ⟨rfl, hcap₂⟩, _, ⟨rfl, hcap⟩, ?_⟩
        rw [writeHeader_ok hcap, ← hp]
        rfl
  | result m =>
      simp only [encode, encodeResult, Results.bind_ok, writeFields_ok, Message.WithinLimits, true_and,
        List.nil_append]
      constructor
      · rintro ⟨_, ⟨rfl, hcap⟩, h⟩
        rw [writeHeader_ok hcap, Except.ok.injEq] at h
        exact ⟨h.symm, h ▸ length_append_frame (l := Layout.result m.value) hcap⟩
      · rintro ⟨rfl, hcap⟩
        rw [Layout.length_frame] at hcap
        exact ⟨_, ⟨rfl, hcap⟩, writeHeader_ok hcap⟩
  | error m =>
      simp only [encode, encodeError, Message.WithinLimits, true_and]
      exact encodeNotice_ok (Message.error m).layout rfl rfl

/-! ## Messages and layouts -/

theorem Message.layout_type (m : Message) : m.layout.type = m.type := by
  cases m <;> rfl

theorem Message.layout_message (m : Message) : m.layout.message = m := by
  have hmap : ∀ caps : List (Text maxText), (caps.map (·.bytes)).map .ofBuffer = caps := by
    intro caps
    simp [Function.comp_def, Text.ofBuffer_bytes]
  cases m with
  | hello m => simp [layout, Layout.message, Text.ofBuffer_bytes, hmap]
  | welcome m => simp [layout, Layout.message, hmap]
  | deny m => simp [layout, Layout.message, Text.ofBuffer_bytes]
  | call m => simp [layout, Layout.message, Text.ofBuffer_bytes]
  | result m => rfl
  | error m => simp [layout, Layout.message, Text.ofBuffer_bytes]

theorem Message.layout_fits {m : Message} (h : m.WithinLimits) : m.layout.Fits := by
  cases m with
  | hello m => exact ⟨m.clientName.fits, by simpa [WithinLimits] using h, texts_le _⟩
  | welcome m => exact ⟨by simpa [WithinLimits] using h, texts_le _⟩
  | deny m => exact m.message.fits
  | call m => exact ⟨m.cap.fits, m.op.fits⟩
  | result m => trivial
  | error m => exact m.message.fits

/-- The texts of a message that is read have no zero byte. -/
theorem Message.layout_clean (m : Message) : ∀ text ∈ m.layout.texts, (0 : UInt8) ∉ text := by
  have hcaps : ∀ caps : List (Text maxText), ∀ text ∈ caps.map (·.bytes), (0 : UInt8) ∉ text := by
    intro caps text h
    obtain ⟨cap, _, rfl⟩ := List.mem_map.1 h
    exact cap.clean
  cases m with
  | hello m => simpa [layout, Layout.texts, m.clientName.clean] using hcaps m.requestedCaps
  | welcome m => exact hcaps m.grantedCaps
  | deny m => simp [layout, Layout.texts, m.message.clean]
  | call m => simp [layout, Layout.texts, m.cap.clean, m.op.clean]
  | result m => simp [layout, Layout.texts]
  | error m => simp [layout, Layout.texts, m.message.clean]

/-- A layout without zero bytes in its texts is the layout of its message. -/
theorem Layout.message_layout {l : Layout} (hf : l.Fits) (hc : ∀ text ∈ l.texts, (0 : UInt8) ∉ text) :
    l.message.layout = l := by
  have hcaps : ∀ caps : List (List UInt8), (∀ cap ∈ caps, cap.length ≤ maxText) → (∀ cap ∈ caps, (0 : UInt8) ∉ cap) →
      (caps.map Text.ofBuffer).map (fun t : Text maxText => t.bytes) = caps := by
    intro caps hl hc
    rw [List.map_map]
    refine (List.map_congr_left fun cap hm => ?_).trans (List.map_id caps)
    exact Text.bytes_ofBuffer (hl cap hm) (hc cap hm)
  cases l with
  | hello version client caps =>
      simp only [texts, List.mem_cons, forall_eq_or_imp] at hc
      simp [message, Message.layout, Text.bytes_ofBuffer hf.1 hc.1, hcaps caps hf.2.2 hc.2]
  | welcome version caps => simp [message, Message.layout, hcaps caps hf.2 hc]
  | deny code text =>
      simp only [texts, List.mem_singleton, forall_eq] at hc
      simp [message, Message.layout, Text.bytes_ofBuffer hf hc]
  | call cap op value =>
      simp only [texts, List.mem_cons, List.not_mem_nil, or_false, forall_eq_or_imp, forall_eq] at hc
      simp [message, Message.layout, Text.bytes_ofBuffer hf.1 hc.1, Text.bytes_ofBuffer hf.2 hc.2]
  | result value => rfl
  | error code text =>
      simp only [texts, List.mem_singleton, forall_eq] at hc
      simp [message, Message.layout, Text.bytes_ofBuffer hf hc]

end Aivm.Remote
