import Aivm.Remote.Lemmas.Session

/-!
# Remote messages and sessions

Every message within the limits comes back from its frame. A frame that is accepted is the frame of the message it is
read as, unless one of its texts has a zero byte: the text is cut there, and the frame is not the one that the message
is written in. A session gives results only for calls of capabilities that its last HELLO asked for and the server
allows.
-/

namespace Aivm.Remote

open ByteReader

/-! ## Texts of a frame -/

theorem textsAt_rawTexts {raws : List (List UInt8)} (rest : List UInt8) (h : ∀ raw ∈ raws, raw.length ≤ 65535) :
    textsAt raws.length (rawTexts raws ++ rest) = raws := by
  induction raws with
  | nil => rfl
  | cons raw raws ih =>
      simp only [List.mem_cons, forall_eq_or_imp] at h
      have hof : (UInt16.ofNat raw.length).toNat = raw.length := by
        refine UInt16.toNat_ofNat_of_lt' ?_
        show raw.length < 65536
        omega
      have hsplit : rawTexts (raw :: raws) ++ rest = u16 (.ofNat raw.length) ++ (raw ++ (rawTexts raws ++ rest)) := by
        simp [rawTexts, rawText]
      have htake : (rawTexts (raw :: raws) ++ rest).take 2 = u16 (.ofNat raw.length) := by
        rw [hsplit, List.take_left' (length_u16 _)]
      have hdrop : (rawTexts (raw :: raws) ++ rest).drop 2 = raw ++ (rawTexts raws ++ rest) := by
        rw [hsplit, List.drop_left' (length_u16 _)]
      simp only [List.length_cons, textsAt, htake, ofLe_u16, hof, ← List.drop_drop, hdrop, List.take_left,
        List.drop_left, ih h.2]

theorem textsAt_one {raw rest : List UInt8} (h : raw.length ≤ 65535) : textsAt 1 (rawText raw ++ rest) = [raw] := by
  have hall : ∀ r ∈ [raw], r.length ≤ 65535 := by simpa using h
  simpa [rawTexts] using textsAt_rawTexts rest hall

/-- The texts that stand in the frame of a layout. -/
theorem frameTexts_frame {l : Layout} (hf : l.Fits) (id : UInt32) : frameTexts l.type (l.frame id) = l.texts := by
  have hlimit : ∀ {caps : List (List UInt8)}, (∀ cap ∈ caps, cap.length ≤ maxText) → ∀ cap ∈ caps, cap.length ≤ 65535 :=
    fun h cap hm => Nat.le_trans (h cap hm) (by decide)
  have hcaps : ∀ version {caps : List (List UInt8)}, caps.length ≤ maxCaps → (∀ cap ∈ caps, cap.length ≤ maxText) →
      textsAt (ofLe (((Layout.versionAndCaps version caps).drop 2).take 4)) ((Layout.versionAndCaps version caps).drop 6) =
        caps := by
    intro version caps hl hls
    have hof : (UInt32.ofNat caps.length).toNat = caps.length := by
      refine UInt32.toNat_ofNat_of_lt' ?_
      simp only [maxCaps] at hl
      show caps.length < 4294967296
      omega
    have h₂ : (Layout.versionAndCaps version caps).drop 2 = u32 (.ofNat caps.length) ++ rawTexts caps := by
      rw [Layout.versionAndCaps, List.append_assoc, List.drop_left' (length_u16 _)]
    have h₆ : (Layout.versionAndCaps version caps).drop 6 = rawTexts caps := by
      rw [Layout.versionAndCaps, List.drop_left' (by simp)]
    rw [h₂, h₆, List.take_left' (length_u32 _), ofLe_u32, hof]
    simpa using textsAt_rawTexts [] (hlimit hls)
  have hnotice : ∀ {code} {text : List UInt8}, text.length ≤ maxErrorText →
      textsAt 1 ((u32 code ++ rawText text).drop 4) = [text] := by
    intro code text hl
    rw [List.drop_left' (length_u32 _)]
    have hone : textsAt 1 (rawText text ++ []) = [text] := textsAt_one (Nat.le_trans hl (by decide))
    rwa [List.append_nil] at hone
  cases l with
  | hello version client caps =>
      have hlen : 2 + ofLe ((Layout.hello version client caps).payload.take 2) = (rawText client).length := by
        have hof : (UInt16.ofNat client.length).toNat = client.length := by
          refine UInt16.toNat_ofNat_of_lt' (Nat.lt_of_le_of_lt hf.1 (by decide))
        rw [Layout.payload, rawText, List.append_assoc, List.take_left' (length_u16 _), ofLe_u16, hof]
        simp
      have hdrop : (Layout.hello version client caps).payload.drop (rawText client).length =
          Layout.versionAndCaps version caps := List.drop_left
      simp only [Layout.type, frameTexts, Layout.drop_frame, hlen, hdrop, hcaps version hf.2.1 hf.2.2, Layout.texts]
      rw [Layout.payload, textsAt_one (Nat.le_trans hf.1 (by decide))]
      rfl
  | welcome version caps =>
      simp only [Layout.type, frameTexts, Layout.drop_frame, Layout.payload, Layout.texts]
      exact hcaps version hf.1 hf.2
  | deny code text =>
      simp only [Layout.type, frameTexts, Layout.drop_frame, Layout.payload, Layout.texts]
      exact hnotice hf
  | call cap op value =>
      simp only [Layout.type, frameTexts, Layout.drop_frame, Layout.payload, Layout.texts]
      have hall : ∀ r ∈ [cap, op], r.length ≤ 65535 := by
        simp only [List.mem_cons, List.not_mem_nil, or_false, forall_eq_or_imp, forall_eq]
        exact ⟨Nat.le_trans hf.1 (by decide), Nat.le_trans hf.2 (by decide)⟩
      simpa [rawTexts] using textsAt_rawTexts (i64 value) hall
  | result value => rfl
  | error code text =>
      simp only [Layout.type, frameTexts, Layout.drop_frame, Layout.payload, Layout.texts]
      exact hnotice hf

/-! ## Round trips -/

/-- Messages come back from their frames, no decoder reads outside the frame, and an accepted frame is the one that its
message is written in if and only if none of its texts has a zero byte. -/
theorem frames_canonical_iff (type : MessageType) :
    (∀ id (m : Message), m.type = type → m.WithinLimits → ∀ capacity, (m.layout.frame id).length ≤ capacity →
      ∃ bytes, encode id m capacity = .ok bytes ∧ decode bytes type = .ok (id, m)) ∧
    ∀ bytes, (decode bytes type).Proper ∧ ∀ id m, decode bytes type = .ok (id, m) →
      ((∀ capacity, bytes.length ≤ capacity → encode id m capacity = .ok bytes) ↔
        ∀ text ∈ frameTexts type bytes, (0 : UInt8) ∉ text) := by
  refine ⟨?_, fun bytes => ⟨decode_proper type, ?_⟩⟩
  · rintro id m rfl hlim capacity hcap
    refine ⟨m.layout.frame id, encode_ok.2 ⟨hlim, rfl, hcap⟩, ?_⟩
    exact decode_ok.2 ⟨m.layout, m.layout_type, Message.layout_fits hlim, rfl, m.layout_message.symm⟩
  · intro id m h
    obtain ⟨l, rfl, hf, rfl, rfl⟩ := decode_ok.1 h
    rw [frameTexts_frame hf]
    constructor
    · intro he
      obtain ⟨hlim, hframe, _⟩ := encode_ok.1 (he _ (Nat.le_refl _))
      have htype : l.message.layout.type = l.type := by
        cases l <;> rfl
      have htexts := frameTexts_frame (Message.layout_fits hlim) id
      rw [← hframe, htype, frameTexts_frame hf] at htexts
      rw [htexts]
      exact l.message.layout_clean
    · intro hc capacity hcap
      have hl := Layout.message_layout hf hc
      refine encode_ok.2 ⟨?_, by rw [hl], hcap⟩
      cases l with
      | hello version client caps => simpa [Layout.message, Message.WithinLimits] using hf.2.1
      | welcome version caps => simpa [Layout.message, Message.WithinLimits] using hf.1
      | _ => trivial

/-- A call whose capability is `a`, a zero byte and `b`. -/
def cutName : List UInt8 :=
  [0x10, 7, 0, 0, 0, 15, 0, 0, 0, 3, 0, 97, 0, 98, 0, 0, 1, 0, 0, 0, 0, 0, 0, 0]

/-- The same call with the capability `a`. -/
def plainName : List UInt8 :=
  [0x10, 7, 0, 0, 0, 13, 0, 0, 0, 1, 0, 97, 0, 0, 1, 0, 0, 0, 0, 0, 0, 0]

/-- Two frames that are read as the same call: the first is not what the call is written as. -/
theorem decode_cutName : ∃ m, decode cutName .call = .ok (7, m) ∧ decode plainName .call = .ok (7, m) ∧
    cutName ≠ plainName ∧ ∀ capacity, encode 7 m capacity ≠ .ok cutName := by
  refine ⟨.call ⟨⟨[97], by decide, by decide⟩, ⟨[], by decide, by decide⟩, 1⟩, by decide, by decide, by decide, ?_⟩
  intro capacity h
  exact absurd (encode_ok.1 h).2.1 (by decide)

/-! ## Authorisation -/

/-- After any requests the granted capabilities are those of the last decoded HELLO that are allowed. Frames of other
types leave the session as it is, every reply is read back by its decoder with the id of its request, and a result
answers a CALL of a granted capability. -/
theorem session_authorised (config : ServerConfig) (requests : List Request) :
    (sessionAfter config requests).grantedCaps =
      ((lastHello config requests).map fun hello => hello.requestedCaps.filter (· ∈ config.allowedCaps)).getD [] ∧
    (∀ cap ∈ (sessionAfter config requests).grantedCaps, cap ∈ config.allowedCaps) ∧
    ∀ input capacity,
      (input.head? ≠ some MessageType.hello.code →
        (processFrame config (sessionAfter config requests) input capacity).2 = sessionAfter config requests) ∧
      ∀ reply, (processFrame config (sessionAfter config requests) input capacity).1 = .ok reply →
        ∃ m : Message, reply.head? = some m.type.code ∧ decode reply m.type = .ok (requestId input, m) ∧
          (m.type = .result → ∃ call, decodeCall input = .ok (requestId input, call) ∧
            lastHello config requests ≠ none ∧ call.cap ∈ (sessionAfter config requests).grantedCaps) := by
  have hgranted : (sessionAfter config requests).grantedCaps =
      ((lastHello config requests).map fun hello => hello.requestedCaps.filter (· ∈ config.allowedCaps)).getD [] := by
    rw [sessionAfter_eq]
    cases lastHello config requests <;> rfl
  refine ⟨hgranted, ?_, fun input capacity => ⟨?_, ?_⟩⟩
  · rw [hgranted]
    cases lastHello config requests with
    | none => simp
    | some hello =>
        intro cap hm
        simpa using (List.mem_filter.1 hm).2
  · intro hhead
    rw [processFrame_session, helloOf_eq_none hhead]
    rfl
  · intro reply h
    obtain ⟨m, hhead, hd, hresult⟩ := processFrame_answers h
    refine ⟨m, hhead, hd, fun ht => ?_⟩
    obtain ⟨call, hcall, _, hcap⟩ := hresult ht
    refine ⟨call, hcall, ?_, hcap⟩
    intro hnone
    rw [hgranted, hnone] at hcap
    simp at hcap

/-! ## Frames without a reply -/

/-- The length of the WELCOME that answers a HELLO. -/
def welcomeLength (config : ServerConfig) (hello : Hello) : Nat :=
  headerSize + 6 + ((negotiated config hello).grantedCaps.map fun cap => 2 + cap.bytes.length).sum

theorem length_rawTexts (raws : List (List UInt8)) : (rawTexts raws).length = (raws.map fun raw => 2 + raw.length).sum := by
  induction raws with
  | nil => rfl
  | cons raw raws ih =>
      have hcons : rawTexts (raw :: raws) = rawText raw ++ rawTexts raws := rfl
      rw [hcons, List.length_append, ih]
      simp [rawText]

/-- A decoded HELLO is answered with a WELCOME if and only if that fits. -/
theorem processFrame_hello {hello : Hello} (session : ServerSession) (capacity : Nat)
    (h : helloOf config input = some hello) :
    (∃ status, (processFrame config session input capacity).1 = .error status) ↔ capacity < welcomeLength config hello := by
  unfold helloOf at h
  split at h
  · cases h
  rename_i hcaps
  cases hd : decodeHello input with
  | ok r =>
      obtain ⟨id, hello'⟩ := r
      rw [hd] at h
      cases h
      obtain ⟨hhead, -, hlimit⟩ := decodeHello_sound hd
      obtain ⟨rest, rfl⟩ := List.head?_eq_some_iff.1 hhead
      have hgranted : grantCaps config [] hello.requestedCaps = (negotiated config hello).grantedCaps := by
        rw [grantCaps_eq (by simpa using hlimit)]
        rfl
      have hwithin : (Message.welcome ⟨config.protoVersion, (negotiated config hello).grantedCaps⟩).WithinLimits :=
        Nat.le_trans (List.length_filter_le ..) hlimit
      have hlength : ((Message.welcome ⟨config.protoVersion, (negotiated config hello).grantedCaps⟩).layout.frame id).length =
          welcomeLength config hello := by
        simp [Message.layout, Layout.payload, Layout.versionAndCaps, length_rawTexts, welcomeLength, Function.comp_def]
        omega
      simp only [processFrame, if_neg hcaps, if_true, hd, processHello, hgranted]
      change (∃ status, codecStatus (encode id (.welcome _) capacity) = .error status) ↔ _
      cases he : encode id (.welcome ⟨config.protoVersion, (negotiated config hello).grantedCaps⟩) capacity with
      | ok bytes =>
          obtain ⟨-, rfl, hfits⟩ := encode_ok.1 he
          rw [hlength] at hfits
          simpa [codecStatus] using hfits
      | error e =>
          have hshort : ¬ welcomeLength config hello ≤ capacity := by
            intro hfits
            have hok := encode_ok.2 ⟨hwithin, rfl, hlength.symm ▸ hfits⟩
            simp [he] at hok
          simpa [codecStatus] using hshort
  | _ => simp [hd] at h

/-- A frame without a reply leaves the session as it was unless it is a HELLO whose WELCOME does not fit and would have
changed something. -/
theorem unanswered_iff (config : ServerConfig) (session : ServerSession) (input : List UInt8) (capacity : Nat) :
    (∀ status, (processFrame config session input capacity).1 = .error status →
      (processFrame config session input capacity).2 = session) ↔
    ∀ hello, helloOf config input = some hello → welcomeLength config hello ≤ capacity ∨ negotiated config hello = session := by
  rw [processFrame_session]
  cases hh : helloOf config input with
  | none => simp
  | some hello =>
      have hanswer := processFrame_hello session capacity hh
      simp only [Option.map_some, Option.getD_some, Option.some.injEq, forall_eq']
      constructor
      · intro hsame
        by_cases hfits : welcomeLength config hello ≤ capacity
        · exact .inl hfits
        · obtain ⟨status, hstatus⟩ := hanswer.2 (by omega)
          exact .inr (hsame status hstatus)
      · rintro (hfits | hsame) status hstatus
        · have hshort := hanswer.1 ⟨status, hstatus⟩
          omega
        · exact hsame

/-- A server that allows one capability. -/
def echoConfig : ServerConfig := ⟨1, [.ofString "cap.remote"]⟩

/-- Asks for that capability. -/
def echoHello : List UInt8 := (Layout.hello 1 [] ["cap.remote".toUTF8.toList]).frame 7

/-- Calls the operation that it stands for. -/
def echoCall : List UInt8 := (Layout.call "cap.remote".toUTF8.toList "echoInt".toUTF8.toList 5).frame 8

/-- A client that has been given no WELCOME has its call answered with a result. -/
theorem welcome_lost :
    (processFrame echoConfig .init echoHello 20).1 = .error .codec ∧
    (processFrame echoConfig .init echoHello 20).2 ≠ .init ∧
    ((processFrame echoConfig (processFrame echoConfig .init echoHello 20).2 echoCall 64).1.map List.head?).toOption =
      some (some MessageType.result.code) := by
  decide +kernel

end Aivm.Remote
