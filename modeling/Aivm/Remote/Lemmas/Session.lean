import Aivm.Remote.Lemmas.Encode
import Aivm.Remote.Session

/-!
# Steps of the remote server session

What one frame does to the session, and which reply it gets. Only a decoded HELLO changes the session, and what the
session is afterwards depends on nothing but that HELLO.
-/

namespace Aivm.Remote

open ByteReader

variable {config : ServerConfig} {session : ServerSession} {input reply : List UInt8} {capacity : Nat} {id : UInt32}

/-! ## Frames and their ids -/

theorem head_frame (l : Layout) (id : UInt32) : (l.frame id).head? = some l.type.code := rfl

theorem id_frame (l : Layout) (id : UInt32) : UInt32.ofNat (ofLe (((l.frame id).drop 1).take 4)) = id := by
  have h : ((l.frame id).drop 1).take 4 = u32 id := by
    simp [Layout.frame, List.take_left' (length_u32 id)]
  rw [h, ofLe_u32, UInt32.ofNat_toNat]

/-- A decoded HELLO is a frame of that type, with its id, and asks for no more capabilities than its array holds. -/
theorem decodeHello_sound {hello} (h : decodeHello input = .ok (id, hello)) :
    input.head? = some MessageType.hello.code ∧ requestId input = id ∧ hello.requestedCaps.length ≤ maxCaps := by
  obtain ⟨version, client, caps, hf, rfl, rfl⟩ := decodeHello_ok.1 h
  have hhead := head_frame (.hello version client caps) id
  refine ⟨hhead, ?_, by simpa using hf.2.1⟩
  rw [requestId, if_pos (.inl hhead), id_frame]

/-- A decoded CALL is a frame of that type, with its id. -/
theorem decodeCall_sound {call} (h : decodeCall input = .ok (id, call)) :
    input.head? = some MessageType.call.code ∧ requestId input = id := by
  obtain ⟨cap, op, value, hf, rfl, rfl⟩ := decodeCall_ok.1 h
  have hhead := head_frame (.call cap op value) id
  refine ⟨hhead, ?_⟩
  rw [requestId, if_pos (.inr hhead), id_frame]

/-! ## Replies -/

/-- A reply is accepted by the decoder of its message. -/
theorem decode_of_codecStatus {m : Message} (h : codecStatus (encode id m capacity) = .ok reply) :
    reply.head? = some m.type.code ∧ decode reply m.type = .ok (id, m) := by
  cases he : encode id m capacity with
  | error e => simp [he, codecStatus] at h
  | ok bytes =>
      simp only [he, codecStatus, Except.ok.injEq] at h
      subst h
      obtain ⟨hlim, rfl, _⟩ := encode_ok.1 he
      refine ⟨?_, decode_ok.2 ⟨m.layout, m.layout_type, Message.layout_fits hlim, rfl, m.layout_message.symm⟩⟩
      rw [head_frame, m.layout_type]

/-- A granted capability is one of those of the session. -/
theorem capGranted_iff {cap} : capGranted session cap = true ↔ cap ∈ session.grantedCaps := by
  simp [capGranted]

/-- A reply answers a request in a session: its own decoder accepts it, it has the id of the request, and only a CALL
of a granted capability is answered with a result. -/
def Answers (session : ServerSession) (input reply : List UInt8) : Prop :=
  ∃ m : Message, reply.head? = some m.type.code ∧ decode reply m.type = .ok (requestId input, m) ∧
    (m.type = .result → ∃ call, decodeCall input = .ok (requestId input, call) ∧
      session.handshakeComplete = true ∧ call.cap ∈ session.grantedCaps)

theorem answers_of_notResult {m : Message} (hm : m.type ≠ .result) (hid : requestId input = id)
    (h : codecStatus (encode id m capacity) = .ok reply) : Answers session input reply := by
  obtain ⟨hhead, hd⟩ := decode_of_codecStatus h
  subst hid
  exact ⟨m, hhead, hd, fun ht => absurd ht hm⟩

theorem processCall_answers {call} (hd : decodeCall input = .ok (id, call))
    (h : processCall session id call capacity = .ok reply) : Answers session input reply := by
  have hid := (decodeCall_sound hd).2
  have herror : ∀ {code message}, encodeErrorFrame id code message capacity = .ok reply → Answers session input reply :=
    answers_of_notResult (m := .error _) nofun hid
  unfold processCall at h
  by_cases hs : session.handshakeComplete = true
  · by_cases hc : capGranted session call.cap = true
    · by_cases hop : call.cap = .ofString "cap.remote" ∧ call.op = .ofString "echoInt"
      · simp only [hs, hc, Bool.not_true, Bool.false_eq_true, if_false, if_pos hop] at h
        obtain ⟨hhead, hr⟩ := decode_of_codecStatus (m := .result ⟨call.value⟩) h
        subst hid
        exact ⟨_, hhead, hr, fun _ => ⟨call, hd, hs, capGranted_iff.1 hc⟩⟩
      · simp only [hs, hc, Bool.not_true, Bool.false_eq_true, if_false, if_neg hop] at h
        exact herror h
    · simp only [hs, hc, Bool.not_true, Bool.false_eq_true, Bool.not_false, if_false, if_true] at h
      exact herror h
  · simp only [hs, Bool.not_false, if_true] at h
    exact herror h

/-- Every reply answers the frame it is given for. -/
theorem processFrame_answers (h : (processFrame config session input capacity).1 = .ok reply) :
    Answers session input reply := by
  cases input with
  | nil => simp [processFrame] at h
  | cons type rest =>
      by_cases hcaps : maxCaps < config.allowedCaps.length
      · simp [processFrame, hcaps] at h
      simp only [processFrame, if_neg hcaps] at h
      split at h
      · split at h
        · rename_i id hello hd
          exact answers_of_notResult (m := .welcome _) nofun (decodeHello_sound hd).2.1 h
        · simp at h
      · rename_i hhello
        split at h
        · split at h
          · rename_i id call hd
            exact processCall_answers hd h
          · simp at h
        · rename_i hcall
          refine answers_of_notResult (m := .error _) nofun ?_ h
          simp [requestId, hhello, hcall]

/-! ## The session -/

theorem grantCaps_eq {caps : List (Text maxText)} : ∀ {granted}, granted.length + caps.length ≤ maxCaps →
    grantCaps config granted caps = granted ++ caps.filter (· ∈ config.allowedCaps) := by
  induction caps with
  | nil =>
      intro granted _
      simp [grantCaps]
  | cons cap caps ih =>
      intro granted hlen
      simp only [List.length_cons] at hlen
      have hroom : granted.length < maxCaps := by omega
      by_cases hc : cap ∈ config.allowedCaps
      · have hallowed : capAllowed config cap = true := by
          simpa [capAllowed] using hc
        rw [grantCaps, if_pos ⟨hallowed, hroom⟩, ih (by simp; omega)]
        simp [hc]
      · have hallowed : ¬ capAllowed config cap = true := by
          simpa [capAllowed] using hc
        rw [grantCaps, if_neg (fun h => hallowed h.1), ih (by omega)]
        simp [hc]

/-- The session that a HELLO negotiates. -/
def negotiated (config : ServerConfig) (hello : Hello) : ServerSession :=
  ⟨true, config.protoVersion, hello.requestedCaps.filter (· ∈ config.allowedCaps)⟩

/-- No HELLO is decoded from a frame of another type. -/
theorem helloOf_eq_none (h : input.head? ≠ some MessageType.hello.code) : helloOf config input = none := by
  unfold helloOf
  split
  · rfl
  · cases hd : decodeHello input with
    | ok r => exact absurd (decodeHello_sound hd).1 h
    | _ => rfl

/-- A frame changes the session only if it is a HELLO that is decoded. -/
theorem processFrame_session : (processFrame config session input capacity).2 =
    ((helloOf config input).map (negotiated config)).getD session := by
  cases input with
  | nil =>
      have hd : helloOf config [] = none := helloOf_eq_none (by simp)
      simp [processFrame, hd]
  | cons type rest =>
      by_cases hcaps : maxCaps < config.allowedCaps.length
      · simp [processFrame, helloOf, hcaps]
      by_cases hhello : type = MessageType.hello.code
      · simp only [processFrame, helloOf, if_neg hcaps, if_pos hhello]
        cases hd : decodeHello (type :: rest) with
        | ok r =>
            obtain ⟨id, hello⟩ := r
            have hlen : ([] : List (Text maxText)).length + hello.requestedCaps.length ≤ maxCaps := by
              simpa using (decodeHello_sound hd).2.2
            simp [processHello, negotiated, grantCaps_eq hlen]
        | _ => rfl
      · have hd : helloOf config (type :: rest) = none := helloOf_eq_none (by simpa using hhello)
        simp only [processFrame, if_neg hcaps, if_neg hhello, hd, Option.map_none, Option.getD_none]
        split
        · split <;> rfl
        · rfl

/-- The session after any requests is the one that the last decoded HELLO negotiated. -/
theorem sessionAfter_eq (config : ServerConfig) (requests : List Request) : sessionAfter config requests =
    ((lastHello config requests).map (negotiated config)).getD .init := by
  induction requests using List.reverseRecOn with
  | nil => rfl
  | append_singleton requests request ih =>
      have hstep : sessionAfter config (requests ++ [request]) =
          (processFrame config (sessionAfter config requests) request.1 request.2).2 := by
        simp [sessionAfter]
      rw [hstep, processFrame_session, ih, lastHello, lastHello, List.filterMap_append]
      cases hh : helloOf config request.1 with
      | none => simp [hh]
      | some hello => simp [hh]

end Aivm.Remote
