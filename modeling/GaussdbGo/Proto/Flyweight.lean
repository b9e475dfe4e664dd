import GaussdbGo.Proto.Frontend

/-!
# gaussdbproto — reused flyweights

`Frontend` and `Backend` keep one value per message type and decode every
message of that type into it. Every decoder but two overwrites what it
writes; `AuthenticationSASL.Decode` and `AuthenticationSHA256.Decode` append
the mechanism names they read to those the value already holds
(`readMechanisms_encode`). A connection that receives such a message twice
sees the second come back with the first one's names in front
(`receive_authenticationSASL_twice`).
-/

namespace GaussdbGo.Proto

open GoStd GoStd.BigEndian GoStd.ChunkedReader

/-- The mechanism loop reads back what `encodeMechanisms` wrote, after
whatever it starts from. -/
theorem readMechanisms_encode :
    ∀ (acc : List Bytes) {ms : List Bytes}, (∀ s ∈ ms, (0 : UInt8) ∉ s) →
      readMechanisms acc (encodeMechanisms ms) = .ok (acc ++ ms)
  | acc, [], _ => by
    rw [readMechanisms]
    simp [encodeMechanisms]
    rfl
  | acc, s :: ms, h => by
    have hs : (0 : UInt8) ∉ s := h s (List.mem_cons_self ..)
    have henc : encodeMechanisms (s :: ms) = s ++ 0 :: encodeMechanisms ms := by
      simp [encodeMechanisms]
    -- the name runs up to its NUL, and the rest is the encoding of the others
    have hlen : 1 < (s ++ 0 :: encodeMechanisms ms).length := by
      simp [encodeMechanisms]
      omega
    have hidx : (s ++ 0 :: encodeMechanisms ms).idxOf 0 = s.length := by
      rw [List.idxOf_append_of_notMem hs, List.idxOf_cons_self]
      rfl
    have hdrop : (s ++ 0 :: encodeMechanisms ms).drop (s.length + 1) = encodeMechanisms ms := by
      rw [← List.singleton_append, ← List.append_assoc, List.drop_left' (by simp)]
    rw [readMechanisms, henc, if_pos hlen, if_pos (by simp)]
    dsimp only
    rw [hidx, List.take_left, hdrop,
      readMechanisms_encode (acc ++ [s]) fun t ht => h t (List.mem_cons_of_mem _ ht)]
    simp

/-- The body of an `AuthenticationSASL` message with these names. -/
def saslBody (ms : List Bytes) : Bytes := putUint32 AuthTypeSASL ++ encodeMechanisms ms

/-- `AuthenticationSASL.Decode` into a flyweight holding `d` returns `d`'s
names followed by the message's. -/
theorem AuthenticationSASL.decode_saslBody (d : AuthenticationSASL) {ms : List Bytes}
    (hms : ∀ s ∈ ms, (0 : UInt8) ∉ s) :
    d.decode (saslBody ms) = .ok ⟨d.AuthMechanisms ++ ms⟩ := by
  simp only [AuthenticationSASL.decode, checkAuthType, saslBody, uint32_putUint32,
    sliceFrom_putUint32]
  simp [readMechanisms_encode _ hms]

namespace Frontend

/-- The `'R'` switch reaches `findAuthenticationMessageType`. -/
theorem selectMessage_R (f : Frontend) (hm : f.msgType = 'R'.toUInt8) (src : Bytes) :
    f.selectMessage src = f.findAuthenticationMessageType src := by
  unfold selectMessage
  rw [hm]
  rfl

/-- `Receive` of an `AuthenticationSASL` body: the names the flyweight holds,
then the message's, which the flyweight then keeps. -/
theorem decodeMessage_saslBody (f : Frontend) (hm : f.msgType = 'R'.toUInt8) {ms : List Bytes}
    (hms : ∀ s ∈ ms, (0 : UInt8) ∉ s) :
    f.decodeMessage (saslBody ms) =
      (.ok (.authenticationSASL ⟨f.authenticationSASL.AuthMechanisms ++ ms⟩),
        { f with
          authType := AuthTypeSASL
          authenticationSASL := ⟨f.authenticationSASL.AuthMechanisms ++ ms⟩ }) := by
  have hword : (do uint32 (← slice (saslBody ms) 0 4) : GoP UInt32) = .ok AuthTypeSASL := by
    have h := slice_of_le (ε := ProtoError) (saslBody ms) (Nat.zero_le 4) (by simp [saslBody])
    simp only [Nat.cast_zero, Nat.cast_ofNat, Nat.sub_zero, List.drop_zero, saslBody,
      List.take_left' (length_putUint32 _)] at h
    rw [saslBody, h, ok_bind, uint32_putUint32_self]
  have hfind : f.findAuthenticationMessageType (saslBody ms) =
      (.ok (.authenticationSASL f.authenticationSASL), { f with authType := AuthTypeSASL }) := by
    rw [findAuthenticationMessageType, if_neg (by simp [saslBody]), hword]
    rfl
  rw [decodeMessage, selectMessage_R f hm, hfind]
  simp only [BackendMessage.decode, AuthenticationSASL.decode_saslBody _ hms, map_ok]
  rfl

end Frontend

/-- A connection that receives the same `AuthenticationSASL` twice gets the
second back with the names of the first in front of its own, however the
two frames are split into reads, while the body decoded into a fresh value
gives the names alone. -/
theorem receive_authenticationSASL_twice {ms : List Bytes} (hms : ∀ s ∈ ms, (0 : UInt8) ∉ s)
    (hlen : (encodeMechanisms ms).length + 8 ≤ maxMessageBodyLen) (chunks : List Bytes)
    (hc : (AuthenticationSASL.encode ⟨ms⟩ [] >>= AuthenticationSASL.encode ⟨ms⟩) =
      .ok chunks.flatten) :
    (default : AuthenticationSASL).decode (saslBody ms) = .ok ⟨ms⟩ ∧
      (newFrontend ⟨chunks⟩).receive.1 = .ok (.authenticationSASL ⟨ms⟩) ∧
      (newFrontend ⟨chunks⟩).receive.2.receive.1 = .ok (.authenticationSASL ⟨ms ++ ms⟩) := by
  have henc : ∀ dst, AuthenticationSASL.encode ⟨ms⟩ dst = .ok (dst ++ frame 'R'.toUInt8 (saslBody ms)) :=
    fun dst => encodeAuth_frame _ _ dst hlen
  have hbody : (saslBody ms).length + 4 < 2 ^ 32 := by
    simp only [saslBody, List.length_append, length_putUint32]
    simp only [maxMessageBodyLen] at hlen
    omega
  -- the stream is the frame twice
  have hs : (newFrontend ⟨chunks⟩).cr.stream =
      frame 'R'.toUInt8 (saslBody ms) ++ (frame 'R'.toUInt8 (saslBody ms) ++ []) := by
    rw [Frontend.newFrontend_stream, List.append_nil]
    simp only [henc, ok_bind, List.nil_append] at hc
    exact (Except.ok.inj hc).symm
  obtain ⟨cr₁, h₁, hs₁, hrecv₁⟩ := Frontend.receive_frame (Frontend.newFrontend_inv _) rfl hs hbody (Or.inl rfl)
  rw [Frontend.decodeMessage_saslBody _ rfl hms] at hrecv₁
  -- the second frame meets the flyweight the first one filled
  obtain ⟨cr₂, -, -, hrecv₂⟩ :=
    Frontend.receive_frame (f := (newFrontend ⟨chunks⟩).receive.2) (by rw [hrecv₁]; exact h₁)
      (by rw [hrecv₁]) (by rw [hrecv₁]; exact hs₁) hbody (by rw [hrecv₁]; exact Or.inl rfl)
  rw [Frontend.decodeMessage_saslBody _ rfl hms] at hrecv₂
  refine ⟨AuthenticationSASL.decode_saslBody default hms, by rw [hrecv₁]; rfl, ?_⟩
  rw [hrecv₂, hrecv₁]
  rfl

/-- `SCRAM-SHA-256` offered twice, in one read. -/
theorem receive_authenticationSASL_twice_scram :
    (∀ s ∈ [[83, 67, 82, 65, 77, 45, 83, 72, 65, 45, 50, 53, 54]], (0 : UInt8) ∉ s) ∧
      (encodeMechanisms [[83, 67, 82, 65, 77, 45, 83, 72, 65, 45, 50, 53, 54]]).length + 8 ≤
        maxMessageBodyLen ∧
      (AuthenticationSASL.encode ⟨[[83, 67, 82, 65, 77, 45, 83, 72, 65, 45, 50, 53, 54]]⟩ [] >>=
          AuthenticationSASL.encode ⟨[[83, 67, 82, 65, 77, 45, 83, 72, 65, 45, 50, 53, 54]]⟩) =
        .ok [[82, 0, 0, 0, 23, 0, 0, 0, 100, 83, 67, 82, 65, 77, 45, 83, 72, 65, 45, 50, 53, 54, 0, 0,
          82, 0, 0, 0, 23, 0, 0, 0, 100, 83, 67, 82, 65, 77, 45, 83, 72, 65, 45, 50, 53, 54, 0, 0]].flatten ∧
      (default : AuthenticationSASL).decode (saslBody [[83, 67, 82, 65, 77, 45, 83, 72, 65, 45, 50, 53, 54]]) =
        .ok ⟨[[83, 67, 82, 65, 77, 45, 83, 72, 65, 45, 50, 53, 54]]⟩ ∧
      (newFrontend ⟨[[82, 0, 0, 0, 23, 0, 0, 0, 100, 83, 67, 82, 65, 77, 45, 83, 72, 65, 45, 50, 53, 54, 0, 0,
          82, 0, 0, 0, 23, 0, 0, 0, 100, 83, 67, 82, 65, 77, 45, 83, 72, 65, 45, 50, 53, 54, 0, 0]]⟩).receive.1 =
        .ok (.authenticationSASL ⟨[[83, 67, 82, 65, 77, 45, 83, 72, 65, 45, 50, 53, 54]]⟩) ∧
      (newFrontend ⟨[[82, 0, 0, 0, 23, 0, 0, 0, 100, 83, 67, 82, 65, 77, 45, 83, 72, 65, 45, 50, 53, 54, 0, 0,
          82, 0, 0, 0, 23, 0, 0, 0, 100, 83, 67, 82, 65, 77, 45, 83, 72, 65, 45, 50, 53, 54, 0, 0]]⟩).receive.2.receive.1 =
        .ok (.authenticationSASL ⟨[[83, 67, 82, 65, 77, 45, 83, 72, 65, 45, 50, 53, 54],
          [83, 67, 82, 65, 77, 45, 83, 72, 65, 45, 50, 53, 54]]⟩) :=
  ⟨by decide, by decide, rfl, receive_authenticationSASL_twice (by decide) (by decide) _ rfl⟩

end GaussdbGo.Proto
