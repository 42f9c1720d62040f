import Meshezia.Lib.Utf8
import Meshezia.Server.Step

/-!
# Frames on a WebSocket (`wsHandler.message` of `relay.ts`)

A text frame goes to the negotiator when it is one of the agent messages; a binary
frame goes on to the peer that its first 36 bytes name, with these bytes replaced by
the id of its sender.
-/

namespace Meshezia

def RELAY_PEER_ID_LEN : Nat := 36

/-- `out.set(bytes, offset)`; bytes that do not fit are a `RangeError`. -/
def setBytes (out bytes : Bytes) (offset : Nat) : Option Bytes :=
  if offset + bytes.length ≤ out.length then
    some (out.take offset ++ bytes ++ out.drop (offset + bytes.length))
  else none

/-- `ws.data.srcIdBytes`, which `wsHandler.open` sets. -/
def srcIdBytes (ws : Ws) : Bytes := TextEncoder.encode ws.peerId

/-- What comes of a binary message; a handler that throws has sent nothing. -/
inductive Relayed where
  | dropped
  | threw
  | sent (dest : Ws) (bytes : Bytes)
deriving DecidableEq, Repr

/-- The binary branch of `wsHandler.message`. -/
def relayBinary (c : Connections) (ws : Ws) (msg : Bytes) : Relayed :=
  if msg.length < RELAY_PEER_ID_LEN then .dropped
  else
    -- the decoder is not a fatal one: it never throws
    let destPeerId := TextDecoder.decode (msg.take RELAY_PEER_ID_LEN)
    match c.get? destPeerId with
    | none => .dropped
    | some dest =>
      let payload := msg.drop RELAY_PEER_ID_LEN
      let out := List.replicate (RELAY_PEER_ID_LEN + payload.length) 0
      match (setBytes out (srcIdBytes ws) 0).bind (setBytes · payload RELAY_PEER_ID_LEN) with
      | none => .threw
      | some out => .sent dest out

/-- A frame on a socket; a text that is no agent message is `text none`. -/
inductive Frame where
  | text (msg : Option AgentMsg)
  | binary (bytes : Bytes)
deriving DecidableEq, Repr

/-- `wsHandler.message`: the state after it, and the binary message it sends. -/
def ServerState.wsMessage (cfg : Config) (s : ServerState) (ws : Ws) (now : Int) :
    Frame → ServerState × Relayed
  | .text (some msg) => (s.handleMessage cfg ws now msg, .dropped)
  | .text none => (s, .dropped)
  | .binary bytes => (s, relayBinary s.connections ws bytes)

/-- Two peers with ids of 36 letters. -/
def relayOne : PeerId := List.replicate 36 97
def relayTwo : PeerId := List.replicate 36 98

/-! ## What is relayed -/

/-- An id that fills the header of a frame exactly, as a UUID does. -/
structure RelayId (p : PeerId) : Prop where
  length : p.length = RELAY_PEER_ID_LEN
  ascii : Ascii p

instance (p : PeerId) : Decidable (RelayId p) :=
  decidable_of_iff (p.length = RELAY_PEER_ID_LEN ∧ Ascii p) ⟨fun h => ⟨h.1, h.2⟩, fun h => ⟨h.1, h.2⟩⟩

theorem relayId_replicate {c : UInt16} (hc : c < 128) :
    RelayId (List.replicate RELAY_PEER_ID_LEN c) where
  length := List.length_replicate
  ascii := fun _ hx => (List.eq_of_mem_replicate hx).symm ▸ hc

section
variable {c : Connections} {ws : Ws} {msg : Bytes}

theorem RelayId.length_encode {p : PeerId} (h : RelayId p) :
    (TextEncoder.encode p).length = RELAY_PEER_ID_LEN := by
  rw [length_encode_ascii h.ascii, h.length]

/-- The header is overwritten with the id of the sender, the payload copied behind it. -/
theorem setBytes_header (h : RelayId ws.peerId) (payload : Bytes) :
    (setBytes (List.replicate (RELAY_PEER_ID_LEN + payload.length) 0) (srcIdBytes ws) 0).bind
      (setBytes · payload RELAY_PEER_ID_LEN) = some (srcIdBytes ws ++ payload) := by
  have hlen : (srcIdBytes ws).length = RELAY_PEER_ID_LEN := h.length_encode
  have hfirst : setBytes (List.replicate (RELAY_PEER_ID_LEN + payload.length) 0)
      (srcIdBytes ws) 0 = some (srcIdBytes ws ++ List.replicate payload.length 0) := by
    simp [setBytes, hlen]
  rw [hfirst, Option.bind_some]
  simp [setBytes, hlen, List.drop_of_length_le]

/-- From a peer with a relay id a frame goes on exactly when it names a connected peer. -/
theorem relayBinary_eq (h : RelayId ws.peerId) :
    relayBinary c ws msg =
      if msg.length < RELAY_PEER_ID_LEN then .dropped
      else match c.get? (TextDecoder.decode (msg.take RELAY_PEER_ID_LEN)) with
        | none => .dropped
        | some dest => .sent dest (srcIdBytes ws ++ msg.drop RELAY_PEER_ID_LEN) := by
  unfold relayBinary
  split
  · rfl
  · simp only [setBytes_header h]

/-- Whoever sends it, a frame goes to the socket of the peer it names. -/
theorem relayBinary_sent {dest : Ws} {out : Bytes} (h : relayBinary c ws msg = .sent dest out) :
    RELAY_PEER_ID_LEN ≤ msg.length ∧
      c.get? (TextDecoder.decode (msg.take RELAY_PEER_ID_LEN)) = some dest := by
  unfold relayBinary at h
  split at h
  · cases h
  · rename_i hlen
    cases hg : c.get? (TextDecoder.decode (msg.take RELAY_PEER_ID_LEN)) with
    | none => simp [hg] at h
    | some w =>
      simp only [hg] at h
      split at h
      · cases h
      · cases h
        exact ⟨Nat.not_lt.mp hlen, rfl⟩

end

end Meshezia
