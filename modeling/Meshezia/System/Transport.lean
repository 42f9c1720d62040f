import Meshezia.Agent.RelayProxy
import Meshezia.Server.Binary

/-!
# Relay transport from agent to agent (`protocol.ts`, `relay.ts`, `relay-proxy.ts`)

An agent puts the id of the destination before the payload, the server puts the id of
the source in its place, the other agent takes the frame apart and hands the payload to
the UDP port of its relay entry for the source.

    RelayId A → RelayId B → B connected →
      the server answers encodeRelayFrame B payload with one frame, to the socket of B,
      that decodeRelayFrame takes apart into A and payload     (relay_transport_faithful)
-/

namespace Meshezia

/-! ## `protocol.ts` -/

/-- `[36-byte dest peer UUID][AWG payload]`. -/
def encodeRelayFrame (destPeerId : PeerId) (payload : Bytes) : Bytes :=
  TextEncoder.encode destPeerId ++ payload

structure DecodedFrame where
  destPeerId : PeerId
  payload : Bytes
deriving DecidableEq, Repr

def decodeRelayFrame (frame : Bytes) : DecodedFrame where
  destPeerId := TextDecoder.decode (frame.take RELAY_PEER_ID_LEN)
  payload := frame.drop RELAY_PEER_ID_LEN

/-! ## `relay-proxy.ts` -/

/-- A `RelayEntry` with the UDP port of its interface. -/
structure ProxyEntry extends RelayEntry where
  awgListenPort : Int
deriving DecidableEq, Repr

/-- A datagram `udpSocket.send(payload, port, '127.0.0.1')`. -/
structure Datagram where
  payload : Bytes
  port : Int
deriving DecidableEq, Repr

/-- The module's variables, and the datagrams its proxies have sent, newest first. -/
structure ProxyModule where
  relays : OMap PeerId ProxyEntry
  probingPeers : List PeerId
  relayForwardedPeers : List PeerId
  datagrams : List Datagram

namespace ProxyModule

def init : ProxyModule := ⟨.empty, [], [], []⟩

/-- `ensureRelayProxy` for a peer without an entry, once its socket is bound. -/
def proxyBound (m : ProxyModule) (peerId : PeerId) (index : Nat) (awgListenPort : Int) :
    ProxyModule :=
  let entry : ProxyEntry := { peerId, localPort := RELAY_BASE_PORT + index, awgListenPort }
  { m with relays := m.relays.set peerId entry }

def removeRelayProxy (m : ProxyModule) (peerId : PeerId) : ProxyModule :=
  { m with relays := m.relays.delete peerId
           probingPeers := m.probingPeers.filter fun p => p ≠ peerId }

def drainRelayForwarded (m : ProxyModule) : ProxyModule := { m with relayForwardedPeers := [] }

/-- The binary branch of `ws.onmessage`. -/
def onBinary (m : ProxyModule) (frame : Bytes) : ProxyModule :=
  let srcPeerId := (decodeRelayFrame frame).destPeerId
  let payload := (decodeRelayFrame frame).payload
  if m.probingPeers.contains srcPeerId then m
  else
    match m.relays.get? srcPeerId with
    | none => m
    | some entry =>
      if payload.length > 0 then
        { m with
          relayForwardedPeers := if m.relayForwardedPeers.contains srcPeerId then m.relayForwardedPeers
            else m.relayForwardedPeers ++ [srcPeerId]
          datagrams := ⟨payload, entry.awgListenPort⟩ :: m.datagrams }
      else m

/-- `ws.onclose`. -/
def onClose (m : ProxyModule) : ProxyModule := { m with probingPeers := [] }

end ProxyModule

open ProxyModule

inductive ProxyEvent where
  | bound (peerId : PeerId) (index : Nat) (awgListenPort : Int)
  | remove (peerId : PeerId)
  | drain
  | binary (frame : Bytes)
  | close
deriving DecidableEq, Repr

def proxyStep (m : ProxyModule) : ProxyEvent → ProxyModule
  | .bound peerId index awgListenPort => m.proxyBound peerId index awgListenPort
  | .remove peerId => m.removeRelayProxy peerId
  | .drain => m.drainRelayForwarded
  | .binary frame => m.onBinary frame
  | .close => m.onClose

/-- The local ports are those of the proxies of a poll. -/
theorem proxyBound_ensureRelayProxy {m : ProxyModule} {relays : Relays} {peerId : PeerId}
    (hsame : ∀ p, (m.relays.get? p).map ProxyEntry.toRelayEntry = relays.get? p)
    (hnone : relays.get? peerId = none) (index : Nat) (port : Int) (p : PeerId) :
    ((m.proxyBound peerId index port).relays.get? p).map ProxyEntry.toRelayEntry =
      (ensureRelayProxy relays peerId index).2.get? p := by
  unfold proxyBound ensureRelayProxy
  simp only [hnone, OMap.get?_set]
  split
  · rfl
  · exact hsame p

/-! ## The agent's end -/

/-- What the agent does with a payload from `src` takes `m` to `m'`: it goes to the port of
the relay entry of `src`, once; an empty one, and one without an entry, goes nowhere. -/
structure HandsOn (m : ProxyModule) (src : PeerId) (payload : Bytes) (m' : ProxyModule) :
    Prop where
  handed : ∀ entry, m.relays.get? src = some entry → payload ≠ [] →
    m'.datagrams = ⟨payload, entry.awgListenPort⟩ :: m.datagrams
  kept : m.relays.get? src = none ∨ payload = [] → m'.datagrams = m.datagrams

/-- No peer is ever entered in `probingPeers`. -/
theorem probingPeers_nil (es : List ProxyEvent) : (run proxyStep .init es).probingPeers = [] := by
  refine run_invariant proxyStep (I := fun m => m.probingPeers = []) (fun m e hm => ?_) rfl es
  cases e with
  | bound peerId index port => exact hm
  | remove peerId => simp [proxyStep, removeRelayProxy, hm]
  | drain => exact hm
  | binary frame =>
    simp only [proxyStep, onBinary]
    split
    · exact hm
    · split
      · exact hm
      · split <;> exact hm
  | close => rfl

theorem handsOn_onBinary {m : ProxyModule} (hm : m.probingPeers = []) (frame : Bytes) :
    HandsOn m (decodeRelayFrame frame).destPeerId (decodeRelayFrame frame).payload
      (m.onBinary frame) := by
  unfold onBinary
  simp only [hm, List.contains_nil, Bool.false_eq_true, if_false]
  constructor
  · intro entry hentry hne
    have hpos : (decodeRelayFrame frame).payload.length > 0 := List.length_pos_iff.mpr hne
    simp only [hentry, if_pos hpos]
  · rintro (hnone | hnil)
    · simp only [hnone]
    · simp only [hnil, List.length_nil, gt_iff_lt, Nat.lt_irrefl, if_false]
      split <;> rfl

/-! ## From end to end -/

/-- A frame begins with the id it was made with. -/
theorem decode_header {p : PeerId} (h : RelayId p) (payload : Bytes) :
    decodeRelayFrame (encodeRelayFrame p payload) = ⟨p, payload⟩ := by
  have hlen := h.length_encode
  unfold decodeRelayFrame encodeRelayFrame
  rw [List.take_append_of_le_length (by omega), List.take_of_length_le (by omega),
    List.drop_append_of_le_length (by omega), List.drop_of_length_le (by omega),
    decode_encode_ascii h.ascii, List.nil_append]

theorem length_encodeRelayFrame {p : PeerId} (h : RelayId p) (payload : Bytes) :
    (encodeRelayFrame p payload).length = RELAY_PEER_ID_LEN + payload.length := by
  rw [encodeRelayFrame, List.length_append, h.length_encode]

/-- The server answers a frame for `b` with the frame its sender would send itself. -/
theorem relayBinary_encode {c : Connections} {ws dest : Ws} {b : PeerId}
    (hws : RelayId ws.peerId) (hb : RelayId b) (hdest : c.get? b = some dest)
    (payload : Bytes) :
    relayBinary c ws (encodeRelayFrame b payload) =
      .sent dest (encodeRelayFrame ws.peerId payload) := by
  have hheader := decode_header hb payload
  rw [decodeRelayFrame, DecodedFrame.mk.injEq] at hheader
  have hlen := length_encodeRelayFrame hb payload
  rw [relayBinary_eq hws, if_neg (by omega), hheader.1, hheader.2]
  simp only [hdest]
  rfl

/-- **Relay transport is faithful.**  `wsA` is a socket of peer A. -/
theorem relay_transport_faithful (cfg : Config) (s : ServerState) {wsA wsB : Ws} {b : PeerId}
    (hA : RelayId wsA.peerId) (hB : RelayId b) (hconn : s.connections.get? b = some wsB)
    (now : Int) :
    (∀ payload, ∃ out,
      s.wsMessage cfg wsA now (.binary (encodeRelayFrame b payload)) = (s, .sent wsB out) ∧
      out.length = (encodeRelayFrame b payload).length ∧
      decodeRelayFrame out = ⟨wsA.peerId, payload⟩ ∧
      ∀ es, HandsOn (run proxyStep .init es) wsA.peerId payload
        (run proxyStep .init (es ++ [.binary out]))) ∧
    (∀ msg, (∃ dest out, (s.wsMessage cfg wsA now (.binary msg)).2 = .sent dest out) ↔
      RELAY_PEER_ID_LEN ≤ msg.length ∧
        s.isConnected (TextDecoder.decode (msg.take RELAY_PEER_ID_LEN)) = true) ∧
    ∀ ws msg, (s.wsMessage cfg ws now (.binary msg)).1 = s := by
  refine ⟨fun payload => ⟨encodeRelayFrame wsA.peerId payload, ?_, ?_, decode_header hA payload,
    fun es => ?_⟩, fun msg => ?_, fun _ _ => rfl⟩
  · rw [ServerState.wsMessage, relayBinary_encode hA hB hconn]
  · rw [length_encodeRelayFrame hA, length_encodeRelayFrame hB]
  · have h := handsOn_onBinary (probingPeers_nil es) (encodeRelayFrame wsA.peerId payload)
    rw [decode_header hA] at h
    rw [run_concat]
    exact h
  · simp only [ServerState.wsMessage, relayBinary_eq hA, ServerState.isConnected, isPeerConnected,
      OMap.has_iff]
    by_cases hlen : msg.length < RELAY_PEER_ID_LEN
    · simp [hlen, Nat.not_le.mpr hlen]
    · rw [if_neg hlen]
      cases s.connections.get? (TextDecoder.decode (msg.take RELAY_PEER_ID_LEN)) with
      | none => simp
      | some dest => simpa using hlen

theorem relay_transport_faithful_two :
    ∃ out, relayBinary (OMap.empty.set relayTwo ⟨2, relayTwo⟩) ⟨1, relayOne⟩
        (encodeRelayFrame relayTwo [7, 8]) = .sent ⟨2, relayTwo⟩ out ∧
      decodeRelayFrame out = ⟨relayOne, [7, 8]⟩ := by
  obtain ⟨out, h, -, hd, -⟩ := (@relay_transport_faithful {}
    { ServerState.init .empty with connections := OMap.empty.set relayTwo ⟨2, relayTwo⟩ }
    ⟨1, relayOne⟩ ⟨2, relayTwo⟩ relayTwo (relayId_replicate (by decide))
    (relayId_replicate (by decide)) (by simp) 0).1 [7, 8]
  exact ⟨out, congrArg Prod.snd h, hd⟩

end Meshezia
