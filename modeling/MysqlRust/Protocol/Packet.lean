import MysqlRust.Foundation.ByteCursor
import MysqlRust.Foundation.Framing
import MysqlRust.Storage.Value

/-! # Packets

A packet is a three-byte little-endian payload length, a sequence id, and the payload. The
server reads packets from a socket that delivers bytes in chunks of its own choosing.
-/
namespace MysqlRust.Protocol

open List

def headerLen : Nat := 4

def maxPayload : Nat := 0xFFFFFF

structure Packet where
  sequenceId : UInt8
  payload : List UInt8
  deriving DecidableEq, Repr

namespace Packet

def encodeInto (packet : Packet) (out : List UInt8) : List UInt8 :=
  out ++ (leBytes 4 packet.payload.length).take 3 ++ [packet.sequenceId] ++ packet.payload

def encode (packet : Packet) : List UInt8 := packet.encodeInto []

def parse (buf : List UInt8) : Option (Packet × Nat) :=
  match buf with
  | b₀ :: b₁ :: b₂ :: sequenceId :: rest =>
    let length := leValue [b₀, b₁, b₂, 0]
    if rest.length < length then none
    else some (⟨sequenceId, rest.take length⟩, headerLen + length)
  | _ => none

theorem encode_eq (packet : Packet) : packet.encode =
    leBytes 3 packet.payload.length ++ packet.sequenceId :: packet.payload := by
  simp [encode, encodeInto, leBytes]

theorem length_encode (packet : Packet) :
    packet.encode.length = headerLen + packet.payload.length := by
  simp [encode_eq, headerLen]
  omega

theorem encodeInto_eq (packet : Packet) (out : List UInt8) :
    packet.encodeInto out = out ++ packet.encode := by
  simp [encode, encodeInto]

end Packet

def readChunk : Nat := 4096

abbrev Inbound : Type := Framing.Inbound UInt8 readChunk

def declaredPayloadLen : List UInt8 → Option Nat
  | b₀ :: b₁ :: b₂ :: _ :: _ => some (leValue [b₀, b₁, b₂, 0])
  | _ => none

def packetTooLarge (declared maxAllowedPacket : Nat) : Error :=
  .protocol s!"packet payload of {declared} bytes exceeds max_allowed_packet ({maxAllowedPacket})"

def connectionClosed : Error :=
  .protocol "connection closed before a full packet was received"

/-- One look at the buffer: an oversized packet is refused before its payload is there. -/
def takePacket (maxAllowedPacket : Nat) (buf : List UInt8) : Result (Option (Packet × Nat)) :=
  match declaredPayloadLen buf with
  | some declared =>
    if declared > maxAllowedPacket then .err (packetTooLarge declared maxAllowedPacket)
    else .ok (Packet.parse buf)
  | none => .ok (Packet.parse buf)

def readPacket (maxAllowedPacket : Nat) : Proc Inbound Error Packet :=
  Framing.receive (takePacket maxAllowedPacket) connectionClosed

def readPackets (maxAllowedPacket : Nat) (count : Nat) : Proc Inbound Error (List Packet) :=
  Framing.receiveMany (takePacket maxAllowedPacket) connectionClosed count

section Framed
variable {packet : Packet} {maxAllowedPacket : Nat}
variable {buf : List UInt8}

theorem Packet.header_eq (h : packet.payload.length ≤ maxPayload) :
    ∃ b₀ b₁ b₂, packet.encode = b₀ :: b₁ :: b₂ :: packet.sequenceId :: packet.payload ∧
      leValue [b₀, b₁, b₂, 0] = packet.payload.length := by
  refine ⟨_, _, _, packet.encode_eq, ?_⟩
  have hlt : packet.payload.length < 256 ^ 3 := Nat.lt_of_le_of_lt h (by decide)
  have hvalue := leValue_leBytes_of_lt hlt
  simpa [leBytes, leValue] using hvalue

/-- Once the header is there only the payload decides whether a packet is taken. -/
theorem takePacket_header {b₀ b₁ b₂ : UInt8} {length : Nat}
    (hlength : leValue [b₀, b₁, b₂, 0] = length) (hmax : length ≤ maxAllowedPacket)
    (sequenceId : UInt8) (rest : List UInt8) :
    takePacket maxAllowedPacket (b₀ :: b₁ :: b₂ :: sequenceId :: rest) =
      .ok (if rest.length < length then none
        else some (⟨sequenceId, rest.take length⟩, headerLen + length)) := by
  simp only [takePacket, declaredPayloadLen, Packet.parse, hlength]
  rw [if_neg (Nat.not_lt.mpr hmax)]

theorem takePacket_refused {b₀ b₁ b₂ sequenceId : UInt8} {rest : List UInt8}
    (h : maxAllowedPacket < leValue [b₀, b₁, b₂, 0]) :
    takePacket maxAllowedPacket (b₀ :: b₁ :: b₂ :: sequenceId :: rest) =
      .err (packetTooLarge (leValue [b₀, b₁, b₂, 0]) maxAllowedPacket) :=
  if_pos h

theorem Packet.exists_header (h : headerLen ≤ buf.length) :
    ∃ b₀ b₁ b₂ sequenceId rest, buf = b₀ :: b₁ :: b₂ :: sequenceId :: rest := by
  rcases buf with _ | ⟨b₀, _ | ⟨b₁, _ | ⟨b₂, _ | ⟨sequenceId, rest⟩⟩⟩⟩
  all_goals simp [headerLen] at h
  exact ⟨b₀, b₁, b₂, sequenceId, rest, rfl⟩

theorem takePacket_short (h : buf.length < headerLen) :
    takePacket maxAllowedPacket buf = .ok none := by
  rcases buf with _ | ⟨b₀, _ | ⟨b₁, _ | ⟨b₂, _ | ⟨sequenceId, rest⟩⟩⟩⟩
  · rfl
  · rfl
  · rfl
  · rfl
  · simp only [length_cons, headerLen] at h
    omega

/-- A packet within the limits is taken off the stream as it was sent. -/
theorem takePacket_frames (h : packet.payload.length ≤ min maxPayload maxAllowedPacket) :
    Framing.Frames (takePacket maxAllowedPacket) packet.encode packet := by
  obtain ⟨hpayload, hmax⟩ := Nat.le_min.mp h
  obtain ⟨b₀, b₁, b₂, hencode, hlength⟩ := Packet.header_eq hpayload
  constructor
  · intro rest
    have hheader := takePacket_header hlength hmax packet.sequenceId (packet.payload ++ rest)
    rw [if_neg (by simp), take_left] at hheader
    rw [packet.length_encode, hencode]
    exact hheader
  · intro part hpart hne
    by_cases hshort : part.length < headerLen
    · exact takePacket_short hshort
    · -- the header is whole, so what is missing is missing from the payload
      obtain ⟨c₀, c₁, c₂, c₃, payload, rfl⟩ := Packet.exists_header (Nat.not_lt.mp hshort)
      rw [hencode] at hpart hne
      simp only [cons_prefix_cons] at hpart
      obtain ⟨rfl, rfl, rfl, rfl, hpayload⟩ := hpart
      have hlt : payload.length < packet.payload.length := by
        refine lt_of_le_of_ne hpayload.length_le fun heq => hne ?_
        rw [hpayload.eq_of_length heq]
      rw [takePacket_header hlength hmax, if_pos hlt]

/-- However the bytes arrive, the packets are read as they were sent and the rest is left. -/
theorem readPackets_of_encoded (maxAllowedPacket : Nat) (packets : List Packet)
    (trailing : List UInt8) (s : Inbound)
    (hfits : ∀ packet ∈ packets, packet.payload.length ≤ min maxPayload maxAllowedPacket)
    (hstream : s.stream = packets.flatMap Packet.encode ++ trailing) :
    ∃ s', readPackets maxAllowedPacket packets.length s = (.ok packets, s') ∧
      s'.buffer ++ s'.unread.flatMap Framing.Chunk.items = trailing :=
  Framing.receiveMany_of_frames (fun packet h => takePacket_frames (hfits packet h)) hstream

/-- Two packets and one byte more, cut inside the header of each packet. -/
theorem readPackets_of_cut_headers : ∃ s', readPackets 16 2 ⟨[], [⟨[1, 0], by decide, by decide⟩,
        ⟨[0, 0, 14, 0], by decide, by decide⟩, ⟨[0, 0, 1, 7], by decide, by decide⟩]⟩ =
      (.ok [⟨0, [14]⟩, ⟨1, []⟩], s') ∧ s'.buffer ++ s'.unread.flatMap Framing.Chunk.items = [7] :=
  readPackets_of_encoded 16 [⟨0, [14]⟩, ⟨1, []⟩] [7] _ (by decide) (by decide)

theorem takePacket_allowed {found : Option (Packet × Nat)}
    (h : takePacket maxAllowedPacket buf = .ok found) :
    (found = none → buf.length ≤ maxAllowedPacket + headerLen) ∧
      ∀ packet consumed, found = some (packet, consumed) →
        packet.payload.length ≤ maxAllowedPacket := by
  by_cases hshort : buf.length < headerLen
  · rw [takePacket_short hshort] at h
    cases h
    exact ⟨fun _ => hshort.le.trans (Nat.le_add_left _ _), fun _ _ h => by cases h⟩
  · obtain ⟨b₀, b₁, b₂, sequenceId, rest, rfl⟩ := Packet.exists_header (Nat.not_lt.mp hshort)
    by_cases hmax : leValue [b₀, b₁, b₂, 0] ≤ maxAllowedPacket
    · rw [takePacket_header rfl hmax] at h
      split_ifs at h with hrest
      · cases h
        refine ⟨fun _ => ?_, fun _ _ h => by cases h⟩
        simp only [length_cons, headerLen]
        omega
      · cases h
        refine ⟨fun h => absurd h (Option.some_ne_none _), fun packet consumed h => ?_⟩
        cases h
        exact (length_take_le _ _).trans hmax
    · rw [takePacket_refused (Nat.not_le.mp hmax)] at h
      cases h

/-- A call of `readPacket` that runs to its end is one sequence of events. -/
theorem readPacket_reach (maxAllowedPacket : Nat) (s : Inbound)
    (returned : List (Result Packet)) :
    Framing.Receiver.Reach readChunk (takePacket maxAllowedPacket) ⟨s.buffer, .idle, returned⟩
      ⟨(readPacket maxAllowedPacket s).2.buffer, .idle,
        (readPacket maxAllowedPacket s).1 :: returned⟩ :=
  (Framing.Receiver.Reach.next .call rfl).trans
    (Framing.receiveFrom_reach s.buffer s.unread returned)

/-- Whatever a client sends and whenever calls are given up, from a fresh connection on. -/
theorem readBuffer_bounded (maxAllowedPacket : Nat)
    {r : Framing.Receiver UInt8 Error Packet}
    (h : Framing.Receiver.Reach readChunk (takePacket maxAllowedPacket) ⟨[], .idle, []⟩ r) :
    r.buffer.length ≤ maxAllowedPacket + headerLen + readChunk ∧
      ∀ packet, .ok packet ∈ r.returned → packet.payload.length ≤ maxAllowedPacket := by
  have hbounded := h.bounded (P := fun packet => packet.payload.length ≤ maxAllowedPacket)
    (fun _ htake => (takePacket_allowed htake).1 rfl)
    (fun _ _ _ htake => (takePacket_allowed htake).2 _ _ rfl)
    ⟨Nat.zero_le _, fun h => Framing.Phase.noConfusion h, fun _ hpacket => by cases hpacket⟩
  exact ⟨hbounded.buffer, hbounded.returned⟩

/-- A call is given up, and the next one reads a packet and the first byte of another. -/
theorem readBuffer_bounded_givenUp :
    ([9] : List UInt8).length ≤ 16 + headerLen + readChunk ∧ ∀ packet,
      .ok packet ∈ [(.ok ⟨0, [14]⟩ : Result Packet)] → packet.payload.length ≤ 16 := by
  let events : List (Framing.Event UInt8 Error readChunk) :=
    [.call, .look, .cancel, .call, .look, .arrive ⟨[1, 0, 0, 0, 14, 9], by decide, by decide⟩, .look]
  have hrun : events.foldlM (Framing.Receiver.step (takePacket 16)) ⟨[], .idle, []⟩ =
      some ⟨[9], .idle, [.ok ⟨0, [14]⟩]⟩ := rfl
  exact readBuffer_bounded 16 (Runs.Allowed.reach (by decide) hrun)

end Framed

end MysqlRust.Protocol
