import MysqlRust.Server.Authentication

/-! # The handshake and its upgrade to TLS

A client asks for TLS in a packet that is not encrypted. What was read behind that packet is
handed to the TLS session in front of what is still to come.
-/
namespace MysqlRust.Server
open Protocol List Proc

section
variable {σ : Type}

structure PrefixedStream (σ : Type) where
  prefixBytes : List UInt8
  pos : Nat
  inner : σ

namespace PrefixedStream

def new (prefixBytes : List UInt8) (inner : σ) : PrefixedStream σ := ⟨prefixBytes, 0, inner⟩

def pollRead (read : Nat → σ → List UInt8 × σ) (remaining : Nat) (s : PrefixedStream σ) :
    List UInt8 × PrefixedStream σ :=
  if s.pos < s.prefixBytes.length then
    let rest := s.prefixBytes.drop s.pos
    let n := min rest.length remaining
    (rest.take n, { s with pos := s.pos + n })
  else
    let (bytes, inner) := read remaining s.inner
    (bytes, { s with inner })

def stream (inner : σ → List UInt8) (s : PrefixedStream σ) : List UInt8 :=
  s.prefixBytes.drop s.pos ++ inner s.inner

theorem pollRead_delivers {read : Nat → σ → List UInt8 × σ} {inner : σ → List UInt8}
    (h : Framing.Delivers read inner) : Framing.Delivers (pollRead read) (stream inner) where
  front k s := by
    unfold pollRead stream
    split_ifs with hpos
    · rw [← append_assoc, ← drop_drop, take_append_drop]
    · have hnil : s.prefixBytes.drop s.pos = [] := drop_eq_nil_of_le (Nat.le_of_not_lt hpos)
      rw [hnil]
      exact h.front k s.inner
  some k s hk hne := by
    unfold pollRead
    split_ifs with hpos
    · have hrest : 0 < (s.prefixBytes.drop s.pos).length := by
        rw [length_drop]
        omega
      refine ne_nil_of_length_pos ?_
      rw [length_take_of_le (Nat.min_le_left _ _)]
      exact lt_min hrest hk
    · refine h.some k s.inner hk fun hnil => hne ?_
      rw [stream, hnil, drop_eq_nil_of_le (Nat.le_of_not_lt hpos), append_nil]

end PrefixedStream

def clientSsl : UInt32 := 0x00000800

def responseHasSslFlag : List UInt8 → Bool
  | b₀ :: b₁ :: b₂ :: b₃ :: _ => (UInt32.ofNat (leValue [b₀, b₁, b₂, b₃])) &&& clientSsl ≠ 0
  | _ => false

/-- The chunks that a TLS session makes of the bytes it reads, with buffers of these sizes. -/
structure TlsAcceptor where
  sizes : List Nat
  accept : List UInt8 → Except String (List (Framing.Chunk UInt8 readChunk))

inductive ConnStream
  | plain
  | tls
  | upgrading
  deriving DecidableEq

structure HandshakeSession where
  sequenceId : UInt8
  stream : ConnStream
  inbound : Inbound

variable (maxAllowedPacket : Nat)

def readHandshakePacket : Proc HandshakeSession Error Packet := fun s =>
  match readPacket maxAllowedPacket s.inbound with
  | (.ok packet, inbound) =>
    if packet.sequenceId ≠ s.sequenceId then
      (.err (.protocol s!"expected sequence id {s.sequenceId}, got {packet.sequenceId}"),
        { s with inbound })
    else (.ok packet, { s with inbound, sequenceId := s.sequenceId + 1 })
  | (.err e, inbound) => (.err e, { s with inbound })
  | (.panic, inbound) => (.panic, { s with inbound })

def upgradeToTls (tlsAcceptor : Option TlsAcceptor) : Proc HandshakeSession Error Unit := fun s =>
  match tlsAcceptor, s.stream with
  | none, _ => (.err (.protocol "TLS upgrade requested but TLS is not configured"), s)
  | some acceptor, .plain =>
    let prefixed := PrefixedStream.new s.inbound.buffer s.inbound.unread
    let read := PrefixedStream.pollRead Framing.readChunks
    match acceptor.accept (Framing.readMany read acceptor.sizes prefixed).1 with
    | .ok unread => (.ok (), { s with stream := .tls, inbound := ⟨[], unread⟩ })
    | .error e =>
      (.err (.protocol s!"TLS handshake failed: {e}"),
        { s with stream := .upgrading, inbound := ⟨[], []⟩ })
  | some _, _ =>
    (.err (.protocol "TLS upgrade attempted on an already-upgraded connection"), s)

/-- `perform_handshake` from the response to the greeting on. -/
def performHandshake (tlsAcceptor : Option TlsAcceptor) :
    Proc HandshakeSession Error HandshakeResponse41 := do
  let request ← readHandshakePacket maxAllowedPacket
  if tlsAcceptor.isSome && responseHasSslFlag request.payload then
    upgradeToTls tlsAcceptor
    let response ← readHandshakePacket maxAllowedPacket
    lift (HandshakeResponse41.parse response.payload)
  else lift (HandshakeResponse41.parse request.payload)

end

section Upgrades
variable {maxAllowedPacket : Nat} {packet : Packet} {s : HandshakeSession} {rest : List UInt8}

theorem readHandshakePacket_eq (hfits : packet.payload.length ≤ min maxPayload maxAllowedPacket)
    (hstream : s.inbound.stream = packet.encode ++ rest) (hid : packet.sequenceId = s.sequenceId) :
    ∃ inbound : Inbound, inbound.stream = rest ∧ readHandshakePacket maxAllowedPacket s =
      (.ok packet, { s with inbound, sequenceId := s.sequenceId + 1 }) := by
  obtain ⟨inbound, hread, hrest⟩ : ∃ inbound : Inbound,
      readPacket maxAllowedPacket s.inbound = (.ok packet, inbound) ∧ inbound.stream = rest :=
    Framing.receive_of_frames (takePacket_frames hfits) hstream
  refine ⟨inbound, hrest, ?_⟩
  simp only [readHandshakePacket, hread, hid, ne_eq, not_true_eq_false, if_false]

/-- However the bytes of the client arrive, the TLS session gets exactly those behind the request,
and the response to the greeting is read from what it makes of them. -/
theorem performHandshake_tls {tls : TlsAcceptor} {request response : Packet}
    {cipher more : List UInt8} {chunks : List (Framing.Chunk UInt8 readChunk)}
    (hrequest : request.payload.length ≤ min maxPayload maxAllowedPacket)
    (hresponse : response.payload.length ≤ min maxPayload maxAllowedPacket)
    (hssl : responseHasSslFlag request.payload = true) (hplain : s.stream = .plain)
    (hstream : s.inbound.stream = request.encode ++ cipher)
    (hid : request.sequenceId = s.sequenceId) (hid' : response.sequenceId = s.sequenceId + 1)
    (hsizes : ∀ n ∈ tls.sizes, 0 < n) (hlen : cipher.length ≤ tls.sizes.length)
    (haccept : tls.accept cipher = .ok chunks)
    (hchunks : chunks.flatMap Framing.Chunk.items = response.encode ++ more) :
    ∃ inbound : Inbound, inbound.stream = more ∧ performHandshake maxAllowedPacket (some tls) s =
      (HandshakeResponse41.parse response.payload, ⟨s.sequenceId + 1 + 1, .tls, inbound⟩) := by
  obtain ⟨inbound, hcipher, hread⟩ := readHandshakePacket_eq hrequest hstream hid
  have hdelivers := PrefixedStream.pollRead_delivers (Framing.readChunks_delivers (n := readChunk))
  have hnew : PrefixedStream.stream (List.flatMap Framing.Chunk.items)
      (PrefixedStream.new inbound.buffer inbound.unread) = cipher := hcipher
  have hseen := (hdelivers.readMany_all hsizes (hnew.symm ▸ hlen)).trans hnew
  have hupgrade : upgradeToTls (some tls) { s with inbound, sequenceId := s.sequenceId + 1 } =
      (.ok (), ⟨s.sequenceId + 1, .tls, ⟨[], chunks⟩⟩) := by
    simp only [upgradeToTls, hplain, hseen, haccept]
  obtain ⟨inbound', hmore, hread'⟩ := readHandshakePacket_eq
    (s := ⟨s.sequenceId + 1, .tls, ⟨[], chunks⟩⟩) hresponse hchunks hid'
  refine ⟨inbound', hmore, ?_⟩
  rw [performHandshake, bind_ok hread]
  simp only [Option.isSome_some, hssl, Bool.and_self, if_true]
  rw [bind_ok hupgrade, bind_ok hread']
  rfl

/-- One byte of the TLS handshake arrives with the request, another one later. -/
theorem performHandshake_tls_root : let payload := emptyAnswer "root" "mysql_native_password"
    let arriving : Inbound := ⟨[], [⟨[4, 0, 0, 1, 0, 8, 0, 0, 22], by decide, by decide⟩,
      ⟨[3], by decide, by decide⟩]⟩
    let plain : List (Framing.Chunk UInt8 readChunk) :=
      [⟨Packet.encode ⟨2, payload⟩, by decide +kernel, by decide +kernel⟩]
    ∃ inbound : Inbound, inbound.stream = [] ∧ performHandshake 1024 (some ⟨[512, 512], fun bytes =>
        if bytes = [22, 3] then .ok plain else .error "decode error"⟩) ⟨1, .plain, arriving⟩ =
      (HandshakeResponse41.parse payload, ⟨1 + 1 + 1, .tls, inbound⟩) := by
  intro payload arriving plain
  have hstream : arriving.stream = Packet.encode ⟨1, [0, 8, 0, 0]⟩ ++ [22, 3] := by decide
  have hplain : plain.flatMap Framing.Chunk.items = Packet.encode ⟨2, payload⟩ ++ [] := rfl
  exact performHandshake_tls (by decide) (by decide +kernel) rfl rfl hstream rfl rfl (by decide)
    (by decide) rfl hplain

end Upgrades

end MysqlRust.Server
