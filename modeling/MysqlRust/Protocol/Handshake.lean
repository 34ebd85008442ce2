import Mathlib.Data.List.TakeWhile
import MysqlRust.Protocol.Response

/-! # The client's handshake response

The fields after the fixed header depend on the client's capability flags. Trailing bytes are
ignored.
-/
namespace MysqlRust.Protocol

open List

def clientConnectWithDb : UInt32 := 0x00000008
def clientProtocol41 : UInt32 := 0x00000200
def clientSecureConnection : UInt32 := 0x00008000
def clientMultiStatements : UInt32 := 0x00010000
def clientPluginAuth : UInt32 := 0x00080000
def clientPluginAuthLenencClientData : UInt32 := 0x00200000
def clientDeprecateEof : UInt32 := 0x01000000

structure HandshakeResponse41 where
  capabilityFlags : UInt32
  maxPacketSize : UInt32
  characterSet : UInt8
  username : String
  authResponse : List UInt8
  database : Option String
  authPluginName : Option String
  deriving DecidableEq, Repr

section Fields
open Reader

def readNulTerminatedBytes : Reader Error (List UInt8) := fun bytes pos =>
  if pos ≤ bytes.length then
    let rest := bytes.drop pos
    let text := rest.takeWhile (· ≠ 0)
    if text.length < rest.length then .ok (text, pos + text.length + 1)
    else .err (.protocol "expected NUL-terminated data, found none")
  else .err (.protocol "unexpected end of handshake response")

def readNulTerminatedStr : Reader Error String := do
  let bytes ← readNulTerminatedBytes
  match String.fromUTF8? ⟨bytes.toArray⟩ with
  | some s => pure s
  | none => fail (.protocol "expected a UTF-8 string in handshake response")

def readSized (len : Nat) : Reader Error (List UInt8) := fun bytes pos =>
  if pos + len < 2 ^ 64 then
    slice len (.protocol "handshake response: truncated auth-response") bytes pos
  else .err (.protocol "handshake response: length overflow")

def readAuthResponse (capabilityFlags : UInt32) : Reader Error (List UInt8) :=
  if capabilityFlags &&& clientPluginAuthLenencClientData ≠ 0 then do
    let len ← readLenencInt
    readSized len.toNat
  else if capabilityFlags &&& clientSecureConnection ≠ 0 then do
    let len ← byte (.protocol "handshake response: missing auth-response length")
    readSized len.toNat
  else readNulTerminatedBytes

def readOptionalStr (capabilityFlags capability : UInt32) : Reader Error (Option String) :=
  if capabilityFlags &&& capability ≠ 0 then do
    let s ← readNulTerminatedStr
    pure (some s)
  else pure none

end Fields

namespace HandshakeResponse41

def headerLen : Nat := 32

def readFields (capabilityFlags maxPacketSize : UInt32) (characterSet : UInt8) :
    Reader Error HandshakeResponse41 := do
  let username ← readNulTerminatedStr
  let authResponse ← readAuthResponse capabilityFlags
  let database ← readOptionalStr capabilityFlags clientConnectWithDb
  let authPluginName ← readOptionalStr capabilityFlags clientPluginAuth
  pure { capabilityFlags, maxPacketSize, characterSet, username, authResponse, database,
         authPluginName }

def parse (payload : List UInt8) : Result HandshakeResponse41 :=
  if payload.length < headerLen then
    .err (.protocol s!"handshake response too short: {payload.length} byte(s), need at least {headerLen}")
  else
    let capabilityFlags := UInt32.ofNat (leValue (payload.take 4))
    let maxPacketSize := UInt32.ofNat (leValue ((payload.drop 4).take 4))
    if capabilityFlags &&& clientProtocol41 = 0 then
      .err (.protocol "client did not advertise CLIENT_PROTOCOL_41; the pre-4.1 protocol is not supported")
    else Prod.fst <$> readFields capabilityFlags maxPacketSize (payload.getD 8 0) payload headerLen

end HandshakeResponse41

structure AuthSwitchRequest where
  pluginName : String
  authPluginData : List UInt8
  deriving DecidableEq, Repr

def AuthSwitchRequest.toPacket (request : AuthSwitchRequest) (sequenceId : UInt8) : Result Packet :=
  fit "auth switch" sequenceId (0xfe :: utf8 request.pluginName ++ [0] ++ request.authPluginData)

section
open Reader

theorem readNulTerminatedBytes_covers : Covers readNulTerminatedBytes fun bs => bs.length + 1 := by
  intro bytes pos bs pos' hpos h
  simp only [readNulTerminatedBytes, if_pos hpos] at h
  split_ifs at h with hlt
  cases h
  rw [length_drop] at hlt
  constructor
  · exact le_rfl
  · omega

theorem readNulTerminatedStr_covers : Covers readNulTerminatedStr fun s => (utf8 s).length + 1 := by
  refine readNulTerminatedBytes_covers.bind fun bs => ?_
  split
  · rename_i s hs
    refine .pure ?_
    have hbytes : utf8 s = bs := utf8_of_fromUTF8? hs
    rw [hbytes]
    omega
  · exact .fail _ _

theorem readLenencInt_covers : Covers readLenencInt fun _ => 1 := by
  refine (Covers.byte _).bind fun first => .ite (.pure rfl) (.ite (Covers.fail _ _) ?_)
  refine .ite ?_ (.ite ?_ (.ite ?_ (Covers.fail _ _)))
  all_goals exact (Covers.slice _ _).bind fun b => .pure (Nat.zero_sub _)

theorem readSized_covers (len : Nat) : Covers (readSized len) fun _ => 0 := by
  intro bytes pos bs pos' hpos h
  unfold readSized at h
  split_ifs at h
  exact (Covers.slice len _).mono (fun _ => Nat.zero_le _) bytes pos bs pos' hpos h

theorem readAuthResponse_covers (capabilityFlags : UInt32) :
    Covers (readAuthResponse capabilityFlags) fun _ => 1 := by
  refine .ite ?_ (.ite ?_ ?_)
  · exact readLenencInt_covers.bind fun len => readSized_covers len.toNat
  · exact (Covers.byte _).bind fun len => readSized_covers len.toNat
  · exact readNulTerminatedBytes_covers.mono fun bs => Nat.le_add_left 1 bs.length

theorem readOptionalStr_covers (capabilityFlags capability : UInt32) :
    Covers (readOptionalStr capabilityFlags capability) fun _ => 0 := by
  refine .ite (readNulTerminatedStr_covers.bind fun s => .pure (Nat.zero_sub _)) ?_
  exact .pure rfl

namespace HandshakeResponse41

theorem readFields_covers (capabilityFlags maxPacketSize : UInt32) (characterSet : UInt8) :
    Covers (readFields capabilityFlags maxPacketSize characterSet) fun r =>
      (utf8 r.username).length + 2 := by
  refine readNulTerminatedStr_covers.bind fun username => ?_
  refine (readAuthResponse_covers _).bind fun authResponse => ?_
  refine (readOptionalStr_covers _ _).bind fun database => ?_
  refine (readOptionalStr_covers _ _).bind fun authPluginName => .pure ?_
  dsimp only
  omega

theorem parse_username {payload : List UInt8} {r : HandshakeResponse41}
    (h : parse payload = .ok r) : (utf8 r.username).length + 34 ≤ payload.length := by
  simp only [parse] at h
  split_ifs at h with hlen
  obtain ⟨⟨r', pos'⟩, hread, rfl⟩ := Outcome.map_eq_ok.mp h
  obtain ⟨hstart, hend⟩ := readFields_covers _ _ _ _ _ _ _ (Nat.not_lt.mp hlen) hread
  simp only [headerLen] at hstart
  dsimp only
  omega

end HandshakeResponse41

def nulTerminated (bytes : List UInt8) : List UInt8 := bytes ++ [0]

def authResponseBytes (capabilityFlags : UInt32) (authResponse : List UInt8) : List UInt8 :=
  if capabilityFlags &&& clientPluginAuthLenencClientData ≠ 0 then writeLenencBytes authResponse
  else if capabilityFlags &&& clientSecureConnection ≠ 0 then
    UInt8.ofNat authResponse.length :: authResponse
  else nulTerminated authResponse

def AuthResponseFits (capabilityFlags : UInt32) (authResponse : List UInt8) : Prop :=
  if capabilityFlags &&& clientPluginAuthLenencClientData ≠ 0 then True
  else if capabilityFlags &&& clientSecureConnection ≠ 0 then authResponse.length ≤ 255
  else 0 ∉ authResponse

instance (capabilityFlags : UInt32) (authResponse : List UInt8) :
    Decidable (AuthResponseFits capabilityFlags authResponse) := by
  unfold AuthResponseFits
  split <;> infer_instance

def optionalStrBytes (capabilityFlags capability : UInt32) (s : String) : List UInt8 :=
  if capabilityFlags &&& capability ≠ 0 then nulTerminated (utf8 s) else []

def optionalStr (capabilityFlags capability : UInt32) (s : String) : Option String :=
  if capabilityFlags &&& capability ≠ 0 then some s else none

theorem readNulTerminatedBytes_exact {bytes : List UInt8} (h : 0 ∉ bytes) :
    Exact readNulTerminatedBytes (nulTerminated bytes) bytes where
  reads pre post := by
    have hne : ∀ b ∈ bytes, decide (b ≠ 0) = true :=
      fun b hb => decide_eq_true fun h0 => h (h0 ▸ hb)
    have htake : (nulTerminated bytes ++ post).takeWhile (fun b => decide (b ≠ 0)) = bytes := by
      rw [nulTerminated, append_assoc, takeWhile_append_of_pos hne]
      simp
    simp only [readNulTerminatedBytes, drop_left, htake]
    rw [if_pos (by simp), if_pos (by simp [nulTerminated])]
    simp [nulTerminated, Nat.add_assoc]
  stops pre p hp hne := by
    -- a proper beginning has lost the NUL byte
    have hprefix : p <+: bytes := by
      rcases prefix_or_prefix_of_prefix hp (prefix_append bytes [0]) with hle | hle
      · exact hle
      · have hlen := hp.length_le
        have hlen' := hle.length_le
        rw [nulTerminated, length_append, length_singleton] at hlen
        have hlt : p.length ≠ bytes.length + 1 := fun heq =>
          hne (hp.eq_of_length (by rw [heq, nulTerminated, length_append, length_singleton]))
        have heq : bytes = p := hle.eq_of_length (by omega)
        exact heq ▸ prefix_refl bytes
    have hall : ∀ b ∈ p, decide (b ≠ 0) = true :=
      fun b hb => decide_eq_true fun h0 => h (h0 ▸ hprefix.subset hb)
    refine ⟨.protocol "expected NUL-terminated data, found none", ?_⟩
    simp only [readNulTerminatedBytes, drop_left, takeWhile_eq_self_iff.mpr hall,
      lt_irrefl, if_false]
    rw [if_pos (by simp)]

theorem readNulTerminatedStr_exact {s : String} (h : 0 ∉ utf8 s) :
    Exact readNulTerminatedStr (nulTerminated (utf8 s)) s := by
  refine (readNulTerminatedBytes_exact h).bind_eq_pure ?_
  rw [fromUTF8?_utf8]

theorem readSized_within (bytes : List UInt8) :
    ReadsWithin (2 ^ 64) (readSized bytes.length) bytes bytes := by
  intro pre post hlimit
  have hlen : pre.length + bytes.length < 2 ^ 64 := by
    rw [length_append, length_append] at hlimit
    omega
  rw [readSized, if_pos hlen]
  exact (Exact.slice _ bytes).reads pre post

theorem readAuthResponse_within {capabilityFlags : UInt32} {authResponse : List UInt8}
    (h : AuthResponseFits capabilityFlags authResponse) (hlen : authResponse.length < 2 ^ 64) :
    ReadsWithin (2 ^ 64) (readAuthResponse capabilityFlags)
      (authResponseBytes capabilityFlags authResponse) authResponse := by
  rw [AuthResponseFits] at h
  rw [readAuthResponse, authResponseBytes]
  split_ifs at h ⊢
  · have hint : (UInt64.ofNat authResponse.length).toNat = authResponse.length :=
      UInt64.toNat_ofNat_of_lt' hlen
    refine (readLenencInt_exact _).within.bind ?_
    rw [hint]
    exact readSized_within authResponse
  · have hbyte : (UInt8.ofNat authResponse.length).toNat = authResponse.length :=
      UInt8.toNat_ofNat_of_lt' (by simp only [UInt8.size]; omega)
    have hlength : ReadsWithin (2 ^ 64)
        (byte (Error.protocol "handshake response: missing auth-response length"))
        [UInt8.ofNat authResponse.length] (UInt8.ofNat authResponse.length) :=
      (Exact.byte _ _).within
    refine hlength.bind ?_
    rw [hbyte]
    exact readSized_within authResponse
  · exact (readNulTerminatedBytes_exact h).within

theorem readOptionalStr_exact (capabilityFlags capability : UInt32) {s : String} (h : 0 ∉ utf8 s) :
    Exact (readOptionalStr capabilityFlags capability)
      (optionalStrBytes capabilityFlags capability s) (optionalStr capabilityFlags capability s) := by
  rw [readOptionalStr, optionalStrBytes, optionalStr]
  split_ifs
  · exact (readNulTerminatedStr_exact h).bind_pure some
  · exact .pure none

namespace HandshakeResponse41

def layout (capabilityFlags maxPacketSize : UInt32) (characterSet : UInt8) (reserved : List UInt8)
    (username : String) (authResponse : List UInt8) (database authPluginName : String)
    (trailing : List UInt8) : List UInt8 :=
  (leBytes 4 capabilityFlags.toNat ++ leBytes 4 maxPacketSize.toNat ++ [characterSet] ++ reserved) ++
    ((nulTerminated (utf8 username) ++ (authResponseBytes capabilityFlags authResponse ++
      (optionalStrBytes capabilityFlags clientConnectWithDb database ++
        optionalStrBytes capabilityFlags clientPluginAuth authPluginName))) ++ trailing)

theorem readFields_within {capabilityFlags : UInt32} (maxPacketSize : UInt32) (characterSet : UInt8)
    {username database authPluginName : String} {authResponse : List UInt8}
    (husername : 0 ∉ utf8 username) (hdatabase : 0 ∉ utf8 database)
    (hplugin : 0 ∉ utf8 authPluginName) (hfits : AuthResponseFits capabilityFlags authResponse)
    (hlen : authResponse.length < 2 ^ 64) :
    ReadsWithin (2 ^ 64) (readFields capabilityFlags maxPacketSize characterSet)
      (nulTerminated (utf8 username) ++ (authResponseBytes capabilityFlags authResponse ++
        (optionalStrBytes capabilityFlags clientConnectWithDb database ++
          optionalStrBytes capabilityFlags clientPluginAuth authPluginName)))
      { capabilityFlags, maxPacketSize, characterSet, username, authResponse
        database := optionalStr capabilityFlags clientConnectWithDb database
        authPluginName := optionalStr capabilityFlags clientPluginAuth authPluginName } := by
  refine (readNulTerminatedStr_exact husername).within.bind ?_
  refine (readAuthResponse_within hfits hlen).bind ?_
  refine (readOptionalStr_exact _ _ hdatabase).within.bind ?_
  exact (readOptionalStr_exact _ _ hplugin).within.bind_pure _

theorem length_le_authResponseBytes (capabilityFlags : UInt32) (authResponse : List UInt8) :
    authResponse.length ≤ (authResponseBytes capabilityFlags authResponse).length := by
  rw [authResponseBytes]
  split_ifs
  · simp [writeLenencBytes]
  · simp
  · simp [nulTerminated]

/-- A payload in the layout is decoded to the fields that were sent; a slice has fewer than
`2 ^ 64` bytes. -/
theorem parse_layout {capabilityFlags : UInt32} (hprotocol : capabilityFlags &&& clientProtocol41 ≠ 0)
    (maxPacketSize : UInt32) (characterSet : UInt8) {reserved : List UInt8}
    (hreserved : reserved.length = 23) {username database authPluginName : String}
    {authResponse : List UInt8} (husername : 0 ∉ utf8 username) (hdatabase : 0 ∉ utf8 database)
    (hplugin : 0 ∉ utf8 authPluginName) (hfits : AuthResponseFits capabilityFlags authResponse)
    (trailing : List UInt8)
    (hlen : (layout capabilityFlags maxPacketSize characterSet reserved username authResponse
      database authPluginName trailing).length < 2 ^ 64) :
    parse (layout capabilityFlags maxPacketSize characterSet reserved username authResponse
        database authPluginName trailing) =
      .ok { capabilityFlags, maxPacketSize, characterSet, username, authResponse
            database := optionalStr capabilityFlags clientConnectWithDb database
            authPluginName := optionalStr capabilityFlags clientPluginAuth authPluginName } := by
  have hauth : authResponse.length < 2 ^ 64 := by
    have hle := length_le_authResponseBytes capabilityFlags authResponse
    simp only [layout, length_append] at hlen
    omega
  have hread := readFields_within maxPacketSize characterSet husername hdatabase hplugin hfits hauth
  unfold layout at hlen ⊢
  generalize hhead : leBytes 4 capabilityFlags.toNat ++ leBytes 4 maxPacketSize.toNat ++
    [characterSet] ++ reserved = header at hlen ⊢
  have hheader : header.length = headerLen := by
    rw [← hhead]
    simp [hreserved, headerLen]
  have hrun := hread header trailing hlen
  rw [hheader] at hrun
  have hflags : ∀ rest, UInt32.ofNat (leValue ((header ++ rest).take 4)) = capabilityFlags := by
    intro rest
    have htake : (header ++ rest).take 4 = leBytes 4 capabilityFlags.toNat := by
      rw [← hhead]
      simp
    rw [htake, leValue_leBytes_of_lt (by exact capabilityFlags.toNat_lt), UInt32.ofNat_toNat]
  have hsize : ∀ rest, UInt32.ofNat (leValue (((header ++ rest).drop 4).take 4)) = maxPacketSize := by
    intro rest
    have htake : ((header ++ rest).drop 4).take 4 = leBytes 4 maxPacketSize.toNat := by
      rw [← hhead]
      simp
    rw [htake, leValue_leBytes_of_lt (by exact maxPacketSize.toNat_lt), UInt32.ofNat_toNat]
  have hset : ∀ rest, (header ++ rest).getD 8 0 = characterSet := by
    intro rest
    rw [← hhead]
    simp [getD_eq_getElem?_getD, getElem?_append]
  simp only [parse, hflags, hsize, hset]
  rw [if_neg (by simp [hheader]), if_neg hprotocol, hrun]
  rfl

theorem parse_layout_root :
    parse (layout 0x88208 0x1000000 33 (List.replicate 23 0) "root" [1, 0, 2] "test"
        "mysql_native_password" [9]) =
      .ok ⟨0x88208, 0x1000000, 33, "root", [1, 0, 2], some "test", some "mysql_native_password"⟩ :=
  parse_layout (by decide) 0x1000000 33 (by decide) (by decide +kernel) (by decide +kernel)
    (by decide +kernel) (by decide) [9] (by decide +kernel)

end HandshakeResponse41

end

end MysqlRust.Protocol
