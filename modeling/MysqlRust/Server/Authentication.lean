import MysqlRust.Auth.Authenticator
import MysqlRust.Protocol.Handshake

/-! # The authentication exchange

The client has answered the handshake with the plugin it named or the one the server
advertised. An account that uses the other plugin is asked to answer once more with a new
scramble; then the verdict is sent.
-/
namespace MysqlRust.Server
open Auth Protocol Proc List Option

abbrev Scramble : Type := {bytes : List UInt8 // bytes.length = 20}

inductive AuthMessage where
  | switchRequest (request : AuthSwitchRequest)
  | moreData (more : AuthMoreData)
  | ok (packet : OkPacket)
  | err (packet : ErrPacket)
  deriving DecidableEq, Repr

def AuthMessage.toPacket : AuthMessage → UInt8 → Result Packet
  | .switchRequest request => request.toPacket
  | .moreData more => more.toPacket
  | .ok packet => packet.toPacket
  | .err packet => packet.toPacket

/-- The connection during the exchange: the packets the client is going to send, and what was
sent to it. -/
structure AuthSession where
  sequenceId : UInt8
  scramble : Scramble
  incoming : List Packet
  sent : List (UInt8 × AuthMessage)

namespace AuthSession

def writePacket (message : AuthMessage) : Proc AuthSession Error Unit := fun s =>
  match message.toPacket s.sequenceId with
  | .ok _ => (.ok (), { s with sent := s.sent ++ [(s.sequenceId, message)] })
  | .err e => (.err e, s)
  | .panic => (.panic, s)

def nextSequenceId : Proc AuthSession Error Unit := fun s =>
  (.ok (), { s with sequenceId := s.sequenceId + 1 })

def setScramble (scramble : Scramble) : Proc AuthSession Error Unit := fun s =>
  (.ok (), { s with scramble })

def readPacketBeforeConnectTimeout : Proc AuthSession Error Packet := fun s =>
  match s.incoming with
  | [] => (.err connectionClosed, s)
  | packet :: incoming => (.ok packet, { s with incoming })

def readInSequence : Proc AuthSession Error Packet := do
  let packet ← readPacketBeforeConnectTimeout
  let s ← Proc.read fun s : AuthSession => .ok s
  if packet.sequenceId ≠ s.sequenceId then
    Proc.lift (.err (.protocol
      s!"expected sequence id {s.sequenceId}, got {packet.sequenceId}"))
  else do
    nextSequenceId
    pure packet

end AuthSession

def clientPlugin (defaultPlugin : AuthPlugin) (response : HandshakeResponse41) : AuthPlugin :=
  (response.authPluginName.bind AuthPlugin.fromWireName).getD defaultPlugin

section Authenticate
open AuthSession
variable (digests : Digests) (auth : Authenticator) (defaultPlugin : AuthPlugin)

def writeOutcome (username : String) (targetPlugin : AuthPlugin) :
    AuthOutcome → Proc AuthSession Error Unit
  | .ok => do
    if targetPlugin = .cachingSha2Password then
      writePacket (.moreData .fastAuthSuccess)
      nextSequenceId
    writePacket (.ok .new)
  | .denied => writePacket (.err (.accessDenied username))

def sendVerdict (username : String) (targetPlugin : AuthPlugin) (authResponse : List UInt8) :
    Proc AuthSession Error AuthOutcome := do
  let s ← Proc.read fun s : AuthSession => .ok s
  let outcome := auth.authenticate digests username targetPlugin authResponse s.scramble.val
  writeOutcome username targetPlugin outcome
  nextSequenceId
  pure outcome

/-- `fresh` is the scramble generated for a second answer. -/
def authenticate (fresh : Scramble) (response : HandshakeResponse41) :
    Proc AuthSession Error AuthOutcome := do
  let clientPlugin := clientPlugin defaultPlugin response
  -- an unknown user is taken to have the client's plugin
  let targetPlugin := (auth.pluginFor response.username).getD clientPlugin
  if clientPlugin = targetPlugin then
    sendVerdict digests auth response.username targetPlugin response.authResponse
  else do
    setScramble fresh
    writePacket (.switchRequest ⟨targetPlugin.wireName, fresh.val⟩)
    nextSequenceId
    let answer ← readInSequence
    sendVerdict digests auth response.username targetPlugin answer.payload

end Authenticate

/-- The same message up to the username in a refusal and the scramble in a request. -/
inductive Alike (u v : String) : UInt8 × AuthMessage → UInt8 × AuthMessage → Prop
  | same (p : UInt8 × AuthMessage) : Alike u v p p
  | switchRequest (sequenceId : UInt8) (pluginName : String) (scramble scramble' : List UInt8) :
      Alike u v (sequenceId, .switchRequest ⟨pluginName, scramble⟩)
        (sequenceId, .switchRequest ⟨pluginName, scramble'⟩)
  | denied (sequenceId : UInt8) :
      Alike u v (sequenceId, .err (.accessDenied u)) (sequenceId, .err (.accessDenied v))

section
open AuthSession
variable {digests : Digests} {auth : Authenticator} {defaultPlugin : AuthPlugin}
  {response : HandshakeResponse41} {payload : List UInt8} {s : AuthSession}
variable {username : String}
variable {plugin : AuthPlugin} {answer : List UInt8}

theorem utf8_append (a b : String) : utf8 (a ++ b) = utf8 a ++ utf8 b := by
  simp [utf8, String.toByteArray_append]

theorem accessDenied_fits (h : (utf8 username).length + 34 ≤ maxPayload) (sequenceId : UInt8) :
    ∃ packet, (AuthMessage.err (.accessDenied username)).toPacket sequenceId = .ok packet := by
  refine ⟨_, fit_of_le ?_⟩
  have hstart : (utf8 "Access denied for user '").length = 24 := by decide
  have hend : (utf8 "'").length = 1 := by decide
  have hstate : (utf8 "28000").length = 5 := by decide
  simp only [ErrPacket.payload, ErrPacket.accessDenied, utf8_append, length_append,
    length_cons, length_nil, leBytes_length, hstart, hend, hstate]
  omega

theorem sendVerdict_denied (hfits : (utf8 username).length + 34 ≤ maxPayload)
    (h : auth.authenticate digests username plugin answer s.scramble.val = .denied) :
    sendVerdict digests auth username plugin answer s = (.ok .denied, { s with
        sequenceId := s.sequenceId + 1
        sent := s.sent ++ [(s.sequenceId, .err (.accessDenied username))] }) := by
  obtain ⟨packet, hpacket⟩ := accessDenied_fits hfits s.sequenceId
  simp only [sendVerdict, writeOutcome, Proc.read, Bind.bind, Proc.bind, h, writePacket, hpacket,
    nextSequenceId, Pure.pure, Proc.pure]

/-- A client that is not asked to answer again and gives a wrong answer gets one refusal. -/
theorem authenticate_denied {fresh : Scramble}
    (hfits : (utf8 response.username).length + 34 ≤ maxPayload)
    (hplugin : (auth.pluginFor response.username).getD (clientPlugin defaultPlugin response) =
      clientPlugin defaultPlugin response)
    (h : auth.authenticate digests response.username (clientPlugin defaultPlugin response)
      response.authResponse s.scramble.val = .denied) :
    (authenticate digests auth defaultPlugin fresh response s).2.sent =
      s.sent ++ [(s.sequenceId, .err (.accessDenied response.username))] := by
  simp only [authenticate, hplugin, if_true]
  rw [sendVerdict_denied hfits h]

def Sends (sent : List (UInt8 × AuthMessage)) (s : AuthSession) : Prop := sent <+: s.sent

section Triples
variable {sent : List (UInt8 × AuthMessage)}
variable {fresh : Scramble} {plugin : AuthPlugin}

theorem writePacket_sends (message : AuthMessage) :
    Triple (Sends sent) (writePacket message) (fun _ => Sends sent) (Sends sent) := by
  intro s hs
  unfold writePacket
  cases message.toPacket s.sequenceId with
  | ok packet => exact hs.trans (prefix_append _ _)
  | err e => exact hs
  | panic => exact hs

theorem nextSequenceId_sends :
    Triple (Sends sent) nextSequenceId (fun _ => Sends sent) (Sends sent) := fun _ hs => hs

theorem writeOutcome_sends (username : String) (plugin : AuthPlugin) (outcome : AuthOutcome) :
    Triple (Sends sent) (writeOutcome username plugin outcome) (fun _ => Sends sent)
      (Sends sent) := by
  cases outcome with
  | ok =>
    refine .ite (fun _ => ?_) fun _ => writePacket_sends _
    refine (writePacket_sends _).bind fun _ => nextSequenceId_sends.bind fun _ => ?_
    exact writePacket_sends _
  | denied => exact writePacket_sends _

theorem sendVerdict_sends (username : String) (plugin : AuthPlugin) (answer : List UInt8) :
    Triple (Sends sent) (sendVerdict digests auth username plugin answer)
      (fun _ => Sends sent) (Sends sent) := by
  refine .bind (Q := fun _ => Sends sent)
    (Triple.read (fun _ _ hs _ => hs) fun _ hs => hs) fun s => ?_
  refine (writeOutcome_sends _ _ _).bind fun _ => nextSequenceId_sends.bind fun _ => ?_
  exact .pure fun _ hs => hs

theorem readPacket_sends :
    Triple (Sends sent) readPacketBeforeConnectTimeout (fun _ => Sends sent) (Sends sent) := by
  intro s hs
  unfold readPacketBeforeConnectTimeout
  cases s.incoming with
  | nil => exact hs
  | cons packet incoming => exact hs

theorem readInSequence_sends :
    Triple (Sends sent) readInSequence (fun _ => Sends sent) (Sends sent) := by
  refine readPacket_sends.bind fun packet => ?_
  refine .bind (Q := fun _ => Sends sent)
    (Triple.read (fun _ _ hs _ => hs) fun _ hs => hs) fun s => ?_
  refine .ite (fun _ => .lift (fun _ _ _ h => by cases h) fun _ hs => hs)
    fun _ => nextSequenceId_sends.bind fun _ => .pure fun _ hs => hs

theorem authenticate_own (hplugin : auth.pluginFor response.username = some plugin)
    (heq : clientPlugin defaultPlugin response = plugin) :
    authenticate digests auth defaultPlugin fresh response s =
      sendVerdict digests auth response.username plugin response.authResponse s := by
  simp only [authenticate, hplugin, getD_some, if_pos heq]

/-- Any other client is sent a new scramble and judged by its next packet. -/
theorem authenticate_switched (hplugin : auth.pluginFor response.username = some plugin)
    (hne : clientPlugin defaultPlugin response ≠ plugin) :
    authenticate digests auth defaultPlugin fresh response s = (readInSequence >>= fun answer =>
        sendVerdict digests auth response.username plugin answer.payload) { s with
          scramble := fresh
          sequenceId := s.sequenceId + 1
          sent := s.sent ++ [(s.sequenceId, .switchRequest ⟨plugin.wireName, fresh.val⟩)] } := by
  have hfits : ∃ packet, (AuthMessage.switchRequest ⟨plugin.wireName, fresh.val⟩).toPacket
      s.sequenceId = .ok packet := by
    refine ⟨_, fit_of_le ?_⟩
    have hname : (utf8 plugin.wireName).length = 21 := by cases plugin <;> decide
    simp only [length_append, length_cons, length_nil, hname, fresh.property, maxPayload]
    decide
  obtain ⟨packet, hpacket⟩ := hfits
  simp only [authenticate, hplugin, getD_some, if_neg hne, setScramble, writePacket,
    nextSequenceId, Bind.bind, Proc.bind, hpacket]

theorem authenticate_switches (hplugin : auth.pluginFor response.username = some plugin)
    (hne : clientPlugin defaultPlugin response ≠ plugin) :
    Sends (s.sent ++ [(s.sequenceId, .switchRequest ⟨plugin.wireName, fresh.val⟩)])
      (authenticate digests auth defaultPlugin fresh response s).2 := by
  rw [authenticate_switched hplugin hne]
  exact (readInSequence_sends.bind fun answer => sendVerdict_sends _ _ _).snd (prefix_refl _)

end Triples

theorem sendVerdict_ok (h : auth.authenticate digests username plugin answer s.scramble.val = .ok) :
    (sendVerdict digests auth username plugin answer s).1 = .ok .ok := by
  have hmore : ∀ sequenceId, (AuthMessage.moreData .fastAuthSuccess).toPacket sequenceId =
      .ok ⟨sequenceId, [0x01, 0x03]⟩ := fun _ => rfl
  have hok : ∀ sequenceId, (AuthMessage.ok .new).toPacket sequenceId =
      .ok ⟨sequenceId, OkPacket.new.payload⟩ := fun _ => rfl
  simp only [sendVerdict, Proc.read, Bind.bind, Proc.bind, h, writeOutcome]
  split_ifs
  · simp only [writePacket, nextSequenceId, hmore, hok, Proc.bind, Pure.pure, Proc.pure]
  · simp only [writePacket, nextSequenceId, hok, Pure.pure, Proc.pure]

/-- For a wrong answer, an unknown user and an account get the same messages just when the
client has answered with the plugin of the account. -/
theorem sent_alike_iff (digests : Digests) (users : List UserCredential)
    (defaultPlugin : AuthPlugin) (sequenceId : UInt8) (incoming : List Packet)
    (scramble scramble' fresh fresh' : Scramble) {r : HandshakeResponse41} {v : String}
    {payload payload' : List UInt8} (hparse : HandshakeResponse41.parse payload = .ok r)
    (hlen : payload.length ≤ maxPayload)
    (hparse' : HandshakeResponse41.parse payload' = .ok { r with username := v })
    (hlen' : payload'.length ≤ maxPayload) (hu : ∀ user ∈ users, user.username ≠ r.username)
    (hv : ∃ user ∈ users, user.username = v)
    (hwrong : (authenticate digests (.new users) defaultPlugin fresh' { r with username := v }
      ⟨sequenceId, scramble', incoming, []⟩).1 ≠ .ok .ok) :
    Forall₂ (Alike r.username v)
        (authenticate digests (.new users) defaultPlugin fresh r
          ⟨sequenceId, scramble, incoming, []⟩).2.sent
        (authenticate digests (.new users) defaultPlugin fresh' { r with username := v }
          ⟨sequenceId, scramble', incoming, []⟩).2.sent ↔
      (Authenticator.new users).pluginFor v = some (clientPlugin defaultPlugin r) := by
  have hunknown : (Authenticator.new users).pluginFor r.username = none := by
    rw [← not_isSome_iff_eq_none, Authenticator.pluginFor_isSome]
    rintro ⟨user, hmem, heq⟩
    exact hu user hmem heq
  have hfits : (utf8 r.username).length + 34 ≤ maxPayload :=
    (HandshakeResponse41.parse_username hparse).trans hlen
  have hfits' : (utf8 v).length + 34 ≤ maxPayload :=
    (HandshakeResponse41.parse_username hparse').trans hlen'
  have hsent : (authenticate digests (.new users) defaultPlugin fresh r
      ⟨sequenceId, scramble, incoming, []⟩).2.sent =
        [(sequenceId, .err (.accessDenied r.username))] :=
    authenticate_denied hfits (by rw [hunknown]; rfl) (Authenticator.authenticate_unknown hunknown _ _ _)
  obtain ⟨plugin, hplugin⟩ :=
    isSome_iff_exists.mp ((Authenticator.pluginFor_isSome users v).mpr hv)
  have hclient : clientPlugin defaultPlugin { r with username := v } = clientPlugin defaultPlugin r :=
    rfl
  rw [hsent, hplugin, some.injEq]
  constructor
  · intro halike
    by_contra hne
    have hne' : clientPlugin defaultPlugin { r with username := v } ≠ plugin := Ne.symm hne
    have hswitch : Sends ([] ++ [(sequenceId, .switchRequest ⟨plugin.wireName, fresh'.val⟩)])
        (authenticate digests (.new users) defaultPlugin fresh' { r with username := v }
          ⟨sequenceId, scramble', incoming, []⟩).2 :=
      authenticate_switches (s := ⟨sequenceId, scramble', incoming, []⟩) hplugin hne'
    obtain ⟨rest, hrest⟩ := hswitch
    rw [← hrest] at halike
    cases halike with
    | cons hhead htail => cases hhead
  · intro heq
    subst heq
    have hdenied : (Authenticator.new users).authenticate digests v (clientPlugin defaultPlugin r)
        r.authResponse scramble'.val = .denied := by
      cases hout : (Authenticator.new users).authenticate digests v (clientPlugin defaultPlugin r)
          r.authResponse scramble'.val with
      | denied => rfl
      | ok =>
        refine absurd ?_ hwrong
        rw [authenticate_own hplugin hclient]
        exact sendVerdict_ok hout
    have hsent' : (authenticate digests (.new users) defaultPlugin fresh' { r with username := v }
        ⟨sequenceId, scramble', incoming, []⟩).2.sent = [(sequenceId, .err (.accessDenied v))] :=
      authenticate_denied hfits' (by rw [hplugin]; rfl) hdenied
    rw [hsent']
    exact .cons (.denied sequenceId) .nil

def zeroDigests : Digests where
  sha1 _ := replicate 20 0
  sha256 _ := replicate 32 0
  sha1_length _ := length_replicate
  sha256_length _ := length_replicate

def emptyAnswer (username plugin : String) : List UInt8 :=
  [0, 0x82, 0x08, 0] ++ replicate 28 0 ++ utf8 username ++ [0, 0] ++ utf8 plugin ++ [0]

def oneAccount : List UserCredential :=
  [⟨"root", .mysqlNativePassword, some (replicate 20 7)⟩]

def sentTo (username plugin : String) : Result (List (UInt8 × AuthMessage)) :=
  (fun r => (authenticate zeroDigests (.new oneAccount) .mysqlNativePassword
    ⟨replicate 20 33, length_replicate⟩ r
    ⟨2, ⟨replicate 20 33, length_replicate⟩, [⟨3, [1]⟩], []⟩).2.sent) <$>
      HandshakeResponse41.parse (emptyAnswer username plugin)

def emptyResponse (username plugin : String) : HandshakeResponse41 :=
  ⟨0x88200, 0, 0, username, [], none, some plugin⟩

theorem sent_alike_of_own_plugin : Forall₂ (Alike "guest" "root")
      (authenticate zeroDigests (.new oneAccount) .cachingSha2Password
        ⟨replicate 20 33, length_replicate⟩ (emptyResponse "guest" "mysql_native_password")
        ⟨2, ⟨replicate 20 34, length_replicate⟩, [], []⟩).2.sent
      (authenticate zeroDigests (.new oneAccount) .cachingSha2Password
        ⟨replicate 20 35, length_replicate⟩ (emptyResponse "root" "mysql_native_password")
        ⟨2, ⟨replicate 20 36, length_replicate⟩, [], []⟩).2.sent := by
  have hguest : HandshakeResponse41.parse (emptyAnswer "guest" "mysql_native_password") =
      .ok (emptyResponse "guest" "mysql_native_password") := by decide +kernel
  have hroot : HandshakeResponse41.parse (emptyAnswer "root" "mysql_native_password") =
      .ok (emptyResponse "root" "mysql_native_password") := by decide +kernel
  exact (sent_alike_iff zeroDigests oneAccount .cachingSha2Password 2 [] _ _ _ _ hguest
    (by decide +kernel) hroot (by decide +kernel) (by decide) (by decide) (by decide +kernel)).mpr
    (by decide +kernel)

/-- The account is asked to answer again; the unknown user is refused at once. -/
theorem switch_reveals_account :
    sentTo "guest" "caching_sha2_password" = .ok [(2, .err (.accessDenied "guest"))] ∧
    sentTo "root" "caching_sha2_password" =
      .ok [(2, .switchRequest ⟨"mysql_native_password", replicate 20 33⟩),
        (4, .err (.accessDenied "root"))] := by
  decide +kernel

/-- The client gives an answer last: with its response to the handshake if it used the plugin
of the account, else in the packet after the request to answer again. -/
def Answers (defaultPlugin plugin : AuthPlugin) (response : HandshakeResponse41) (s : AuthSession)
    (answer : List UInt8) : Prop :=
  if clientPlugin defaultPlugin response = plugin then response.authResponse = answer
  else s.incoming.head? = some ⟨s.sequenceId + 1, answer⟩

def lastScramble (defaultPlugin plugin : AuthPlugin) (response : HandshakeResponse41)
    (s : AuthSession) (fresh : Scramble) : Scramble :=
  if clientPlugin defaultPlugin response = plugin then s.scramble else fresh

theorem readInSequence_of_head {packet : Packet} (h : s.incoming.head? = some packet)
    (hid : packet.sequenceId = s.sequenceId) :
    readInSequence s = (.ok packet, { s with
      sequenceId := s.sequenceId + 1
      incoming := s.incoming.tail }) := by
  obtain ⟨incoming, hincoming⟩ := head?_eq_some_iff.mp h
  simp only [readInSequence, readPacketBeforeConnectTimeout, Proc.read, nextSequenceId, Bind.bind,
    Proc.bind, hincoming, hid, ne_eq, not_true_eq_false, if_false, Pure.pure, Proc.pure,
    tail_cons]

/-- The exchange ends with the verdict on the last answer for the last scramble. -/
theorem authenticate_answers (digests : Digests) (fresh : Scramble) {auth : Authenticator}
    {answer : List UInt8}
    (hplugin : auth.pluginFor response.username = some plugin)
    (h : Answers defaultPlugin plugin response s answer) :
    ∃ s', s'.scramble = lastScramble defaultPlugin plugin response s fresh ∧
      authenticate digests auth defaultPlugin fresh response s =
        sendVerdict digests auth response.username plugin answer s' := by
  rw [Answers] at h
  rw [lastScramble]
  split_ifs at h ⊢ with heq
  · subst h
    exact ⟨s, rfl, authenticate_own hplugin heq⟩
  · have hread : readInSequence { s with
        scramble := fresh
        sequenceId := s.sequenceId + 1
        sent := s.sent ++ [(s.sequenceId, .switchRequest ⟨plugin.wireName, fresh.val⟩)] } = _ :=
      readInSequence_of_head h rfl
    exact ⟨_, rfl, (authenticate_switched hplugin heq).trans (bind_ok hread)⟩

/-- The right password logs in along either path, and an answer of a wrong length is denied. -/
theorem authenticate_password (digests : Digests) {users : List UserCredential}
    (hnodup : (users.map UserCredential.username).Nodup) (plugin : AuthPlugin) (password : String)
    (defaultPlugin : AuthPlugin) (fresh : Scramble) {response : HandshakeResponse41}
    (hmem : plugin.credential digests response.username password ∈ users) {payload : List UInt8}
    (hparse : HandshakeResponse41.parse payload = .ok response) (hlen : payload.length ≤ maxPayload)
    (s : AuthSession) :
    (Answers defaultPlugin plugin response s (plugin.clientResponse digests password
        (lastScramble defaultPlugin plugin response s fresh).val) →
      (authenticate digests (.new users) defaultPlugin fresh response s).1 = .ok .ok) ∧
    ∀ answer, Answers defaultPlugin plugin response s answer → plugin.WrongLength password answer →
      (authenticate digests (.new users) defaultPlugin fresh response s).1 = .ok .denied := by
  have hlookup := Authenticator.lookup_new hnodup hmem
  have hname : (plugin.credential digests response.username password).username =
      response.username := by
    cases plugin <;> rfl
  have hown : (plugin.account digests response.username password).plugin = plugin := by
    cases plugin <;> rfl
  rw [hname] at hlookup
  have hplugin : (Authenticator.new users).pluginFor response.username = some plugin := by
    rw [Authenticator.pluginFor, hlookup]
    exact congrArg some hown
  -- the verdict for the account is that of its verifier
  have hverdict : ∀ answer scramble, (Authenticator.new users).authenticate digests
      response.username plugin answer scramble =
        if Authenticator.accepts digests (plugin.account digests response.username password) answer
          scramble then .ok else .denied := by
    intro answer scramble
    have haccount := Authenticator.authenticate_account digests hlookup answer scramble
    rwa [show StoredUser.plugin ⟨_, _⟩ = plugin from hown] at haccount
  constructor
  · intro hanswers
    obtain ⟨s', hscramble, hrun⟩ := authenticate_answers digests fresh hplugin hanswers
    rw [hrun]
    refine sendVerdict_ok ?_
    rw [hverdict, hscramble, accepts_clientResponse, if_pos rfl]
  · intro answer hanswers hwrong
    obtain ⟨s', -, hrun⟩ := authenticate_answers digests fresh hplugin hanswers
    have hfits := (HandshakeResponse41.parse_username hparse).trans hlen
    rw [hrun, sendVerdict_denied hfits]
    rw [hverdict, not_accepts_wrongLength _ _ _ _ hwrong]
    rfl

/-- The account is asked for another answer and gets the right one. -/
theorem authenticate_password_switched :
    (authenticate zeroDigests (.new [.withPassword zeroDigests "root" "secret"])
      .mysqlNativePassword ⟨replicate 20 33, length_replicate⟩
      (emptyResponse "root" "caching_sha2_password")
      ⟨2, ⟨replicate 20 34, length_replicate⟩, [⟨3, replicate 20 0⟩], []⟩).1 = .ok .ok := by
  have hparse : HandshakeResponse41.parse (emptyAnswer "root" "caching_sha2_password") =
      .ok (emptyResponse "root" "caching_sha2_password") := by decide +kernel
  refine (authenticate_password zeroDigests (by decide) .mysqlNativePassword "secret"
    .mysqlNativePassword _ mem_cons_self hparse (by decide +kernel) _).1 ?_
  rw [Answers, if_neg (by decide)]
  decide +kernel

end

end MysqlRust.Server
