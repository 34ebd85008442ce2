import MysqlRust.Auth.Sha
import MysqlRust.Server.Authentication

/-! # Who can log in

A client that logs in has answered for one of the accounts, or it shows two inputs of
`process_chunk` with one result.
-/
namespace MysqlRust.Auth

open List

variable {digests : Digests} {password : String} {answer scramble : List UInt8}

theorem eq_of_zipWith_xor {a b : List UInt8} (hlen : a.length = b.length)
    (h : ∀ x ∈ List.zipWith (· ^^^ ·) a b, x = 0) : a = b := by
  induction a generalizing b with
  | nil => exact (eq_nil_of_length_eq_zero hlen.symm).symm
  | cons x a ih =>
    obtain ⟨y, b, rfl⟩ := exists_cons_of_length_eq_add_one hlen.symm
    obtain ⟨hxy, hrest⟩ := forall_mem_cons.mp h
    rw [UInt8.xor_eq_zero_iff.mp hxy, ih (Nat.succ.inj hlen) hrest]

theorem constantTimeEq_eq {a b : List UInt8} (h : constantTimeEq a b = true) : a = b := by
  have hor (l : List UInt8) : ∀ acc : UInt8, l.foldl (· ||| ·) acc = 0 →
      acc = 0 ∧ ∀ x ∈ l, x = 0 := by
    induction l with
    | nil => exact fun acc h => ⟨h, fun _ hx => absurd hx not_mem_nil⟩
    | cons x l ih =>
      intro acc h
      obtain ⟨hacc, hl⟩ := ih (acc ||| x) h
      rw [UInt8.or_eq_zero_iff] at hacc
      exact ⟨hacc.1, forall_mem_cons.mpr ⟨hacc.2, hl⟩⟩
  rw [constantTimeEq] at h
  split_ifs at h with hlen
  exact eq_of_zipWith_xor (not_not.mp hlen) (hor _ 0 (of_decide_eq_true h)).2

namespace AuthPlugin

def digest (digests : Digests) : AuthPlugin → List UInt8 → List UInt8
  | mysqlNativePassword => digests.sha1
  | cachingSha2Password => digests.sha256

def mask (digests : Digests) (password : String) (scramble : List UInt8) : AuthPlugin → List UInt8
  | mysqlNativePassword => digests.sha1 (scramble ++ nativeHashPassword digests (utf8 password))
  | cachingSha2Password =>
    digests.sha256 (cachingSha2HashPassword digests (utf8 password) ++ scramble)

theorem mask_length (plugin : AuthPlugin) :
    (plugin.mask digests password scramble).length = plugin.digestLength := by
  cases plugin with
  | mysqlNativePassword => exact digests.sha1_length _
  | cachingSha2Password => exact digests.sha256_length _

/-- An accepted answer hides something with the digest that is stored. -/
theorem unmask_of_accepts (plugin : AuthPlugin) (username : String)
    (hempty : password.isEmpty = false)
    (h : Authenticator.accepts digests (plugin.account digests username password) answer scramble =
      true) :
    answer.length = plugin.digestLength ∧
    plugin.digest digests (List.zipWith (· ^^^ ·) answer (plugin.mask digests password scramble)) =
      plugin.digest digests (plugin.digest digests (utf8 password)) := by
  cases plugin with
  | mysqlNativePassword =>
    rw [accepts_native digests username _ _ hempty, verifyNative] at h
    split_ifs at h with hlen
    exact ⟨not_not.mp hlen, of_decide_eq_true h⟩
  | cachingSha2Password =>
    rw [accepts_cachingSha2 digests username _ _ hempty, verifyCachingSha2] at h
    split_ifs at h with hlen
    exact ⟨not_not.mp hlen, constantTimeEq_eq h⟩

theorem eq_clientResponse (plugin : AuthPlugin) (hempty : password.isEmpty = false)
    (hlen : answer.length = plugin.digestLength)
    (h : List.zipWith (· ^^^ ·) answer (plugin.mask digests password scramble) =
      plugin.digest digests (utf8 password)) :
    answer = plugin.clientResponse digests password scramble := by
  have hutf8 := isEmpty_utf8 password
  rw [hempty] at hutf8
  rw [← zipWith_xor_cancel (hlen.trans plugin.mask_length.symm), h]
  cases plugin <;>
    simp only [clientResponse, computeAuthResponse, cachingSha2Scramble, hutf8, Bool.false_eq_true,
      if_false, digest, mask, nativeHashPassword, cachingSha2HashPassword]

/-- Two messages make the digest of the plugin meet two inputs with one result. -/
def Collide (m m' : List UInt8) : AuthPlugin → Prop
  | mysqlNativePassword =>
    Compression.Collide Sha1.sha.processChunk (Sha1.sha.inputs m) (Sha1.sha.inputs m')
  | cachingSha2Password =>
    Compression.Collide Sha256.sha.processChunk (Sha256.sha.inputs m) (Sha256.sha.inputs m')

theorem eq_or_collide (plugin : AuthPlugin) {m m' : List UInt8}
    (hm : m.length = plugin.digestLength) (hm' : m'.length = plugin.digestLength)
    (h : plugin.digest .sha m = plugin.digest .sha m') : m = m' ∨ plugin.Collide m m' := by
  refine or_iff_not_imp_left.mpr fun hne => ?_
  have hlt : plugin.digestLength < 2 ^ 61 := by cases plugin <;> decide
  cases plugin <;>
    exact Sha.collide_of_state (hm.trans_lt hlt) (hm'.trans_lt hlt) hne (digest_state h)

/-- An accepted answer is the one the password gives, or it shows a collision. -/
theorem clientResponse_or_collide (plugin : AuthPlugin) (username : String)
    (h : Authenticator.accepts .sha (plugin.account .sha username password) answer scramble =
      true) :
    answer = plugin.clientResponse .sha password scramble ∨
    plugin.Collide (List.zipWith (· ^^^ ·) answer (plugin.mask .sha password scramble))
      (plugin.digest .sha (utf8 password)) := by
  cases hempty : password.isEmpty with
  | true =>
    rw [accepts_passwordless _ username _ scramble hempty, List.isEmpty_iff] at h
    have hutf8 := isEmpty_utf8 password
    rw [hempty] at hutf8
    refine .inl ?_
    cases plugin <;> simp only [h, clientResponse, computeAuthResponse, cachingSha2Scramble, hutf8,
      if_true]
  | false =>
    obtain ⟨hlen, hdigest⟩ := plugin.unmask_of_accepts username hempty h
    have hunmasked : (List.zipWith (· ^^^ ·) answer (plugin.mask .sha password scramble)).length =
        plugin.digestLength := by
      rw [length_zipWith, hlen, plugin.mask_length, min_self]
    have hpassword : (plugin.digest .sha (utf8 password)).length = plugin.digestLength := by
      cases plugin with
      | mysqlNativePassword => exact Sha1.sha.digest_length _
      | cachingSha2Password => exact Sha256.sha.digest_length _
    exact (plugin.eq_or_collide hunmasked hpassword hdigest).imp_left
      (plugin.eq_clientResponse hempty hlen)

end AuthPlugin

end MysqlRust.Auth

namespace MysqlRust.Server
open Auth Protocol AuthSession

section Runs
variable {digests : Digests} {auth : Authenticator} {defaultPlugin plugin : AuthPlugin}
  {response : HandshakeResponse41} {fresh : Scramble} {s s' : AuthSession}

theorem sendVerdict_outcome {username : String} {answer : List UInt8} {outcome : AuthOutcome}
    (h : sendVerdict digests auth username plugin answer s = (.ok outcome, s')) :
    auth.authenticate digests username plugin answer s.scramble.val = outcome := by
  obtain ⟨s₁, s₂, hread, h⟩ := Proc.bind_eq_ok h
  cases hread
  dsimp only at h
  obtain ⟨_, s₃, -, h⟩ := Proc.bind_eq_ok h
  obtain ⟨_, s₄, -, h⟩ := Proc.bind_eq_ok h
  cases h
  rfl

theorem readInSequence_eq_ok {packet : Packet} (h : readInSequence s = (.ok packet, s')) :
    s.incoming.head? = some ⟨s.sequenceId, packet.payload⟩ ∧ s'.scramble = s.scramble := by
  obtain ⟨packet', s₁, hread, h⟩ := Proc.bind_eq_ok h
  rw [readPacketBeforeConnectTimeout] at hread
  split at hread
  · cases hread
  · rename_i incoming hincoming
    cases hread
    obtain ⟨s₂, _, hs, h⟩ := Proc.bind_eq_ok h
    cases hs
    dsimp only at h
    split_ifs at h with hid
    · cases h
    obtain ⟨_, s₃, hnext, h⟩ := Proc.bind_eq_ok h
    cases hnext
    cases h
    rw [hincoming, ← not_not.mp hid]
    exact ⟨rfl, rfl⟩

/-- A login is decided by the last answer, for the last scramble. -/
theorem answers_of_ok (hplugin : auth.pluginFor response.username = some plugin)
    (h : authenticate digests auth defaultPlugin fresh response s = (.ok .ok, s')) :
    ∃ answer, Answers defaultPlugin plugin response s answer ∧
      auth.authenticate digests response.username plugin answer
        (lastScramble defaultPlugin plugin response s fresh).val = .ok := by
  by_cases heq : clientPlugin defaultPlugin response = plugin
  · rw [authenticate_own hplugin heq] at h
    refine ⟨response.authResponse, (if_pos heq).mpr rfl, ?_⟩
    rw [lastScramble, if_pos heq]
    exact sendVerdict_outcome h
  · rw [authenticate_switched hplugin heq] at h
    obtain ⟨packet, s₁, hread, h⟩ := Proc.bind_eq_ok h
    obtain ⟨hhead, hscramble⟩ := readInSequence_eq_ok hread
    refine ⟨packet.payload, (if_neg heq).mpr hhead, ?_⟩
    have hverdict := sendVerdict_outcome h
    rw [lastScramble, if_neg heq, ← hverdict, hscramble]

end Runs

/-- The last answer is the one a password gives for the last scramble, or it makes the digest of
the plugin collide. -/
structure Knows (users : List UserCredential) (defaultPlugin : AuthPlugin) (fresh : Scramble)
    (response : HandshakeResponse41) (s : AuthSession) (plugin : AuthPlugin) (password : String)
    (answer : List UInt8) : Prop where
  account : plugin.credential .sha response.username password ∈ users
  answers : Answers defaultPlugin plugin response s answer
  answer_eq : let scramble := (lastScramble defaultPlugin plugin response s fresh).val
    answer = plugin.clientResponse .sha password scramble ∨
    plugin.Collide (List.zipWith (· ^^^ ·) answer (plugin.mask .sha password scramble))
      (plugin.digest .sha (utf8 password))

/-- Whoever logs in knows the password of the account, or a collision. -/
theorem authenticate_ok_knows {users : List UserCredential}
    (hnodup : (users.map UserCredential.username).Nodup)
    (husers : ∀ user ∈ users, ∃ plugin : AuthPlugin, ∃ password,
      user = plugin.credential .sha user.username password)
    (defaultPlugin : AuthPlugin) (fresh : Scramble) (response : HandshakeResponse41)
    (s : AuthSession)
    (h : (authenticate .sha (.new users) defaultPlugin fresh response s).1 = .ok .ok) :
    ∃ plugin password answer,
      Knows users defaultPlugin fresh response s plugin password answer := by
  rcases hrun : authenticate .sha (.new users) defaultPlugin fresh response s with ⟨result, s'⟩
  rw [hrun] at h
  subst h
  -- an unknown user is refused, so there is an account
  have hsome : ((Authenticator.new users).pluginFor response.username).isSome := by
    by_contra hnone
    rw [Option.not_isSome_iff_eq_none] at hnone
    simp only [authenticate, hnone, Option.getD_none, if_true] at hrun
    have hdenied := sendVerdict_outcome hrun
    rw [Authenticator.authenticate_unknown hnone] at hdenied
    cases hdenied
  obtain ⟨user, hmem, hname⟩ := (Authenticator.pluginFor_isSome users response.username).mp hsome
  obtain ⟨plugin, password, huser⟩ := husers user hmem
  rw [hname] at huser
  subst huser
  have hlookup := Authenticator.lookup_new hnodup hmem
  rw [hname] at hlookup
  have hown : (plugin.account .sha response.username password).plugin = plugin := by
    cases plugin <;> rfl
  have hplugin : (Authenticator.new users).pluginFor response.username = some plugin := by
    rw [Authenticator.pluginFor, hlookup]
    exact congrArg some hown
  obtain ⟨answer, hanswers, hok⟩ := answers_of_ok hplugin hrun
  have haccount := Authenticator.authenticate_account .sha hlookup answer
    (lastScramble defaultPlugin plugin response s fresh).val
  rw [show StoredUser.plugin ⟨_, _⟩ = plugin from hown, hok] at haccount
  split_ifs at haccount with haccepts
  exact ⟨plugin, password, answer, hmem, hanswers,
    plugin.clientResponse_or_collide response.username haccepts⟩

theorem authenticate_ok_root : let scramble : Scramble := ⟨List.replicate 20 34, List.length_replicate⟩
    let answer := computeAuthResponse .sha (some (utf8 "secret")) scramble.val
    let response : HandshakeResponse41 :=
      ⟨0x88200, 0, 0, "root", answer, none, some "mysql_native_password"⟩
    ∃ plugin password answer', Knows [.withPassword .sha "root" "secret"] .mysqlNativePassword
      scramble response ⟨2, scramble, [], []⟩ plugin password answer' := by
  intro scramble answer response
  let users := [UserCredential.withPassword .sha "root" "secret"]
  have hnodup : (users.map UserCredential.username).Nodup := by decide
  have husers (user : UserCredential) (hmem : user ∈ users) : ∃ plugin : AuthPlugin, ∃ password,
      user = plugin.credential .sha user.username password :=
    ⟨.mysqlNativePassword, "secret", List.mem_singleton.mp hmem ▸ rfl⟩
  have hlookup := Authenticator.lookup_new hnodup List.mem_cons_self
  have hplugin : (Authenticator.new users).pluginFor "root" = some .mysqlNativePassword := by
    rw [Authenticator.pluginFor]
    exact congrArg (Option.map StoredUser.plugin) hlookup
  have hok : (Authenticator.new users).authenticate .sha "root" .mysqlNativePassword answer
      scramble.val = .ok := by
    have haccepts : Authenticator.accepts .sha _ answer scramble.val = true :=
      accepts_clientResponse .sha "root" scramble.val .mysqlNativePassword "secret"
    exact (Authenticator.authenticate_account .sha hlookup answer scramble.val).trans
      (if_pos haccepts)
  have hrun : authenticate .sha (.new users) .mysqlNativePassword scramble response
      ⟨2, scramble, [], []⟩ = _ := authenticate_own hplugin rfl
  exact authenticate_ok_knows hnodup husers _ scramble response _ (hrun ▸ sendVerdict_ok hok)

end MysqlRust.Server
