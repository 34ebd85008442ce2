import Mathlib.Data.Finmap
import MysqlRust.Storage.Value

/-! # Accounts and their verification

Each account uses one of two plugins and stores a digest of its password. The two digests are
arbitrary functions to 20 and 32 bytes.
-/
namespace MysqlRust.Auth

open List

structure Digests where
  sha1 : List UInt8 → List UInt8
  sha256 : List UInt8 → List UInt8
  sha1_length : ∀ bytes, (sha1 bytes).length = 20
  sha256_length : ∀ bytes, (sha256 bytes).length = 32

inductive AuthPlugin where
  | mysqlNativePassword
  | cachingSha2Password
  deriving DecidableEq, Repr

namespace AuthPlugin

def wireName : AuthPlugin → String
  | mysqlNativePassword => "mysql_native_password"
  | cachingSha2Password => "caching_sha2_password"

def fromWireName (name : String) : Option AuthPlugin :=
  if name = "mysql_native_password" then some mysqlNativePassword
  else if name = "caching_sha2_password" then some cachingSha2Password
  else none

end AuthPlugin

inductive AuthOutcome where
  | ok
  | denied
  deriving DecidableEq, Repr

structure UserCredential where
  username : String
  plugin : AuthPlugin
  verifier : Option (List UInt8)
  deriving DecidableEq, Repr

structure StoredUser where
  plugin : AuthPlugin
  verifier : Option (List UInt8)
  deriving DecidableEq

section
variable (digests : Digests)

/-- `mysql_native_password`: the scramble comes before the stored digest. -/
def verifyNative (authResponse scramble : List UInt8) : Option (List UInt8) → Bool
  | none => authResponse.isEmpty
  | some hash =>
    if authResponse.length ≠ 20 then false
    else
      let hashOfCombined := digests.sha1 (scramble ++ hash)
      let candidateStage1 := zipWith (· ^^^ ·) authResponse hashOfCombined
      digests.sha1 candidateStage1 = hash

def nativeHashPassword (password : List UInt8) : List UInt8 := digests.sha1 (digests.sha1 password)

def computeAuthResponse (password : Option (List UInt8)) (scramble : List UInt8) : List UInt8 :=
  match password with
  | none => []
  | some password =>
    if password.isEmpty then []
    else
      let stage1 := digests.sha1 password
      let stage2 := digests.sha1 stage1
      let hashOfCombined := digests.sha1 (scramble ++ stage2)
      zipWith (· ^^^ ·) stage1 hashOfCombined

def constantTimeEq (a b : List UInt8) : Bool :=
  if a.length ≠ b.length then false
  else (zipWith (· ^^^ ·) a b).foldl (· ||| ·) 0 = 0

/-- `caching_sha2_password`: the stored digest comes before the nonce. -/
def verifyCachingSha2 (reply nonce : List UInt8) : Option (List UInt8) → Bool
  | none => reply.isEmpty
  | some stored =>
    if reply.length ≠ 32 then false
    else
      let mask := digests.sha256 (stored ++ nonce)
      let candidateDigest1 := zipWith (· ^^^ ·) reply mask
      constantTimeEq (digests.sha256 candidateDigest1) stored

def cachingSha2HashPassword (password : List UInt8) : List UInt8 :=
  digests.sha256 (digests.sha256 password)

def cachingSha2Scramble (password : Option (List UInt8)) (nonce : List UInt8) : List UInt8 :=
  match password with
  | none => []
  | some password =>
    if password.isEmpty then []
    else
      let digest1 := digests.sha256 password
      let digest2 := digests.sha256 digest1
      let mask := digests.sha256 (digest2 ++ nonce)
      zipWith (· ^^^ ·) digest1 mask

def verifyFixed (n : Nat) (verify : Option (List UInt8) → Bool) : Option (List UInt8) → Bool
  | none => verify none
  | some bytes => if bytes.length = n then verify (some bytes) else false

/-- The empty password means that none is asked for. -/
def UserCredential.withPassword (username password : String) : UserCredential where
  username
  plugin := .mysqlNativePassword
  verifier := if password.isEmpty then none else some (nativeHashPassword digests (utf8 password))

def UserCredential.withCachingSha2Password (username password : String) : UserCredential where
  username
  plugin := .cachingSha2Password
  verifier :=
    if password.isEmpty then none else some (cachingSha2HashPassword digests (utf8 password))

namespace AuthPlugin

def credential : AuthPlugin → String → String → UserCredential
  | mysqlNativePassword => .withPassword digests
  | cachingSha2Password => .withCachingSha2Password digests

def clientResponse : AuthPlugin → String → List UInt8 → List UInt8
  | mysqlNativePassword, password, scramble =>
    computeAuthResponse digests (some (utf8 password)) scramble
  | cachingSha2Password, password, scramble =>
    cachingSha2Scramble digests (some (utf8 password)) scramble

def digestLength : AuthPlugin → Nat
  | mysqlNativePassword => 20
  | cachingSha2Password => 32

end AuthPlugin

end

structure Authenticator where
  users : Finmap fun _ : String => StoredUser

namespace Authenticator

/-- Of several credentials with one username the last one counts. -/
def new (users : List UserCredential) : Authenticator :=
  ⟨users.foldl (fun m u => m.insert u.username ⟨u.plugin, u.verifier⟩) ∅⟩

def pluginFor (auth : Authenticator) (username : String) : Option AuthPlugin :=
  (auth.users.lookup username).map StoredUser.plugin

def authenticate (digests : Digests) (auth : Authenticator) (username : String)
    (plugin : AuthPlugin) (authResponse scramble : List UInt8) : AuthOutcome :=
  match auth.users.lookup username with
  | none => .denied
  | some user =>
    if user.plugin ≠ plugin then .denied
    else
      let accepted := match plugin with
        | .mysqlNativePassword =>
          verifyFixed 20 (verifyNative digests authResponse scramble) user.verifier
        | .cachingSha2Password =>
          verifyFixed 32 (verifyCachingSha2 digests authResponse scramble) user.verifier
      if accepted then .ok else .denied

def accepts (digests : Digests) (user : StoredUser) (authResponse scramble : List UInt8) : Bool :=
  match user.plugin with
  | .mysqlNativePassword =>
    verifyFixed 20 (verifyNative digests authResponse scramble) user.verifier
  | .cachingSha2Password =>
    verifyFixed 32 (verifyCachingSha2 digests authResponse scramble) user.verifier

variable {username : String}

variable {auth : Authenticator} {users : List UserCredential}

theorem authenticate_account (digests : Digests) {user : StoredUser}
    (h : auth.users.lookup username = some user) (authResponse scramble : List UInt8) :
    auth.authenticate digests username user.plugin authResponse scramble =
      if accepts digests user authResponse scramble then .ok else .denied := by
  simp only [authenticate, h, ne_eq, not_true_eq_false, if_false, accepts]
  rfl

theorem authenticate_unknown {digests : Digests} (h : auth.pluginFor username = none)
    (plugin : AuthPlugin) (authResponse scramble : List UInt8) :
    auth.authenticate digests username plugin authResponse scramble = .denied := by
  rw [pluginFor, Option.map_eq_none_iff] at h
  simp only [authenticate, h]

theorem pluginFor_isSome (users : List UserCredential) (username : String) :
    ((new users).pluginFor username).isSome ↔ ∃ user ∈ users, user.username = username := by
  have hfold : ∀ m : Finmap fun _ : String => StoredUser,
      ((users.foldl (fun m u => m.insert u.username ⟨u.plugin, u.verifier⟩) m).lookup
        username).isSome ↔ (m.lookup username).isSome ∨ ∃ user ∈ users, user.username = username := by
    induction users with
    | nil => simp
    | cons u users ih =>
      intro m
      rw [foldl_cons, ih]
      by_cases heq : username = u.username
      · subst heq
        simp
      · rw [Finmap.lookup_insert_of_ne _ heq]
        simp [Ne.symm heq]
  rw [pluginFor, Option.isSome_map, new, hfold]
  simp

theorem lookup_foldl_insert (h : username ∉ users.map UserCredential.username)
    (m : Finmap fun _ : String => StoredUser) :
    (users.foldl (fun m u => m.insert u.username ⟨u.plugin, u.verifier⟩) m).lookup username =
      m.lookup username := by
  induction users generalizing m with
  | nil => rfl
  | cons u users ih =>
    rw [map_cons, mem_cons, not_or] at h
    rw [foldl_cons, ih h.2, Finmap.lookup_insert_of_ne _ h.1]

/-- An account whose username no later credential has is found. -/
theorem lookup_new (hnodup : (users.map UserCredential.username).Nodup) {user : UserCredential}
    (h : user ∈ users) :
    (new users).users.lookup user.username = some ⟨user.plugin, user.verifier⟩ := by
  have hfold : ∀ m : Finmap fun _ : String => StoredUser,
      (users.foldl (fun m u => m.insert u.username ⟨u.plugin, u.verifier⟩) m).lookup
        user.username = some ⟨user.plugin, user.verifier⟩ := by
    induction users with
    | nil => cases h
    | cons u users ih =>
      intro m
      rw [foldl_cons]
      rw [map_cons, nodup_cons] at hnodup
      rcases mem_cons.mp h with rfl | hmem
      · rw [lookup_foldl_insert hnodup.1, Finmap.lookup_insert]
      · exact ih hnodup.2 hmem _
  exact hfold ∅

end Authenticator

section Passwords
variable (digests : Digests)
variable {password : List UInt8}

theorem zipWith_xor_cancel {a mask : List UInt8} (h : a.length = mask.length) :
    zipWith (· ^^^ ·) (zipWith (· ^^^ ·) a mask) mask = a := by
  induction a generalizing mask with
  | nil => simp
  | cons x a ih =>
    cases mask with
    | nil => cases h
    | cons y mask =>
      simp only [zipWith_cons_cons, cons.injEq]
      constructor
      · rw [UInt8.xor_assoc, UInt8.xor_self, UInt8.xor_zero]
      · exact ih (Nat.succ.inj h)

theorem constantTimeEq_self (a : List UInt8) : constantTimeEq a a = true := by
  have hfold : (zipWith (· ^^^ ·) a a).foldl (· ||| ·) 0 = (0 : UInt8) := by
    induction a with
    | nil => rfl
    | cons x a ih =>
      rw [zipWith_cons_cons, foldl_cons, UInt8.xor_self]
      exact ih
  rw [constantTimeEq, if_neg (not_not.mpr rfl), hfold]
  rfl

theorem isEmpty_utf8 (s : String) : (utf8 s).isEmpty = s.isEmpty := by
  rw [Bool.eq_iff_iff, List.isEmpty_iff, String.isEmpty_iff, utf8_eq_flatMap]
  constructor
  · intro h
    refine String.toList_eq_nil_iff.mp (eq_nil_iff_forall_not_mem.mpr fun c hc => ?_)
    have hencoded := flatMap_eq_nil_iff.mp h c hc
    exact String.utf8EncodeChar_ne_nil hencoded
  · rintro rfl
    rfl

theorem verifyNative_computeAuthResponse (h : password.isEmpty = false) (scramble : List UInt8) :
    verifyNative digests (computeAuthResponse digests (some password) scramble) scramble
      (some (nativeHashPassword digests password)) = true := by
  have hlen : (digests.sha1 password).length =
      (digests.sha1 (scramble ++ digests.sha1 (digests.sha1 password))).length := by
    rw [digests.sha1_length, digests.sha1_length]
  simp only [computeAuthResponse, h, Bool.false_eq_true, if_false, verifyNative, nativeHashPassword,
    length_zipWith, digests.sha1_length, min_self, ne_eq, not_true_eq_false,
    zipWith_xor_cancel hlen, decide_true]

theorem verifyCachingSha2_scramble (h : password.isEmpty = false) (nonce : List UInt8) :
    verifyCachingSha2 digests (cachingSha2Scramble digests (some password) nonce) nonce
      (some (cachingSha2HashPassword digests password)) = true := by
  have hlen : (digests.sha256 password).length =
      (digests.sha256 (digests.sha256 (digests.sha256 password) ++ nonce)).length := by
    rw [digests.sha256_length, digests.sha256_length]
  simp only [cachingSha2Scramble, h, Bool.false_eq_true, if_false, verifyCachingSha2,
    cachingSha2HashPassword, length_zipWith, digests.sha256_length, min_self, ne_eq,
    not_true_eq_false, zipWith_xor_cancel hlen, constantTimeEq_self]

def AuthPlugin.account (plugin : AuthPlugin) (username password : String) : StoredUser :=
  ⟨(plugin.credential digests username password).plugin,
    (plugin.credential digests username password).verifier⟩

section Accounts
variable {password : String} (username : String) (answer scramble : List UInt8)

theorem accepts_passwordless (h : password.isEmpty = true) (plugin : AuthPlugin) :
    Authenticator.accepts digests (plugin.account digests username password) answer scramble =
      answer.isEmpty := by
  cases plugin with
  | mysqlNativePassword =>
    simp only [AuthPlugin.account, AuthPlugin.credential, UserCredential.withPassword, h, if_true]
    rfl
  | cachingSha2Password =>
    simp only [AuthPlugin.account, AuthPlugin.credential, UserCredential.withCachingSha2Password, h,
      if_true]
    rfl

theorem accepts_native (h : password.isEmpty = false) :
    Authenticator.accepts digests (AuthPlugin.mysqlNativePassword.account digests username password)
        answer scramble =
      verifyNative digests answer scramble (some (nativeHashPassword digests (utf8 password))) := by
  have hlen : (nativeHashPassword digests (utf8 password)).length = 20 := digests.sha1_length _
  simp only [AuthPlugin.account, AuthPlugin.credential, UserCredential.withPassword, h,
    Bool.false_eq_true, if_false, Authenticator.accepts, verifyFixed, hlen, if_true]

theorem accepts_cachingSha2 (h : password.isEmpty = false) :
    Authenticator.accepts digests (AuthPlugin.cachingSha2Password.account digests username password)
        answer scramble =
      verifyCachingSha2 digests answer scramble
        (some (cachingSha2HashPassword digests (utf8 password))) := by
  have hlen : (cachingSha2HashPassword digests (utf8 password)).length = 32 :=
    digests.sha256_length _
  simp only [AuthPlugin.account, AuthPlugin.credential, UserCredential.withCachingSha2Password, h,
    Bool.false_eq_true, if_false, Authenticator.accepts, verifyFixed, hlen, if_true]

theorem accepts_clientResponse (plugin : AuthPlugin) (password : String) :
    Authenticator.accepts digests (plugin.account digests username password)
      (plugin.clientResponse digests password scramble) scramble = true := by
  have hutf8 := isEmpty_utf8 password
  cases hempty : password.isEmpty with
  | true =>
    rw [hempty] at hutf8
    rw [accepts_passwordless digests username _ scramble hempty]
    cases plugin <;> simp only [AuthPlugin.clientResponse, computeAuthResponse, cachingSha2Scramble,
      hutf8, if_true, isEmpty_nil]
  | false =>
    rw [hempty] at hutf8
    cases plugin with
    | mysqlNativePassword =>
      rw [accepts_native digests username _ scramble hempty]
      exact verifyNative_computeAuthResponse digests hutf8 scramble
    | cachingSha2Password =>
      rw [accepts_cachingSha2 digests username _ scramble hempty]
      exact verifyCachingSha2_scramble digests hutf8 scramble

/-- An answer that no client computes for the password: one of another length than a digest
has, or any at all for an account without a password. -/
def AuthPlugin.WrongLength (plugin : AuthPlugin) (password : String) (answer : List UInt8) : Prop :=
  if password.isEmpty then answer ≠ [] else answer.length ≠ plugin.digestLength

theorem not_accepts_wrongLength {plugin : AuthPlugin} (h : plugin.WrongLength password answer) :
    Authenticator.accepts digests (plugin.account digests username password) answer scramble =
      false := by
  rw [AuthPlugin.WrongLength] at h
  cases hempty : password.isEmpty with
  | true =>
    rw [hempty, if_pos rfl] at h
    rw [accepts_passwordless digests username _ scramble hempty, isEmpty_eq_false_iff]
    exact h
  | false =>
    simp only [hempty, Bool.false_eq_true, if_false] at h
    cases plugin with
    | mysqlNativePassword =>
      rw [accepts_native digests username _ scramble hempty, verifyNative]
      exact if_pos h
    | cachingSha2Password =>
      rw [accepts_cachingSha2 digests username _ scramble hempty, verifyCachingSha2]
      exact if_pos h

end Accounts

end Passwords

end MysqlRust.Auth
