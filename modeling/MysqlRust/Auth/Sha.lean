import Mathlib.Data.Vector.Basic
import MysqlRust.Auth.Authenticator
import MysqlRust.Foundation.ByteCursor
import MysqlRust.Foundation.Compression

/-! # SHA-1 and SHA-256

Both digests pad a message to whole chunks of 64 bytes, one-to-one, and fold a function of their
own over the chunks. Two messages with one digest lead to two inputs of it with one result.
-/
namespace MysqlRust.Auth

/-- `while padded.len() % 64 != 56` -/
def pushZeros : Nat → List UInt8 → List UInt8
  | 0, padded => padded
  | fuel + 1, padded =>
    if padded.length % 64 ≠ 56 then pushZeros fuel (padded ++ [0]) else padded

def toBeBytes (width n : Nat) : List UInt8 := (leBytes width n).reverse

/-- The length is counted in bits, modulo `2 ^ 64`. -/
def padMessage (input : List UInt8) : List UInt8 :=
  pushZeros 64 (input ++ [0x80]) ++ toBeBytes 8 (input.length * 8)

abbrev Chunk : Type := Vector UInt8 64

def chunksExact (bytes : List UInt8) : List Chunk :=
  (List.range (bytes.length / 64)).map fun i => Vector.ofFn fun j => bytes.getD (64 * i + j) 0

def rotateLeft (x : UInt32) (n : Nat) : UInt32 := .ofBitVec (x.toBitVec.rotateLeft n)

def rotateRight (x : UInt32) (n : Nat) : UInt32 := .ofBitVec (x.toBitVec.rotateRight n)

def chunkWords (chunk : Chunk) : Array UInt32 :=
  .ofFn fun i : Fin 16 => .ofNat (leValue [chunk[i.val * 4 + 3], chunk[i.val * 4 + 2],
    chunk[i.val * 4 + 1], chunk[i.val * 4]])

/-- A digest by its initial words and its `process_chunk`. -/
structure Sha (n : Nat) where
  iv : Vector UInt32 n
  processChunk : Vector UInt32 n → Chunk → Vector UInt32 n

def Sha.digest {n : Nat} (sha : Sha n) (input : List UInt8) : List UInt8 :=
  ((chunksExact (padMessage input)).foldl sha.processChunk sha.iv).toList.flatMap
    fun word => toBeBytes 4 word.toNat

namespace Sha1

def iv : Vector UInt32 5 := #v[0x67452301, 0xEFCDAB89, 0x98BADCFE, 0x10325476, 0xC3D2E1F0]

def schedule (chunk : Chunk) : Array UInt32 :=
  (List.range' 16 64).foldl (fun w i =>
    w.push (rotateLeft (w[i - 3]! ^^^ w[i - 8]! ^^^ w[i - 14]! ^^^ w[i - 16]!) 1))
    (chunkWords chunk)

def mix (i : Nat) (b c d : UInt32) : UInt32 × UInt32 :=
  if i ≤ 19 then ((b &&& c) ||| (~~~b &&& d), 0x5A827999)
  else if i ≤ 39 then (b ^^^ c ^^^ d, 0x6ED9EBA1)
  else if i ≤ 59 then ((b &&& c) ||| (b &&& d) ||| (c &&& d), 0x8F1BBCDC)
  else (b ^^^ c ^^^ d, 0xCA62C1D6)

def round (v : Vector UInt32 5) (word : UInt32 × Nat) : Vector UInt32 5 :=
  let (a, b, c, d, e) := (v[0], v[1], v[2], v[3], v[4])
  let (f, k) := mix word.2 b c d
  #v[rotateLeft a 5 + f + e + k + word.1, a, rotateLeft b 30, c, d]

def processChunk (h : Vector UInt32 5) (chunk : Chunk) : Vector UInt32 5 :=
  h.zipWith (· + ·) ((schedule chunk).toList.zipIdx.foldl round h)

def sha : Sha 5 := ⟨iv, processChunk⟩

end Sha1

namespace Sha256

def iv : Vector UInt32 8 :=
  #v[0x6a09e667, 0xbb67ae85, 0x3c6ef372, 0xa54ff53a, 0x510e527f, 0x9b05688c, 0x1f83d9ab, 0x5be0cd19]

def roundConstants : List UInt32 :=
  [0x428a2f98, 0x71374491, 0xb5c0fbcf, 0xe9b5dba5, 0x3956c25b, 0x59f111f1, 0x923f82a4, 0xab1c5ed5,
   0xd807aa98, 0x12835b01, 0x243185be, 0x550c7dc3, 0x72be5d74, 0x80deb1fe, 0x9bdc06a7, 0xc19bf174,
   0xe49b69c1, 0xefbe4786, 0x0fc19dc6, 0x240ca1cc, 0x2de92c6f, 0x4a7484aa, 0x5cb0a9dc, 0x76f988da,
   0x983e5152, 0xa831c66d, 0xb00327c8, 0xbf597fc7, 0xc6e00bf3, 0xd5a79147, 0x06ca6351, 0x14292967,
   0x27b70a85, 0x2e1b2138, 0x4d2c6dfc, 0x53380d13, 0x650a7354, 0x766a0abb, 0x81c2c92e, 0x92722c85,
   0xa2bfe8a1, 0xa81a664b, 0xc24b8b70, 0xc76c51a3, 0xd192e819, 0xd6990624, 0xf40e3585, 0x106aa070,
   0x19a4c116, 0x1e376c08, 0x2748774c, 0x34b0bcb5, 0x391c0cb3, 0x4ed8aa4a, 0x5b9cca4f, 0x682e6ff3,
   0x748f82ee, 0x78a5636f, 0x84c87814, 0x8cc70208, 0x90befffa, 0xa4506ceb, 0xbef9a3f7, 0xc67178f2]

def schedule (chunk : Chunk) : Array UInt32 :=
  (List.range' 16 48).foldl (fun w i =>
    let s0 := rotateRight w[i - 15]! 7 ^^^ rotateRight w[i - 15]! 18 ^^^ (w[i - 15]! >>> 3)
    let s1 := rotateRight w[i - 2]! 17 ^^^ rotateRight w[i - 2]! 19 ^^^ (w[i - 2]! >>> 10)
    w.push (w[i - 16]! + s0 + w[i - 7]! + s1)) (chunkWords chunk)

def round (v : Vector UInt32 8) (word : UInt32 × UInt32) : Vector UInt32 8 :=
  let (a, b, c, d, e, f, g, hh) := (v[0], v[1], v[2], v[3], v[4], v[5], v[6], v[7])
  let s1 := rotateRight e 6 ^^^ rotateRight e 11 ^^^ rotateRight e 25
  let ch := (e &&& f) ^^^ (~~~e &&& g)
  let temp1 := hh + s1 + ch + word.2 + word.1
  let s0 := rotateRight a 2 ^^^ rotateRight a 13 ^^^ rotateRight a 22
  let maj := (a &&& b) ^^^ (a &&& c) ^^^ (b &&& c)
  #v[temp1 + (s0 + maj), a, b, c, d + temp1, e, f, g]

def processChunk (h : Vector UInt32 8) (chunk : Chunk) : Vector UInt32 8 :=
  h.zipWith (· + ·) (((schedule chunk).toList.zip roundConstants).foldl round h)

def sha : Sha 8 := ⟨iv, processChunk⟩

end Sha256

theorem toBeBytes_injective {width m n : Nat} (hm : m < 256 ^ width) (hn : n < 256 ^ width)
    (h : toBeBytes width m = toBeBytes width n) : m = n := by
  rw [← leValue_leBytes_of_lt hm, ← leValue_leBytes_of_lt hn, List.reverse_injective h]

theorem toBeBytes_length (width n : Nat) : (toBeBytes width n).length = width := by
  rw [toBeBytes, List.length_reverse, leBytes_length]

theorem pushZeros_eq {fuel : Nat} {padded : List UInt8}
    (h : (120 - padded.length % 64) % 64 ≤ fuel) :
    pushZeros fuel padded = padded ++ List.replicate ((120 - padded.length % 64) % 64) 0 := by
  induction fuel generalizing padded with
  | zero =>
    rw [Nat.le_zero.mp h]
    exact (List.append_nil padded).symm
  | succ fuel ih =>
    rw [pushZeros]
    split_ifs with hlen
    · have hlength : (padded ++ [0]).length = padded.length + 1 := List.length_append
      rw [ih (by omega), hlength, List.append_assoc, List.singleton_append, ← List.replicate_succ]
      congr 2
      omega
    · have hzero : (120 - padded.length % 64) % 64 = 0 := by omega
      rw [hzero]
      exact (List.append_nil padded).symm

theorem padMessage_eq (input : List UInt8) : padMessage input = input ++ 0x80 ::
    (List.replicate ((119 - input.length % 64) % 64) 0 ++ toBeBytes 8 (input.length * 8)) := by
  have hlength : (input ++ [0x80]).length = input.length + 1 := List.length_append
  have hzeros : (120 - (input.length + 1) % 64) % 64 = (119 - input.length % 64) % 64 := by omega
  rw [padMessage, pushZeros_eq (by omega), hlength, hzeros, List.append_assoc, List.append_assoc]
  rfl

theorem padMessage_length (input : List UInt8) :
    (padMessage input).length = input.length + (119 - input.length % 64) % 64 + 9 := by
  rw [padMessage_eq]
  simp only [List.length_append, List.length_cons, List.length_replicate, toBeBytes_length]
  omega

theorem padMessage_whole (input : List UInt8) : (padMessage input).length % 64 = 0 := by
  rw [padMessage_length]
  omega

theorem flatMap_chunksExact {bytes : List UInt8} (h : bytes.length % 64 = 0) :
    (chunksExact bytes).flatMap Vector.toList = bytes := by
  have hchunk (i : Nat) (hi : 64 * (i + 1) ≤ bytes.length) :
      (Vector.ofFn fun j : Fin 64 => bytes.getD (64 * i + j) 0).toList =
        (bytes.drop (64 * i)).take 64 := by
    refine List.ext_getElem (by simp; omega) fun j hj _ => ?_
    have hlt : 64 * i + j < bytes.length := by
      have hj : j < 64 := by simpa using hj
      omega
    simp [List.getElem?_eq_getElem hlt]
  have hprefix (k : Nat) (hk : 64 * k ≤ bytes.length) : (List.range k).flatMap (fun i =>
      (Vector.ofFn fun j : Fin 64 => bytes.getD (64 * i + j) 0).toList) = bytes.take (64 * k) := by
    induction k with
    | zero => rfl
    | succ k ih =>
      rw [List.range_succ, List.flatMap_append, ih (by omega), List.flatMap_singleton, hchunk k hk,
        Nat.mul_succ, List.take_add]
  rw [chunksExact, List.flatMap_map, hprefix _ (Nat.mul_div_le _ _),
    Nat.mul_div_cancel' (Nat.dvd_of_mod_eq_zero h), List.take_length]

/-- The last chunk tells how long the message is. -/
theorem toBeBytes_length_eq {input : List UInt8} {init : List Chunk} {last : Chunk}
    (h : chunksExact (padMessage input) = init ++ [last]) :
    toBeBytes 8 (input.length * 8) = last.toList.drop 56 := by
  have hflat := flatMap_chunksExact (padMessage_whole input)
  rw [h, List.flatMap_append, List.flatMap_singleton, padMessage_eq,
    ← List.take_append_drop 56 last.toList, ← List.append_assoc, ← List.cons_append,
    ← List.append_assoc] at hflat
  refine (List.append_inj_right' hflat ?_).symm
  rw [toBeBytes_length, List.length_drop, Vector.length_toList]

theorem chunksExact_length (input : List UInt8) : (chunksExact (padMessage input)).length =
    (input.length + (119 - input.length % 64) % 64 + 9) / 64 := by
  rw [chunksExact, List.length_map, List.length_range, padMessage_length]

theorem chunksExact_concat (input : List UInt8) :
    ∃ init last, chunksExact (padMessage input) = init ++ [last] := by
  refine (List.eq_nil_or_concat' _).resolve_left fun hnil => ?_
  have hlength := chunksExact_length input
  rw [hnil, List.length_nil] at hlength
  omega

theorem digest_state {n : Nat} {v v' : Vector UInt32 n}
    (h : v.toList.flatMap (fun word => toBeBytes 4 word.toNat) =
      v'.toList.flatMap fun word => toBeBytes 4 word.toNat) : v = v' := by
  have hwords : ∀ {ws ws' : List UInt32}, ws.length = ws'.length →
      ws.flatMap (fun word => toBeBytes 4 word.toNat) =
        ws'.flatMap (fun word => toBeBytes 4 word.toNat) → ws = ws' := by
    intro ws
    induction ws with
    | nil => exact fun hlen _ => (List.eq_nil_of_length_eq_zero hlen.symm).symm
    | cons w ws ih =>
      intro ws' hlen hflat
      obtain ⟨w', ws', rfl⟩ := List.exists_cons_of_length_eq_add_one hlen.symm
      rw [List.flatMap_cons, List.flatMap_cons] at hflat
      obtain ⟨hw, hws⟩ := List.append_inj hflat (by rw [toBeBytes_length, toBeBytes_length])
      have hnat := toBeBytes_injective w.toNat_lt w'.toNat_lt hw
      rw [UInt32.toNat_inj.mp hnat, ih (Nat.succ.inj hlen) hws]
  exact Vector.toList_inj.mp (hwords (by rw [Vector.length_toList, Vector.length_toList]) h)

def Sha.inputs {n : Nat} (sha : Sha n) (input : List UInt8) : List (Vector UInt32 n × Chunk) :=
  Compression.inputs sha.processChunk sha.iv (chunksExact (padMessage input))

/-- Messages that end in one state bring two inputs of `process_chunk` to one result. -/
theorem Sha.collide_of_state {n : Nat} {sha : Sha n} {m m' : List UInt8} (hm : m.length < 2 ^ 61)
    (hm' : m'.length < 2 ^ 61) (hne : m ≠ m')
    (hstate : (chunksExact (padMessage m)).foldl sha.processChunk sha.iv =
      (chunksExact (padMessage m')).foldl sha.processChunk sha.iv) :
    Compression.Collide sha.processChunk (sha.inputs m) (sha.inputs m') := by
  obtain ⟨init, last, hchunks⟩ := chunksExact_concat m
  obtain ⟨init', last', hchunks'⟩ := chunksExact_concat m'
  -- equal last chunks mean messages of equal length
  have hlen : last = last' → m.length = m'.length := by
    rintro rfl
    have hbytes := (toBeBytes_length_eq hchunks).trans (toBeBytes_length_eq hchunks').symm
    have hbits := toBeBytes_injective (by omega) (by omega) hbytes
    omega
  rw [hchunks, hchunks'] at hstate
  rw [Sha.inputs, Sha.inputs, hchunks, hchunks']
  refine Compression.collide_of_ne (fun hinit hlast => hinit ?_) (fun heq => hne ?_) hstate
  · have hcount := chunksExact_length m
    rw [hlen hlast, ← chunksExact_length m', hchunks, hchunks'] at hcount
    simpa using hcount
  · have hlast : last = last' := by simpa using (List.append_inj' heq rfl).2
    rw [← hchunks, ← hchunks'] at heq
    have hpad := congrArg (List.flatMap Vector.toList) heq
    rw [flatMap_chunksExact (padMessage_whole m), flatMap_chunksExact (padMessage_whole m'),
      padMessage_eq, padMessage_eq] at hpad
    exact List.append_inj_left hpad (hlen hlast)

/-- Two messages with one digest lead to two inputs of `process_chunk` with one result. -/
theorem Sha.digest_eq_collide {n : Nat} (sha : Sha n) {m m' : List UInt8} (hm : m.length < 2 ^ 61)
    (hm' : m'.length < 2 ^ 61) (hne : m ≠ m') (h : sha.digest m = sha.digest m') :
    Compression.Collide sha.processChunk (sha.inputs m) (sha.inputs m') :=
  Sha.collide_of_state hm hm' hne (digest_state h)

/-- A digest that keeps only the last byte of the length. -/
def lastWord : Sha 1 := ⟨#v[0], fun _ chunk => #v[chunk[63].toUInt32]⟩

theorem lastWord_collide : lastWord.digest [0] = lastWord.digest [1] ∧
    Compression.Collide lastWord.processChunk (lastWord.inputs [0]) (lastWord.inputs [1]) :=
  have h : lastWord.digest [0] = lastWord.digest [1] := by decide +kernel
  ⟨h, lastWord.digest_eq_collide (by decide) (by decide) (by decide) h⟩

theorem Sha.digest_length {n : Nat} (sha : Sha n) (input : List UInt8) :
    (sha.digest input).length = 4 * n := by
  simp [Sha.digest, toBeBytes_length, Nat.mul_comm]

def Digests.sha : Digests where
  sha1 := Sha1.sha.digest
  sha256 := Sha256.sha.digest
  sha1_length := Sha1.sha.digest_length
  sha256_length := Sha256.sha.digest_length

example : Sha1.sha.digest [0x61, 0x62, 0x63] =
    [0xa9, 0x99, 0x3e, 0x36, 0x47, 0x06, 0x81, 0x6a, 0xba, 0x3e, 0x25, 0x71, 0x78, 0x50, 0xc2, 0x6c,
     0x9c, 0xd0, 0xd8, 0x9d] := by decide +kernel

end MysqlRust.Auth
