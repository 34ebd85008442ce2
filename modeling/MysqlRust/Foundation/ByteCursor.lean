import Mathlib.Tactic.Ring
import MysqlRust.Foundation.Outcome

/-! # Little-endian integers and byte cursors

A reader returns a value of a byte list with the position after it. `Exact r enc a` is the
contract between a writer and its reader: `r` reads `a` back from `enc` wherever it stands, and
reports an error on every proper prefix of it. Contracts compose along sequencing.
-/

def leBytes : Nat → Nat → List UInt8
  | 0, _ => []
  | k + 1, n => UInt8.ofNat n :: leBytes k (n / 256)

def leValue : List UInt8 → Nat
  | [] => 0
  | b :: bs => b.toNat + 256 * leValue bs

@[simp] theorem leBytes_length (k n : Nat) : (leBytes k n).length = k := by
  induction k generalizing n with
  | zero => rfl
  | succ k ih => simp [leBytes, ih]

theorem leValue_leBytes (k n : Nat) : leValue (leBytes k n) = n % 256 ^ k := by
  induction k generalizing n with
  | zero => simp [leBytes, leValue, Nat.mod_one]
  | succ k ih =>
    rw [leBytes, leValue, ih, UInt8.toNat_ofNat', Nat.pow_succ' (n := k), Nat.mod_mul]

theorem leValue_leBytes_of_lt {k n : Nat} (h : n < 256 ^ k) : leValue (leBytes k n) = n := by
  rw [leValue_leBytes, Nat.mod_eq_of_lt h]

theorem leValue_lt (bs : List UInt8) : leValue bs < 256 ^ bs.length := by
  induction bs with
  | nil => simp [leValue]
  | cons b bs ih =>
    have hb := b.toNat_lt
    simp only [leValue, List.length_cons, Nat.pow_succ']
    omega

theorem leBytes_leValue (bs : List UInt8) : leBytes bs.length (leValue bs) = bs := by
  induction bs with
  | nil => rfl
  | cons b bs ih =>
    have hb := b.toNat_lt
    have hd : (b.toNat + 256 * leValue bs) / 256 = leValue bs := by omega
    simp only [List.length_cons, leBytes, leValue, hd, ih, List.cons.injEq, and_true]
    apply UInt8.toNat_inj.mp
    simp only [UInt8.toNat_ofNat', Nat.reducePow]
    omega

def Reader (ε α : Type) : Type := List UInt8 → Nat → Outcome ε (α × Nat)

namespace Reader

open Outcome

open List
variable {ε α β : Type}

instance : Monad (Reader ε) where
  pure a := fun _ pos => .ok (a, pos)
  bind r f := fun bytes pos => r bytes pos >>= fun p => f p.1 bytes p.2

theorem pure_apply (a : α) (bytes : List UInt8) (pos : Nat) :
    (pure a : Reader ε α) bytes pos = .ok (a, pos) := rfl

theorem bind_apply (r : Reader ε α) (f : α → Reader ε β) (bytes : List UInt8) (pos : Nat) :
    (r >>= f) bytes pos = r bytes pos >>= fun p => f p.1 bytes p.2 := rfl

theorem pure_bind (a : α) (f : α → Reader ε β) : ((pure a : Reader ε α) >>= f) = f a := rfl

def fail (e : ε) : Reader ε α := fun _ _ => .err e

def byte (e : ε) : Reader ε UInt8 := fun bytes pos =>
  match bytes[pos]? with
  | some b => .ok (b, pos + 1)
  | none => .err e

def peek (e : ε) : Reader ε UInt8 := fun bytes pos =>
  match bytes[pos]? with
  | some b => .ok (b, pos)
  | none => .err e

def slice (n : Nat) (e : ε) : Reader ε (List UInt8) := fun bytes pos =>
  if pos + n ≤ bytes.length then .ok ((bytes.drop pos).take n, pos + n) else .err e

def many (r : Reader ε α) : Nat → Reader ε (List α)
  | 0 => pure []
  | n + 1 => do
    let a ← r
    let as ← many r n
    pure (a :: as)

def each (f : β → Reader ε α) : List β → Reader ε (List α)
  | [] => pure []
  | b :: bs => do
    let a ← f b
    let as ← each f bs
    pure (a :: as)

/-- `r` reads `a` from exactly the bytes `enc`. -/
structure Exact (r : Reader ε α) (enc : List UInt8) (a : α) : Prop where
  reads : ∀ pre post, r (pre ++ (enc ++ post)) pre.length = .ok (a, pre.length + enc.length)
  stops : ∀ pre p, p <+: enc → p ≠ enc → ∃ e, r (pre ++ p) pre.length = .err e

theorem Exact.pure (a : α) : Exact (pure a : Reader ε α) [] a where
  reads pre post := by simp [pure_apply]
  stops pre p hp hne := absurd (prefix_nil.mp hp) hne

theorem Exact.byte (e : ε) (b : UInt8) : Exact (byte e) [b] b where
  reads pre post := by simp [Reader.byte]
  stops pre p hp hne := by
    have hnil : p = [] := by
      rcases p with _ | ⟨x, xs⟩
      · rfl
      · obtain ⟨rfl, hxs⟩ := cons_prefix_cons.mp hp
        exact absurd (by rw [prefix_nil.mp hxs]) hne
    exact ⟨e, by simp [Reader.byte, hnil]⟩

theorem Exact.slice (e : ε) (enc : List UInt8) : Exact (slice enc.length e) enc enc where
  reads pre post := by simp [Reader.slice]
  stops pre p hp hne := by
    have hlt : p.length < enc.length :=
      lt_of_le_of_ne hp.length_le fun h => hne (hp.eq_of_length h)
    exact ⟨e, by simp [Reader.slice, hlt]⟩

variable {r : Reader ε α} {enc : List UInt8} {a : α}

variable {f : α → Reader ε β} {b : β} {bs : List β} {bytes : List UInt8} {pos : Nat}
  {p : List α × Nat}

/-- One reader after the other reads what one writer after the other has written. -/
theorem Exact.bind {enc' : List UInt8} (hr : Exact r enc a) (hf : Exact (f a) enc' b) :
    Exact (r >>= f) (enc ++ enc') b where
  reads pre post := by
    have h := hf.reads (pre ++ enc) post
    simp only [append_assoc, length_append] at h
    simp only [bind_apply, append_assoc, hr.reads, ok_bind, h, length_append, Nat.add_assoc]
  stops pre p hp hne := by
    rcases prefix_or_prefix_of_prefix hp (prefix_append enc enc') with h | ⟨q, rfl⟩
    · by_cases heq : p = enc
      · subst heq
        obtain ⟨e, he⟩ := hf.stops (pre ++ p) [] nil_prefix (by rintro rfl; simp at hne)
        have h := hr.reads pre []
        simp only [append_nil, length_append] at h he
        exact ⟨e, by simp only [bind_apply, h, ok_bind, he]⟩
      · obtain ⟨e, he⟩ := hr.stops pre p h heq
        exact ⟨e, by simp only [bind_apply, he, err_bind]⟩
    · have hq : q <+: enc' := (prefix_append_right_inj enc).mp hp
      obtain ⟨e, he⟩ := hf.stops (pre ++ enc) q hq (by rintro rfl; exact hne rfl)
      simp only [append_assoc, length_append] at he
      exact ⟨e, by simp only [bind_apply, hr.reads, ok_bind, he]⟩

/-- The first byte says how the rest is read. -/
theorem Exact.tagged {f : UInt8 → Reader ε α} (e : ε) (b : UInt8) (hf : Exact (f b) enc a) :
    Exact (Reader.byte e >>= f) (b :: enc) a :=
  (Exact.byte e b).bind hf

theorem Exact.peeked {f : UInt8 → Reader ε α} (e : ε) (b : UInt8) (hf : Exact (f b) (b :: enc) a) :
    Exact (Reader.peek e >>= f) (b :: enc) a where
  reads pre post := by
    have hpeek : Reader.peek e (pre ++ (b :: enc ++ post)) pre.length = .ok (b, pre.length) := by
      simp [Reader.peek]
    rw [bind_apply, hpeek, ok_bind]
    exact hf.reads pre post
  stops pre p hp hne := by
    rcases p with _ | ⟨x, xs⟩
    · exact ⟨e, by simp [bind_apply, Reader.peek]⟩
    · obtain ⟨rfl, -⟩ := cons_prefix_cons.mp hp
      have hpeek : Reader.peek e (pre ++ x :: xs) pre.length = .ok (x, pre.length) := by
        simp [Reader.peek]
      rw [bind_apply, hpeek, ok_bind]
      exact hf.stops pre (x :: xs) hp hne

theorem Exact.bind_eq_pure (hr : Exact r enc a) (hf : f a = Pure.pure b) :
    Exact (r >>= f) enc b := by
  have hb : Exact (f a) [] b := by
    rw [hf]
    exact .pure b
  simpa using hr.bind hb

theorem Exact.bind_pure (hr : Exact r enc a) (f : α → β) :
    Exact (do let x ← r; Pure.pure (f x)) enc (f a) :=
  hr.bind_eq_pure rfl

section Lists
variable {γ : Type} {enc : γ → List UInt8} {g : γ → α}

theorem Exact.many_map {r : Reader ε α} (xs : List γ) (h : ∀ x ∈ xs, Exact r (enc x) (g x)) :
    Exact (Reader.many r xs.length) (xs.flatMap enc) (xs.map g) := by
  induction xs with
  | nil => exact .pure []
  | cons x xs ih =>
    have hrest := ih fun y hy => h y (mem_cons_of_mem x hy)
    exact (h x mem_cons_self).bind (hrest.bind_pure (g x :: ·))

theorem Exact.each_map {f : β → Reader ε α} {bs : List β} {xs : List γ}
    (h : List.Forall₂ (fun b x => Exact (f b) (enc x) (g x)) bs xs) :
    Exact (Reader.each f bs) (xs.flatMap enc) (xs.map g) := by
  induction h with
  | nil => exact .pure []
  | @cons b x bs xs hhead _ ih => exact hhead.bind (ih.bind_pure (g x :: ·))

end Lists

theorem Exact.many {enc : α → List UInt8} (xs : List α) (h : ∀ a ∈ xs, Exact r (enc a) a) :
    Exact (many r xs.length) (xs.flatMap enc) xs := by
  have hmap := Exact.many_map (g := id) xs h
  rwa [map_id] at hmap

theorem Exact.each {f : β → Reader ε α} {enc : α → List UInt8} {as : List α}
    (h : List.Forall₂ (fun b a => Exact (f b) (enc a) a) bs as) :
    Exact (each f bs) (as.flatMap enc) as := by
  have hmap := Exact.each_map (g := id) h
  rwa [map_id] at hmap

theorem length_many {n : Nat} (h : many r n bytes pos = .ok p) : p.1.length = n := by
  induction n generalizing pos p with
  | zero =>
    cases h
    rfl
  | succ n ih =>
    obtain ⟨a, -, hrest⟩ := bind_eq_ok.mp h
    obtain ⟨as, has, hcons⟩ := bind_eq_ok.mp hrest
    cases hcons
    exact congrArg (· + 1) (ih has)

theorem length_each {f : β → Reader ε α} (h : each f bs bytes pos = .ok p) :
    p.1.length = bs.length := by
  induction bs generalizing pos p with
  | nil =>
    cases h
    rfl
  | cons b bs ih =>
    obtain ⟨a, -, hrest⟩ := bind_eq_ok.mp h
    obtain ⟨as, has, hcons⟩ := bind_eq_ok.mp hrest
    cases hcons
    exact congrArg (· + 1) (ih has)

def parseAll (r : Reader ε α) (bytes : List UInt8) : Option α :=
  match r bytes 0 with
  | .ok (a, pos) => if pos = bytes.length then some a else none
  | _ => none

theorem Exact.parseAll (h : Exact r enc a) : parseAll r enc = some a := by
  have hreads := h.reads [] []
  rw [nil_append, append_nil, length_nil, Nat.zero_add] at hreads
  simp [Reader.parseAll, hreads]

section

/-- `r` reads `a` from the bytes `enc` wherever they stand among fewer than `limit` bytes. -/
def ReadsWithin (limit : Nat) (r : Reader ε α) (enc : List UInt8) (a : α) : Prop :=
  ∀ pre post, (pre ++ (enc ++ post)).length < limit →
    r (pre ++ (enc ++ post)) pre.length = .ok (a, pre.length + enc.length)

variable {limit : Nat}
variable {r : Reader ε α} {enc : List UInt8} {a : α}

theorem Exact.within (h : Exact r enc a) :
    ReadsWithin limit r enc a := fun pre post _ => h.reads pre post

theorem ReadsWithin.bind {f : α → Reader ε β} {enc' : List UInt8} {b : β}
    (hr : ReadsWithin limit r enc a) (hf : ReadsWithin limit (f a) enc' b) :
    ReadsWithin limit (r >>= f) (enc ++ enc') b := by
  intro pre post hlimit
  have hfirst := hr pre (enc' ++ post) (by rwa [← append_assoc enc])
  have hrest := hf (pre ++ enc) post (by rwa [append_assoc, ← append_assoc enc])
  rw [append_assoc, length_append] at hrest
  rw [bind_apply, append_assoc enc, hfirst, ok_bind, hrest, length_append, Nat.add_assoc]

theorem ReadsWithin.bind_pure (hr : ReadsWithin limit r enc a) (f : α → β) :
    ReadsWithin limit (do let x ← r; Pure.pure (f x)) enc (f a) := by
  intro pre post hlimit
  rw [bind_apply, hr pre post hlimit, ok_bind]
  rfl

variable {size : α → Nat}

def Covers (r : Reader ε α) (size : α → Nat) : Prop :=
  ∀ bytes pos a pos', pos ≤ bytes.length → r bytes pos = .ok (a, pos') →
    pos + size a ≤ pos' ∧ pos' ≤ bytes.length

theorem Covers.pure {a : α} (h : size a = 0) : Covers (Pure.pure a : Reader ε α) size := by
  intro bytes pos a' pos' hpos hr
  cases hr
  omega

theorem Covers.fail (e : ε) (size : α → Nat) : Covers (Reader.fail e) size := by
  intro bytes pos a pos' hpos hr
  cases hr

theorem Covers.byte (e : ε) : Covers (Reader.byte e) fun _ => 1 := by
  intro bytes pos b pos' hpos hr
  unfold Reader.byte at hr
  split at hr
  · rename_i hget
    cases hr
    exact ⟨le_rfl, (List.getElem?_eq_some_iff.mp hget).1⟩
  · cases hr

theorem Covers.slice (n : Nat) (e : ε) : Covers (Reader.slice n e) fun bs => max bs.length n := by
  intro bytes pos bs pos' hpos hr
  unfold Reader.slice at hr
  split at hr
  · cases hr
    simp only [length_take]
    omega
  · cases hr

theorem Covers.bind {f : α → Reader ε β} {m : α → Nat} {n : β → Nat} (hr : Covers r m)
    (hf : ∀ a, Covers (f a) fun b => n b - m a) : Covers (r >>= f) n := by
  intro bytes pos b pos' hpos h
  obtain ⟨⟨a, p⟩, ha, hb⟩ := bind_eq_ok.mp h
  obtain ⟨hstart, hp⟩ := hr bytes pos a p hpos ha
  obtain ⟨hrest, hend⟩ := hf a bytes p b pos' hp hb
  dsimp only at hrest
  omega

theorem Covers.mono {m n : α → Nat} (hr : Covers r m) (h : ∀ a, n a ≤ m a) : Covers r n := by
  intro bytes pos a pos' hpos hread
  obtain ⟨hstart, hend⟩ := hr bytes pos a pos' hpos hread
  have ha := h a
  exact ⟨by omega, hend⟩

theorem Covers.ite {c : Prop} [Decidable c] {q : Reader ε α} (hr : Covers r size)
    (hq : Covers q size) : Covers (if c then r else q) size := by
  split
  · exact hr
  · exact hq

theorem Covers.many (hr : Covers r size) (n : Nat) :
    Covers (many r n) fun xs => (xs.map size).sum := by
  induction n with
  | zero => exact .pure rfl
  | succ n ih =>
    refine hr.bind fun a => .bind ih fun as => .pure ?_
    rw [map_cons, sum_cons]
    omega

end

/-- The reader may report an error but never panics, whatever the bytes. -/
class Safe (r : Reader ε α) : Prop where
  ne_panic : ∀ bytes pos, r bytes pos ≠ .panic

instance (a : α) : Safe (pure a : Reader ε α) := ⟨fun _ _ => by simp [pure_apply]⟩

instance (e : ε) : Safe (fail e : Reader ε α) := ⟨fun _ _ => by simp [fail]⟩

instance (e : ε) : Safe (byte e) := ⟨fun bytes pos => by
  unfold byte
  split <;> simp⟩

instance (n : Nat) (e : ε) : Safe (slice n e) := ⟨fun bytes pos => by
  unfold slice
  split <;> simp⟩

instance (r : Reader ε α) (f : α → Reader ε β) [hr : Safe r] [hf : ∀ a, Safe (f a)] :
    Safe (r >>= f) :=
  ⟨fun bytes pos => bind_ne_panic (hr.ne_panic bytes pos) fun p _ =>
    (hf p.1).ne_panic bytes p.2⟩

instance (c : Prop) [Decidable c] (r q : Reader ε α) [hr : Safe r] [hq : Safe q] :
    Safe (if c then r else q) := by
  split
  · exact hr
  · exact hq

instance (r : Reader ε α) [hr : Safe r] (n : Nat) : Safe (many r n) := by
  induction n with
  | zero => exact inferInstanceAs (Safe (pure []))
  | succ n ih =>
    unfold many
    infer_instance

end Reader
