import MysqlRust.Foundation.Chunks
import MysqlRust.Storage.LogRecord

/-! # Opening the log

`Log.open` replays records front to back into a fold and truncates a torn tail. A chain of
verified records is consumed one by one, and what follows it decides between success and refusal.
-/
namespace MysqlRust

open Outcome List

section Definitions
variable {σ : Type} (apply : σ → Entry → Result σ)

def replay (fileLen : Nat) (s : σ) (reader : List UInt8) (pos : Nat) : Result (σ × Nat) :=
  match h : readOneRecord reader pos fileLen with
  | .ok (.ok entry nextPos, rest) =>
    have := readOneRecord_shrinks h
    apply s entry >>= fun s' => replay fileLen s' rest nextPos
  | .ok (.tornTail, _) => .ok (s, pos)
  | .err e => .err e
  | .panic => .panic
termination_by reader.length

def Log.open (init : σ) : Option (List UInt8) → Result (σ × List UInt8)
  | none => .ok (init, [])
  | some bytes => do
    let (s, pos) ← replay apply bytes.length init bytes 0
    pure (s, if pos < bytes.length then bytes.take pos else bytes)

end Definitions

def frames (payloads : List (List UInt8)) : List UInt8 := payloads.flatMap frameRecord

def logBytes (es : List Entry) : List UInt8 := frames (es.map Entry.encode)

def Verified (payloads : List (List UInt8)) (es : List Entry) : Prop :=
  List.Forall₂ (fun p e => p.length < 2 ^ 32 ∧ decodeEntry p = .ok e) payloads es

@[simp] theorem frames_nil : frames [] = [] := rfl
@[simp] theorem frames_cons (p : List UInt8) (ps : List (List UInt8)) :
    frames (p :: ps) = frameRecord p ++ frames ps := rfl
@[simp] theorem frames_append (ps qs : List (List UInt8)) :
    frames (ps ++ qs) = frames ps ++ frames qs := flatMap_append

@[simp] theorem logBytes_nil : logBytes [] = [] := rfl
@[simp] theorem logBytes_cons (e : Entry) (es : List Entry) :
    logBytes (e :: es) = frameRecord e.encode ++ logBytes es := rfl
@[simp] theorem logBytes_append (es fs : List Entry) :
    logBytes (es ++ fs) = logBytes es ++ logBytes fs := by
  simp [logBytes]

def Framable (es : List Entry) : Prop := ∀ e ∈ es, e.encode.length < 2 ^ 32
  deriving Decidable

variable {es : List Entry}

theorem Framable.verified (h : Framable es) : Verified (es.map Entry.encode) es := by
  induction es with
  | nil => exact List.Forall₂.nil
  | cons e es ih =>
    have he := h e mem_cons_self
    have hd := decodeEntry_append (Entry.narrow_of_length he) []
    rw [append_nil] at hd
    exact .cons ⟨he, hd⟩ (ih fun f hf => h f (mem_cons_of_mem e hf))

theorem Verified.framable {ps : List (List UInt8)} (h : Verified ps es) : Framable es := by
  induction h with
  | nil => simp [Framable]
  | @cons p e ps es hpe _ ih =>
    intro f hf
    rcases mem_cons.mp hf with rfl | hf
    · exact lt_of_le_of_lt (decodeEntry_length_le hpe.2) hpe.1
    · exact ih f hf

section Replay
variable {σ : Type} {apply : σ → Entry → Result σ} {fileLen pos : Nat} {reader : List UInt8} (s : σ)
variable {es : List Entry}

theorem replay_eq : replay apply fileLen s reader pos = match readOneRecord reader pos fileLen with
    | .ok (.ok entry nextPos, rest) =>
      apply s entry >>= fun s' => replay apply fileLen s' rest nextPos
    | .ok (.tornTail, _) => .ok (s, pos)
    | .err e => .err e
    | .panic => .panic := by
  rw [replay]
  split <;> rename_i h <;> simp only [h]

theorem replay_torn {r : List UInt8} (h : readOneRecord reader pos fileLen = .ok (.tornTail, r)) :
    replay apply fileLen s reader pos = .ok (s, pos) := by
  rw [replay_eq, h]

theorem replay_frames {ps : List (List UInt8)} (h : Verified ps es) (tail : List UInt8) (s : σ)
    (pos : Nat) :
    replay apply (pos + (frames ps ++ tail).length) s (frames ps ++ tail) pos =
      es.foldlM apply s >>= fun s' =>
        replay apply (pos + (frames ps ++ tail).length) s' tail (pos + (frames ps).length) := by
  induction h generalizing s pos with
  | nil => simp
  | @cons p e ps es hpe _ ih =>
    have hread := readOneRecord_frame hpe.1 (frames ps ++ tail) pos
    rw [hpe.2, ok_bind, ← append_assoc] at hread
    rw [frames_cons, replay_eq]
    simp only [hread, foldlM_cons, bind_assoc]
    congr 1
    funext s'
    rw [append_assoc, end_frame, end_frame]
    exact ih s' (pos + 8 + p.length)

/-- Whatever replay accepts is a chain of verified records, stopped by a torn tail. -/
theorem replay_eq_ok {s s' : σ} {pos' : Nat} {reader : List UInt8}
    (h : replay apply (pos + reader.length) s reader pos = .ok (s', pos')) :
    ∃ ps es tail r, Verified ps es ∧ reader = frames ps ++ tail ∧ es.foldlM apply s = .ok s' ∧
      pos' = pos + (frames ps).length ∧
      readOneRecord tail pos' (pos' + tail.length) = .ok (.tornTail, r) := by
  induction hn : reader.length using Nat.strongRecOn generalizing reader s pos with
  | ind n ih =>
    subst hn
    rw [replay_eq] at h
    cases hread : readOneRecord reader pos (pos + reader.length) with
    | err x => simp [hread] at h
    | panic => simp [hread] at h
    | ok p =>
      obtain ⟨res, rest⟩ := p
      cases res with
      | tornTail =>
        simp only [hread, ok.injEq, Prod.mk.injEq] at h
        obtain ⟨rfl, rfl⟩ := h
        exact ⟨[], [], reader, rest, .nil, by simp, by simp, by simp, hread⟩
      | ok e next =>
        obtain ⟨payload, hlt, hdec, rfl, rfl⟩ := readOneRecord_eq_ok hread
        simp only [hread] at h
        obtain ⟨s₁, hs₁, h⟩ := bind_eq_ok.mp h
        rw [end_frame] at h
        obtain ⟨ps, es, tail, r, hv, rfl, hfold, rfl, htorn⟩ :=
          ih rest.length (by simp only [length_append, frameRecord_length]; omega) h rfl
        refine ⟨payload :: ps, e :: es, tail, r, .cons ⟨hlt, hdec⟩ hv, by simp, ?_, ?_, htorn⟩
        · rw [foldlM_cons, hs₁, ok_bind, hfold]
        · rw [frames_cons, end_frame]

/-- A record too long for its header is never replayed, nor is anything behind it. -/
theorem replay_oversized (hes : ∀ e ∈ es, e.Narrow) (h : ¬ Framable es) (s : σ) (pos : Nat)
    (out : σ × Nat) : replay apply (pos + (logBytes es).length) s (logBytes es) pos ≠ .ok out := by
  induction es generalizing s pos with
  | nil => exact absurd (fun e he => by cases he) h
  | cons e es ih =>
    have he := hes e mem_cons_self
    rw [replay_eq, logBytes_cons]
    rcases Nat.lt_or_ge e.encode.length (2 ^ 32) with hlt | hge
    · have hrest : ¬ Framable es := fun hes' => h fun f hf =>
        (mem_cons.mp hf).elim (fun heq => heq ▸ hlt) (hes' f)
      have hdec : decodeEntry e.encode = .ok e := by
        simpa only [append_nil] using decodeEntry_append he []
      rw [readOneRecord_frame hlt, hdec, ok_bind, end_frame]
      intro hout
      obtain ⟨s', -, hout⟩ := bind_eq_ok.mp hout
      exact ih (fun f hf => hes f (mem_cons_of_mem e hf)) hrest s' _ hout
    · obtain ⟨x, hx⟩ := readOneRecord_oversized he hge (logBytes es) pos
      rw [hx]
      simp

end Replay

section Open
variable {σ : Type} {apply : σ → Entry → Result σ} (init : σ)
variable {es : List Entry} {tail bytes file : List UInt8} {s : σ} {ps : List (List UInt8)}

theorem open_frames {ps : List (List UInt8)} {es : List Entry} (hv : Verified ps es)
    {tail r : List UInt8}
    (ht : readOneRecord tail (frames ps).length ((frames ps).length + tail.length) =
      .ok (.tornTail, r)) :
    Log.open apply init (some (frames ps ++ tail)) =
      es.foldlM apply init >>= fun s => .ok (s, frames ps) := by
  have hr : replay apply (0 + (frames ps ++ tail).length) init (frames ps ++ tail) 0 =
      es.foldlM apply init >>= fun s =>
        replay apply (0 + (frames ps ++ tail).length) s tail (0 + (frames ps).length) :=
    replay_frames hv tail init 0
  simp only [Nat.zero_add] at hr
  have hlen : (frames ps ++ tail).length = (frames ps).length + tail.length := length_append
  have hcut : (if (frames ps).length < (frames ps ++ tail).length
      then (frames ps ++ tail).take (frames ps).length else frames ps ++ tail) = frames ps := by
    split
    · exact take_left
    · have hnil : tail = [] := length_eq_zero_iff.mp (by omega)
      rw [hnil, append_nil]
  simp only [Log.open, hr, bind_assoc]
  congr 1
  funext s
  rw [hlen, replay_torn s ht, ok_bind, ← hlen]
  exact congrArg (fun file => ok (s, file)) hcut

/-- Opening succeeds on verified records with a torn tail only, and cuts the tail off. -/
theorem open_eq_ok_torn (h : Log.open apply init (some bytes) = .ok (s, file)) :
    ∃ ps es tail r, Verified ps es ∧ file = frames ps ∧ bytes = file ++ tail ∧
      es.foldlM apply init = .ok s ∧
      readOneRecord tail (frames ps).length ((frames ps).length + tail.length) =
        .ok (.tornTail, r) := by
  obtain ⟨⟨s', pos'⟩, hr, heq⟩ := bind_eq_ok.mp h
  rw [← Nat.zero_add bytes.length] at hr
  obtain ⟨ps, es, tail, r, hv, rfl, hfold, rfl, htorn⟩ := replay_eq_ok hr
  rw [Nat.zero_add] at htorn
  rw [open_frames init hv htorn, hfold] at h
  cases h
  exact ⟨ps, es, tail, r, hv, rfl, rfl, hfold, htorn⟩

/-- A log that opens is cut to the whole records it begins with, and these are replayed. -/
theorem open_eq_ok (h : Log.open apply init (some bytes) = .ok (s, file)) :
    ∃ ps es, Verified ps es ∧ file = frames ps ∧ file <+: bytes ∧ es.foldlM apply init = .ok s := by
  obtain ⟨ps, es, tail, r, hv, hfile, rfl, hfold, -⟩ := open_eq_ok_torn init h
  exact ⟨ps, es, hv, hfile, prefix_append file tail, hfold⟩

theorem open_oversized_ne_ok (hes : ∀ e ∈ es, e.Narrow) (h : ¬ Framable es) (out : σ × List UInt8) :
    Log.open apply init (some (logBytes es)) ≠ .ok out := by
  intro hout
  obtain ⟨r, hr, -⟩ := bind_eq_ok.mp hout
  rw [← Nat.zero_add (logBytes es).length] at hr
  exact replay_oversized hes h init 0 r hr

/-- A proper part of a record that fits its header, as an interrupted write leaves it. -/
def TornTail (tail : List UInt8) : Prop :=
  ∃ payload, payload.length < 2 ^ 32 ∧ ∃ n < (frameRecord payload).length,
    tail = (frameRecord payload).take n

theorem tornTail_nil : TornTail [] := ⟨[], by decide, 0, by simp, rfl⟩

theorem TornTail.read (h : TornTail tail) (pos : Nat) :
    ∃ r, readOneRecord tail pos (pos + tail.length) = .ok (.tornTail, r) := by
  obtain ⟨payload, hlen, n, hn, rfl⟩ := h
  rw [length_take, Nat.min_eq_left (Nat.le_of_lt hn)]
  rw [frameRecord_length] at hn
  exact readOneRecord_torn hlen hn pos

theorem open_verified_torn (hv : Verified ps es) (ht : TornTail tail) :
    Log.open apply init (some (frames ps ++ tail)) =
      es.foldlM apply init >>= fun s => .ok (s, frames ps) :=
  (ht.read (frames ps).length).elim fun _ hr => open_frames init hv hr

/-- Whole records open to their replay, and nothing is cut off. -/
theorem open_verified (hv : Verified ps es) :
    Log.open apply init (some (frames ps)) = es.foldlM apply init >>= fun s => .ok (s, frames ps) := by
  have htorn : Log.open apply init (some (frames ps ++ [])) =
      es.foldlM apply init >>= fun s => .ok (s, frames ps) :=
    open_verified_torn init hv tornTail_nil
  rwa [append_nil] at htorn

theorem open_logBytes (h : Framable es) : Log.open apply init (some (logBytes es)) =
      es.foldlM apply init >>= fun s => .ok (s, logBytes es) :=
  open_verified init h.verified

theorem open_open (h : Log.open apply init (some bytes) = .ok (s, file)) :
    Log.open apply init (some file) = .ok (s, file) := by
  obtain ⟨ps, es, hv, rfl, -, hfold⟩ := open_eq_ok init h
  rw [open_verified init hv, hfold, ok_bind]

def recording (apply : σ → Entry → Result σ) (seen : σ × List Entry) (e : Entry) :
    Result (σ × List Entry) := do
  let s ← apply seen.1 e
  pure (s, seen.2 ++ [e])

theorem foldlM_recording {s' : σ} (h : es.foldlM apply s = .ok s') (seen : List Entry) :
    es.foldlM (recording apply) (s, seen) = .ok (s', seen ++ es) := by
  induction es generalizing s seen with
  | nil =>
    cases h
    rw [append_nil]
    rfl
  | cons e es ih =>
    obtain ⟨s₁, hs₁, hrest⟩ := bind_eq_ok.mp h
    rw [foldlM_cons, recording, hs₁, ok_bind, pure_eq, ok_bind,
      ih hrest, append_assoc, singleton_append]

/-- Whatever a file contains: if it can be opened, both openings are given the records of the part
that is kept, in order, and the second changes nothing. -/
theorem open_idempotent {bytes file : List UInt8} {s : σ}
    (h : Log.open apply init (some bytes) = .ok (s, file)) :
    ∃ payloads entries tail, bytes = file ++ tail ∧ file = frames payloads ∧
      Verified payloads entries ∧
      Log.open (recording apply) (init, []) (some bytes) = .ok ((s, entries), file) ∧
      Log.open (recording apply) (init, []) (some file) = .ok ((s, entries), file) := by
  obtain ⟨payloads, entries, tail, r, hv, rfl, rfl, hfold, htorn⟩ := open_eq_ok_torn init h
  have hrecord := foldlM_recording hfold []
  refine ⟨payloads, entries, tail, rfl, rfl, hv, ?_, ?_⟩
  · rw [open_frames _ hv htorn, hrecord, ok_bind, nil_append]
  · rw [open_verified _ hv, hrecord, ok_bind, nil_append]

/-- One record followed by three bytes that no writer left. -/
theorem open_idempotent_garbage : ∃ payloads entries tail,
      logBytes [.createDatabase "a"] ++ [1, 2, 3] = logBytes [.createDatabase "a"] ++ tail ∧
      logBytes [.createDatabase "a"] = frames payloads ∧ Verified payloads entries ∧
      Log.open (recording fun n _ => .ok (n + 1)) (0, [])
        (some (logBytes [.createDatabase "a"] ++ [1, 2, 3])) =
          .ok ((1, entries), logBytes [.createDatabase "a"]) ∧
      Log.open (recording fun n _ => .ok (n + 1)) (0, [])
        (some (logBytes [.createDatabase "a"])) =
          .ok ((1, entries), logBytes [.createDatabase "a"]) := by
  have hframable : Framable [.createDatabase "a"] := by decide
  have htorn : readOneRecord [1, 2, 3] (frames [(Entry.createDatabase "a").encode]).length
      ((frames [(Entry.createDatabase "a").encode]).length + 3) = .ok (.tornTail, []) := by
    decide +kernel
  exact open_idempotent 0 (open_frames 0 hframable.verified htorn)

/-- A cut log consists of the records that lie entirely inside it and a torn tail. -/
theorem logBytes_cut (h : Framable es) {p : List UInt8} (hp : p <+: logBytes es) :
    ∃ done rest tail, es = done ++ rest ∧ p = logBytes done ++ tail ∧ TornTail tail ∧
      ∀ e ∈ rest.head?, tail.length < (frameRecord e.encode).length := by
  have hflat : ∀ fs : List Entry, logBytes fs = fs.flatMap fun e => frameRecord e.encode :=
    fun fs => flatMap_map Entry.encode frameRecord fs
  rw [hflat] at hp
  rcases Chunks.cut_chunk _ hp with rfl | ⟨done, e, rest, n, hn, rfl, rfl⟩
  · exact ⟨es, [], [], by simp, by simp [hflat], tornTail_nil, by simp⟩
  · refine ⟨done, e :: rest, (frameRecord e.encode).take n, rfl, by rw [hflat],
      ⟨e.encode, h e (by simp), n, hn, rfl⟩, ?_⟩
    intro e' he'
    cases he'
    rw [length_take]
    omega

/-- The records inside a cut log are those of its longest prefix of whole frames. -/
theorem logBytes_take_length_le {done rest : List Entry}
    (htail : ∀ e ∈ rest.head?, tail.length < (frameRecord e.encode).length) {j : Nat}
    (hj : j ≤ (done ++ rest).length) :
    (logBytes ((done ++ rest).take j)).length ≤ (logBytes done ++ tail).length ↔
      j ≤ done.length := by
  rw [take_append, logBytes_append, length_append, length_append]
  constructor
  · intro hle
    by_contra hlt
    obtain ⟨n, hn⟩ : ∃ n, j - done.length = n + 1 := ⟨j - done.length - 1, by omega⟩
    rw [take_of_length_le (by omega), hn] at hle
    cases rest with
    | nil =>
      rw [append_nil] at hj
      omega
    | cons e rest =>
      have := htail e rfl
      rw [take_succ_cons, logBytes_cons, length_append] at hle
      omega
  · intro hle
    have hsplit : logBytes done = logBytes (done.take j) ++ logBytes (done.drop j) := by
      rw [← logBytes_append, take_append_drop]
    rw [Nat.sub_eq_zero_of_le hle, take_zero, logBytes_nil, length_nil, hsplit, length_append]
    omega

/-- Torn-tail recovery: a log cut at any byte opens to the entries whose frames lie entirely
inside the cut, is truncated to these, and takes further records behind them. -/
theorem open_cutLog (apply : σ → Entry → σ) {es more : List Entry} (hes : Framable es)
    (hmore : Framable more) {p : List UInt8} (hp : p <+: logBytes es) :
    ∃ k ≤ es.length, (∀ j ≤ es.length, (logBytes (es.take j)).length ≤ p.length ↔ j ≤ k) ∧
      Log.open (fun s e => .ok (apply s e)) init (some p) =
        .ok ((es.take k).foldl apply init, logBytes (es.take k)) ∧
      Log.open (fun s e => .ok (apply s e)) init (some (logBytes (es.take k) ++ logBytes more)) =
        .ok ((es.take k ++ more).foldl apply init, logBytes (es.take k) ++ logBytes more) := by
  obtain ⟨done, rest, tail, rfl, rfl, htorn, htail⟩ := logBytes_cut hes hp
  have hdone : Framable done := fun e he => hes e (mem_append_left rest he)
  have hboth : Framable (done ++ more) :=
    fun e he => (mem_append.mp he).elim (hdone e) (hmore e)
  have hfold : ∀ fs : List Entry, fs.foldlM (fun s e => (.ok (apply s e) : Result σ)) init =
      .ok (fs.foldl apply init) := fun fs => foldlM_pure
  refine ⟨done.length, by simp, fun j hj => logBytes_take_length_le htail hj, ?_, ?_⟩
  · rw [take_left, logBytes, open_verified_torn init hdone.verified htorn, hfold, ok_bind]
  · rw [take_left, ← logBytes_append, open_logBytes init hboth, hfold, ok_bind]

/-- Two databases created, the file cut one byte short, a third one created afterwards. -/
theorem open_cutLog_databases : Log.open (fun s e => .ok (s ++ [e])) []
        (some ((logBytes [.createDatabase "a", .createDatabase "b"]).take 27)) =
      .ok ([.createDatabase "a"], logBytes [.createDatabase "a"]) ∧
    Log.open (fun s e => .ok (s ++ [e])) []
        (some (logBytes [.createDatabase "a"] ++ logBytes [.createDatabase "c"])) =
      .ok ([.createDatabase "a", .createDatabase "c"],
        logBytes [.createDatabase "a"] ++ logBytes [.createDatabase "c"]) := by
  have hes : Framable [.createDatabase "a", .createDatabase "b"] := by decide
  have hc : Framable [.createDatabase "c"] := by decide
  obtain ⟨k, hk, hj, hcut, hmore⟩ := open_cutLog [] (fun s e => s ++ [e]) hes hc
    ( take_prefix 27 _)
  have h1 : 1 ≤ k := (hj 1 (by decide)).mp (by decide)
  have h2 : ¬ 2 ≤ k := fun h => absurd ((hj 2 (by decide)).mpr h) (by decide)
  obtain rfl : k = 1 := by omega
  exact ⟨hcut, hmore⟩

end Open

end MysqlRust
