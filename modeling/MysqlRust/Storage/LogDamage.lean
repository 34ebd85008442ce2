import MysqlRust.Storage.LogOpen

/-! # A damaged byte in the middle of the log

Damage to a checksum or a payload is always noticed. Damage to a length field is judged by the
damaged length itself: one that reaches the end of the file turns every record behind it into a
torn tail.
-/
namespace MysqlRust

open Outcome List

inductive Refused : List UInt8 → Prop
  | checksum {len crc : UInt32} {body : List UInt8} (hlen : len.toNat < body.length)
      (hcrc : recordCrc len (body.take len.toNat) ≠ crc) :
      Refused (writeU32 len ++ (writeU32 crc ++ body))
  | undecodable {payload : List UInt8} {x : Error} (hlen : payload.length < 2 ^ 32)
      (hdec : decodeEntry payload = .err x) (rest : List UInt8) :
      Refused (frameRecord payload ++ rest)
  | behind {payload rest : List UInt8} {e : Entry} (hlen : payload.length < 2 ^ 32)
      (hdec : decodeEntry payload = .ok e) (h : Refused rest) :
      Refused (frameRecord payload ++ rest)

section
variable {pos : Nat} {x : Error}
variable {reader : List UInt8}

theorem readOneRecord_eq_err (h : readOneRecord reader pos (pos + reader.length) = .err x) :
    Refused reader := by
  by_cases h8 : 8 ≤ reader.length
  · obtain ⟨len, crc, body, rfl⟩ := exists_header h8
    rw [end_header, readOneRecord_header] at h
    split at h
    · simp at h
    · split at h
      · split at h
        · simp at h
        · rename_i hle hcrc hend
          exact .checksum (by omega) hcrc
      · rename_i hle hcrc
        rw [← not_not.mp hcrc, header_eq_frameRecord (Nat.le_of_not_lt hle)]
        cases hdec : decodeEntry (body.take len.toNat) with
        | ok e => simp [hdec] at h
        | panic => simp [hdec] at h
        | err x =>
          have htake : (body.take len.toNat).length < 2 ^ 32 := by
            rw [length_take]
            have := len.toNat_lt
            omega
          exact .undecodable htake hdec _
  · simp [readOneRecord, readExactOrEof, h8] at h

theorem readOneRecord_ne_panic (reader : List UInt8) (pos fileLen : Nat) :
    readOneRecord reader pos fileLen ≠ .panic := by
  unfold readOneRecord
  split
  · simp
  · dsimp only
    split
    · simp
    · split
      · simp
      · split
        · split <;> simp
        · exact bind_ne_panic (decodeEntry_ne_panic _) (by simp)

variable {σ : Type} (apply : σ → Entry → σ)

theorem replay_eq_err {s : σ}
    (h : replay (fun s e => .ok (apply s e)) (pos + reader.length) s reader pos = .err x) :
    Refused reader := by
  induction hn : reader.length using Nat.strongRecOn generalizing reader s pos with
  | ind n ih =>
    subst hn
    rw [replay_eq] at h
    cases hread : readOneRecord reader pos (pos + reader.length) with
    | err y => exact readOneRecord_eq_err hread
    | panic => exact absurd hread (readOneRecord_ne_panic _ _ _)
    | ok p =>
      obtain ⟨res, rest⟩ := p
      cases res with
      | tornTail => simp [hread] at h
      | ok e next =>
        obtain ⟨payload, hlt, hdec, rfl, rfl⟩ := readOneRecord_eq_ok hread
        simp only [hread, ok_bind] at h
        rw [end_frame] at h
        exact .behind hlt hdec
          (ih rest.length (by simp only [length_append, frameRecord_length]; omega) h rfl)

theorem Refused.replay (h : Refused reader) (pos : Nat) (s : σ) :
    ∃ x, replay (fun s e => .ok (apply s e)) (pos + reader.length) s reader pos = .err x := by
  induction h generalizing pos s with
  | @checksum len crc body hlen hcrc =>
    rw [end_header, replay_eq, readOneRecord_header, if_neg (by omega), if_pos hcrc,
      if_neg (by omega)]
    exact ⟨_, rfl⟩
  | @undecodable payload x hlen hdec rest =>
    refine ⟨x, ?_⟩
    rw [replay_eq, readOneRecord_frame hlen, hdec, err_bind]
  | @behind payload rest e hlen hdec _ ih =>
    obtain ⟨x, hx⟩ := ih (pos + 8 + payload.length) (apply s e)
    refine ⟨x, ?_⟩
    rw [replay_eq, readOneRecord_frame hlen, hdec, ok_bind, end_frame]
    simp only [ok_bind, hx]

theorem open_eq_err_iff (init : σ) {bytes : List UInt8} :
    (∃ x, Log.open (fun s e => .ok (apply s e)) init (some bytes) = .err x) ↔ Refused bytes := by
  have hopen : ∀ x, Log.open (fun s e => .ok (apply s e)) init (some bytes) = .err x ↔
      replay (fun s e => .ok (apply s e)) (0 + bytes.length) init bytes 0 = .err x := by
    intro x
    rw [Nat.zero_add]
    exact bind_ok_eq_err
  simp only [hopen]
  exact ⟨fun ⟨x, hx⟩ => replay_eq_err apply hx, fun h => h.replay apply 0 init⟩

/-- Refusal does not depend on what is replayed, so it can be computed with no state at all. -/
theorem refused_iff_replay (bytes : List UInt8) (pos : Nat) : Refused bytes ↔
      ∃ x, replay (fun _ _ => .ok ()) (pos + bytes.length) () bytes pos = .err x := by
  constructor
  · intro h
    exact h.replay (fun _ _ => ()) pos ()
  · rintro ⟨x, hx⟩
    exact replay_eq_err (fun _ _ => ()) hx

theorem refused_iff_read (bytes : List UInt8) (pos : Nat) : Refused bytes ↔
      match readOneRecord bytes pos (pos + bytes.length) with
      | .ok (.ok _ _, rest) => Refused rest
      | .ok (.tornTail, _) => False
      | .err _ => True
      | .panic => False := by
  rw [refused_iff_replay bytes pos, replay_eq]
  cases hread : readOneRecord bytes pos (pos + bytes.length) with
  | err x => simp
  | panic => simp
  | ok p =>
    obtain ⟨res, rest⟩ := p
    cases res with
    | tornTail => simp
    | ok e next =>
      obtain ⟨payload, -, -, rfl, rfl⟩ := readOneRecord_eq_ok hread
      rw [end_frame]
      exact (refused_iff_replay rest (pos + 8 + payload.length)).symm

theorem not_refused_nil : ¬ Refused [] := by
  simp [refused_iff_read [] 0, readOneRecord, readExactOrEof]

theorem refused_frames_iff {ps : List (List UInt8)} {es : List Entry} (hv : Verified ps es)
    (rest : List UInt8) : Refused (frames ps ++ rest) ↔ Refused rest := by
  have hfold : ∀ s : Unit, es.foldlM (fun _ _ => (.ok () : Result Unit)) s = .ok () :=
    fun s => foldlM_pure
  rw [refused_iff_replay _ 0, replay_frames hv, hfold, ok_bind, length_append,
    ← Nat.add_assoc, ← refused_iff_replay]

theorem refused_header_iff {len crc : UInt32} {body : List UInt8} {e : Entry}
    (hlen : len.toNat ≤ body.length) (hdec : decodeEntry (body.take len.toNat) = .ok e) :
    Refused (writeU32 len ++ (writeU32 crc ++ body)) ↔ len.toNat < body.length ∧
      (recordCrc len (body.take len.toNat) ≠ crc ∨ Refused (body.drop len.toNat)) := by
  rw [refused_iff_read _ 0, end_header, readOneRecord_header, hdec, if_neg (by omega)]
  by_cases hcrc : recordCrc len (body.take len.toNat) = crc
  · rcases Nat.lt_or_eq_of_le hlen with hlt | heq
    · simp [hcrc, hlt]
    · simp [hcrc, heq.ge, not_refused_nil, drop_eq_nil_of_le]
  · rcases Nat.lt_or_eq_of_le hlen with hlt | heq
    · simp [hcrc, hlt, hlt.ne]
    · simp [hcrc, if_pos heq, heq.ge]

variable {i : Nat} {b : UInt8} {payload : List UInt8}

theorem set_ne_self {bytes : List UInt8} (hi : i < bytes.length) (hb : b ≠ bytes[i]) :
    bytes.set i b ≠ bytes := by
  intro h
  have hget := congrArg (·[i]?) h
  simp only [getElem?_set_self hi, getElem?_eq_getElem hi, Option.some.injEq] at hget
  exact hb hget

theorem recordCrc_block_ne (len : UInt32) {before old new : List UInt8}
    (hlen : new.length = old.length) (hfour : old.length ≤ 4) (hne : new ≠ old)
    (behind : List UInt8) :
    recordCrc len (before ++ (new ++ behind)) ≠ recordCrc len (before ++ (old ++ behind)) := by
  intro h
  have hrun := congrArg (fun c : UInt32 => ~~~c.toBitVec) h
  simp only [recordCrc, crc32, BitVec.not_not] at hrun
  rw [← append_assoc, ← append_assoc (writeU32 len)] at hrun
  have hpoly : crcPoly.msb = true := by decide
  exact Crc.run_block_ne hpoly _ hlen (by omega) hne behind hrun

/-- The payload is changed within four consecutive bytes. -/
structure Burst (payload payload' : List UInt8) (start : Nat) : Prop where
  length_eq : payload'.length = payload.length
  ne : payload' ≠ payload
  window : ∀ i, payload'[i]? ≠ payload[i]? → start ≤ i ∧ i < start + 4

theorem Burst.recordCrc_ne {payload' : List UInt8} {start : Nat} (h : Burst payload payload' start)
    (len : UInt32) : recordCrc len payload' ≠ recordCrc len payload := by
  have hsplit : ∀ l : List UInt8,
      l = l.take start ++ ((l.drop start).take 4 ++ l.drop (start + 4)) := by
    intro l
    rw [← drop_drop, take_append_drop, take_append_drop]
  have hbefore : payload'.take start = payload.take start := by
    apply ext_getElem?
    intro i
    by_cases hi : i < start
    · rw [getElem?_take_of_lt hi, getElem?_take_of_lt hi]
      by_contra hne
      exact absurd (h.window i hne).1 (Nat.not_le.mpr hi)
    · rw [getElem?_take_eq_none (Nat.not_lt.mp hi), getElem?_take_eq_none (Nat.not_lt.mp hi)]
  have hbehind : payload'.drop (start + 4) = payload.drop (start + 4) := by
    apply ext_getElem?
    intro i
    rw [getElem?_drop, getElem?_drop]
    by_contra hne
    have := (h.window _ hne).2
    omega
  have hne : (payload'.drop start).take 4 ≠ (payload.drop start).take 4 := by
    intro heq
    apply h.ne
    rw [hsplit payload', hsplit payload, hbefore, heq, hbehind]
  rw [hsplit payload', hsplit payload, hbefore, hbehind]
  refine recordCrc_block_ne len ?_ (length_take_le 4 _) hne _
  rw [length_take, length_take, length_drop, length_drop, h.length_eq]

/-- A record's checksum notices any one changed payload byte. -/
theorem recordCrc_set_ne (len : UInt32) (hi : i < payload.length) (hb : b ≠ payload[i]) :
    recordCrc len (payload.set i b) ≠ recordCrc len payload := by
  have hburst : Burst payload (payload.set i b) i := by
    refine ⟨length_set, set_ne_self hi hb, fun j hj => ?_⟩
    rcases eq_or_ne i j with rfl | hij
    · omega
    · exact absurd (getElem?_set_ne hij) hj
  exact hburst.recordCrc_ne len

inductive ShortDamage (payload : List UInt8) (crc : UInt32) : List UInt8 → UInt32 → Prop
  | payload {payload' : List UInt8} {start : Nat} (h : Burst payload payload' start) :
      ShortDamage payload crc payload' crc
  | checksum {crc' : UInt32} (h : crc' ≠ crc) : ShortDamage payload crc payload crc'

/-- The checksum finds every short damage, also one to itself. -/
theorem recordCrc_of_shortDamage (len : UInt32) {payload payload' : List UInt8} {crc' : UInt32}
    (h : ShortDamage payload (recordCrc len payload) payload' crc') :
    recordCrc len payload' ≠ crc' := by
  cases h with
  | payload hburst => exact hburst.recordCrc_ne len
  | checksum hne => exact hne.symm

/-- Two bytes of five changed, with an unchanged one between them. -/
theorem recordCrc_of_shortDamage_five :
    recordCrc 5 [1, 9, 3, 8, 5] ≠ recordCrc 5 [1, 2, 3, 4, 5] := by
  have hburst : Burst [1, 2, 3, 4, 5] [1, 9, 3, 8, 5] 1 := by
    refine ⟨rfl, by decide, fun i hi => ?_⟩
    rcases i with _ | _ | _ | _ | i
    · exact absurd rfl hi
    · omega
    · omega
    · omega
    · exact absurd rfl hi
  exact recordCrc_of_shortDamage 5 (.payload hburst)

/-- A changed byte changes the length, or the checksum no longer fits. -/
theorem frameRecord_set (payload : List UInt8) (hi : i < (frameRecord payload).length)
    (hb : b ≠ (frameRecord payload)[i]) : let len := UInt32.ofNat payload.length
    let crc := recordCrc len payload
    (i < 4 ∧ ∃ len', len' ≠ len ∧
      (frameRecord payload).set i b = writeU32 len' ++ (writeU32 crc ++ payload)) ∨
    (4 ≤ i ∧ ∃ crc' payload', payload'.length = payload.length ∧ recordCrc len payload' ≠ crc' ∧
      (frameRecord payload).set i b = writeU32 len ++ (writeU32 crc' ++ payload')) := by
  intro len crc
  have hframe : frameRecord payload = writeU32 len ++ (writeU32 crc ++ payload) := rfl
  simp only [hframe] at hi hb ⊢
  rcases Nat.lt_or_ge i 4 with h4 | h4
  · have hin : i < (writeU32 len).length := by simpa using h4
    rw [getElem_append_left hin] at hb
    obtain ⟨len', hlen'⟩ : ∃ len', writeU32 len' = (writeU32 len).set i b :=
      exists_writeU32 (by simp)
    refine .inl ⟨h4, len', ?_, by rw [set_append_left _ _ hin, hlen']⟩
    rintro rfl
    exact set_ne_self hin hb hlen'.symm
  · rw [getElem_append_right (by simpa using h4)] at hb
    simp only [writeU32_length] at hb
    rw [set_append_right _ _ (by simpa using h4), writeU32_length]
    refine .inr ⟨h4, ?_⟩
    rcases Nat.lt_or_ge i 8 with h8 | h8
    · have hin : i - 4 < (writeU32 crc).length := by
        rw [writeU32_length]
        omega
      rw [getElem_append_left hin] at hb
      obtain ⟨crc', hcrc'⟩ : ∃ crc', writeU32 crc' = (writeU32 crc).set (i - 4) b :=
        exists_writeU32 (by simp)
      refine ⟨crc', payload, rfl, ?_, by rw [set_append_left _ _ hin, hcrc']⟩
      rintro rfl
      exact set_ne_self hin hb hcrc'.symm
    · have hout : (writeU32 crc).length ≤ i - 4 := by
        rw [writeU32_length]
        omega
      rw [getElem_append_right hout] at hb
      refine ⟨crc, payload.set (i - 4 - 4) b, by simp, recordCrc_set_ne len ?_ ?_, ?_⟩
      · simp only [length_append, writeU32_length] at hi
        omega
      · simpa using hb
      · rw [set_append_right _ _ hout, writeU32_length]

/-- When byte `b` written over offset `i` of the record of `e`, with the records of `post`
behind it, is noticed: always outside the length field; inside it when the announced record
ends before the true one does, or ends before the file does and does not pass for a record
with readable bytes behind it. -/
def DamageNoticed (e : Entry) (post : List Entry) (i : Nat) (b : UInt8) : Prop :=
  let len := headerLen ((frameRecord e.encode).set i b)
  let body := e.encode ++ logBytes post
  4 ≤ i ∨ len.toNat < e.encode.length ∨ len.toNat < body.length ∧
    (recordCrc len (body.take len.toNat) ≠ recordCrc (UInt32.ofNat e.encode.length) e.encode ∨
      Refused (body.drop len.toNat))

/-- Damage behind the length field fails the checksum while more records follow. -/
theorem refused_of_four_le {e : Entry} (he : e.encode.length < 2 ^ 32) {crc : UInt32}
    {rest : List UInt8} (hlen : payload.length = e.encode.length) (hrest : rest ≠ [])
    (hcrc : recordCrc (UInt32.ofNat e.encode.length) payload ≠ crc) :
    Refused (writeU32 (UInt32.ofNat e.encode.length) ++ (writeU32 crc ++ (payload ++ rest))) := by
  have hn : (UInt32.ofNat e.encode.length).toNat = payload.length := by
    rw [hlen]
    exact UInt32.toNat_ofNat_of_lt' he
  have hpos := length_pos_iff.mpr hrest
  refine .checksum ?_ ?_
  · rw [hn, length_append]
    omega
  · rwa [hn, take_left]

/-- Damage to the length field is noticed by where the announced record ends. -/
theorem refused_length_iff {e : Entry} (he : e.encode.length < 2 ^ 32) {len : UInt32}
    (hne : len ≠ UInt32.ofNat e.encode.length) (crc : UInt32) (rest : List UInt8) :
    Refused (writeU32 len ++ (writeU32 crc ++ (e.encode ++ rest))) ↔
      len.toNat < e.encode.length ∨ len.toNat < (e.encode ++ rest).length ∧
        (recordCrc len ((e.encode ++ rest).take len.toNat) ≠ crc ∨
          Refused ((e.encode ++ rest).drop len.toNat)) := by
  have hnarrow := Entry.narrow_of_length he
  rcases Nat.lt_trichotomy len.toNat e.encode.length with hlt | heq | hgt
  · obtain ⟨x, hx⟩ := readOneRecord_shortened hnarrow crc hlt rest 0
    rw [← end_header len] at hx
    simp only [hlt, true_or, iff_true]
    exact readOneRecord_eq_err hx
  · exact absurd (by rw [← heq, UInt32.ofNat_toNat]) hne
  · have hdec : decodeEntry ((e.encode ++ rest).take len.toNat) = .ok e := by
      rw [take_append, take_of_length_le hgt.le]
      exact decodeEntry_append hnarrow _
    rcases Nat.lt_or_ge (e.encode ++ rest).length len.toNat with hbig | hle
    · rw [refused_iff_read _ 0, end_header, readOneRecord_header, if_pos hbig]
      exact iff_of_false id (by omega)
    · rw [refused_header_iff hle hdec]
      simp [Nat.not_lt.mpr hgt.le]

/-- One damaged byte in a record with further records behind it. -/
theorem open_damaged_eq_err_iff (apply : σ → Entry → σ) (init : σ) {pre post : List Entry}
    {e : Entry} (hlog : Framable (pre ++ e :: post)) (hpost : post ≠ []) {i : Nat} {b : UInt8}
    (hi : i < (frameRecord e.encode).length) (hb : b ≠ (frameRecord e.encode)[i]) :
    (∃ x, Log.open (fun s e => .ok (apply s e)) init
      (some (logBytes pre ++ ((frameRecord e.encode).set i b ++ logBytes post))) = .err x) ↔
      DamageNoticed e post i b := by
  have hpre : Framable pre := fun f hf => hlog f (mem_append_left _ hf)
  have he : e.encode.length < 2 ^ 32 := hlog e (by simp)
  have hrest : logBytes post ≠ [] := by
    obtain ⟨f, fs, rfl⟩ := exists_cons_of_ne_nil hpost
    exact ne_nil_of_length_pos (by simp)
  rw [open_eq_err_iff, logBytes, refused_frames_iff hpre.verified]
  rcases frameRecord_set e.encode hi hb with
    ⟨h4, len, hne, hset⟩ | ⟨h4, crc, payload, hlen, hcrc, hset⟩
  · rw [DamageNoticed, hset, headerLen_write, append_assoc, append_assoc, refused_length_iff he hne]
    simp [Nat.not_le.mpr h4]
  · rw [DamageNoticed, hset, append_assoc, append_assoc]
    exact iff_of_true (refused_of_four_le he hlen hrest hcrc) (.inl h4)

/-- The name of the first of two databases damaged. -/
theorem open_damaged_name : ∃ x, Log.open (fun s e => .ok (s ++ [e])) [] (some (logBytes [] ++
      ((frameRecord (Entry.createDatabase "a").encode).set 13 0x62 ++
        logBytes [.createDatabase "b"]))) = .err x := by
  have hlog : Framable ([] ++ .createDatabase "a" :: [.createDatabase "b"]) := by decide
  refine (open_damaged_eq_err_iff (fun s e => s ++ [e]) [] hlog (by decide) ?_ ?_).mpr
    (.inl (by decide))
  · decide
  · decide

/-- The high byte of the first of two length fields raised: the log opens successfully, with
no record left in the state or on disk. -/
theorem open_damaged_length : Log.open (fun s e => .ok (s ++ [e])) [] (some (logBytes [] ++
      ((frameRecord (Entry.createDatabase "a").encode).set 3 0xFF ++
        logBytes [.createDatabase "b"]))) = .ok ([], []) := by
  have h : readOneRecord ((frameRecord (Entry.createDatabase "a").encode).set 3 0xFF ++
      logBytes [.createDatabase "b"]) 0 28 = .ok (.tornTail, (Entry.createDatabase "a").encode ++
        logBytes [.createDatabase "b"]) := by decide +kernel
  rw [logBytes_nil, nil_append, Log.open, show List.length _ = 28 by decide, replay_torn [] h]
  rfl

end

end MysqlRust
