import MysqlRust.Foundation.Proc
import MysqlRust.Foundation.Runs

/-! # Messages in a stream that arrives in chunks

A receiver takes one message at a time off the front of its buffer and reads another chunk only
when the buffer holds no whole message. Messages are received as sent, however the stream was
cut. A call may be given up while it waits; what is in the buffer stays there.
-/
namespace Framing

open List Option

variable {β ε α : Type} {n : Nat}

/-- What one read delivers: something, and at most `n` items. -/
structure Chunk (β : Type) (n : Nat) where
  items : List β
  nonempty : items ≠ []
  fits : items.length ≤ n

structure Inbound (β : Type) (n : Nat) where
  buffer : List β
  unread : List (Chunk β n)

def Inbound.stream (s : Inbound β n) : List β := s.buffer ++ s.unread.flatMap Chunk.items

/-- `take` looks for a message at the front of the buffer and says how long it is. -/
def receiveFrom (take : List β → Outcome ε (Option (α × Nat))) (closed : ε) (buffer : List β)
    (unread : List (Chunk β n)) : Outcome ε α × Inbound β n :=
  match take buffer, unread with
  | .ok (some (a, consumed)), unread => (.ok a, ⟨buffer.drop consumed, unread⟩)
  | .ok none, [] => (.err closed, ⟨buffer, []⟩)
  | .ok none, chunk :: chunks => receiveFrom take closed (buffer ++ chunk.items) chunks
  | .err e, unread => (.err e, ⟨buffer, unread⟩)
  | .panic, unread => (.panic, ⟨buffer, unread⟩)

def receive (take : List β → Outcome ε (Option (α × Nat))) (closed : ε) : Proc (Inbound β n) ε α :=
  fun s => receiveFrom take closed s.buffer s.unread

def receiveMany (take : List β → Outcome ε (Option (α × Nat))) (closed : ε) :
    Nat → Proc (Inbound β n) ε (List α)
  | 0 => pure []
  | k + 1 => do
    let a ← receive take closed
    let as ← receiveMany take closed k
    pure (a :: as)

variable {take : List β → Outcome ε (Option (α × Nat))} {closed : ε}

/-- `enc` is taken for `a` whatever follows it, and a proper part of it is waited on. -/
structure Frames (take : List β → Outcome ε (Option (α × Nat))) (enc : List β) (a : α) : Prop where
  whole : ∀ rest, take (enc ++ rest) = .ok (some (a, enc.length))
  waits : ∀ part, part <+: enc → part ≠ enc → take part = .ok none

variable {a : α} {buffer rest : List β}

theorem receiveFrom_some {consumed : Nat} (h : take buffer = .ok (some (a, consumed)))
    (unread : List (Chunk β n)) :
    receiveFrom take closed buffer unread = (.ok a, ⟨buffer.drop consumed, unread⟩) := by
  unfold receiveFrom
  rw [h]

theorem receiveFrom_none (h : take buffer = .ok none) (chunk : Chunk β n)
    (chunks : List (Chunk β n)) : receiveFrom take closed buffer (chunk :: chunks) =
      receiveFrom take closed (buffer ++ chunk.items) chunks := by
  rw [receiveFrom.eq_def, h]

variable {enc : List β} {s : Inbound β n}

theorem receiveFrom_of_frames (h : Frames take enc a) {unread : List (Chunk β n)}
    (hstream : buffer ++ unread.flatMap Chunk.items = enc ++ rest) :
    ∃ s : Inbound β n, receiveFrom take closed buffer unread = (.ok a, s) ∧ s.stream = rest := by
  -- the buffer holds the whole message or a proper part of it; only then is a chunk read
  induction unread generalizing buffer with
  | nil =>
    have hbuffer : buffer = enc ++ rest := by simpa using hstream
    have htake := h.whole rest
    rw [← hbuffer] at htake
    refine ⟨_, receiveFrom_some htake [], ?_⟩
    simp [Inbound.stream, hbuffer]
  | cons chunk chunks ih =>
    rcases append_eq_append_iff.mp hstream with ⟨missing, henc, hchunks⟩ | ⟨extra, hbuffer, hrest⟩
    · by_cases hmissing : missing = []
      · have htake := h.whole []
        rw [append_nil, henc, hmissing, append_nil] at htake
        refine ⟨_, receiveFrom_some htake _, ?_⟩
        simpa [Inbound.stream, hmissing] using hchunks
      · have hpart : take buffer = .ok none := by
          refine h.waits buffer ⟨missing, henc.symm⟩ fun heq => hmissing ?_
          simpa [← heq] using henc
        have hnext : (buffer ++ chunk.items) ++ chunks.flatMap Chunk.items = enc ++ rest := by
          rw [append_assoc, ← flatMap_cons, hstream]
        rw [receiveFrom_none hpart]
        exact ih hnext
    · have htake := h.whole extra
      rw [← hbuffer] at htake
      refine ⟨_, receiveFrom_some htake _, ?_⟩
      simp [Inbound.stream, hbuffer, hrest]

theorem receive_of_frames (h : Frames take enc a) (hstream : s.stream = enc ++ rest) :
    ∃ s', receive take closed s = (.ok a, s') ∧ s'.stream = rest :=
  receiveFrom_of_frames h hstream

theorem receiveMany_of_frames {enc : α → List β} {messages : List α}
    (h : ∀ a ∈ messages, Frames take (enc a) a)
    (hstream : s.stream = messages.flatMap enc ++ rest) :
    ∃ s', receiveMany take closed messages.length s = (.ok messages, s') ∧ s'.stream = rest := by
  induction messages generalizing s with
  | nil => exact ⟨s, rfl, hstream⟩
  | cons a messages ih =>
    rw [flatMap_cons, append_assoc] at hstream
    obtain ⟨s₁, hfirst, hs₁⟩ := receive_of_frames (h a mem_cons_self) hstream
    obtain ⟨s₂, hrest, hs₂⟩ := ih (fun b hb => h b (mem_cons_of_mem a hb)) hs₁
    refine ⟨s₂, ?_, hs₂⟩
    rw [length_cons, receiveMany, Proc.bind_ok hfirst, Proc.bind_ok hrest]
    rfl

section

inductive Phase where
  | idle
  | looking
  | waiting
  deriving DecidableEq, Repr

structure Receiver (β ε α : Type) where
  buffer : List β
  phase : Phase
  returned : List (Outcome ε α)

inductive Event (β ε : Type) (n : Nat) where
  | call
  | look
  | arrive (chunk : Chunk β n)
  | fail (e : ε)
  | cancel
  | handOver

/-- A call looks at the buffer, and again after each chunk. Whoever waits may be told that the
stream has failed, or may be given up. Between two calls the buffer may be handed over. -/
def Receiver.step (take : List β → Outcome ε (Option (α × Nat))) (r : Receiver β ε α) :
    Event β ε n → Option (Receiver β ε α)
  | .call => if r.phase = .idle then some ⟨r.buffer, .looking, r.returned⟩ else none
  | .look =>
    if r.phase = .looking then
      match take r.buffer with
      | .ok (some (a, consumed)) => some ⟨r.buffer.drop consumed, .idle, .ok a :: r.returned⟩
      | .ok none => some ⟨r.buffer, .waiting, r.returned⟩
      | .err e => some ⟨r.buffer, .idle, .err e :: r.returned⟩
      | .panic => some ⟨r.buffer, .idle, .panic :: r.returned⟩
    else none
  | .arrive chunk =>
    if r.phase = .waiting then some ⟨r.buffer ++ chunk.items, .looking, r.returned⟩ else none
  | .fail e => if r.phase = .waiting then some ⟨r.buffer, .idle, .err e :: r.returned⟩ else none
  | .cancel => if r.phase = .waiting then some ⟨r.buffer, .idle, r.returned⟩ else none
  | .handOver => if r.phase = .idle then some ⟨[], .idle, r.returned⟩ else none

abbrev Receiver.Reach (n : Nat) (take : List β → Outcome ε (Option (α × Nat))) :
    Receiver β ε α → Receiver β ε α → Prop :=
  Runs.Reach (α := Event β ε n) (Receiver.step take) fun _ _ => True

variable {r r' : Receiver β ε α}
variable {bound : Nat} {P : α → Prop}

theorem Receiver.Reach.next (event : Event β ε n) (h : Receiver.step take r event = some r') :
    Reach n take r r' :=
  .single ⟨event, trivial, h⟩

/-- A call that is not given up is such a sequence. -/
theorem receiveFrom_reach (buffer : List β) (unread : List (Chunk β n))
    (returned : List (Outcome ε α)) :
    Receiver.Reach n take ⟨buffer, .looking, returned⟩
      ⟨(receiveFrom take closed buffer unread).2.buffer, .idle,
        (receiveFrom take closed buffer unread).1 :: returned⟩ := by
  have hlook : ∀ r, Receiver.step take ⟨buffer, .looking, returned⟩ (.look : Event β ε n) = some r →
      Receiver.Reach n take ⟨buffer, .looking, returned⟩ r := fun r => .next .look
  fun_induction receiveFrom take closed buffer unread with
  | case1 buffer unread a consumed htake => exact hlook _ (by simp [Receiver.step, htake])
  | case2 buffer htake =>
    refine (hlook ⟨buffer, .waiting, returned⟩ (by simp [Receiver.step, htake])).trans ?_
    exact Receiver.Reach.next (.fail closed) rfl
  | case3 buffer chunk chunks htake ih =>
    refine (hlook ⟨buffer, .waiting, returned⟩ (by simp [Receiver.step, htake])).trans ?_
    exact (Receiver.Reach.next (.arrive chunk) rfl).trans (ih fun r => .next .look)
  | case4 buffer unread e htake => exact hlook _ (by simp [Receiver.step, htake])
  | case5 buffer unread htake => exact hlook _ (by simp [Receiver.step, htake])

structure Receiver.Bounded (bound : Nat) (n : Nat) (P : α → Prop) (r : Receiver β ε α) : Prop where
  buffer : r.buffer.length ≤ bound + n
  waiting : r.phase = .waiting → r.buffer.length ≤ bound
  returned : ∀ a, .ok a ∈ r.returned → P a

theorem Receiver.Bounded.step {event : Event β ε n}
    (hwait : ∀ buffer, take buffer = .ok none → buffer.length ≤ bound)
    (htake : ∀ buffer a consumed, take buffer = .ok (some (a, consumed)) → P a)
    (hr : r.Bounded bound n P) (h : r.step take event = some r') : r'.Bounded bound n P := by
  cases event with
  | call =>
    obtain ⟨-, ⟨⟩⟩ := ite_none_right_eq_some.mp h
    exact ⟨hr.buffer, fun h => Phase.noConfusion h, hr.returned⟩
  | look =>
    obtain ⟨-, hlook⟩ := ite_none_right_eq_some.mp h
    split at hlook
    · rename_i a consumed ha
      cases hlook
      refine ⟨?_, fun h => Phase.noConfusion h, fun b hb => ?_⟩
      · rw [length_drop]
        exact Nat.le_trans (Nat.sub_le _ _) hr.buffer
      · rcases mem_cons.mp hb with hb | hb
        · cases hb
          exact htake _ _ _ ha
        · exact hr.returned b hb
    · rename_i hnone
      cases hlook
      exact ⟨hr.buffer, fun _ => hwait _ hnone, hr.returned⟩
    · cases hlook
      exact ⟨hr.buffer, fun h => Phase.noConfusion h, by simpa using hr.returned⟩
    · cases hlook
      exact ⟨hr.buffer, fun h => Phase.noConfusion h, by simpa using hr.returned⟩
  | arrive chunk =>
    obtain ⟨hphase, ⟨⟩⟩ := ite_none_right_eq_some.mp h
    refine ⟨?_, fun h => Phase.noConfusion h, hr.returned⟩
    rw [length_append]
    exact Nat.add_le_add (hr.waiting hphase) chunk.fits
  | fail e =>
    obtain ⟨-, ⟨⟩⟩ := ite_none_right_eq_some.mp h
    exact ⟨hr.buffer, fun h => Phase.noConfusion h, by simpa using hr.returned⟩
  | cancel =>
    obtain ⟨-, ⟨⟩⟩ := ite_none_right_eq_some.mp h
    exact ⟨hr.buffer, fun h => Phase.noConfusion h, hr.returned⟩
  | handOver =>
    obtain ⟨-, ⟨⟩⟩ := ite_none_right_eq_some.mp h
    exact ⟨Nat.zero_le _, fun h => Phase.noConfusion h, hr.returned⟩

theorem Receiver.Reach.bounded (hwait : ∀ buffer, take buffer = .ok none → buffer.length ≤ bound)
    (htake : ∀ buffer a consumed, take buffer = .ok (some (a, consumed)) → P a)
    (h : Reach n take r r') (hr : r.Bounded bound n P) : r'.Bounded bound n P :=
  h.invariant hr fun _ _ _ hs _ hstep => hs.step hwait htake hstep

variable {σ : Type} {read : Nat → σ → List β × σ} {stream : σ → List β}

/-- Reading delivers a stream from its front, and something unless it has come to its end. -/
structure Delivers (read : Nat → σ → List β × σ) (stream : σ → List β) : Prop where
  front : ∀ k s, (read k s).1 ++ stream (read k s).2 = stream s
  some : ∀ k s, 0 < k → stream s ≠ [] → (read k s).1 ≠ []

def readMany (read : Nat → σ → List β × σ) : List Nat → σ → List β × σ
  | [], s => ([], s)
  | k :: ks, s =>
    let (items, s) := read k s
    let (more, s) := readMany read ks s
    (items ++ more, s)

theorem Delivers.readMany_all (h : Delivers read stream) {ks : List Nat} (hpos : ∀ k ∈ ks, 0 < k)
    {s : σ} (hlen : (stream s).length ≤ ks.length) : (readMany read ks s).1 = stream s := by
  induction ks generalizing s with
  | nil => exact (eq_nil_of_length_eq_zero (Nat.le_zero.mp hlen)).symm
  | cons k ks ih =>
    obtain ⟨hk, hks⟩ := forall_mem_cons.mp hpos
    have hfront := congrArg List.length (h.front k s)
    rw [length_append] at hfront
    have hsome : stream s ≠ [] → 0 < (read k s).1.length := fun hne =>
      length_pos_iff.mpr (h.some k s hk hne)
    have hnext : (stream (read k s).2).length ≤ ks.length := by
      rw [length_cons] at hlen
      by_cases hnil : stream s = []
      · rw [hnil, length_nil] at hfront
        omega
      · have hitems := hsome hnil
        omega
    exact (congrArg ((read k s).1 ++ ·) (ih hks hnext)).trans (h.front k s)

/-- A chunk that is too long for the reader is delivered in parts. -/
def readChunks (k : Nat) : List (Chunk β n) → List β × List (Chunk β n)
  | [] => ([], [])
  | chunk :: chunks =>
    if h : k < chunk.items.length then
      (chunk.items.take k, ⟨chunk.items.drop k, by simpa using h,
        Nat.le_trans (drop_sublist k _).length_le chunk.fits⟩ :: chunks)
    else (chunk.items, chunks)

theorem readChunks_delivers :
    Delivers (readChunks (n := n)) fun chunks => chunks.flatMap (Chunk.items (β := β)) where
  front k chunks := by
    cases chunks with
    | nil => rfl
    | cons chunk chunks =>
      rw [readChunks]
      split_ifs
      · rw [flatMap_cons, ← append_assoc, take_append_drop, flatMap_cons]
      · rfl
  some k chunks hk hne := by
    cases chunks with
    | nil => exact absurd rfl hne
    | cons chunk chunks =>
      rw [readChunks]
      split_ifs
      · simpa [chunk.nonempty] using Nat.pos_iff_ne_zero.mp hk
      · exact chunk.nonempty

end

end Framing
