import MysqlRust.Protocol.Replies
import MysqlRust.Query.ParserTotality
import MysqlRust.Server.Commands
import MysqlRust.Server.Queries

/-! # What a command sends

Every handler sends payloads in packets of their own, numbered from the sequence id it finds. A
client that follows the flags reads a reply for each statement that was executed.
-/
namespace MysqlRust

open Proc List
open Protocol (Packet OkPacket ErrPacket RowFormat ResultSet Client.Reply)

namespace Protocol

theorem sequenceId_numbered (n : Nat) (payloads : List (List UInt8)) :
    (numbered (UInt8.ofNat n) payloads).map Packet.sequenceId =
      (range' n payloads.length).map UInt8.ofNat := by
  induction payloads generalizing n with
  | nil => rfl
  | cons payload payloads ih =>
    have hnext : UInt8.ofNat n + 1 = UInt8.ofNat (n + 1) := by
      rw [UInt8.ofNat_add]
      rfl
    rw [numbered, map_cons, hnext, ih, length_cons, List.range'_succ, map_cons]

def Fit (payloads : List (List UInt8)) : Prop := ∀ payload ∈ payloads, payload.length ≤ maxPayload
  deriving Decidable

theorem Fit.append {ps qs : List (List UInt8)} : Fit (ps ++ qs) ↔ Fit ps ∧ Fit qs :=
  forall_mem_append

theorem fit_singleton {payload : List UInt8} : Fit [payload] ↔ payload.length ≤ maxPayload :=
  forall_mem_singleton

namespace ResultSet
variable {resultSet : ResultSet} {format : RowFormat} {deprecateEof : Bool} {statusFlags : UInt16}
  {start : UInt8}

theorem fit_payloads : Fit (resultSet.payloads format deprecateEof statusFlags) ↔
    resultSet.Fits format :=
  forall_payloads_le (by decide)

theorem toPackets_of_not_fits (h : ¬ resultSet.Fits format) :
    ∃ e, resultSet.toPackets deprecateEof statusFlags start format.encodeRow = .err e := by
  have hdefinition : ∀ column seq, ColumnDefinition.toPacket column seq ≠ .panic := by
    intro column seq
    simp only [ColumnDefinition.toPacket, fit]
    split <;> simp
  have hrow : ∀ row seq, format.encodeRow row seq ≠ .panic := by
    intro row seq
    obtain ⟨what, hwhat⟩ := format.encodeRow_eq
    simp only [hwhat, fit]
    split <;> simp
  have hpanic : resultSet.toPackets deprecateEof statusFlags start format.encodeRow ≠ .panic :=
    Outcome.bind_ne_panic (emitEach_ne_panic hdefinition _ _) fun definitions _ =>
      Outcome.bind_ne_panic (emitEach_ne_panic hrow _ _) fun rows _ => by simp
  cases hsent : resultSet.toPackets deprecateEof statusFlags start format.encodeRow with
  | ok sent => exact absurd (fits_of_toPackets hsent) h
  | err e => exact ⟨e, rfl⟩
  | panic => exact absurd hsent hpanic

end ResultSet

end Protocol

namespace Connection
variable {σ : Type} {c c' : Connection σ}

section
variable {x y : Handler σ Unit} {payloads ps qs : List (List UInt8)} {payload : List UInt8} {s' : σ}
open Protocol (Fit numbered advance fit)

def emit (c : Connection σ) (payloads : List (List UInt8)) : Connection σ :=
  { c with
    sequenceId := advance c.sequenceId payloads.length
    sent := c.sent ++ (numbered c.sequenceId payloads).flatMap Packet.encode }

theorem emit_nil (c : Connection σ) : c.emit [] = c := by
  simp [emit, Protocol.advance_zero, numbered]

theorem emit_append (c : Connection σ) (ps qs : List (List UInt8)) :
    c.emit (ps ++ qs) = (c.emit ps).emit qs := by
  simp [emit, Protocol.advance_advance, Protocol.numbered_append]

/-- The handler sends these payloads and leaves this session, and fails if one of the payloads
does not fit. -/
structure Sends (x : Handler σ Unit) (c : Connection σ) (payloads : List (List UInt8)) (s' : σ) :
    Prop where
  fits : Fit payloads → x c = (.ok (), { c.emit payloads with session := s' })
  tooLong : ¬ Fit payloads → ∃ e c', x c = (.err e, c')

theorem Sends.eq_ok (h : Sends x c payloads s') (hok : x c = (.ok (), c')) :
    Fit payloads ∧ c' = { c.emit payloads with session := s' } := by
  by_cases hfit : Fit payloads
  · rw [h.fits hfit] at hok
    cases hok
    exact ⟨hfit, rfl⟩
  · obtain ⟨e, c'', herr⟩ := h.tooLong hfit
    rw [herr] at hok
    cases hok

theorem Sends.pure : Sends (Pure.pure ()) c [] c.session where
  fits _ := by
    rw [emit_nil]
    rfl
  tooLong h := absurd (fun _ hp => absurd hp not_mem_nil) h

theorem Sends.bind {s₁ s₂ : σ} (hx : Sends x c ps s₁)
    (hy : Sends y { c.emit ps with session := s₁ } qs s₂) :
    Sends (x >>= fun _ => y) c (ps ++ qs) s₂ where
  fits h := by
    obtain ⟨hps, hqs⟩ := Fit.append.mp h
    rw [bind_ok (hx.fits hps), hy.fits hqs, emit_append]
    rfl
  tooLong h := by
    by_cases hps : Fit ps
    · rw [bind_ok (hx.fits hps)]
      exact hy.tooLong fun hqs => h (Fit.append.mpr ⟨hps, hqs⟩)
    · obtain ⟨e, c', herr⟩ := hx.tooLong hps
      exact ⟨e, c', by simp only [Bind.bind, Proc.bind, herr]⟩

theorem Sends.ite {p : Prop} [Decidable p] (hx : Sends x c ps s') (hy : Sends y c qs s') :
    Sends (if p then x else y) c (if p then ps else qs) s' := by
  split
  · exact hx
  · exact hy

theorem Sends.get_bind {f : Connection σ → Handler σ Unit} (h : Sends (f c) c payloads s') :
    Sends (get >>= f) c payloads s' := ⟨h.fits, h.tooLong⟩

theorem sendPacket_ok (c : Connection σ) {toPacket : UInt8 → Result Packet}
    (h : toPacket c.sequenceId = .ok ⟨c.sequenceId, payload⟩) :
    sendPacket toPacket c = (.ok (), c.emit [payload]) := by
  simp [sendPacket, writeNumbered, get, Proc.read, Bind.bind, Proc.bind, lift, h, writePacket,
    flushOutBuf, setSequenceId, emit, numbered, advance, Packet.encode]

theorem sends_fit (what : String) (payload : List UInt8) :
    Sends (sendPacket fun seq => fit what seq payload) c [payload] c.session where
  fits h := sendPacket_ok c (Protocol.fit_of_le (Protocol.fit_singleton.mp h))
  tooLong h := by
    obtain ⟨e, he⟩ : ∃ e, fit what c.sequenceId payload = .err e :=
      ⟨_, if_pos (Nat.lt_of_not_le fun hle => h (Protocol.fit_singleton.mpr hle))⟩
    refine ⟨e, c, ?_⟩
    simp only [sendPacket, writeNumbered, get, Proc.read, Bind.bind, Proc.bind, lift, he]

theorem sends_packet (h : payload.length ≤ Protocol.maxPayload) :
    Sends (sendPacket fun seq => .ok ⟨seq, payload⟩) c [payload] c.session where
  fits _ := sendPacket_ok c rfl
  tooLong hfit := absurd (Protocol.fit_singleton.mpr h) hfit

theorem sends_resultSet (format : RowFormat) (resultSet : ResultSet) (statusFlags : UInt16) :
    Sends (do
      let c ← get
      let (outBuf, nextSeq) ← lift (format.encodeInto resultSet [] c.deprecateEof statusFlags
        c.sequenceId)
      flushOutBuf outBuf
      setSequenceId nextSeq) c (resultSet.payloads format c.deprecateEof statusFlags)
      c.session where
  fits h := by
    have hsent : resultSet.toPackets c.deprecateEof statusFlags c.sequenceId format.encodeRow = _ :=
      ResultSet.toPackets_of_fits (ResultSet.fit_payloads.mp h)
    simp [get, Proc.read, Bind.bind, Proc.bind, lift, RowFormat.encodeInto_eq, hsent,
      Protocol.append, flushOutBuf, setSequenceId, emit]
  tooLong h := by
    obtain ⟨e, he⟩ : ∃ e, resultSet.toPackets c.deprecateEof statusFlags c.sequenceId
        format.encodeRow = .err e :=
      ResultSet.toPackets_of_not_fits fun hfits => h (ResultSet.fit_payloads.mpr hfits)
    refine ⟨e, c, ?_⟩
    simp [get, Proc.read, Bind.bind, Proc.bind, lift, RowFormat.encodeInto_eq, he]

variable {outcome : Except Error QueryResult} {format : RowFormat} {deprecateEof : Bool}
open Protocol (Fit)

def replyPayloads (format : RowFormat) (deprecateEof moreResults : Bool) :
    Except Error QueryResult → List (List UInt8)
  | .ok result =>
    if result.columns = [] then
      [OkPacket.payload { OkPacket.new with
        affectedRows := UInt64.ofNat result.rowsAffected
        statusFlags := statusFlags moreResults }]
    else result.resultSet.payloads format deprecateEof (statusFlags moreResults)
  | .error e => [(ErrPacket.fromError e).payload]

def reply (moreResults : Bool) : Except Error QueryResult → Client.Reply
  | .ok result =>
    if result.columns = [] then .ok (statusFlags moreResults) else .rows (statusFlags moreResults)
  | .error _ => .err

theorem sendResult_sends (outcome : Except Error QueryResult) (format : RowFormat)
    (moreResults : Bool) : Sends (sendResult outcome format moreResults) c
      (replyPayloads format c.deprecateEof moreResults outcome) c.session := by
  cases outcome with
  | error e => exact sends_fit "ERR" _
  | ok result =>
    unfold sendResult replyPayloads
    by_cases hcolumns : result.columns = []
    · simp only [if_pos hcolumns]
      exact sends_fit "OK" _
    · simp only [if_neg hcolumns]
      exact sends_resultSet format result.resultSet (statusFlags moreResults)

theorem replyPayloads_ne_nil (format : RowFormat) (deprecateEof moreResults : Bool)
    (outcome : Except Error QueryResult) :
    replyPayloads format deprecateEof moreResults outcome ≠ [] := by
  cases outcome with
  | error e => exact cons_ne_nil _ _
  | ok result =>
    simp only [replyPayloads]
    split
    · exact cons_ne_nil _ _
    · exact cons_ne_nil _ _

theorem moreResultsExist_statusFlags (moreResults : Bool) :
    Protocol.Client.moreResultsExist (statusFlags moreResults) = moreResults := by
  cases moreResults <;> decide

theorem more_reply (moreResults : Bool) (outcome : Except Error QueryResult) :
    (reply moreResults outcome).more = (outcome.isOk && moreResults) := by
  cases outcome with
  | error e => rfl
  | ok result =>
    simp only [reply]
    split <;> exact moreResultsExist_statusFlags moreResults

theorem readReply_replyPayloads {moreResults : Bool}
    (hcolumns : ∀ result, outcome = .ok result → result.columns.length < 2 ^ 64)
    (hfit : Fit (replyPayloads format deprecateEof moreResults outcome))
    (rest : List (List UInt8)) :
    Protocol.Client.readReply deprecateEof
      (replyPayloads format deprecateEof moreResults outcome ++ rest) =
      some (reply moreResults outcome, rest) := by
  cases outcome with
  | error e => exact Protocol.Client.readReply_err deprecateEof _ rest
  | ok result =>
    unfold replyPayloads reply at *
    by_cases hempty : result.columns = []
    · simp only [if_pos hempty]
      exact Protocol.Client.readReply_ok deprecateEof _ rest
    · simp only [if_neg hempty] at hfit ⊢
      refine Protocol.Client.readReply_resultSet deprecateEof _ ?_ ?_ ?_ rest
      · simpa [QueryResult.resultSet] using hempty
      · simpa [QueryResult.resultSet] using hcolumns result rfl
      · exact (ResultSet.fit_payloads.mp hfit).2

theorem readResponse_reply
    (hcolumns : ∀ result, outcome = .ok result → result.columns.length < 2 ^ 64)
    (hfit : Fit (replyPayloads format deprecateEof false outcome)) (rest : List (List UInt8)) :
    Protocol.Client.readResponse deprecateEof
      (replyPayloads format deprecateEof false outcome ++ rest) =
      some ([reply false outcome], rest) := by
  have hread := readReply_replyPayloads hcolumns hfit rest
  have hpos := length_pos_iff.mpr (replyPayloads_ne_nil format deprecateEof false outcome)
  obtain ⟨fuel, hfuel⟩ : ∃ fuel, (replyPayloads format deprecateEof false outcome ++ rest).length =
      fuel + 1 := Nat.exists_eq_succ_of_ne_zero (by rw [length_append]; omega)
  rw [Protocol.Client.readResponse, hfuel, Protocol.Client.readReplies, hread]
  simp [more_reply]

variable {exec : Statement → Proc σ Error QueryResult} {statements : List Statement} {s : σ}
  {outcomes : List (Except Error QueryResult)}

inductive Executes (exec : Statement → Proc σ Error QueryResult) :
    List Statement → σ → List (Except Error QueryResult) → σ → Prop
  | done (s : σ) : Executes exec [] s [] s
  | succeeded {st : Statement} {statements : List Statement} {s s' s'' : σ} {result : QueryResult}
      {outcomes : List (Except Error QueryResult)} (first : exec st s = (.ok result, s'))
      (rest : Executes exec statements s' outcomes s'') :
      Executes exec (st :: statements) s (.ok result :: outcomes) s''
  | failed {st : Statement} {statements : List Statement} {s s' : σ} {e : Error}
      (first : exec st s = (.err e, s')) : Executes exec (st :: statements) s [.error e] s'

theorem Executes.unique {outcomes' : List (Except Error QueryResult)} {s'' : σ}
    (h : Executes exec statements s outcomes s') (h' : Executes exec statements s outcomes' s'') :
    outcomes = outcomes' ∧ s' = s'' := by
  induction h generalizing outcomes' s'' with
  | done s =>
    cases h'
    exact ⟨rfl, rfl⟩
  | succeeded first rest ih =>
    cases h' with
    | succeeded first' rest' =>
      cases first.symm.trans first'
      obtain ⟨rfl, rfl⟩ := ih rest'
      exact ⟨rfl, rfl⟩
    | failed first' => cases first.symm.trans first'
  | failed first =>
    cases h' with
    | succeeded first' rest' => cases first.symm.trans first'
    | failed first' =>
      cases first.symm.trans first'
      exact ⟨rfl, rfl⟩

/-- The replies to `n` statements: all but the last announce another one, unless they are
errors. -/
def batchPayloads (deprecateEof : Bool) (n : Nat) (outcomes : List (Except Error QueryResult)) :
    List (List UInt8) :=
  (outcomes.mapIdx fun i outcome =>
    replyPayloads .text deprecateEof (outcome.isOk && decide (i + 1 < n)) outcome).flatten

def batchReplies (n : Nat) (outcomes : List (Except Error QueryResult)) : List Client.Reply :=
  outcomes.mapIdx fun i outcome => reply (outcome.isOk && decide (i + 1 < n)) outcome

theorem batchPayloads_cons (deprecateEof : Bool) (n : Nat) (outcome : Except Error QueryResult)
    (outcomes : List (Except Error QueryResult)) :
    batchPayloads deprecateEof (n + 1) (outcome :: outcomes) =
      replyPayloads .text deprecateEof (outcome.isOk && decide (0 < n)) outcome ++
        batchPayloads deprecateEof n outcomes := by
  simp [batchPayloads, mapIdx_cons]

theorem batchPayloads_error (deprecateEof : Bool) (n : Nat) (e : Error) :
    batchPayloads deprecateEof n [.error e] =
      replyPayloads .text deprecateEof false (.error e) := rfl

theorem batchReplies_cons (n : Nat) (outcome : Except Error QueryResult)
    (outcomes : List (Except Error QueryResult)) :
    batchReplies (n + 1) (outcome :: outcomes) =
      reply (outcome.isOk && decide (0 < n)) outcome :: batchReplies n outcomes := by
  simp [batchReplies, mapIdx_cons]

theorem length_le_batchPayloads (deprecateEof : Bool) (n : Nat)
    (outcomes : List (Except Error QueryResult)) :
    outcomes.length ≤ (batchPayloads deprecateEof n outcomes).length := by
  rw [← length_mapIdx (l := outcomes)]
  refine Lists.length_le_flatten fun payloads h => ?_
  obtain ⟨i, hi, rfl⟩ := mem_mapIdx.mp h
  exact replyPayloads_ne_nil _ _ _ _

theorem executeEach_cons (st : Statement) (statements : List Statement) :
    executeEach exec (st :: statements) = (do
      let outcome ← executeStatement exec st
      sendResult outcome .text (outcome.isOk && decide (0 < statements.length))
      if outcome.isOk then executeEach exec statements else pure ()) := by
  rw [executeEach]
  refine bind_congr fun outcome => ?_
  cases statements <;> rfl

theorem executeStatement_ok {st : Statement} {result : QueryResult}
    (h : exec st c.session = (.ok result, s')) :
    executeStatement exec st c = (.ok (.ok result), { c with session := s' }) := by
  simp only [executeStatement, h]

theorem executeStatement_err {st : Statement} {e : Error}
    (h : exec st c.session = (.err e, s')) :
    executeStatement exec st c = (.ok (.error e), { c with session := s' }) := by
  simp only [executeStatement, h]

theorem executeStatement_eq_ok {st : Statement}
    (h : executeStatement exec st c = (.ok outcome, c')) : ∃ s', c' = { c with session := s' } ∧
      ((∃ result, outcome = .ok result ∧ exec st c.session = (.ok result, s')) ∨
        ∃ e, outcome = .error e ∧ exec st c.session = (.err e, s')) := by
  simp only [executeStatement] at h
  rcases hrun : exec st c.session with ⟨result | e | _, s'⟩ <;> rw [hrun] at h <;> cases h
  · exact ⟨s', rfl, .inl ⟨result, rfl, rfl⟩⟩
  · exact ⟨s', rfl, .inr ⟨e, rfl, rfl⟩⟩

theorem Sends.after {st : Statement} {f : Except Error QueryResult → Handler σ Unit} {s₁ : σ}
    (hrun : executeStatement exec st c = (.ok outcome, { c with session := s₁ }))
    (h : Sends (f outcome) { c with session := s₁ } payloads s') :
    Sends (executeStatement exec st >>= f) c payloads s' where
  fits hfit := by
    rw [bind_ok hrun, h.fits hfit]
    rfl
  tooLong hfit := by
    rw [bind_ok hrun]
    exact h.tooLong hfit

theorem executeEach_sends (h : Executes exec statements c.session outcomes s') :
    Sends (executeEach exec statements) c
      (batchPayloads c.deprecateEof statements.length outcomes) s' := by
  generalize hs : c.session = s at h
  induction h generalizing c with
  | done s =>
    subst hs
    exact .pure
  | @succeeded st statements s s₁ s₂ result outcomes first rest ih =>
    subst hs
    rw [length_cons, batchPayloads_cons, executeEach_cons]
    exact .after (executeStatement_ok first) ((sendResult_sends (.ok result) .text _).bind (ih rfl))
  | @failed st statements s s₁ e first =>
    subst hs
    rw [length_cons, batchPayloads_cons, executeEach_cons]
    exact .after (executeStatement_err first) ((sendResult_sends (.error e) .text _).bind .pure)

theorem executes_of_ok (h : executeEach exec statements c = (.ok (), c')) :
    ∃ outcomes s', Executes exec statements c.session outcomes s' := by
  induction statements generalizing c with
  | nil => exact ⟨[], c.session, .done c.session⟩
  | cons st statements ih =>
    rw [executeEach_cons] at h
    obtain ⟨outcome, c₁, hfirst, h⟩ := bind_eq_ok h
    obtain ⟨_, c₂, hsent, h⟩ := bind_eq_ok h
    obtain ⟨-, rfl⟩ := (sendResult_sends ..).eq_ok hsent
    obtain ⟨s₁, rfl, ⟨result, rfl, hrun⟩ | ⟨e, rfl, hrun⟩⟩ := executeStatement_eq_ok hfirst
    · obtain ⟨outcomes, s', hexec⟩ := ih h
      exact ⟨.ok result :: outcomes, s', .succeeded hrun hexec⟩
    · exact ⟨[.error e], s₁, .failed hrun⟩

/-- A client that follows the flags reads the replies and nothing more. -/
theorem readReplies_batch {deprecateEof : Bool} {fuel : Nat} (rest : List (List UInt8))
    (hcolumns : ∀ result, .ok result ∈ outcomes → result.columns.length < 2 ^ 64)
    (h : Executes exec statements s outcomes s') (hne : statements ≠ [])
    (hfit : Fit (batchPayloads deprecateEof statements.length outcomes))
    (hfuel : outcomes.length ≤ fuel) :
    Protocol.Client.readReplies deprecateEof fuel
      (batchPayloads deprecateEof statements.length outcomes ++ rest) =
      some (batchReplies statements.length outcomes, rest) := by
  induction h generalizing fuel with
  | done s => exact absurd rfl hne
  | @succeeded st statements s s₁ s₂ result outcomes first hexec ih =>
    obtain ⟨fuel, rfl⟩ := Nat.exists_eq_succ_of_ne_zero (Nat.ne_zero_of_lt hfuel)
    rw [length_cons, batchPayloads_cons] at hfit
    obtain ⟨hhead, htail⟩ := Fit.append.mp hfit
    have hread := readReply_replyPayloads (fun r hr => hcolumns r (hr ▸ mem_cons_self)) hhead
      (batchPayloads deprecateEof statements.length outcomes ++ rest)
    rw [length_cons, batchPayloads_cons, batchReplies_cons, append_assoc,
      Protocol.Client.readReplies, hread]
    by_cases hlast : statements = []
    · subst hlast
      cases hexec
      simp [more_reply, batchPayloads, batchReplies, Except.isOk, Except.toBool]
    · have hpos := length_pos_iff.mpr hlast
      have hrest := ih (fun r hr => hcolumns r (mem_cons_of_mem _ hr)) hlast htail
        (Nat.le_of_succ_le_succ hfuel)
      simp [more_reply, hpos, hrest, Except.isOk, Except.toBool]
  | @failed st statements s s₁ e first =>
    obtain ⟨fuel, rfl⟩ := Nat.exists_eq_succ_of_ne_zero (Nat.ne_zero_of_lt hfuel)
    rw [length_cons, batchPayloads_cons] at hfit
    have hhead := (Fit.append.mp hfit).1
    have hread := readReply_replyPayloads (fun r hr => by cases hr) hhead
      (batchPayloads deprecateEof statements.length [] ++ rest)
    rw [length_cons, batchPayloads_cons, batchReplies_cons, append_assoc,
      Protocol.Client.readReplies, hread]
    simp [more_reply, batchPayloads, batchReplies, Except.isOk, Except.toBool]

variable {u : Unicode} {sql : String} {n : Nat}

/-- What a query is answered with: the number of its statements, the outcomes to report and
the session after it. -/
inductive Answers (exec : Statement → Proc σ Error QueryResult) (u : Unicode)
    (capabilities : UInt32) (s : σ) (sql : String) :
    Nat → List (Except Error QueryResult) → σ → Prop
  | unparsed {e : Error} (parsed : parseMany u sql = .err e) :
      Answers exec u capabilities s sql 0 [.error e] s
  | refused {statements : List Statement} (parsed : parseMany u sql = .ok statements)
      (many : 1 < statements.length ∧ capabilities &&& Protocol.clientMultiStatements = 0) :
      Answers exec u capabilities s sql statements.length [.error needsMultiStatements] s
  | executed {statements : List Statement} {outcomes : List (Except Error QueryResult)} {s' : σ}
      (parsed : parseMany u sql = .ok statements)
      (allowed : ¬ (1 < statements.length ∧ capabilities &&& Protocol.clientMultiStatements = 0))
      (run : Executes exec statements s outcomes s') :
      Answers exec u capabilities s sql statements.length outcomes s'

theorem Answers.executes {capabilities : UInt32} (h : Answers exec u capabilities s sql n outcomes s')
    (parsed : parseMany u sql = .ok statements)
    (allowed : ¬ (1 < statements.length ∧ capabilities &&& Protocol.clientMultiStatements = 0)) :
    n = statements.length ∧ Executes exec statements s outcomes s' := by
  cases h with
  | unparsed parsed' => cases parsed.symm.trans parsed'
  | refused parsed' many =>
    cases parsed.symm.trans parsed'
    exact absurd many allowed
  | executed parsed' allowed' run =>
    cases parsed.symm.trans parsed'
    exact ⟨rfl, run⟩

theorem handleQuery_sends (h : Answers exec u c.clientCapabilities c.session sql n outcomes s') :
    Sends (handleQuery exec u sql) c (batchPayloads c.deprecateEof n outcomes) s' := by
  cases h with
  | unparsed parsed =>
    simp only [handleQuery, parsed]
    exact sendResult_sends (.error _) .text false
  | refused parsed many =>
    simp only [handleQuery, parsed]
    refine .get_bind ?_
    rw [if_pos many]
    exact sendResult_sends (.error _) .text false
  | executed parsed allowed run =>
    simp only [handleQuery, parsed]
    refine .get_bind ?_
    rw [if_neg allowed]
    exact executeEach_sends run

/-- A query that is answered sends the replies of its statements and nothing else. -/
theorem handleQuery_eq_ok (h : handleQuery exec u sql c = (.ok (), c')) :
    ∃ n outcomes s', Answers exec u c.clientCapabilities c.session sql n outcomes s' ∧
      Fit (batchPayloads c.deprecateEof n outcomes) ∧
      c' = { c.emit (batchPayloads c.deprecateEof n outcomes) with session := s' } := by
  suffices ∃ n outcomes s', Answers exec u c.clientCapabilities c.session sql n outcomes s' by
    obtain ⟨n, outcomes, s', hanswers⟩ := this
    exact ⟨n, outcomes, s', hanswers, (handleQuery_sends hanswers).eq_ok h⟩
  unfold handleQuery at h
  cases hparse : parseMany u sql with
  | ok statements =>
    simp only [hparse, get, Proc.read, Bind.bind, Proc.bind] at h
    split at h
    · rename_i many
      exact ⟨_, _, _, .refused hparse many⟩
    · rename_i allowed
      obtain ⟨outcomes, s', run⟩ := executes_of_ok h
      exact ⟨_, _, _, .executed hparse allowed run⟩
  | err e => exact ⟨_, _, _, .unparsed hparse⟩
  | panic =>
    simp only [hparse] at h
    cases h

theorem readResponse_answers {capabilities : UInt32} {s : σ} {deprecateEof : Bool}
    (h : Answers exec u capabilities s sql n outcomes s')
    (hcolumns : ∀ result, .ok result ∈ outcomes → result.columns.length < 2 ^ 64)
    (hfit : Fit (batchPayloads deprecateEof n outcomes)) (rest : List (List UInt8)) :
    Protocol.Client.readResponse deprecateEof (batchPayloads deprecateEof n outcomes ++ rest) =
      some (batchReplies n outcomes, rest) := by
  cases h with
  | unparsed parsed =>
    rw [batchPayloads_error] at hfit ⊢
    exact readResponse_reply (fun _ hr => by cases hr) hfit rest
  | refused parsed many =>
    rw [batchPayloads_error] at hfit ⊢
    exact readResponse_reply (fun _ hr => by cases hr) hfit rest
  | executed parsed allowed run =>
    have hne := (parseMany_post u sql)
    rw [parsed] at hne
    refine readReplies_batch rest hcolumns run hne hfit ?_
    rw [length_append]
    exact (length_le_batchPayloads ..).trans (Nat.le_add_right _ _)

def boundStatement (prepared : Finmap fun _ : UInt32 => PreparedStatement)
    (payload : List UInt8) : Result Statement :=
  if payload.length < 5 then .err (.protocol "COM_STMT_EXECUTE: truncated header")
  else
    match prepared.lookup (statementId payload) with
    | none => .err (.execution s!"Unknown prepared statement handler ({statementId payload}) given to COM_STMT_EXECUTE")
    | some p => bindPayload p payload

inductive ExecuteAnswers (exec : Statement → Proc σ Error QueryResult)
    (prepared : Finmap fun _ : UInt32 => PreparedStatement) (s : σ) (payload : List UInt8) :
    Except Error QueryResult → σ → Prop
  | refused {e : Error} (bound : boundStatement prepared payload = .err e) :
      ExecuteAnswers exec prepared s payload (.error e) s
  | succeeded {st : Statement} {result : QueryResult} {s' : σ}
      (bound : boundStatement prepared payload = .ok st) (run : exec st s = (.ok result, s')) :
      ExecuteAnswers exec prepared s payload (.ok result) s'
  | failed {st : Statement} {e : Error} {s' : σ} (bound : boundStatement prepared payload = .ok st)
      (run : exec st s = (.err e, s')) : ExecuteAnswers exec prepared s payload (.error e) s'

theorem handleStmtExecute_eq (exec : Statement → Proc σ Error QueryResult) (payload : List UInt8)
    (c : Connection σ) : handleStmtExecute exec payload c =
      match boundStatement c.prepared payload with
      | .ok bound => (do
        let outcome ← executeStatement exec bound
        sendResult outcome .binary false) c
      | .err e => sendResult (.error e) .binary false c
      | .panic => (.panic, c) := by
  unfold handleStmtExecute boundStatement
  split_ifs
  · rfl
  · simp only [get, Proc.read, Bind.bind, Proc.bind]
    cases c.prepared.lookup (statementId payload) with
    | none => rfl
    | some p =>
      dsimp only
      cases bindPayload p payload <;> rfl

theorem handleStmtExecute_sends (h : ExecuteAnswers exec c.prepared c.session payload outcome s') :
    Sends (handleStmtExecute exec payload) c (replyPayloads .binary c.deprecateEof false outcome)
      s' := by
  suffices ∃ x, handleStmtExecute exec payload c = x c ∧
      Sends x c (replyPayloads .binary c.deprecateEof false outcome) s' by
    obtain ⟨x, heq, hsends⟩ := this
    exact ⟨heq ▸ hsends.fits, heq ▸ hsends.tooLong⟩
  rw [handleStmtExecute_eq]
  cases h with
  | refused bound =>
    rw [bound]
    exact ⟨_, rfl, sendResult_sends (.error _) .binary false⟩
  | succeeded bound run =>
    rw [bound]
    exact ⟨_, rfl, .after (executeStatement_ok run) (sendResult_sends (.ok _) .binary false)⟩
  | failed bound run =>
    rw [bound]
    exact ⟨_, rfl, .after (executeStatement_err run) (sendResult_sends (.error _) .binary false)⟩

/-- The execution of a prepared statement is answered with one reply. -/
theorem handleStmtExecute_eq_ok (h : handleStmtExecute exec payload c = (.ok (), c')) :
    ∃ outcome s', ExecuteAnswers exec c.prepared c.session payload outcome s' ∧
      Fit (replyPayloads .binary c.deprecateEof false outcome) ∧
      c' = { c.emit (replyPayloads .binary c.deprecateEof false outcome) with session := s' } := by
  suffices ∃ outcome s', ExecuteAnswers exec c.prepared c.session payload outcome s' by
    obtain ⟨outcome, s', hanswers⟩ := this
    exact ⟨outcome, s', hanswers, (handleStmtExecute_sends hanswers).eq_ok h⟩
  rw [handleStmtExecute_eq] at h
  cases hbound : boundStatement c.prepared payload with
  | ok st =>
    rw [hbound] at h
    obtain ⟨outcome, _, hfirst, -⟩ := bind_eq_ok h
    obtain ⟨s', -, ⟨_, rfl, hrun⟩ | ⟨_, rfl, hrun⟩⟩ := executeStatement_eq_ok hfirst
    · exact ⟨_, _, .succeeded hbound hrun⟩
    · exact ⟨_, _, .failed hbound hrun⟩
  | err e => exact ⟨_, _, .refused hbound⟩
  | panic =>
    rw [hbound] at h
    cases h

end

section Dispatch
variable {σ : Type} (exec : Statement → Proc σ Error QueryResult) (u : Unicode) (c : Connection σ)

theorem handlePacket_command {command : UInt8} (hcommand : command ≠ comQuit) (body : List UInt8) :
    handlePacket exec u ⟨0, command :: body⟩ c = (do
        handleCommand exec u command (command :: body)
        pure true) { c with sequenceId := 1 } := by
  rw [handlePacket, if_neg (not_not.mpr rfl)]
  simp only [Bind.bind, Proc.bind, setSequenceId, head?_cons, if_neg hcommand]

theorem handleCommand_query (sql : String) :
    handleCommand exec u comQuery (comQuery :: utf8 sql) = handleQuery exec u sql := by
  rw [handleCommand, if_neg (by decide), if_pos rfl, drop_one, tail_cons, fromUTF8?_utf8]

theorem handleCommand_execute (payload : List UInt8) :
    handleCommand exec u comStmtExecute payload = handleStmtExecute exec payload := by
  rw [handleCommand, if_neg (by decide), if_neg (by decide), if_neg (by decide), if_pos rfl]

end Dispatch

section Commands
open Protocol (Fit numbered fit)
variable {exec : Statement → Proc σ Error QueryResult} {u : Unicode} {packet : Packet}
variable {payload : List UInt8}

def Wrote (c c' : Connection σ) (payloads : List (List UInt8)) : Prop :=
  Fit payloads ∧ c'.sent = c.sent ++ (numbered c.sequenceId payloads).flatMap Packet.encode

theorem Sends.wrote {x : Handler σ Unit} {payloads : List (List UInt8)} {s' : σ}
    (h : Sends x c payloads s') (hok : x c = (.ok (), c')) : Wrote c c' payloads := by
  obtain ⟨hfit, rfl⟩ := h.eq_ok hok
  exact ⟨hfit, rfl⟩

theorem writeNumbered_wrote {what : String}
    (h : writeNumbered (fun seq => fit what seq payload) c = (.ok (), c')) :
    Wrote c c' [payload] := by
  simp only [writeNumbered, get, Proc.read, Bind.bind, Proc.bind, lift] at h
  rcases hpacket : fit what c.sequenceId payload with packet | e | _
  · obtain ⟨rfl, hfit⟩ := Protocol.fit_eq_ok hpacket
    rw [hpacket] at h
    cases h
    exact ⟨Protocol.fit_singleton.mpr hfit, by simp [numbered, Packet.encode]⟩
  · rw [hpacket] at h
    cases h
  · rw [hpacket] at h
    cases h

def paramPayload : List UInt8 := Protocol.ColumnDefinition.payload ⟨"?", .varString⟩

def preparePayloads (statementId : UInt32) (paramCount : Nat) (deprecateEof : Bool) :
    List (List UInt8) :=
  Protocol.StmtPrepareOk.payload ⟨statementId, 0, UInt16.ofNat paramCount⟩ ::
    if 0 < paramCount then replicate paramCount paramPayload ++
      if deprecateEof then [] else [Protocol.eofPayload serverStatusAutocommit]
    else []

theorem sendParamDefinitions_sends (n : Nat) (c : Connection σ) :
    Sends (sendParamDefinitions n) c (replicate n paramPayload) c.session := by
  induction n generalizing c with
  | zero => exact .pure
  | succ n ih => exact (sends_fit "column definition" paramPayload).bind (ih _)

theorem sendParamBlock_sends (n : Nat) (c : Connection σ) : Sends (do
      sendParamDefinitions n
      let c ← get
      if c.deprecateEof then pure ()
      else sendPacket fun seq => .ok (Protocol.eofPacket serverStatusAutocommit seq)) c
      (replicate n paramPayload ++
        if c.deprecateEof then [] else [Protocol.eofPayload serverStatusAutocommit]) c.session :=
  (sendParamDefinitions_sends n c).bind (.get_bind (.ite .pure (sends_packet (by decide))))

theorem fit_preparePayloads (statementId : UInt32) (paramCount : Nat) (deprecateEof : Bool) :
    Fit (preparePayloads statementId paramCount deprecateEof) := by
  have hparam : paramPayload.length ≤ Protocol.maxPayload := by decide
  intro payload hmem
  rcases mem_cons.mp hmem with rfl | hmem
  · simp [Protocol.StmtPrepareOk.payload, Protocol.maxPayload]
  · split_ifs at hmem
    · rw [append_nil] at hmem
      rwa [eq_of_mem_replicate hmem]
    · rcases mem_append.mp hmem with hmem | hmem
      · rwa [eq_of_mem_replicate hmem]
      · rw [mem_singleton.mp hmem]
        decide
    · exact absurd hmem not_mem_nil

def withPrepared (c : Connection σ) (p : PreparedStatement) : Connection σ :=
  { c with
    prepared := c.prepared.insert c.nextStatementId p
    nextStatementId := c.nextStatementId + 1 }

theorem handleStmtPrepare_ok {payload : List UInt8} {sql : String} {st : Statement} {n : Nat}
    (htext : String.fromUTF8? ⟨(payload.drop 1).toArray⟩ = some sql)
    (hparse : parsePrepared u sql = .ok (st, n)) :
    handleStmtPrepare u payload c =
      (.ok (), (c.withPrepared ⟨st, n⟩).emit (preparePayloads c.nextStatementId n c.deprecateEof)) := by
  have hadd : addPrepared ⟨st, n⟩ c = (.ok c.nextStatementId, c.withPrepared ⟨st, n⟩) := rfl
  have hheader : Sends (sendPacket (Protocol.StmtPrepareOk.toPacket
      ⟨c.nextStatementId, 0, UInt16.ofNat n⟩)) (c.withPrepared ⟨st, n⟩)
        [Protocol.StmtPrepareOk.payload ⟨c.nextStatementId, 0, UInt16.ofNat n⟩] c.session :=
    sends_packet (by simp [Protocol.StmtPrepareOk.payload, Protocol.maxPayload])
  have hsends := hheader.bind (Sends.ite (p := 0 < n) (sendParamBlock_sends n _) .pure)
  unfold handleStmtPrepare
  simp only [htext, hparse]
  rw [bind_ok hadd]
  exact hsends.fits (fit_preparePayloads _ _ _)

/-- What answers a PREPARE: the id and the parameters of the statement, or its error. -/
inductive PrepareAnswers (u : Unicode) (statementId : UInt32) (deprecateEof : Bool) (sql : String) :
    List (List UInt8) → Prop
  | prepared {st : Statement} {n : Nat} (parsed : parsePrepared u sql = .ok (st, n)) :
      PrepareAnswers u statementId deprecateEof sql (preparePayloads statementId n deprecateEof)
  | refused {e : Error} (parsed : parsePrepared u sql = .err e) :
      PrepareAnswers u statementId deprecateEof sql [(ErrPacket.fromError e).payload]

theorem handleStmtPrepare_wrote (h : handleStmtPrepare u payload c = (.ok (), c')) :
    ∃ payloads, Wrote c c' payloads ∧ ∀ sql, payload.drop 1 = utf8 sql →
      PrepareAnswers u c.nextStatementId c.deprecateEof sql payloads := by
  cases htext : String.fromUTF8? ⟨(payload.drop 1).toArray⟩ with
  | none =>
    simp only [handleStmtPrepare, htext] at h
    refine ⟨_, (sends_fit "ERR" _).wrote h, fun sql hsql => ?_⟩
    rw [hsql, fromUTF8?_utf8] at htext
    cases htext
  | some text =>
    have heq (sql : String) (hsql : payload.drop 1 = utf8 sql) : text = sql := by
      rw [hsql, fromUTF8?_utf8] at htext
      exact (Option.some.inj htext).symm
    cases hparse : parsePrepared u text with
    | ok p =>
      rw [handleStmtPrepare_ok htext hparse] at h
      cases h
      exact ⟨_, ⟨fit_preparePayloads _ _ _, rfl⟩, fun sql hsql => .prepared (heq sql hsql ▸ hparse)⟩
    | err e =>
      simp only [handleStmtPrepare, htext, hparse] at h
      exact ⟨_, (sends_fit "ERR" _).wrote h, fun sql hsql => .refused (heq sql hsql ▸ hparse)⟩
    | panic =>
      simp only [handleStmtPrepare, htext, hparse] at h
      cases h

/-- The payloads of a response, by the command. -/
def Response (exec : Statement → Proc σ Error QueryResult) (u : Unicode) (c : Connection σ)
    (command : UInt8) (payload : List UInt8) (payloads : List (List UInt8)) : Prop :=
  if command = comPing then payloads = [OkPacket.new.payload]
  else if command = comQuery then
    ∀ sql, payload.drop 1 = utf8 sql → ∃ n outcomes s',
      Answers exec u c.clientCapabilities c.session sql n outcomes s' ∧
        payloads = batchPayloads c.deprecateEof n outcomes
  else if command = comStmtPrepare then
    ∀ sql, payload.drop 1 = utf8 sql →
      PrepareAnswers u c.nextStatementId c.deprecateEof sql payloads
  else if command = comStmtExecute then
    ∃ outcome s', ExecuteAnswers exec c.prepared c.session payload outcome s' ∧
      payloads = replyPayloads .binary c.deprecateEof false outcome
  else True

theorem handleCommand_wrote {command : UInt8}
    (h : handleCommand exec u command payload c = (.ok (), c')) :
    ∃ payloads, Wrote c c' payloads ∧ Response exec u c command payload payloads := by
  unfold handleCommand at h
  unfold Response
  split_ifs at h ⊢
  · exact ⟨_, writeNumbered_wrote h, rfl⟩
  · cases htext : String.fromUTF8? ⟨(payload.drop 1).toArray⟩ with
    | none =>
      simp only [htext] at h
      cases h
    | some text =>
      simp only [htext] at h
      obtain ⟨n, outcomes, s', hanswers, hfit, rfl⟩ := handleQuery_eq_ok h
      refine ⟨_, ⟨hfit, rfl⟩, fun sql hsql => ?_⟩
      rw [hsql, fromUTF8?_utf8] at htext
      cases htext
      exact ⟨n, outcomes, s', hanswers, rfl⟩
  · exact handleStmtPrepare_wrote h
  · obtain ⟨outcome, s', hanswers, hfit, rfl⟩ := handleStmtExecute_eq_ok h
    exact ⟨_, ⟨hfit, rfl⟩, outcome, s', hanswers, rfl⟩
  · cases h
    exact ⟨[], ⟨fun _ hp => absurd hp not_mem_nil, by split <;> simp [numbered]⟩, trivial⟩
  · exact ⟨_, (Sends.get_bind (.ite (sends_fit "OK" _) (sends_fit "ERR" _))).wrote h, trivial⟩
  · exact ⟨_, writeNumbered_wrote h, trivial⟩

theorem handlePacket_eq_ok {goesOn : Bool}
    (h : handlePacket exec u packet c = (.ok goesOn, c')) :
    packet.payload.head? = some comQuit ∧ c' = { c with sequenceId := 1 } ∨
      ∃ command, packet.payload.head? = some command ∧
        handleCommand exec u command packet.payload { c with sequenceId := 1 } = (.ok (), c') := by
  unfold handlePacket at h
  split_ifs at h
  · cases h
  · obtain ⟨_, c₁, hset, h⟩ := bind_eq_ok h
    cases hset
    cases hhead : packet.payload.head? with
    | none =>
      rw [hhead] at h
      cases h
    | some command =>
      rw [hhead] at h
      dsimp only at h
      split_ifs at h with hquit
      · cases h
        exact .inl ⟨by rw [hquit], rfl⟩
      · obtain ⟨_, c₂, hcommand, h⟩ := bind_eq_ok h
        cases h
        exact .inr ⟨command, rfl, hcommand⟩

/-- The packets of a response are numbered 1, 2, 3 and so on, whatever the command and however
its statements end. A query is answered with a reply for each statement up to the first error,
every reply but that error and the last one announces another, and a client that follows the
flags reads exactly what was sent. A PING is answered with an OK packet, a PREPARE with the
description of the statement or the error it was refused with. -/
theorem response_framed {goesOn : Bool}
    (h : handlePacket exec u packet c = (.ok goesOn, c')) :
    ∃ packets : List Packet, c'.sent = c.sent ++ packets.flatMap Packet.encode ∧
      packets.map Packet.sequenceId = (range' 1 packets.length).map UInt8.ofNat ∧
      Fit (packets.map Packet.payload) ∧
      (∀ sql, packet.payload = comQuery :: utf8 sql → ∃ n outcomes s',
        Answers exec u c.clientCapabilities c.session sql n outcomes s' ∧
        packets.map Packet.payload = batchPayloads c.deprecateEof n outcomes ∧
        ((∀ result, .ok result ∈ outcomes → result.columns.length < 2 ^ 64) → ∀ rest,
          Protocol.Client.readResponse c.deprecateEof (packets.map Packet.payload ++ rest) =
            some (batchReplies n outcomes, rest))) ∧
      (packet.payload.head? = some comStmtExecute → ∃ outcome s',
        ExecuteAnswers exec c.prepared c.session packet.payload outcome s' ∧
        packets.map Packet.payload = replyPayloads .binary c.deprecateEof false outcome ∧
        ((∀ result, outcome = .ok result → result.columns.length < 2 ^ 64) → ∀ rest,
          Protocol.Client.readResponse c.deprecateEof (packets.map Packet.payload ++ rest) =
            some ([reply false outcome], rest))) ∧
      (packet.payload.head? = some comPing → packets.map Packet.payload = [OkPacket.new.payload]) ∧
      (∀ sql, packet.payload = comStmtPrepare :: utf8 sql →
        PrepareAnswers u c.nextStatementId c.deprecateEof sql (packets.map Packet.payload)) := by
  rcases handlePacket_eq_ok h with ⟨hquit, rfl⟩ | ⟨command, hhead, hcommand⟩
  · have hne {command : UInt8} (hcommand : command ≠ comQuit) :
        packet.payload.head? ≠ some command :=
      fun h => hcommand (Option.some.inj (h.symm.trans hquit))
    refine ⟨[], by simp, rfl, fun _ hp => absurd hp not_mem_nil, ?_, ?_, ?_, ?_⟩
    · exact fun sql hsql => absurd (congrArg head? hsql) (hne (by decide))
    · exact fun hexecute => absurd hexecute (hne (by decide))
    · exact fun hping => absurd hping (hne (by decide))
    · exact fun sql hsql => absurd (congrArg head? hsql) (hne (by decide))
  · obtain ⟨payloads, ⟨hfit, hsent⟩, hresponse⟩ := handleCommand_wrote hcommand
    have hpayloads := Protocol.numbered_payloads 1 payloads
    have hlength : (numbered 1 payloads).length = payloads.length := by
      rw [← length_map (f := Packet.payload), hpayloads]
    have hcommand {other : UInt8} (h : packet.payload.head? = some other) : command = other :=
      Option.some.inj (hhead.symm.trans h)
    refine ⟨numbered 1 payloads, hsent, ?_, by rwa [hpayloads], ?_⟩
    · rw [hlength]
      exact Protocol.sequenceId_numbered 1 payloads
    rw [hpayloads]
    refine ⟨fun sql hsql => ?_, fun hexecute => ?_, fun hping => ?_, fun sql hsql => ?_⟩
    · cases hcommand (congrArg head? hsql)
      rw [hsql] at hresponse
      obtain ⟨n, outcomes, s', hanswers, rfl⟩ := hresponse sql rfl
      exact ⟨n, outcomes, s', hanswers, rfl, fun hcolumns =>
        readResponse_answers hanswers hcolumns hfit⟩
    · cases hcommand hexecute
      obtain ⟨outcome, s', hanswers, rfl⟩ := hresponse
      exact ⟨outcome, s', hanswers, rfl, fun hcolumns => readResponse_reply hcolumns hfit⟩
    · cases hcommand hping
      exact hresponse
    · cases hcommand (congrArg head? hsql)
      rw [hsql] at hresponse
      exact hresponse sql rfl

end Commands

def runs : Statement → Proc Server Error QueryResult := Server.query plainExecutor 0 none []

theorem parseMany_begin_commit : parseMany .ascii "BEGIN; COMMIT" = .ok [.begin, .commit] := by
  have htokens : tokenize .ascii "BEGIN; COMMIT" = .ok [.keyword .begin, .semicolon,
      .keyword .commit] := by
    decide +kernel
  rw [parseMany, htokens]
  rfl

theorem response_framed_begin_commit : ∃ c' : Connection Server,
    handlePacket runs .ascii ⟨0, comQuery :: utf8 "BEGIN; COMMIT"⟩
        ⟨.start .empty, 0, Protocol.clientMultiStatements, ∅, 1, []⟩ = (.ok true, c') ∧
      ∃ packets : List Packet, c'.sent = packets.flatMap Packet.encode ∧
        packets.map Packet.sequenceId = [1, 2] ∧
        packets.map Packet.payload = [[0, 0, 0, 10, 0, 0, 0], [0, 0, 0, 2, 0, 0, 0]] ∧
        Protocol.Client.readResponse false (packets.map Packet.payload) =
          some ([.ok 10, .ok 2], []) := by
  have hrun : Executes runs [.begin, .commit] (.start .empty)
    [.ok (.affected 0), .ok (.affected 0)] _ := .succeeded rfl (.succeeded rfl (.done _))
  have hquery := (handleQuery_sends
    (c := ⟨Server.start .empty, 1, Protocol.clientMultiStatements, ∅, 1, []⟩)
    (.executed parseMany_begin_commit (by decide) hrun)).fits (by decide)
  have hran := handlePacket_command runs .ascii
    ⟨.start .empty, 0, Protocol.clientMultiStatements, ∅, 1, []⟩ (by decide : comQuery ≠ comQuit)
    (utf8 "BEGIN; COMMIT")
  rw [handleCommand_query, bind_ok hquery] at hran
  obtain ⟨packets, hsent, hids, -, hresponse, -⟩ := response_framed hran
  obtain ⟨n, outcomes, s', hanswers, hpayloads, hread⟩ := hresponse _ rfl
  obtain ⟨rfl, hexecutes⟩ := hanswers.executes parseMany_begin_commit (by decide)
  obtain ⟨rfl, rfl⟩ := hexecutes.unique hrun
  have hlength : packets.length = 2 := by
    rw [← length_map (f := Packet.payload), hpayloads]
    rfl
  rw [hlength] at hids
  have hreplies := hread (by simp [QueryResult.affected]) []
  rw [append_nil] at hreplies
  exact ⟨_, hran, packets, hsent, hids, hpayloads, hreplies⟩

end Connection

end MysqlRust
