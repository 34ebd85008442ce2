import MysqlRust.Server.Responses

/-! # When a command is answered

A statement that fails is answered with its error and the connection goes on. What ends the
connection is a reply that does not fit into packets, and a panic.
-/
namespace MysqlRust.Connection

open Proc List
open Protocol (Packet RowFormat ErrPacket OkPacket ResultSet Fit maxPayload)

def Sendable (format : RowFormat) : Except Error QueryResult → Prop
  | .ok result => result.columns = [] ∨ result.resultSet.Fits format
  | .error e => (utf8 (ErrPacket.fromError e).message).length + 9 ≤ maxPayload

theorem length_errPayload (e : Error) : (ErrPacket.fromError e).payload.length =
    (utf8 (ErrPacket.fromError e).message).length + 9 := by
  have hstate : (utf8 (ErrPacket.fromError e).sqlState).length = 5 := by
    cases e <;> rfl
  simp only [ErrPacket.payload, length_append, length_cons, length_nil, leBytes_length, hstate]
  omega

theorem length_okPayload_le (ok : OkPacket) (h : ok.info = "") : ok.payload.length ≤ maxPayload := by
  have hrows := Protocol.length_writeLenencInt_le ok.affectedRows
  have hid := Protocol.length_writeLenencInt_le ok.lastInsertId
  have hinfo : (utf8 ok.info).length = 0 := by
    rw [h]
    decide
  simp only [OkPacket.payload, length_append, length_cons, leBytes_length, hinfo, maxPayload]
  omega

theorem fit_replyPayloads (format : RowFormat) (deprecateEof moreResults : Bool)
    (outcome : Except Error QueryResult) :
    Fit (replyPayloads format deprecateEof moreResults outcome) ↔ Sendable format outcome := by
  cases outcome with
  | error e =>
    rw [replyPayloads, Protocol.fit_singleton, length_errPayload]
    rfl
  | ok result =>
    by_cases hcolumns : result.columns = []
    · simp only [replyPayloads, Sendable, hcolumns, true_or, iff_true]
      exact Protocol.fit_singleton.mpr (length_okPayload_le _ rfl)
    · simp only [replyPayloads, Sendable, hcolumns, false_or]
      exact ResultSet.fit_payloads

theorem fit_batchPayloads (deprecateEof : Bool) (n : Nat)
    (outcomes : List (Except Error QueryResult)) :
    Fit (batchPayloads deprecateEof n outcomes) ↔ ∀ outcome ∈ outcomes, Sendable .text outcome := by
  constructor
  · intro hfit outcome houtcome
    obtain ⟨i, hi, rfl⟩ := mem_iff_getElem.mp houtcome
    refine (fit_replyPayloads .text deprecateEof (outcomes[i].isOk && decide (i + 1 < n)) _).mp ?_
    intro payload hpayload
    exact hfit payload (mem_flatten.mpr ⟨_, mem_mapIdx.mpr ⟨i, hi, rfl⟩, hpayload⟩)
  · intro hsendable payload hpayload
    obtain ⟨reply, hreply, hpayload⟩ := mem_flatten.mp hpayload
    obtain ⟨i, hi, rfl⟩ := mem_mapIdx.mp hreply
    exact (fit_replyPayloads ..).mpr (hsendable _ (getElem_mem hi)) payload hpayload

/-- The commands that run statements. -/
inductive Request where
  | query (sql : String)
  | execute (body : List UInt8)

def Request.packet : Request → Packet
  | query sql => ⟨0, comQuery :: utf8 sql⟩
  | execute body => ⟨0, comStmtExecute :: body⟩

section Answered
variable {σ : Type}

def afterResponse (c : Connection σ) (payloads : List (List UInt8)) (s' : σ) : Connection σ :=
  { emit { c with sequenceId := 1 } payloads with session := s' }

/-- The statements of the command return, and each reply to them fits. -/
inductive Request.Answered (exec : Statement → Proc σ Error QueryResult) (u : Unicode)
    (c : Connection σ) : Request → List (List UInt8) → σ → Prop
  | query {sql : String} {n : Nat} {outcomes : List (Except Error QueryResult)} {s' : σ}
      (answers : Answers exec u c.clientCapabilities c.session sql n outcomes s')
      (sendable : ∀ outcome ∈ outcomes, Sendable .text outcome) :
      Answered exec u c (.query sql) (batchPayloads c.deprecateEof n outcomes) s'
  | execute {body : List UInt8} {outcome : Except Error QueryResult} {s' : σ}
      (answers : ExecuteAnswers exec c.prepared c.session (comStmtExecute :: body) outcome s')
      (sendable : Sendable .binary outcome) :
      Answered exec u c (.execute body) (replyPayloads .binary c.deprecateEof false outcome) s'

/-- The commands of a client, each with its whole response before the next one is read. -/
inductive Session (exec : Statement → Proc σ Error QueryResult) (u : Unicode) :
    List Request → Connection σ → Connection σ → Prop
  | done (c : Connection σ) : Session exec u [] c c
  | next {request : Request} {requests : List Request} {c c' : Connection σ}
      {payloads : List (List UInt8)} {s' : σ} (head : request.Answered exec u c payloads s')
      (tail : Session exec u requests (c.afterResponse payloads s') c') :
      Session exec u (request :: requests) c c'

/-- A command is handled just when it is answered. -/
theorem handlePacket_request_iff {exec : Statement → Proc σ Error QueryResult} {u : Unicode}
    {c c' : Connection σ} {goesOn : Bool} (request : Request) :
    handlePacket exec u request.packet c = (.ok goesOn, c') ↔ goesOn = true ∧
      ∃ payloads s', request.Answered exec u c payloads s' ∧ c' = c.afterResponse payloads s' := by
  cases request with
  | query sql =>
    rw [Request.packet, handlePacket_command exec u c (by decide), handleCommand_query]
    constructor
    · intro h
      obtain ⟨_, c₁, hquery, h⟩ := bind_eq_ok h
      cases h
      obtain ⟨n, outcomes, s', hanswers, hfit, rfl⟩ := handleQuery_eq_ok hquery
      exact ⟨rfl, _, s', .query hanswers ((fit_batchPayloads ..).mp hfit), rfl⟩
    · rintro ⟨rfl, _, s', ⟨hanswers, hsendable⟩, rfl⟩
      exact bind_ok ((handleQuery_sends (c := { c with sequenceId := 1 }) hanswers).fits
        ((fit_batchPayloads ..).mpr hsendable))
  | execute body =>
    rw [Request.packet, handlePacket_command exec u c (by decide), handleCommand_execute]
    constructor
    · intro h
      obtain ⟨_, c₁, hexecute, h⟩ := bind_eq_ok h
      cases h
      obtain ⟨outcome, s', hanswers, hfit, rfl⟩ := handleStmtExecute_eq_ok hexecute
      exact ⟨rfl, _, s', .execute hanswers ((fit_replyPayloads ..).mp hfit), rfl⟩
    · rintro ⟨rfl, _, s', _ | ⟨hanswers, hsendable⟩, rfl⟩
      exact bind_ok ((handleStmtExecute_sends (c := { c with sequenceId := 1 }) hanswers).fits
        ((fit_replyPayloads ..).mpr hsendable))

theorem runCommandLoop_iff {exec : Statement → Proc σ Error QueryResult} {u : Unicode}
    {requests : List Request} {c c' : Connection σ} :
    runCommandLoop exec u (requests.map Request.packet) c = (.ok (), c') ↔
      Session exec u requests c c' := by
  induction requests generalizing c with
  | nil =>
    constructor
    · rintro ⟨⟩
      exact .done _
    · rintro ⟨⟩
      rfl
  | cons request requests ih =>
    constructor
    · intro h
      obtain ⟨goesOn, c₁, hpacket, h⟩ := bind_eq_ok h
      obtain ⟨rfl, payloads, s', hhead, rfl⟩ := (handlePacket_request_iff request).mp hpacket
      exact .next hhead (ih.mp h)
    · rintro (_ | ⟨hhead, htail⟩)
      have hpacket := (handlePacket_request_iff _).mpr ⟨rfl, _, _, hhead, rfl⟩
      rw [map_cons, runCommandLoop, bind_ok hpacket]
      exact ih.mpr htail

variable (exec : Statement → Proc σ Error QueryResult) (u : Unicode) (c : Connection σ)

/-- A query is answered statement by statement and the connection goes on, exactly when every
statement executed returns and each reply fits; the same holds for a prepared statement, and the
command loop gets through a client's commands exactly when each of them is answered so. -/
theorem command_answered_iff (sql : String) (body : List UInt8) :
    ((∃ n outcomes s', Answers exec u c.clientCapabilities c.session sql n outcomes s' ∧
        handlePacket exec u ⟨0, comQuery :: utf8 sql⟩ c = (.ok true,
          { emit { c with sequenceId := 1 } (batchPayloads c.deprecateEof n outcomes) with
            session := s' })) ↔
      ∃ n outcomes s', Answers exec u c.clientCapabilities c.session sql n outcomes s' ∧
        ∀ outcome ∈ outcomes, Sendable .text outcome) ∧
    ((∃ outcome s', ExecuteAnswers exec c.prepared c.session (comStmtExecute :: body) outcome s' ∧
        handlePacket exec u ⟨0, comStmtExecute :: body⟩ c = (.ok true,
          { emit { c with sequenceId := 1 } (replyPayloads .binary c.deprecateEof false outcome) with
            session := s' })) ↔
      ∃ outcome s', ExecuteAnswers exec c.prepared c.session (comStmtExecute :: body) outcome s' ∧
        Sendable .binary outcome) ∧
    ∀ requests c', runCommandLoop exec u (requests.map Request.packet) c = (.ok (), c') ↔
      Session exec u requests c c' := by
  refine ⟨⟨?_, ?_⟩, ⟨?_, ?_⟩, fun requests c' => runCommandLoop_iff⟩
  · rintro ⟨_, _, _, -, hok⟩
    obtain ⟨-, _, _, ⟨hanswers, hsendable⟩, -⟩ :=
      (handlePacket_request_iff (.query sql)).mp hok
    exact ⟨_, _, _, hanswers, hsendable⟩
  · rintro ⟨n, outcomes, s', hanswers, hsendable⟩
    exact ⟨n, outcomes, s', hanswers, (handlePacket_request_iff (.query sql)).mpr
      ⟨rfl, _, s', .query hanswers hsendable, rfl⟩⟩
  · rintro ⟨_, _, -, hok⟩
    obtain ⟨-, _, _, _ | ⟨hanswers, hsendable⟩, -⟩ :=
      (handlePacket_request_iff (.execute body)).mp hok
    exact ⟨_, _, hanswers, hsendable⟩
  · rintro ⟨outcome, s', hanswers, hsendable⟩
    exact ⟨outcome, s', hanswers, (handlePacket_request_iff (.execute body)).mpr
      ⟨rfl, _, s', .execute hanswers hsendable, rfl⟩⟩

end Answered

def textServer (text : String) : Server :=
  (runs (.insert ⟨"t", none, [[.string text]]⟩)
    (.start (Store.empty.setTable "t" (Table.new [textCol "s"] none)))).2

def selectTwice : Select where
  projection := [.expr (.column ⟨none, "s"⟩) none, .expr (.column ⟨none, "s"⟩) none]
  fromClause := some ⟨⟨"t", none⟩, []⟩
  selection := none
  groupBy := []
  orderBy := []
  limit := none
  offset := none

theorem parseMany_selectTwice : parseMany .ascii "SELECT s, s FROM t" = .ok [.select selectTwice] := by
  have htokens : tokenize .ascii "SELECT s, s FROM t" = .ok [.keyword .select, .ident "s", .comma,
      .ident "s", .keyword .fromKw, .ident "t"] := by
    decide +kernel
  rw [parseMany, htokens]
  rfl

theorem runs_selectTwice (text : String) : runs (.select selectTwice) (textServer text) =
    (.ok ⟨[textCol "s", textCol "s"], [[.varchar text, .varchar text]], 0⟩, textServer text) := rfl

theorem length_selectTwice_le {text : String}
    (h : Sendable .text (.ok ⟨[textCol "s", textCol "s"], [[.varchar text, .varchar text]], 0⟩)) :
    2 * (utf8 text).length ≤ maxPayload := by
  rcases h with hcolumns | hfits
  · cases hcolumns
  · have hrow := hfits.2 [.text text, .text text] mem_cons_self
    have hcell := Protocol.length_utf8_lt_writeLenencStr text
    simp only [RowFormat.payload, Protocol.textRow, flatMap_cons, flatMap_nil,
      Protocol.textCell, Protocol.Cell.toText, length_append, length_nil] at hrow
    omega

/-- A text was stored by a query of nine million bytes; selecting it twice ends the
connection, because the row is longer than a packet. -/
theorem wide_row_ends_connection : ¬ ∃ goesOn c', handlePacket runs .ascii
      ⟨0, comQuery :: utf8 "SELECT s, s FROM t"⟩
      ⟨textServer (String.ofList (List.replicate 9000000 'a')), 0, 0, ∅, 1, []⟩ =
    (.ok goesOn, c') := by
  rintro ⟨goesOn, c', h⟩
  obtain ⟨-, _, _, ⟨hanswers, hsendable⟩, -⟩ :=
    (handlePacket_request_iff (.query "SELECT s, s FROM t")).mp h
  obtain ⟨-, hrun⟩ := hanswers.executes parseMany_selectTwice (by simp)
  obtain ⟨rfl, rfl⟩ := hrun.unique (.succeeded (runs_selectTwice _) (.done _))
  have hle := length_selectTwice_le (hsendable _ mem_cons_self)
  rw [utf8_length_replicate 9000000 (by decide)] at hle
  exact absurd hle (by decide)

end MysqlRust.Connection
