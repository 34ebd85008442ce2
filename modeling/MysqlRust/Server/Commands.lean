import MysqlRust.Protocol.Handshake
import MysqlRust.Protocol.Prepared
import MysqlRust.Query.Binding
import MysqlRust.Query.Select

/-! # The command loop

A command is one packet with sequence id 0; the packets of its response are numbered from 1.
Executing a statement is a parameter: any procedure that returns a result or an error, or panics.
Writing to the socket succeeds; were it to fail, the handler would fail with it.
-/
namespace MysqlRust

open Proc
open Protocol (Packet OkPacket ErrPacket RowFormat ResultSet Cell)

/-- Only integers have a representation of their own on the wire. -/
def columnDefinition (schema : ColumnSchema) : Protocol.ColumnDefinition where
  name := schema.name
  columnType := match schema.columnType with
    | .int => .longLong
    | .varchar | .decimal _ | .date => .varString

def valueToCell : Value → Cell
  | .int n => .int n
  | .varchar s => .text s
  | .null => .null
  | decimalOrDate => .text (decimalOrDate.toDisplayString.getD "")

def cellToExpr : Cell → Expr
  | .int n => .integer n
  | .text s => .string s
  | .null => .null

def QueryResult.resultSet (result : QueryResult) : ResultSet :=
  ⟨result.columns.map columnDefinition, result.rows.map (·.map valueToCell)⟩

def comQuit : UInt8 := 0x01
def comQuery : UInt8 := 0x03
def comPing : UInt8 := 0x0e
def comStmtPrepare : UInt8 := 0x16
def comStmtExecute : UInt8 := 0x17
def comStmtClose : UInt8 := 0x19
def comStmtReset : UInt8 := 0x1a

def serverStatusAutocommit : UInt16 := 0x0002
def serverMoreResultsExists : UInt16 := 0x0008

structure PreparedStatement where
  statement : Statement
  paramCount : Nat

structure Connection (σ : Type) where
  /-- What statements read and change. -/
  session : σ
  sequenceId : UInt8
  clientCapabilities : UInt32
  prepared : Finmap fun _ : UInt32 => PreparedStatement
  nextStatementId : UInt32
  /-- Everything written to the socket so far. -/
  sent : List UInt8

abbrev Handler (σ α : Type) : Type := Proc (Connection σ) Error α

namespace Connection
variable {σ : Type}

def deprecateEof (c : Connection σ) : Bool :=
  c.clientCapabilities &&& Protocol.clientDeprecateEof ≠ 0

def get : Handler σ (Connection σ) := Proc.read .ok

def setSequenceId (sequenceId : UInt8) : Handler σ Unit := fun c => (.ok (), { c with sequenceId })

def flushOutBuf (outBuf : List UInt8) : Handler σ Unit := fun c =>
  (.ok (), { c with sent := c.sent ++ outBuf })

def writePacket (packet : Packet) : Handler σ Unit := flushOutBuf (packet.encodeInto [])

/-- A packet under the current sequence id. -/
def writeNumbered (toPacket : UInt8 → Result Packet) : Handler σ Unit := do
  let c ← get
  let packet ← lift (toPacket c.sequenceId)
  writePacket packet

def sendPacket (toPacket : UInt8 → Result Packet) : Handler σ Unit := do
  writeNumbered toPacket
  let c ← get
  setSequenceId (c.sequenceId + 1)

def statusFlags (moreResults : Bool) : UInt16 :=
  if moreResults then serverStatusAutocommit ||| serverMoreResultsExists
  else serverStatusAutocommit

def sendResult (outcome : Except Error QueryResult) (format : RowFormat) (moreResults : Bool) :
    Handler σ Unit :=
  match outcome with
  | .ok result =>
    if result.columns = [] then
      sendPacket (OkPacket.toPacket { OkPacket.new with
        affectedRows := UInt64.ofNat result.rowsAffected
        statusFlags := statusFlags moreResults })
    else do
      let c ← get
      let (outBuf, nextSeq) ← lift (format.encodeInto result.resultSet [] c.deprecateEof
        (statusFlags moreResults) c.sequenceId)
      flushOutBuf outBuf
      setSequenceId nextSeq
  | .error e => sendPacket (ErrPacket.fromError e).toPacket

def sendStmtError (e : Error) : Handler σ Unit := sendPacket (ErrPacket.fromError e).toPacket

section Handlers
variable (exec : Statement → Proc σ Error QueryResult) (u : Unicode)

/-- An error of a statement is an answer to the client; a panic ends the connection. -/
def executeStatement (st : Statement) : Handler σ (Except Error QueryResult) := fun c =>
  match exec st c.session with
  | (.ok result, session) => (.ok (.ok result), { c with session })
  | (.err e, session) => (.ok (.error e), { c with session })
  | (.panic, session) => (.panic, { c with session })

def executeEach : List Statement → Handler σ Unit
  | [] => pure ()
  | st :: rest => do
    let outcome ← executeStatement exec st
    sendResult outcome .text (outcome.isOk && !rest.isEmpty)
    if outcome.isOk then executeEach rest else pure ()

def needsMultiStatements : Error :=
  .parse "multiple statements in one query require CLIENT_MULTI_STATEMENTS"

def handleQuery (sql : String) : Handler σ Unit :=
  match parseMany u sql with
  | .ok statements => do
    let c ← get
    if 1 < statements.length ∧ c.clientCapabilities &&& Protocol.clientMultiStatements = 0 then
      sendResult (.error needsMultiStatements) .text false
    else executeEach exec statements
  | .err e => sendResult (.error e) .text false
  | .panic => lift .panic

def sendParamDefinitions : Nat → Handler σ Unit
  | 0 => pure ()
  | n + 1 => do
    sendPacket (Protocol.ColumnDefinition.toPacket ⟨"?", .varString⟩)
    sendParamDefinitions n

def addPrepared (p : PreparedStatement) : Handler σ UInt32 := fun c =>
  (.ok c.nextStatementId, { c with
    prepared := c.prepared.insert c.nextStatementId p
    nextStatementId := c.nextStatementId + 1 })

def handleStmtPrepare (payload : List UInt8) : Handler σ Unit :=
  match String.fromUTF8? ⟨(payload.drop 1).toArray⟩ with
  | none => sendStmtError (.protocol "COM_STMT_PREPARE: payload is not valid UTF-8")
  | some sql =>
    match parsePrepared u sql with
    | .ok (statement, paramCount) => do
      let statementId ← addPrepared ⟨statement, paramCount⟩
      sendPacket (Protocol.StmtPrepareOk.toPacket ⟨statementId, 0, UInt16.ofNat paramCount⟩)
      if 0 < paramCount then do
        sendParamDefinitions paramCount
        let c ← get
        if c.deprecateEof then pure ()
        else sendPacket fun seq => .ok (Protocol.eofPacket serverStatusAutocommit seq)
      else pure ()
    | .err e => sendStmtError e
    | .panic => lift .panic

def statementId (payload : List UInt8) : UInt32 := UInt32.ofNat (leValue ((payload.drop 1).take 4))

def bindPayload (p : PreparedStatement) (payload : List UInt8) : Result Statement := do
  let params ← Protocol.parseExecuteParams payload p.paramCount
  bindParameters (params.map cellToExpr) p.statement

def handleStmtExecute (payload : List UInt8) : Handler σ Unit :=
  if payload.length < 5 then
    sendStmtError (.protocol "COM_STMT_EXECUTE: truncated header")
  else do
    let c ← get
    match c.prepared.lookup (statementId payload) with
    | none => sendStmtError (.execution s!"Unknown prepared statement handler ({statementId payload}) given to COM_STMT_EXECUTE")
    | some p =>
      match bindPayload p payload with
      | .ok bound => do
        let outcome ← executeStatement exec bound
        sendResult outcome .binary false
      | .err e => sendResult (.error e) .binary false
      | .panic => lift .panic

def handleStmtClose (payload : List UInt8) : Handler σ Unit := fun c =>
  (.ok (), if 5 ≤ payload.length then
    { c with prepared := c.prepared.erase (statementId payload) } else c)

def handleStmtReset (payload : List UInt8) : Handler σ Unit := do
  let c ← get
  if 5 ≤ payload.length ∧ statementId payload ∈ c.prepared then sendPacket OkPacket.new.toPacket
  else sendPacket (ErrPacket.toPacket
    ⟨1243, "HY000", "Unknown prepared statement handler given to COM_STMT_RESET"⟩)

def handleCommand (command : UInt8) (payload : List UInt8) : Handler σ Unit :=
  if command = comPing then writeNumbered OkPacket.new.toPacket
  else if command = comQuery then
    match String.fromUTF8? ⟨(payload.drop 1).toArray⟩ with
    | some sql => handleQuery exec u sql
    | none => lift (.err (.protocol "COM_QUERY: payload is not valid UTF-8"))
  else if command = comStmtPrepare then handleStmtPrepare u payload
  else if command = comStmtExecute then handleStmtExecute exec payload
  else if command = comStmtClose then handleStmtClose payload
  else if command = comStmtReset then handleStmtReset payload
  else writeNumbered (ErrPacket.toPacket
    ⟨1047, "08S01", s!"Unknown command {Protocol.hexByte command}"⟩)

def handlePacket (packet : Packet) : Handler σ Bool :=
  if packet.sequenceId ≠ 0 then lift (.err (.protocol
    s!"expected a fresh command sequence starting at 0, got {packet.sequenceId}"))
  else do
    setSequenceId 1
    match packet.payload.head? with
    | none => lift (.err (.protocol "empty command packet"))
    | some command =>
      if command = comQuit then pure false
      else do
        handleCommand exec u command packet.payload
        pure true

def runCommandLoop : List Packet → Handler σ Unit
  | [] => pure ()
  | packet :: packets => do
    let goesOn ← handlePacket exec u packet
    if goesOn then runCommandLoop packets else pure ()

end Handlers

end Connection

end MysqlRust
