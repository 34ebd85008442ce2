import MysqlRust.Foundation.Handles
import MysqlRust.Query.Seams
import MysqlRust.Query.Substitution
import MysqlRust.Server.Responses

/-! # Prepared statements of a connection

What the reply to `COM_STMT_PREPARE` tells a client about the statement, and which statement an
id stands for along the commands of a connection.
-/
namespace MysqlRust
open MysqlRust.Parser Proc List

def morePlaceholders (n : Nat) : List Token := (replicate n [.comma, .placeholder]).flatten

def morePlaceholdersText (n : Nat) : List Char := (replicate n [',', '?']).flatten

def selectPlaceholders (n : Nat) : String := String.ofList ("SELECT ?".toList ++ morePlaceholdersText n)

theorem length_morePlaceholdersText (n : Nat) : (morePlaceholdersText n).length = 2 * n := by
  simp [morePlaceholdersText, Nat.mul_comm]

theorem toList_selectPlaceholders (n : Nat) :
    (selectPlaceholders n).toList = "SELECT ?".toList ++ morePlaceholdersText n :=
  String.toList_ofList

theorem length_utf8_selectPlaceholders (n : Nat) :
    (utf8 (selectPlaceholders n)).length = 2 * n + 8 := by
  have hsize : ∀ c ∈ (selectPlaceholders n).toList, c.utf8Size = 1 := by
    intro c hc
    rw [toList_selectPlaceholders, mem_append] at hc
    rcases hc with hc | hc
    · have hall : "SELECT ?".toList.all fun c => decide (c.utf8Size = 1) := by decide
      exact of_decide_eq_true (all_eq_true.mp hall c hc)
    · obtain ⟨pair, hpair, hc⟩ := mem_flatten.mp hc
      rw [eq_of_mem_replicate hpair] at hc
      rcases mem_pair.mp hc with rfl | rfl <;> decide
  rw [length_utf8_of_size hsize, toList_selectPlaceholders, length_append,
    length_morePlaceholdersText, Nat.add_comm]
  rfl

theorem length_morePlaceholders (n : Nat) : (morePlaceholders n).length = 2 * n := by
  simp [morePlaceholders, Nat.mul_comm]

theorem tokensOf_morePlaceholders (u : Unicode) (len n : Nat) :
    tokensOf u len (morePlaceholdersText n) = .ok (morePlaceholders n) := by
  induction n with
  | zero => rfl
  | succ n ih =>
    exact tokensOf_token (cons_ne_nil _ _) rfl (tokensOf_token (cons_ne_nil _ _) rfl ih)

theorem tokenize_selectPlaceholders (n : Nat) : tokenize .ascii (selectPlaceholders n) =
      .ok (.keyword .select :: .placeholder :: morePlaceholders n) := by
  rw [tokenize, toList_selectPlaceholders]
  refine tokensOf_token (cons_ne_nil _ _) rfl (tokensOf_skip (cons_ne_nil _ _) rfl ?_)
  exact tokensOf_token (cons_ne_nil _ _) rfl (tokensOf_morePlaceholders _ _ n)

theorem sepByComma_morePlaceholders (fuel n k : Nat) :
    ∃ items, sepByComma (parseSelectItem parseExpr) (n + fuel + 1)
        ⟨.placeholder :: morePlaceholders n, true, k⟩ = (.ok items, ⟨[], true, k + n + 1⟩) := by
  induction n generalizing k with
  | zero => exact ⟨[.expr (.placeholder k) none], by rw [Nat.zero_add]; rfl⟩
  | succ n ih =>
    obtain ⟨items, hitems⟩ := ih (k + 1)
    have hfuel : n + 1 + fuel + 1 = (n + fuel + 1) + 1 := by omega
    have hitem : parseSelectItem parseExpr ⟨.placeholder :: morePlaceholders (n + 1), true, k⟩ =
        (.ok (.expr (.placeholder k) none), ⟨morePlaceholders (n + 1), true, k + 1⟩) := rfl
    have hcomma : eat .comma ⟨morePlaceholders (n + 1), true, k + 1⟩ =
        (.ok true, ⟨.placeholder :: morePlaceholders n, true, k + 1⟩) := rfl
    have hcount : k + (n + 1) + 1 = k + 1 + n + 1 := by omega
    refine ⟨.expr (.placeholder k) none :: items, ?_⟩
    rw [hfuel, sepByComma, bind_ok hitem, bind_ok hcomma, if_pos rfl, bind_ok hitems, hcount]
    rfl

theorem parsePrepared_selectPlaceholders (n : Nat) :
    ∃ query, parsePrepared .ascii (selectPlaceholders n) = .ok (.select query, n + 1) := by
  obtain ⟨items, hitems⟩ := sepByComma_morePlaceholders (n + 1) n 0
  have hbounded : bounded (sepByComma (parseSelectItem parseExpr))
      ⟨.placeholder :: morePlaceholders n, true, 0⟩ = (.ok items, ⟨[], true, n + 1⟩) := by
    have hfuel : (Token.placeholder :: morePlaceholders n).length + 1 = n + (n + 1) + 1 := by
      rw [length_cons, length_morePlaceholders]
      omega
    rw [bounded, hfuel, hitems, Nat.zero_add]
  have hselect : expectKeyword .select
      ⟨.keyword .select :: .placeholder :: morePlaceholders n, true, 0⟩ =
        (.ok (), ⟨.placeholder :: morePlaceholders n, true, 0⟩) := rfl
  refine ⟨⟨items, none, none, [], [], none, none⟩, ?_⟩
  rw [parsePrepared, tokenize_selectPlaceholders, Outcome.ok_bind, parsePreparedTokens_eq_ok]
  refine ⟨cons_ne_nil _ _, ⟨[], true, n + 1⟩, ?_, rfl⟩
  have hparse : parseStatement ⟨.keyword .select :: .placeholder :: morePlaceholders n, true, 0⟩ =
      parseSelect parseExpr ⟨.keyword .select :: .placeholder :: morePlaceholders n, true, 0⟩ := rfl
  rw [hparse, parseSelect, bind_ok hselect, bind_ok hbounded]
  rfl

namespace Connection
open Protocol (Packet Client.readDefinition)

section Described

def announcedParams (payloads : List (List UInt8)) : Nat :=
  leValue (((payloads.headD []).drop 7).take 2)

def paramDefinitions (payloads : List (List UInt8)) : List Protocol.ColumnDefinition :=
  payloads.tail.filterMap (Reader.parseAll Client.readDefinition)

/-- A reply that counts the parameters of the statement as the rest of the server does. -/
structure Truthful (payloads : List (List UInt8)) (p : PreparedStatement) : Prop where
  defined : (paramDefinitions payloads).length = announcedParams payloads
  decoded : ∀ payload cells, Protocol.parseExecuteParams payload p.paramCount = .ok cells →
    cells.length = announcedParams payloads
  required : ∀ params, (bindParameters params p.statement).isOk = true ↔
    announcedParams payloads ≤ params.length

variable (id : UInt32) (n : Nat) (deprecateEof : Bool)

theorem announcedParams_preparePayloads :
    announcedParams (preparePayloads id n deprecateEof) = n % 2 ^ 16 := by
  have hcount : ((Protocol.StmtPrepareOk.payload ⟨id, 0, UInt16.ofNat n⟩).drop 7).take 2 =
      leBytes 2 (UInt16.ofNat n).toNat := rfl
  rw [announcedParams, preparePayloads, headD_cons, hcount,
    leValue_leBytes_of_lt (UInt16.toNat_lt _), UInt16.toNat_ofNat']

theorem paramDefinitions_preparePayloads :
    paramDefinitions (preparePayloads id n deprecateEof) = replicate n ⟨"?", .varString⟩ := by
  have hparam : Reader.parseAll Client.readDefinition paramPayload = some ⟨"?", .varString⟩ :=
    Protocol.Client.readDefinition_payload (by decide)
  have hmark : Reader.parseAll Client.readDefinition
      (Protocol.eofPayload serverStatusAutocommit) = none := by decide +kernel
  have hend : (if deprecateEof then [] else [Protocol.eofPayload serverStatusAutocommit]).filterMap
      (Reader.parseAll Client.readDefinition) = [] := by
    cases deprecateEof
    · exact filterMap_cons_none hmark
    · rfl
  rw [paramDefinitions, preparePayloads, tail_cons]
  by_cases hpos : 0 < n
  · rw [if_pos hpos, filterMap_append, hend, append_nil, filterMap_replicate_of_some hparam]
  · rw [if_neg hpos, Nat.eq_zero_of_not_pos hpos]
    rfl

end Described

section
variable {σ : Type} (exec : Statement → Proc σ Error QueryResult) (u : Unicode) (c : Connection σ)
variable {sql : String} {st : Statement} {n : Nat}

theorem handleCommand_prepare (payload : List UInt8) :
    handleCommand exec u comStmtPrepare payload = handleStmtPrepare u payload := by
  rw [handleCommand, if_neg (by decide), if_neg (by decide), if_pos rfl]

/-- A parameter is required for each placeholder of an `INSERT` or a `SELECT`, and none for
another statement. -/
theorem isOk_bindParameters_prepared {u : Unicode} (h : parsePrepared u sql = .ok (st, n))
    (params : List Expr) :
    (bindParameters params st).isOk = true ↔ (st.isInsertOrSelect = true → n ≤ params.length) := by
  obtain ⟨tokens, -, htokens⟩ := Outcome.bind_eq_ok.mp h
  rw [isOk_bindParameters, supplied, all_eq_true]
  simp only [decide_eq_true_eq]
  constructor
  · intro hall hst
    obtain ⟨hrange, -⟩ := placeholders_parsePreparedTokens htokens hst
    rw [hrange] at hall
    by_contra hlt
    exact lt_irrefl _ (hall params.length (mem_range.mpr (Nat.lt_of_not_le hlt)))
  · intro hle i hi
    cases hst : st.isInsertOrSelect with
    | true =>
      obtain ⟨hrange, -⟩ := placeholders_parsePreparedTokens htokens hst
      rw [hrange, mem_range] at hi
      exact Nat.lt_of_lt_of_le hi (hle hst)
    | false =>
      rw [Statement.placeholders_eq_nil hst] at hi
      cases hi

theorem truthful_preparePayloads_iff {u : Unicode} (h : parsePrepared u sql = .ok (st, n))
    (id : UInt32) (deprecateEof : Bool) :
    Truthful (preparePayloads id n deprecateEof) ⟨st, n⟩ ↔
      n < 2 ^ 16 ∧ (st.isInsertOrSelect = true ∨ n = 0) := by
  have hannounced := announcedParams_preparePayloads id n deprecateEof
  have hrequired := isOk_bindParameters_prepared h
  constructor
  · intro htruthful
    have hdefined := htruthful.defined
    rw [paramDefinitions_preparePayloads, length_replicate, hannounced] at hdefined
    refine ⟨by omega, ?_⟩
    rw [or_iff_not_imp_left]
    intro hst
    -- a statement that requires no parameter is one that announces none
    have hnone := (htruthful.required []).mp ((hrequired []).mpr fun h => absurd h hst)
    rw [hannounced, length_nil] at hnone
    omega
  · rintro ⟨hlt, hst⟩
    rw [Nat.mod_eq_of_lt hlt] at hannounced
    refine ⟨?_, ?_, ?_⟩
    · rw [paramDefinitions_preparePayloads, length_replicate, hannounced]
    · intro payload cells hcells
      rw [hannounced, Protocol.length_parseExecuteParams hcells]
    · intro params
      rw [hannounced]
      rcases hst with hst | rfl
      · exact (hrequired params).trans (forall_prop_of_true hst)
      · exact (hrequired params).trans ⟨fun _ => Nat.zero_le _, fun h _ => h⟩

theorem handlePacket_prepare (h : parsePrepared u sql = .ok (st, n)) :
    handlePacket exec u ⟨0, comStmtPrepare :: utf8 sql⟩ c =
      (.ok true, ({ c with sequenceId := 1 }.withPrepared ⟨st, n⟩).emit
        (preparePayloads c.nextStatementId n c.deprecateEof)) := by
  have htext : String.fromUTF8? ⟨((comStmtPrepare :: utf8 sql).drop 1).toArray⟩ = some sql :=
    fromUTF8?_utf8 sql
  rw [handlePacket_command exec u c (by decide), handleCommand_prepare]
  exact bind_ok (handleStmtPrepare_ok htext h)

/-- The reply to a statement that parses: what it tells the client is true of statements with
fewer parameters than the header can count, unless they are placeholders that nothing binds. -/
theorem handlePacket_prepare_truthful_iff {sql : String} {st : Statement} {n : Nat}
    (h : parsePrepared u sql = .ok (st, n)) :
    handlePacket exec u ⟨0, comStmtPrepare :: utf8 sql⟩ c =
        (.ok true, ({ c with sequenceId := 1 }.withPrepared ⟨st, n⟩).emit
          (preparePayloads c.nextStatementId n c.deprecateEof)) ∧
      (Truthful (preparePayloads c.nextStatementId n c.deprecateEof) ⟨st, n⟩ ↔
        n < 2 ^ 16 ∧ (st.isInsertOrSelect = true ∨ n = 0)) :=
  ⟨handlePacket_prepare exec u c h, truthful_preparePayloads_iff h _ _⟩

def opened : Connection Server := ⟨.start .empty, 0, 0, ∅, 1, []⟩

theorem handlePacket_prepare_truthful_select :
    ∃ query, parsePrepared .ascii (selectPlaceholders 1) = .ok (.select query, 2) ∧
      Truthful (preparePayloads 1 2 false) ⟨.select query, 2⟩ := by
  obtain ⟨query, hparse⟩ := parsePrepared_selectPlaceholders 1
  have htruthful := (handlePacket_prepare_truthful_iff runs .ascii opened hparse).2
  exact ⟨query, hparse, htruthful.mpr ⟨by decide, .inl rfl⟩⟩

/-- A query with 65536 placeholders fits into a packet; its header announces no parameter. -/
theorem handlePacket_prepare_untruthful :
    ∃ query, parsePrepared .ascii (selectPlaceholders 65535) = .ok (.select query, 65536) ∧
      (comStmtPrepare :: utf8 (selectPlaceholders 65535)).length ≤ Protocol.maxPayload ∧
      handlePacket runs .ascii ⟨0, comStmtPrepare :: utf8 (selectPlaceholders 65535)⟩ opened =
        (.ok true, ({ opened with sequenceId := 1 }.withPrepared ⟨.select query, 65536⟩).emit
          (preparePayloads 1 65536 false)) ∧
      announcedParams (preparePayloads 1 65536 false) = 0 ∧
      (paramDefinitions (preparePayloads 1 65536 false)).length = 65536 := by
  obtain ⟨query, hparse⟩ := parsePrepared_selectPlaceholders 65535
  refine ⟨query, hparse, ?_, handlePacket_prepare runs .ascii opened hparse, ?_, ?_⟩
  · rw [length_cons, length_utf8_selectPlaceholders]
    decide
  · exact announcedParams_preparePayloads 1 65536 false
  · rw [paramDefinitions_preparePayloads, length_replicate]

open Handles (current since Numbered)

abbrev StatementEvent : Type := Handles.Event UInt32 PreparedStatement

def repliedId (reply : List UInt8) : UInt32 := UInt32.ofNat (leValue ((reply.drop 5).take 4))

def statementEvent (u : Unicode) (payload reply : List UInt8) : Option StatementEvent :=
  if payload.head? = some comStmtPrepare then
    match (String.fromUTF8? ⟨(payload.drop 1).toArray⟩).map (parsePrepared u) with
    | some (.ok (statement, paramCount)) => some (.opened (repliedId reply) ⟨statement, paramCount⟩)
    | _ => none
  else if payload.head? = some comStmtClose ∧ 5 ≤ payload.length then
    some (.closed (statementId payload))
  else none

/-- Commands that a connection has served since `c₀`, with what they did to its statements. -/
inductive Serves (exec : Statement → Proc σ Error QueryResult) (u : Unicode) (c₀ : Connection σ) :
    List StatementEvent → Connection σ → Prop
  | start : Serves exec u c₀ [] c₀
  | command {history : List StatementEvent} {c c' : Connection σ}
      {packet : Packet} (h : Serves exec u c₀ history c)
      (run : handlePacket exec u packet c = (.ok true, c')) :
      Serves exec u c₀
        ((statementEvent u packet.payload (c'.sent.drop c.sent.length)).toList ++ history) c'

def Records (c c' : Connection σ) : Option StatementEvent → Prop
  | none => c'.prepared = c.prepared ∧ c'.nextStatementId = c.nextStatementId
  | some (.opened id p) => id = c.nextStatementId ∧ c'.prepared = c.prepared.insert id p ∧
      c'.nextStatementId = c.nextStatementId + 1
  | some (.closed id) =>
      c'.prepared = c.prepared.erase id ∧ c'.nextStatementId = c.nextStatementId

structure Tracks (first : UInt32) (history : List StatementEvent)
    (c : Connection σ) : Prop where
  lookup : ∀ id, c.prepared.lookup id = current id history
  numbered : ∃ n, Numbered (fun i => first + UInt32.ofNat i) n history ∧
    c.nextStatementId = first + UInt32.ofNat n

theorem Tracks.record {first : UInt32} {history : List StatementEvent}
    {c c' : Connection σ} (h : Tracks first history c)
    {event : Option StatementEvent} (hrecords : Records c c' event) :
    Tracks first (event.toList ++ history) c' := by
  obtain ⟨n, hnumbered, hnext⟩ := h.numbered
  rcases event with _ | ⟨id, p⟩ | id
  · obtain ⟨hprepared, hcounter⟩ := hrecords
    exact ⟨fun id => by rw [hprepared]; exact h.lookup id, n, hnumbered, hcounter.trans hnext⟩
  · obtain ⟨rfl, hprepared, hcounter⟩ := hrecords
    refine ⟨fun k => ?_, n + 1, ?_, ?_⟩
    · rw [hprepared, Option.toList_some, singleton_append, current]
      split_ifs with heq
      · rw [heq, Finmap.lookup_insert]
      · rw [Finmap.lookup_insert_of_ne _ (Ne.symm heq), h.lookup]
    · rw [hnext]
      exact hnumbered.opened p
    · rw [hcounter, hnext, UInt32.ofNat_add, ← UInt32.add_assoc]
      rfl
  · obtain ⟨hprepared, hcounter⟩ := hrecords
    refine ⟨fun k => ?_, n, hnumbered.closed id, hcounter.trans hnext⟩
    rw [hprepared, Option.toList_some, singleton_append, current]
    split_ifs with heq
    · rw [heq, Finmap.lookup_erase]
    · rw [Finmap.lookup_erase_ne (Ne.symm heq), h.lookup]

section
variable {exec : Statement → Proc σ Error QueryResult} {u : Unicode} {c c' : Connection σ}
  {payload : List UInt8}

theorem records_none_of_sends {x : Handler σ Unit} {payloads : List (List UInt8)} {s' : σ}
    (h : Sends x c payloads s') (hok : x c = (.ok (), c')) : Records c c' none := by
  obtain ⟨-, rfl⟩ := h.eq_ok hok
  exact ⟨rfl, rfl⟩

theorem records_none_of_writeNumbered {toPacket : UInt8 → Result Packet}
    (h : writeNumbered toPacket c = (.ok (), c')) : Records c c' none := by
  simp only [writeNumbered, get, Proc.read, Bind.bind, Proc.bind, Proc.lift] at h
  rcases hpacket : toPacket c.sequenceId with packet | e | _ <;> rw [hpacket] at h <;> cases h
  exact ⟨rfl, rfl⟩

theorem repliedId_preparePayloads (sequenceId : UInt8) (id : UInt32) (n : Nat)
    (deprecateEof : Bool) :
    repliedId ((Protocol.numbered sequenceId (preparePayloads id n deprecateEof)).flatMap
      Packet.encode) = id := by
  have hbytes (more : List (List UInt8)) : ((((Protocol.numbered sequenceId
      (Protocol.StmtPrepareOk.payload ⟨id, 0, UInt16.ofNat n⟩ :: more)).flatMap
        Packet.encode).drop 5).take 4) = leBytes 4 id.toNat := rfl
  rw [repliedId, preparePayloads, hbytes, leValue_leBytes_of_lt id.toNat_lt, UInt32.ofNat_toNat]

theorem repliedId_emit (p : PreparedStatement) (n : Nat) (c : Connection σ) :
    repliedId (((c.withPrepared p).emit
      (preparePayloads c.nextStatementId n c.deprecateEof)).sent.drop c.sent.length) =
        c.nextStatementId := by
  have hsent : ((c.withPrepared p).emit
      (preparePayloads c.nextStatementId n c.deprecateEof)).sent = c.sent ++ (Protocol.numbered
        c.sequenceId (preparePayloads c.nextStatementId n c.deprecateEof)).flatMap Packet.encode :=
    rfl
  rw [hsent, drop_left, repliedId_preparePayloads]

theorem handleStmtPrepare_records (h : handleStmtPrepare u payload c = (.ok (), c'))
    (hhead : payload.head? = some comStmtPrepare) :
    Records c c' (statementEvent u payload (c'.sent.drop c.sent.length)) := by
  rw [statementEvent, if_pos hhead]
  cases htext : String.fromUTF8? ⟨(payload.drop 1).toArray⟩ with
  | none =>
    simp only [handleStmtPrepare, htext] at h
    exact records_none_of_sends (sends_fit "ERR" _) h
  | some sql =>
    rw [Option.map_some]
    cases hparse : parsePrepared u sql with
    | ok p =>
      rw [handleStmtPrepare_ok htext hparse] at h
      cases h
      dsimp only
      rw [repliedId_emit]
      exact ⟨rfl, rfl, rfl⟩
    | err e =>
      simp only [handleStmtPrepare, htext, hparse] at h
      exact records_none_of_sends (sends_fit "ERR" _) h
    | panic =>
      simp only [handleStmtPrepare, htext, hparse] at h
      cases h

theorem handleStmtClose_records (h : handleStmtClose payload c = (.ok (), c'))
    (hhead : payload.head? = some comStmtClose) (reply : List UInt8) :
    Records c c' (statementEvent u payload reply) := by
  have hprepare : ¬ payload.head? = some comStmtPrepare := by
    rw [hhead]
    decide
  rw [statementEvent, if_neg hprepare]
  cases h
  by_cases hlength : 5 ≤ payload.length
  · simp only [if_pos hlength, if_pos (And.intro hhead hlength)]
    exact ⟨rfl, rfl⟩
  · simp only [if_neg hlength, if_neg fun hand : _ ∧ _ => hlength hand.2]
    exact ⟨rfl, rfl⟩

/-- Every command leaves the record of statements in step with its answer. -/
theorem handleCommand_records {command : UInt8}
    (h : handleCommand exec u command payload c = (.ok (), c'))
    (hhead : payload.head? = some command) :
    Records c c' (statementEvent u payload (c'.sent.drop c.sent.length)) := by
  unfold handleCommand at h
  by_cases hprepare : command = comStmtPrepare
  · subst hprepare
    rw [if_neg (by decide), if_neg (by decide), if_pos rfl] at h
    exact handleStmtPrepare_records h hhead
  by_cases hclose : command = comStmtClose
  · subst hclose
    rw [if_neg (by decide), if_neg (by decide), if_neg (by decide), if_neg (by decide),
      if_pos rfl] at h
    exact handleStmtClose_records h hhead _
  · -- no other command touches the statements
    have hevent : statementEvent u payload (c'.sent.drop c.sent.length) = none := by
      rw [statementEvent, hhead, if_neg fun heq => hprepare (Option.some.inj heq),
        if_neg fun heq => hclose (Option.some.inj heq.1)]
    rw [hevent]
    rw [if_neg hprepare, if_neg hclose] at h
    split_ifs at h
    · exact records_none_of_writeNumbered h
    · cases htext : String.fromUTF8? ⟨(payload.drop 1).toArray⟩ with
      | none =>
        simp only [htext] at h
        cases h
      | some sql =>
        simp only [htext] at h
        obtain ⟨n, outcomes, s', -, -, rfl⟩ := handleQuery_eq_ok h
        exact ⟨rfl, rfl⟩
    · obtain ⟨outcome, s', -, -, rfl⟩ := handleStmtExecute_eq_ok h
      exact ⟨rfl, rfl⟩
    · exact records_none_of_sends (.get_bind (.ite (sends_fit "OK" _) (sends_fit "ERR" _))) h
    · exact records_none_of_writeNumbered h

theorem handlePacket_records {packet : Packet} {goesOn : Bool}
    (h : handlePacket exec u packet c = (.ok goesOn, c')) :
    Records c c' (statementEvent u packet.payload (c'.sent.drop c.sent.length)) := by
  rcases handlePacket_eq_ok h with ⟨hquit, rfl⟩ | ⟨command, hhead, hcommand⟩
  · rw [statementEvent, hquit, if_neg (by decide), if_neg fun hand => absurd hand.1 (by decide)]
    exact ⟨rfl, rfl⟩
  · have hrecords := handleCommand_records hcommand hhead
    exact hrecords

variable {c₀ : Connection σ} {history : List StatementEvent}
variable {sql : String} {st : Statement} {n : Nat}

theorem Serves.tracks (hempty : c₀.prepared = ∅) (h : Serves exec u c₀ history c) :
    Tracks c₀.nextStatementId history c := by
  induction h with
  | start =>
    refine ⟨fun id => ?_, 0, .nil, (UInt32.add_zero _).symm⟩
    rw [hempty]
    rfl
  | command _ run ih => exact ih.record (handlePacket_records run)

theorem statementIds_eq_iff (first : UInt32) (i j : Nat) :
    first + UInt32.ofNat i = first + UInt32.ofNat j ↔ i ≡ j [MOD 2 ^ 32] := by
  rw [UInt32.add_right_inj, ← UInt32.toNat_inj, UInt32.toNat_ofNat', UInt32.toNat_ofNat']
  rfl

def answerBound (exec : Statement → Proc σ Error QueryResult) : Result Statement → Handler σ Unit
  | .ok bound => do
    let outcome ← executeStatement exec bound
    sendResult outcome .binary false
  | .err e => sendResult (.error e) .binary false
  | .panic => Proc.lift .panic

/-- The statement a payload is to execute, by the history of the connection: that of the last
reply with its id, unless it was closed since. -/
def boundByHistory (history : List StatementEvent) (payload : List UInt8) : Result Statement :=
  if payload.length < 5 then .err (.protocol "COM_STMT_EXECUTE: truncated header")
  else
    match current (statementId payload) history with
    | none => .err (.execution s!"Unknown prepared statement handler ({statementId payload}) given to COM_STMT_EXECUTE")
    | some p => bindPayload p payload

theorem Tracks.boundStatement_eq {first : UInt32} (h : Tracks first history c)
    (payload : List UInt8) : boundStatement c.prepared payload = boundByHistory history payload := by
  rw [boundStatement, h.lookup]
  rfl

theorem handlePacket_execute (exec : Statement → Proc σ Error QueryResult) (u : Unicode)
    (c : Connection σ) (body : List UInt8) :
    handlePacket exec u ⟨0, comStmtExecute :: body⟩ c = (do
        answerBound exec (boundStatement c.prepared (comStmtExecute :: body))
        pure true) { c with sequenceId := 1 } := by
  have hexecute : handleStmtExecute exec (comStmtExecute :: body) { c with sequenceId := 1 } =
      answerBound exec (boundStatement c.prepared (comStmtExecute :: body))
        { c with sequenceId := 1 } := by
    rw [handleStmtExecute_eq]
    cases boundStatement c.prepared (comStmtExecute :: body) <;> rfl
  rw [handlePacket_command exec u c (by decide), handleCommand_execute]
  simp only [Bind.bind, Proc.bind, hexecute]

theorem handlePacket_prepare_id (exec : Statement → Proc σ Error QueryResult) {u : Unicode}
    (c : Connection σ) (hparse : parsePrepared u sql = .ok (st, n)) :
    ∃ c', handlePacket exec u ⟨0, comStmtPrepare :: utf8 sql⟩ c = (.ok true, c') ∧
      repliedId (c'.sent.drop c.sent.length) = c.nextStatementId ∧
      c'.prepared = c.prepared.insert c.nextStatementId ⟨st, n⟩ ∧
      c'.nextStatementId = c.nextStatementId + 1 :=
  ⟨_, handlePacket_prepare exec u c hparse,
    repliedId_emit ⟨st, n⟩ n { c with sequenceId := 1 }, rfl, rfl⟩

/-- Along any commands of a connection, an id executes the statement it was last given for,
unless that was closed. A new statement gets an id that is not in use exactly when no statement
has stayed open while all the other ids were given out. -/
theorem Serves.handles_iff (hempty : c₀.prepared = ∅) (h : Serves exec u c₀ history c) :
    (∀ body, handlePacket exec u ⟨0, comStmtExecute :: body⟩ c = (do
        answerBound exec (boundByHistory history (comStmtExecute :: body))
        pure true) { c with sequenceId := 1 }) ∧
    ∀ sql st n, parsePrepared u sql = .ok (st, n) →
      ∃ c', handlePacket exec u ⟨0, comStmtPrepare :: utf8 sql⟩ c = (.ok true, c') ∧
        (current (repliedId (c'.sent.drop c.sent.length)) history = none ↔
          ∀ id, (current id history).isSome → since id history + 1 < 2 ^ 32) := by
  have htracks := h.tracks hempty
  constructor
  · intro body
    rw [handlePacket_execute, htracks.boundStatement_eq]
  · intro sql st n hparse
    obtain ⟨count, hnumbered, hnext⟩ := htracks.numbered
    obtain ⟨c', hrun, hid, -, -⟩ := handlePacket_prepare_id exec c hparse
    refine ⟨c', hrun, ?_⟩
    rw [hid, hnext]
    exact hnumbered.next_free_iff (statementIds_eq_iff _) (by decide)

theorem Serves.prepare (h : Serves exec u c₀ history c)
    (hparse : parsePrepared u sql = .ok (st, n)) :
    ∃ c', Serves exec u c₀ (.opened c.nextStatementId ⟨st, n⟩ :: history) c' ∧
      c'.nextStatementId = c.nextStatementId + 1 := by
  obtain ⟨c', hrun, hid, -, hnext⟩ := handlePacket_prepare_id exec c hparse
  have htext : String.fromUTF8? ⟨((comStmtPrepare :: utf8 sql).drop 1).toArray⟩ = some sql :=
    fromUTF8?_utf8 sql
  have hevent : statementEvent u (comStmtPrepare :: utf8 sql) (c'.sent.drop c.sent.length) =
      some (.opened c.nextStatementId ⟨st, n⟩) := by
    rw [statementEvent, head?_cons, if_pos rfl, htext, Option.map_some, hparse, hid]
  have hserves := h.command hrun
  rw [hevent] at hserves
  exact ⟨c', hserves, hnext⟩

end

theorem parsePrepared_of_tokens {sql : String} (tokens : List Token) {p : Statement × Nat}
    (htokens : tokenize .ascii sql = .ok tokens) (hparse : parsePreparedTokens tokens = .ok p) :
    parsePrepared .ascii sql = .ok p := by
  rw [parsePrepared, htokens]
  exact hparse

theorem parsePrepared_begin : parsePrepared .ascii "BEGIN" = .ok (.begin, 0) :=
  parsePrepared_of_tokens [.keyword .begin] (by decide +kernel) rfl

theorem parsePrepared_commit : parsePrepared .ascii "COMMIT" = .ok (.commit, 0) :=
  parsePrepared_of_tokens [.keyword .commit] (by decide +kernel) rfl

theorem parsePrepared_rollback : parsePrepared .ascii "ROLLBACK" = .ok (.rollback, 0) :=
  parsePrepared_of_tokens [.keyword .rollback] (by decide +kernel) rfl

def began : List StatementEvent := [.opened 1 ⟨.begin, 0⟩]

theorem Serves.handles_after_begin : ∃ c c', Serves runs .ascii opened began c ∧
    handlePacket runs .ascii ⟨0, comStmtPrepare :: utf8 "COMMIT"⟩ c = (.ok true, c') ∧
      current (repliedId (c'.sent.drop c.sent.length)) began = none := by
  have hstart : Serves runs .ascii opened [] opened := .start
  obtain ⟨c, hserves, -⟩ := hstart.prepare parsePrepared_begin
  obtain ⟨c', hrun, hfree⟩ := (Serves.handles_iff rfl hserves).2 _ _ _ parsePrepared_commit
  refine ⟨c, c', hserves, hrun, hfree.mpr fun id _ => ?_⟩
  calc since id began + 1 ≤ 2 := by
        unfold began since
        split_ifs <;> simp [since]
    _ < 2 ^ 32 := by decide

/-- A statement that stays open while many others are prepared. -/
theorem serves_commits {n : Nat} (hn : n < 2 ^ 32) :
    ∃ history c, Serves runs .ascii opened history c ∧ c.nextStatementId = 2 + UInt32.ofNat n ∧
      current 1 history = some ⟨.begin, 0⟩ := by
  induction n with
  | zero =>
    obtain ⟨c, hserves, hnext⟩ := Serves.start.prepare parsePrepared_begin
    exact ⟨_, c, hserves, hnext, rfl⟩
  | succ n ih =>
    obtain ⟨history, c, hserves, hnext, hcurrent⟩ := ih (by omega)
    obtain ⟨c', hserves', hnext'⟩ := hserves.prepare parsePrepared_commit
    have hother : c.nextStatementId ≠ 1 := by
      rw [hnext]
      intro heq
      have hnat := congrArg UInt32.toNat heq
      rw [UInt32.toNat_add, UInt32.toNat_ofNat'] at hnat
      simp only [UInt32.reduceToNat] at hnat
      omega
    refine ⟨_, c', hserves', ?_, ?_⟩
    · rw [hnext', hnext, UInt32.ofNat_add, UInt32.add_assoc]
      rfl
    · rw [current, if_neg hother, hcurrent]

/-- When the ids have wrapped around, a new statement takes the place of an open one. -/
theorem prepare_replaces_open : ∃ history c c', Serves runs .ascii opened history c ∧
    current 1 history = some ⟨.begin, 0⟩ ∧
    handlePacket runs .ascii ⟨0, comStmtPrepare :: utf8 "ROLLBACK"⟩ c = (.ok true, c') ∧
    repliedId (c'.sent.drop c.sent.length) = 1 ∧
    c'.prepared.lookup 1 = some ⟨.rollback, 0⟩ := by
  obtain ⟨history, c, hserves, hnext, hcurrent⟩ := serves_commits (n := 2 ^ 32 - 1) (by decide)
  have hone : c.nextStatementId = 1 := hnext.trans (by decide)
  obtain ⟨c', hrun, hid, hprepared, -⟩ := handlePacket_prepare_id runs c parsePrepared_rollback
  rw [hone] at hid hprepared
  refine ⟨history, c, c', hserves, hcurrent, hrun, hid, ?_⟩
  rw [hprepared, Finmap.lookup_insert]

end

end Connection

end MysqlRust
