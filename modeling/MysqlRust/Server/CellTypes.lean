import MysqlRust.Protocol.Client
import MysqlRust.Query.ResultTypes
import MysqlRust.Server.Commands
import MysqlRust.Server.Queries
import MysqlRust.Server.Typing

/-! # Cells on the wire

A client of the binary protocol reads each cell in the form its column announces. Typed results
are sent in that form. The integers among the values of `SHOW VARIABLES` are not: their column
is announced as text.
-/
namespace MysqlRust

open List
open Protocol (encodeBinaryRow)
open Protocol.Client (RowMatches readRow)

section
variable {result : QueryResult}

theorem valueToCell_matches {column : ColumnSchema} {v : Value}
    (h : v ∈ column.columnType.values) :
    (valueToCell v).Matches (columnDefinition column).columnType := by
  unfold columnDefinition
  rcases h with rfl | h
  · trivial
  · generalize column.columnType = columnType at h ⊢
    cases v <;> cases columnType <;> first | exact absurd h id | rfl

theorem QueryResult.Typed.rowMatches (h : result.Typed) :
    ∀ row ∈ result.resultSet.rows, RowMatches result.resultSet.columns row := by
  intro cells hcells
  obtain ⟨row, hrow, rfl⟩ := mem_map.mp hcells
  rw [RowMatches, QueryResult.resultSet, forall₂_map_left_iff, forall₂_map_right_iff]
  exact (h row hrow).imp fun _ _ => valueToCell_matches

/-- Every cell has the form its column announces, and a client reads every row as it was sent. -/
def QueryResult.Readable (result : QueryResult) : Prop :=
  ∀ row ∈ result.resultSet.rows, RowMatches result.resultSet.columns row ∧
    ∀ sequenceId packet, encodeBinaryRow row sequenceId = .ok packet →
      Reader.parseAll (readRow result.resultSet.columns .binary) packet.payload = some row

theorem QueryResult.Typed.readable (h : result.Typed) : result.Readable := by
  intro row hrow
  have hmatches := h.rowMatches row hrow
  refine ⟨hmatches, fun sequenceId packet hpacket => ?_⟩
  obtain ⟨rfl, hlen⟩ := Protocol.fit_eq_ok hpacket
  exact (Protocol.Client.readBinaryRow_exact hmatches hlen).parseAll

variable {s : Server} {ex : Executor} {conn : Nat} {append : Option Error} {tables : List String}

def Statement.ShowsInteger (vars : SystemVariables) : Statement → Prop
  | .showStatement what => what.ShowsInteger vars
  | _ => False

theorem Server.Keeps.views_typed (h : s.Keeps Table.Typed RowTyped) : s.store.views.Typed := by
  intro name schema rows htable row hrow
  obtain ⟨t, ht, heq⟩ := Option.map_eq_some_iff.mp htable
  cases heq
  exact (h.tables name t ht row hrow).fitColumns

theorem Server.Keeps.view_typed (h : s.Keeps Table.Typed RowTyped) {tx : Transaction}
    (htx : s.tx.lookup conn = some tx) : (Transaction.View.views ⟨s.store, tx⟩).Typed := by
  intro name schema rows htable row hrow
  obtain ⟨t, ht, heq⟩ := Option.map_eq_some_iff.mp htable
  cases heq
  rcases mem_append.mp hrow with hrow | hrow
  · exact (h.tables name t ht row hrow).fitColumns
  · obtain ⟨t', ht', hrow⟩ := h.pending conn tx htx name row hrow
    cases ht.symm.trans ht'
    exact hrow.fitColumns

theorem Server.select_typed (h : s.Keeps Table.Typed RowTyped) {query : Select}
    (hselect : (Server.select ex conn query s).1 = .ok result) : result.Typed := by
  unfold Server.select at hselect
  split at hselect
  · exact executeSelect_typed (s.store.reads_inMemory none) h.views_typed hselect
  · rename_i tx htx
    exact executeSelect_typed (Transaction.View.reads_transaction ⟨s.store, tx⟩ none)
      (h.view_typed htx) hselect

theorem Server.query_typed (h : s.Keeps Table.Typed RowTyped) {st : Statement}
    (hst : ¬ st.ShowsInteger ex.vars)
    (hquery : (Server.query ex conn append tables st s).1 = .ok result) : result.Typed := by
  unfold Server.query at hquery
  split at hquery
  · exact Server.select_typed h hquery
  · cases hquery
    exact executeShow_typed _ _ hst
  · rw [map_eq_pure_bind] at hquery
    obtain ⟨n, s', -, hresult⟩ := Proc.bind_eq_ok (Prod.ext hquery rfl)
    cases hresult
    exact nofun

theorem not_rowMatches_integer (name : String) (n : Int64) :
    ¬ RowMatches [columnDefinition (textCol "Variable_name"), columnDefinition (textCol "Value")]
      [.text name, .int n] := by
  intro hmatches
  cases hmatches with
  | cons _ hmatches =>
    cases hmatches with
    | cons hvalue _ => cases hvalue

theorem exists_not_rowMatches {like : Option String} {databases names : Finset String}
    {vars : SystemVariables} (h : (ShowStatement.variables like).ShowsInteger vars) :
    ∃ row ∈ (executeShow vars databases names (.variables like)).resultSet.rows,
      ¬ RowMatches (executeShow vars databases names (.variables like)).resultSet.columns row := by
  obtain ⟨p, hp, hlike, n, hn⟩ := h
  refine ⟨[.text p.1, .int n], ?_, not_rowMatches_integer p.1 n⟩
  refine mem_map.mpr ⟨[.varchar p.1, p.2], mem_variables.mpr ⟨p, hp, hlike, rfl⟩, ?_⟩
  rw [hn]
  rfl

/-- In every state that statements reach one after the other, a client reads every row of every
result as it was sent, exactly when the statement does not show an integer variable. -/
theorem query_readable_iff {st : Statement}
    (h : Runs.Reach Server.step TypesGuarded (.start .empty) s)
    (hquery : (Server.query ex conn append tables st s).1 = .ok result) :
    result.Readable ↔ ¬ st.ShowsInteger ex.vars := by
  constructor
  · intro hreadable hshows
    match st, hshows with
    | .showStatement (.variables like), hshows =>
      cases hquery
      obtain ⟨row, hrow, hnot⟩ := exists_not_rowMatches hshows
      exact hnot (hreadable row hrow).1
  · intro hst
    exact (Server.query_typed (typed_invariant.run h) hst hquery).readable

def selectAll : Select := ⟨[.wildcard], some ⟨⟨"t", none⟩, []⟩, none, [], [], none, none⟩

theorem query_readable_selectAll :
    ∃ s result, typedStatements.foldlM Server.step (.start .empty) = some s ∧
      (Server.query plainExecutor 1 none [] (.select selectAll) s).1 = .ok result ∧
      result.rows = [[.int 1, .varchar "2024-02-29", .decimal 150 2],
        [.int 7, .null, .decimal 300 2]] ∧ result.Readable := by
  have hallowed : Runs.Allowed Server.step TypesGuarded (.start .empty) typedStatements := by
    decide +kernel
  have hquery : (typedStatements.foldlM Server.step (.start .empty)).map (fun s =>
      (Server.query plainExecutor 1 none [] (.select selectAll) s).1) = some (.ok
        ⟨[⟨"id", .int, false, true⟩, ⟨"day", .varchar, true, false⟩,
            ⟨"price", .decimal 2, true, false⟩],
          [[.int 1, .varchar "2024-02-29", .decimal 150 2], [.int 7, .null, .decimal 300 2]], 0⟩) := by
    decide +kernel
  obtain ⟨s, hs, hquery⟩ := Option.map_eq_some_iff.mp hquery
  exact ⟨s, _, hs, hquery, rfl, (query_readable_iff (hallowed.reach hs) hquery).mpr id⟩

/-- `SHOW VARIABLES LIKE 'autocommit'` sends an integer where a text is announced, and a client
cannot read the row. -/
theorem show_autocommit_unreadable :
    ∃ result, (Server.query plainExecutor 1 none [] (.showStatement (.variables (some "autocommit")))
        (.start .empty)).1 = .ok result ∧
      result.resultSet = ⟨[⟨"Variable_name", .varString⟩, ⟨"Value", .varString⟩],
        [[.text "autocommit", .int 1]]⟩ ∧
      Reader.parseAll (readRow result.resultSet.columns .binary)
        (Protocol.binaryRow [.text "autocommit", .int 1]) = none ∧ ¬ result.Readable := by
  refine ⟨⟨[textCol "Variable_name", textCol "Value"], [[.varchar "autocommit", .int 1]], 0⟩,
    by decide +kernel, rfl, by decide +kernel, fun hreadable => ?_⟩
  obtain ⟨hmatches, -⟩ := hreadable [.text "autocommit", .int 1] (mem_singleton_self _)
  exact not_rowMatches_integer "autocommit" 1 hmatches

end

end MysqlRust
