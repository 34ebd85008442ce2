import MysqlRust.Query.Show
import MysqlRust.Server.Session

/-! # Statements of a session with their results

Reads go to the back end the connection is using and change nothing. -/
namespace MysqlRust.Server

def select (ex : Executor) (conn : Nat) (query : Select) : Proc Server Error QueryResult :=
  fun s =>
    match s.tx.lookup conn with
    | none => ((executeSelect ex (inMemoryStorage none) query s.store).1, s)
    | some tx => ((executeSelect ex (Transaction.storage none) query ⟨s.store, tx⟩).1, s)

def query (ex : Executor) (conn : Nat) (append : Option Error) (tables : List String) :
    Statement → Proc Server Error QueryResult
  | .select query => select ex conn query
  | .showStatement what => Proc.read fun s =>
    .ok (executeShow ex.vars s.store.databases s.store.tables.keys what)
  | st => QueryResult.affected <$> executeStatement conn append tables st

end MysqlRust.Server
