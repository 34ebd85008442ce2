import MysqlRust.Storage.Value

/-! # Statements

The syntax tree the parser hands to the executor. A column definition carries its type name
as it was written; the executor resolves it.
-/
namespace MysqlRust

structure ColumnDef where
  name : String
  typeName : String
  isPrimaryKey : Bool
  nullable : Bool
  autoIncrement : Bool
  deriving DecidableEq, Repr

structure ColumnRef where
  table : Option String
  column : String
  deriving DecidableEq, Repr

inductive Expr where
  | integer (n : Int64)
  | decimal (unscaled : Int64) (scale : UInt8)
  | string (s : String)
  | null
  | systemVariable (name : String)
  | column (ref : ColumnRef)
  | function (name : String) (args : List Expr)
  | placeholder (index : Nat)
  deriving Repr

inductive SelectItem where
  | wildcard
  | expr (expr : Expr) (asAlias : Option String)
  deriving Repr

structure TableRef where
  name : String
  asAlias : Option String
  deriving DecidableEq, Repr

def TableRef.qualifier (t : TableRef) : String := t.asAlias.getD t.name

inductive JoinType where
  | inner
  | left
  deriving DecidableEq, Repr

structure JoinClause where
  joinType : JoinType
  table : TableRef
  left : ColumnRef
  right : ColumnRef
  deriving DecidableEq, Repr

structure FromClause where
  table : TableRef
  joins : List JoinClause
  deriving DecidableEq, Repr

inductive CompareOp where
  | eq
  | notEq
  | lt
  | gt
  | le
  | ge
  deriving DecidableEq, Repr

structure Condition where
  column : ColumnRef
  op : CompareOp
  value : Expr
  deriving Repr

structure OrderByItem where
  column : ColumnRef
  descending : Bool
  deriving DecidableEq, Repr

inductive AlterAction where
  | addColumn (column : ColumnDef)
  | dropColumn (name : String)
  | modifyColumn (column : ColumnDef)
  | addPrimaryKey (name : String)
  | dropPrimaryKey
  deriving DecidableEq, Repr

inductive ShowStatement where
  | databases
  | tables
  | warnings
  | variables (like : Option String)
  | characterSet
  | collation
  | other
  deriving DecidableEq, Repr

structure Select where
  projection : List SelectItem
  fromClause : Option FromClause
  selection : Option Condition
  groupBy : List ColumnRef
  orderBy : List OrderByItem
  limit : Option UInt64
  offset : Option UInt64
  deriving Repr

structure Insert where
  table : String
  columns : Option (List String)
  rows : List (List Expr)
  deriving Repr

inductive Statement where
  | createTable (table : String) (columns : List ColumnDef)
  | insert (rows : Insert)
  | select (query : Select)
  | begin
  | commit
  | rollback
  | set
  | use
  | showStatement (what : ShowStatement)
  | createDatabase (name : String) (ifNotExists : Bool)
  | dropDatabase (name : String) (ifExists : Bool)
  | alterTable (table : String) (action : AlterAction)
  deriving Repr

end MysqlRust
