import MysqlRust.Foundation.ByteCursor
import MysqlRust.Storage.Value

/-! # Log entries and their byte format

Each `write` function returns the bytes the source appends to its buffer; each `read` function is
a cursor reader over the payload. Lengths are narrowed to `u32` where the source casts them.
-/
namespace MysqlRust

inductive SchemaChange where
  | addColumn (column : ColumnSchema) (isPrimaryKey : Bool)
  | dropColumn (name : String)
  | modifyColumn (column : ColumnSchema)
  | addPrimaryKey (name : String)
  | dropPrimaryKey
  deriving DecidableEq, Repr

inductive Entry where
  | createTable (table : String) (columns : List ColumnSchema) (primaryKey : Option String)
  | insertRow (table : String) (row : Row)
  | transaction (rows : List (String × Row))
  | createDatabase (name : String)
  | dropDatabase (name : String)
  | alterTable (table : String) (change : SchemaChange)
  deriving DecidableEq, Repr

def tagCreateTable : UInt8 := 1
def tagInsertRow : UInt8 := 2
def tagTransaction : UInt8 := 3
def tagCreateDatabase : UInt8 := 4
def tagDropDatabase : UInt8 := 5
def tagAlterTable : UInt8 := 6

def alterAddColumn : UInt8 := 0
def alterDropColumn : UInt8 := 1
def alterModifyColumn : UInt8 := 2
def alterAddPrimaryKey : UInt8 := 3
def alterDropPrimaryKey : UInt8 := 4

def valueNull : UInt8 := 0
def valueInt : UInt8 := 1
def valueVarchar : UInt8 := 2
def valueDecimal : UInt8 := 3
def valueDate : UInt8 := 4

def columnTypeInt : UInt8 := 0
def columnTypeVarchar : UInt8 := 1
def columnTypeDecimal : UInt8 := 2
def columnTypeDate : UInt8 := 3

def columnFlagNullable : UInt8 := 0b01
def columnFlagAutoIncrement : UInt8 := 0b10

def writeU32 (n : UInt32) : List UInt8 := leBytes 4 n.toNat

def writeI64 (n : Int64) : List UInt8 := leBytes 8 n.toUInt64.toNat

def writeString (s : String) : List UInt8 :=
  writeU32 (UInt32.ofNat (utf8 s).length) ++ utf8 s

def writeValue : Value → List UInt8
  | .null => [valueNull]
  | .int n => valueInt :: writeI64 n
  | .varchar s => valueVarchar :: writeString s
  | .decimal unscaled scale => valueDecimal :: (writeI64 unscaled ++ [scale])
  | .date s => valueDate :: writeString s

def writeColumnType : ColumnType → List UInt8
  | .int => [columnTypeInt]
  | .varchar => [columnTypeVarchar]
  | .date => [columnTypeDate]
  | .decimal scale => [columnTypeDecimal, scale]

def columnFlags (col : ColumnSchema) : UInt8 :=
  (if col.nullable then columnFlagNullable else 0) |||
    (if col.autoIncrement then columnFlagAutoIncrement else 0)

def writeColumnSchema (col : ColumnSchema) : List UInt8 :=
  writeString col.name ++ (writeColumnType col.columnType ++ [columnFlags col])

def writePrimaryKey : Option String → List UInt8
  | some pk => 1 :: writeString pk
  | none => [0]

def encodeCreateTable (table : String) (columns : List ColumnSchema) (primaryKey : Option String) :
    List UInt8 :=
  tagCreateTable :: (writeString table ++ (writePrimaryKey primaryKey ++
    (writeU32 (UInt32.ofNat columns.length) ++ columns.flatMap writeColumnSchema)))

def writeSchemaChange : SchemaChange → List UInt8
  | .addColumn column isPrimaryKey =>
    alterAddColumn :: (writeColumnSchema column ++ [if isPrimaryKey then 1 else 0])
  | .dropColumn name => alterDropColumn :: writeString name
  | .modifyColumn column => alterModifyColumn :: writeColumnSchema column
  | .addPrimaryKey name => alterAddPrimaryKey :: writeString name
  | .dropPrimaryKey => [alterDropPrimaryKey]

def encodeAlterTable (table : String) (change : SchemaChange) : List UInt8 :=
  tagAlterTable :: (writeString table ++ writeSchemaChange change)

def writeTableRow (table : String) (row : Row) : List UInt8 :=
  writeString table ++ (writeU32 (UInt32.ofNat row.length) ++ row.flatMap writeValue)

def encodeInsertRow (table : String) (row : Row) : List UInt8 :=
  tagInsertRow :: writeTableRow table row

def encodeTransaction (rows : List (String × Row)) : List UInt8 :=
  tagTransaction :: (writeU32 (UInt32.ofNat rows.length) ++
    rows.flatMap fun p => writeTableRow p.1 p.2)

def encodeCreateDatabase (name : String) : List UInt8 := tagCreateDatabase :: writeString name

def encodeDropDatabase (name : String) : List UInt8 := tagDropDatabase :: writeString name

def Entry.encode : Entry → List UInt8
  | .createTable table columns primaryKey => encodeCreateTable table columns primaryKey
  | .insertRow table row => encodeInsertRow table row
  | .transaction rows => encodeTransaction rows
  | .createDatabase name => encodeCreateDatabase name
  | .dropDatabase name => encodeDropDatabase name
  | .alterTable table change => encodeAlterTable table change

def corrupt (context : String) : Error := .execution s!"corrupt data file: {context}"

def readU32 : Reader Error UInt32 := do
  let bytes ← Reader.slice 4 (corrupt "truncated u32")
  pure (UInt32.ofNat (leValue bytes))

def readI64 : Reader Error Int64 := do
  let bytes ← Reader.slice 8 (corrupt "truncated i64")
  pure (Int64.ofUInt64 (UInt64.ofNat (leValue bytes)))

def readByte : Reader Error UInt8 := Reader.byte (corrupt "truncated tag byte")

def fromUtf8 (bytes : List UInt8) : Reader Error String :=
  match String.fromUTF8? ⟨bytes.toArray⟩ with
  | some s => pure s
  | none => Reader.fail (corrupt "invalid utf-8")

def readString : Reader Error String := do
  let len ← readU32
  let bytes ← Reader.slice len.toNat (corrupt "truncated string")
  fromUtf8 bytes

def readColumnType : Reader Error ColumnType := do
  let tag ← readByte
  if tag = columnTypeInt then pure .int
  else if tag = columnTypeVarchar then pure .varchar
  else if tag = columnTypeDate then pure .date
  else if tag = columnTypeDecimal then do
    let scale ← readByte
    pure (.decimal scale)
  else Reader.fail (corrupt s!"unknown column type tag {tag}")

def readColumnSchema : Reader Error ColumnSchema := do
  let name ← readString
  let columnType ← readColumnType
  let flags ← readByte
  pure ⟨name, columnType, flags &&& columnFlagNullable != 0, flags &&& columnFlagAutoIncrement != 0⟩

def readValue : Reader Error Value := do
  let tag ← readByte
  if tag = valueNull then pure .null
  else if tag = valueInt then do
    let n ← readI64
    pure (.int n)
  else if tag = valueVarchar then do
    let s ← readString
    pure (.varchar s)
  else if tag = valueDecimal then do
    let unscaled ← readI64
    let scale ← readByte
    pure (.decimal unscaled scale)
  else if tag = valueDate then do
    let s ← readString
    pure (.date s)
  else Reader.fail (corrupt s!"unknown value tag {tag}")

def readPrimaryKey : Reader Error (Option String) := do
  let flag ← readByte
  if flag = 0 then pure none
  else if flag = 1 then do
    let pk ← readString
    pure (some pk)
  else Reader.fail (corrupt s!"unknown primary-key flag {flag}")

def readTableRow : Reader Error (String × Row) := do
  let table ← readString
  let valueCount ← readU32
  let row ← Reader.many readValue valueCount.toNat
  pure (table, row)

def readSchemaChange : Reader Error SchemaChange := do
  let tag ← readByte
  if tag = alterAddColumn then do
    let column ← readColumnSchema
    let isPrimaryKey ← readByte
    pure (.addColumn column (isPrimaryKey != 0))
  else if tag = alterDropColumn then do
    let name ← readString
    pure (.dropColumn name)
  else if tag = alterModifyColumn then do
    let column ← readColumnSchema
    pure (.modifyColumn column)
  else if tag = alterAddPrimaryKey then do
    let name ← readString
    pure (.addPrimaryKey name)
  else if tag = alterDropPrimaryKey then pure .dropPrimaryKey
  else Reader.fail (corrupt s!"unknown alter-table sub-tag {tag}")

def readEntry : Reader Error Entry := do
  let tag ← readByte
  if tag = tagCreateTable then do
    let table ← readString
    let primaryKey ← readPrimaryKey
    let columnCount ← readU32
    let columns ← Reader.many readColumnSchema columnCount.toNat
    pure (.createTable table columns primaryKey)
  else if tag = tagInsertRow then do
    let row ← readTableRow
    pure (.insertRow row.1 row.2)
  else if tag = tagTransaction then do
    let rowCount ← readU32
    let rows ← Reader.many readTableRow rowCount.toNat
    pure (.transaction rows)
  else if tag = tagCreateDatabase then do
    let name ← readString
    pure (.createDatabase name)
  else if tag = tagDropDatabase then do
    let name ← readString
    pure (.dropDatabase name)
  else if tag = tagAlterTable then do
    let table ← readString
    let change ← readSchemaChange
    pure (.alterTable table change)
  else Reader.fail (corrupt s!"unknown entry tag {tag}")

def decodeEntry (bytes : List UInt8) : Result Entry := Prod.fst <$> readEntry bytes 0

end MysqlRust
