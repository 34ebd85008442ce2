import Mathlib.Algebra.Group.Int.Defs
import Mathlib.Algebra.Group.Nat.Defs
import MysqlRust.Foundation.Outcome

/-! # Typed values and their textual conversions

Values, column schemas and the conversions between them. Machine integers keep their
width: `Int64` for `i64` and `UInt8` for a decimal scale, so every range check of the
source is a real check here.
-/
namespace MysqlRust

open List

inductive Error where
  | io (message : String)
  | protocol (message : String)
  | auth (message : String)
  | parse (message : String)
  | execution (message : String)
  | unsupported (message : String)
  | config (message : String)
  deriving DecidableEq, Repr

def Error.display : Error → String
  | .io e => s!"io error: {e}"
  | .protocol m => s!"protocol error: {m}"
  | .auth m => s!"authentication error: {m}"
  | .parse m => s!"parse error: {m}"
  | .execution m => s!"execution error: {m}"
  | .unsupported m => s!"unsupported: {m}"
  | .config m => s!"configuration error: {m}"

abbrev Result (α : Type) : Type := Outcome Error α

inductive Value where
  | int (n : Int64)
  | varchar (s : String)
  | decimal (unscaled : Int64) (scale : UInt8)
  | date (s : String)
  | null
  deriving DecidableEq, Repr

abbrev Row : Type := List Value

def Value.asInt : Value → Option Int64
  | .int n => some n
  | _ => none

inductive ColumnType where
  | int
  | varchar
  | decimal (scale : UInt8)
  | date
  deriving DecidableEq, Repr

structure ColumnSchema where
  name : String
  columnType : ColumnType
  nullable : Bool
  autoIncrement : Bool
  deriving DecidableEq, Repr

structure TableSchema where
  columns : List ColumnSchema
  primaryKey : Option String
  deriving DecidableEq, Repr

def isWhiteSpace (c : Char) : Bool :=
  let n := c.toNat
  (9 ≤ n && n ≤ 13) || n = 32 || n = 0x85 || n = 0xA0 || n = 0x1680 ||
    (0x2000 ≤ n && n ≤ 0x200A) || n = 0x2028 || n = 0x2029 || n = 0x202F || n = 0x205F || n = 0x3000

def trim (cs : List Char) : List Char :=
  ((cs.dropWhile isWhiteSpace).reverse.dropWhile isWhiteSpace).reverse

def toAsciiUppercase (cs : List Char) : List Char :=
  cs.map fun c => if 'a' ≤ c ∧ c ≤ 'z' then Char.ofNat (c.toNat - 32) else c

def eqIgnoreAsciiCase (s t : String) : Bool :=
  toAsciiUppercase s.toList = toAsciiUppercase t.toList

def checkedI64 (n : Int) : Option Int64 :=
  if Int64.minValue.toInt ≤ n ∧ n ≤ Int64.maxValue.toInt then some (Int64.ofInt n) else none

def checkedU64 (n : Nat) : Option UInt64 :=
  if n < UInt64.size then some (UInt64.ofNat n) else none

def digitsValue (cs : List Char) : Option Nat :=
  if cs ≠ [] ∧ cs.all Char.isDigit then
    some (cs.foldl (fun n c => 10 * n + (c.toNat - '0'.toNat)) 0)
  else none

def parseI64 (s : String) : Option Int64 :=
  match s.toList with
  | '-' :: digits => (digitsValue digits).bind fun n => checkedI64 (-(n : Int))
  | '+' :: digits => (digitsValue digits).bind fun n => checkedI64 n
  | digits => (digitsValue digits).bind fun n => checkedI64 n

def i64ToString (n : Int64) : String := toString n.toInt

def formatDecimal (unscaled : Int64) (scale : UInt8) : String :=
  if scale = 0 then i64ToString unscaled
  else
    let width := scale.toNat
    let raw := Nat.toDigits 10 unscaled.toInt.natAbs
    -- at least one integer digit besides the fractional ones
    let digits := if raw.length ≤ width then replicate (width + 1 - raw.length) '0' ++ raw
      else raw
    let intPart := digits.take (digits.length - width)
    let fracPart := digits.drop (digits.length - width)
    String.ofList ((if unscaled < 0 then ['-'] else []) ++ intPart ++ '.' :: fracPart)

def Value.toDisplayString : Value → Option String
  | .int n => some (i64ToString n)
  | .varchar s => some s
  | .decimal unscaled scale => some (formatDecimal unscaled scale)
  | .date s => some s
  | .null => none

def decimalOutOfRange (columnName : String) : Error :=
  .execution s!"decimal value out of range for column '{columnName}'"

def okOr {α : Type} (e : Error) : Option α → Result α
  | some a => .ok a
  | none => .err e

variable {α : Type} {s : String}

theorem okOr_eq_ok {e : Error} {o : Option α} {a : α} : okOr e o = .ok a ↔ o = some a := by
  cases o <;> simp [okOr]

theorem okOr_ne_panic (e : Error) (o : Option α) : okOr e o ≠ .panic := by
  cases o <;> simp [okOr]

/-- Widening multiplies; narrowing rounds half away from zero. -/
def rescaleDecimal (unscaled : Int64) (fromScale toScale : UInt8) (columnName : String) :
    Result Int64 :=
  if fromScale ≤ toScale then do
    let factor ← okOr (decimalOutOfRange columnName)
      (checkedI64 (10 ^ (toScale.toNat - fromScale.toNat)))
    okOr (decimalOutOfRange columnName) (checkedI64 (unscaled.toInt * factor.toInt))
  else do
    let divisor ← okOr (decimalOutOfRange columnName)
      (checkedU64 (10 ^ (fromScale.toNat - toScale.toNat)))
    let magnitude := UInt64.ofNat unscaled.toInt.natAbs
    let rounded := (magnitude + divisor / 2) / divisor
    let rounded ← okOr (decimalOutOfRange columnName) (checkedI64 rounded.toNat)
    pure (if unscaled < 0 then -rounded else rounded)

def splitOnce (sep : Char) (cs : List Char) : Option (List Char × List Char) :=
  match cs.span (· ≠ sep) with
  | (before, _ :: after) => some (before, after)
  | (_, []) => none

def parseDecimalLiteral (s columnName : String) : Result (Int64 × UInt8) := do
  let invalid : Error := .execution s!"Incorrect decimal value: '{s}' for column '{columnName}'"
  let (negative, rest) := match s.toList with
    | '-' :: rest => (true, rest)
    | rest => (false, rest)
  let (intPart, fracPart) := (splitOnce '.' rest).getD (rest, [])
  if intPart.isEmpty && fracPart.isEmpty then .err invalid
  else if !intPart.all Char.isDigit || !fracPart.all Char.isDigit then .err invalid
  else if UInt8.size - 1 < fracPart.length then .err invalid
  else
    let magnitude ← okOr invalid (parseI64 (String.ofList (intPart ++ fracPart)))
    pure (if negative then -magnitude else magnitude, UInt8.ofNat fracPart.length)

def utf8 (s : String) : List UInt8 := s.toByteArray.data.toList

theorem utf8_eq_flatMap (s : String) : utf8 s = s.toList.flatMap String.utf8EncodeChar := by
  rw [utf8, ← String.utf8Encode_toList, List.utf8Encode, data_toByteArray]

theorem length_utf8_of_size (h : ∀ c ∈ s.toList, c.utf8Size = 1) :
    (utf8 s).length = s.toList.length := by
  rw [utf8_eq_flatMap]
  generalize s.toList = cs at h
  induction cs with
  | nil => rfl
  | cons c cs ih =>
    obtain ⟨hc, hcs⟩ := forall_mem_cons.mp h
    rw [flatMap_cons, length_append, ih hcs, String.length_utf8EncodeChar, hc,
      length_cons, Nat.add_comm]

theorem utf8_length_replicate (n : Nat) {c : Char} (hc : c.utf8Size = 1) :
    (utf8 (String.ofList (replicate n c))).length = n := by
  have hsize : ∀ c' ∈ (String.ofList (replicate n c)).toList, c'.utf8Size = 1 := by
    intro c' hc'
    rw [String.toList_ofList] at hc'
    rw [eq_of_mem_replicate hc', hc]
  rw [length_utf8_of_size hsize, String.toList_ofList, length_replicate]

theorem fromUTF8?_utf8 (s : String) : String.fromUTF8? ⟨(utf8 s).toArray⟩ = some s := by
  have h : (⟨(utf8 s).toArray⟩ : ByteArray) = s.toByteArray := by simp [utf8]
  rw [h, String.fromUTF8?, dif_pos s.isValidUTF8]
  rfl

theorem utf8_of_fromUTF8? {bytes : List UInt8} (h : String.fromUTF8? ⟨bytes.toArray⟩ = some s) :
    utf8 s = bytes := by
  unfold String.fromUTF8? at h
  split at h
  · cases h
    rfl
  · cases h

def isAsciiDigit (b : UInt8) : Bool := 48 ≤ b && b ≤ 57

def digitsAt (bytes : List UInt8) (start len : Nat) (invalid : Error) : Result Nat :=
  let part := (bytes.drop start).take len
  if !part.isEmpty && part.all isAsciiDigit then
    .ok (part.foldl (fun n b => 10 * n + (b.toNat - 48)) 0)
  else .err invalid

/-- A date literal has the shape `YYYY-MM-DD` with a month and a day in range; nothing
else of the calendar is checked. -/
def parseDateLiteral (s columnName : String) : Result String := do
  let invalid : Error := .execution s!"Incorrect date value: '{s}' for column '{columnName}'"
  let bytes := utf8 s
  if bytes.length ≠ 10 ∨ bytes[4]? ≠ some 45 ∨ bytes[7]? ≠ some 45 then .err invalid
  else
    let _year ← digitsAt bytes 0 4 invalid
    let month ← digitsAt bytes 5 2 invalid
    let day ← digitsAt bytes 8 2 invalid
    if ¬(1 ≤ month ∧ month ≤ 12) ∨ ¬(1 ≤ day ∧ day ≤ 31) then .err invalid else pure s

theorem digitsValue_toDigits (n : Nat) : digitsValue (Nat.toDigits 10 n) = some n := by
  have hdigits : (Nat.toDigits 10 n).all Char.isDigit = true :=
    all_eq_true.mpr fun c hc => Nat.isDigit_of_mem_toDigits (by decide) (by decide) hc
  have hvalue : Nat.ofDigitChars 10 (Nat.toDigits 10 n) 0 = n := Nat.ofDigitChars_ten_toDigits
  rw [Nat.ofDigitChars_eq_foldl] at hvalue
  rw [digitsValue, if_pos ⟨Nat.toDigits_ne_nil, hdigits⟩]
  exact congrArg some hvalue

theorem checkedI64_toInt (n : Int64) : checkedI64 n.toInt = some n := by
  have hmin : Int64.minValue.toInt = -2 ^ 63 := by decide
  have hmax : Int64.maxValue.toInt = 2 ^ 63 - 1 := by decide
  have hle := Int64.le_toInt n
  have hlt := Int64.toInt_lt n
  rw [checkedI64, if_pos ⟨by omega, by omega⟩, Int64.ofInt_toInt]

theorem parseI64_unsigned {cs : List Char} (hdigits : cs.all Char.isDigit = true) :
    parseI64 (String.ofList cs) = (digitsValue cs).bind fun n => checkedI64 n := by
  simp only [parseI64, String.toList_ofList]
  split
  · simp at hdigits
  · simp at hdigits
  · rfl

theorem parseI64_digits (n : Nat) :
    parseI64 (String.ofList (Nat.toDigits 10 n)) = checkedI64 n := by
  have hdigits : (Nat.toDigits 10 n).all Char.isDigit = true :=
    all_eq_true.mpr fun c hc => Nat.isDigit_of_mem_toDigits (by decide) (by decide) hc
  rw [parseI64_unsigned hdigits, digitsValue_toDigits, Option.bind_some]

theorem parseI64_minus {s : String} {digits : List Char} (h : s.toList = '-' :: digits) :
    parseI64 s = (digitsValue digits).bind fun n => checkedI64 (-(n : Int)) := by
  simp only [parseI64, h]

theorem toString_negSucc (m : Nat) :
    (toString (Int.negSucc m)).toList = '-' :: Nat.toDigits 10 (m + 1) := by
  change ("-" ++ toString (m + 1)).toList = _
  simp

theorem i64ToString_toList (n : Int64) : (i64ToString n).toList =
    (if n < 0 then ['-'] else []) ++ Nat.toDigits 10 n.toInt.natAbs := by
  have hneg : n < 0 ↔ n.toInt < 0 := Int64.lt_iff_toInt_lt
  rw [i64ToString, if_congr hneg rfl rfl]
  cases n.toInt with
  | ofNat m =>
    have htext : toString (Int.ofNat m) = String.ofList (Nat.toDigits 10 m) :=
      Nat.toString_eq_ofList_toDigits
    have hnot : ¬ Int.ofNat m < 0 := Int.not_ofNat_neg m
    rw [htext, String.toList_ofList, if_neg hnot]
    rfl
  | negSucc m =>
    rw [toString_negSucc, if_pos (Int.negSucc_lt_zero m)]
    rfl

theorem parseI64_toString (n : Int) : parseI64 (toString n) = checkedI64 n := by
  cases n with
  | ofNat m =>
    have htext : toString (Int.ofNat m) = String.ofList (Nat.toDigits 10 m) :=
      Nat.toString_eq_ofList_toDigits
    rw [htext, parseI64_digits, Int.ofNat_eq_natCast]
  | negSucc m =>
    rw [parseI64_minus (toString_negSucc m), digitsValue_toDigits, Option.bind_some, Int.negSucc_eq]
    push_cast
    rfl

theorem parseI64_i64ToString (n : Int64) : parseI64 (i64ToString n) = some n := by
  rw [i64ToString, parseI64_toString, checkedI64_toInt]

end MysqlRust
