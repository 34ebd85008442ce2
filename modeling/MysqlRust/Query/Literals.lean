import MysqlRust.Query.Conversion
import MysqlRust.Query.Lexer
import MysqlRust.Query.Rescaling

/-! # Numbers written in a text

The tokenizer reads a number in a statement, and the conversion to a column type reads it in a
string. Values are displayed as texts of the same shape.
-/
namespace MysqlRust

open List Outcome

structure NumericLiteral where
  negative : Bool
  intPart : List Char
  fraction : List Char
  intPart_ne_nil : intPart ≠ []
  intPart_digits : ∀ c ∈ intPart, c.isDigit = true
  fraction_digits : ∀ c ∈ fraction, c.isDigit = true

namespace NumericLiteral

def fractionText (l : NumericLiteral) : List Char :=
  if l.fraction = [] then [] else '.' :: l.fraction

def unsignedText (l : NumericLiteral) : List Char := l.intPart ++ l.fractionText

def text (l : NumericLiteral) : List Char :=
  (if l.negative then ['-'] else []) ++ l.unsignedText

def magnitude (l : NumericLiteral) : Nat := Nat.ofDigitChars 10 (l.intPart ++ l.fraction) 0

def number (l : NumericLiteral) : ℚ :=
  (if l.negative then -1 else 1) * (Nat.ofDigitChars 10 l.intPart 0 +
    Nat.ofDigitChars 10 l.fraction 0 / 10 ^ l.fraction.length)

section Reading
variable (l : NumericLiteral)

theorem number_eq : l.number =
    (if l.negative then -(l.magnitude : ℚ) else l.magnitude) / 10 ^ l.fraction.length := by
  have hmagnitude : l.magnitude = 10 ^ l.fraction.length * Nat.ofDigitChars 10 l.intPart 0 +
      Nat.ofDigitChars 10 l.fraction 0 := by
    rw [magnitude, Nat.ofDigitChars_append, Nat.ofDigitChars_eq_ofDigitChars_zero]
  have hpow : (10 : ℚ) ^ l.fraction.length ≠ 0 := by positivity
  rw [number, hmagnitude]
  push_cast
  cases l.negative with
  | false =>
    simp only [Bool.false_eq_true, if_false, one_mul]
    field_simp
  | true =>
    simp only [if_true]
    field_simp

theorem digits_all : (l.intPart ++ l.fraction).all Char.isDigit = true := by
  rw [all_append, all_eq_true.mpr l.intPart_digits, all_eq_true.mpr l.fraction_digits]
  rfl

theorem parseI64_digits : parseI64 (String.ofList (l.intPart ++ l.fraction)) =
    checkedI64 l.magnitude := by
  have hne : l.intPart ++ l.fraction ≠ [] := by
    simp [l.intPart_ne_nil]
  rw [parseI64_unsigned l.digits_all, digitsValue, if_pos ⟨hne, l.digits_all⟩, Option.bind_some,
    magnitude, Nat.ofDigitChars_eq_foldl]

theorem unsignedText_head : ∃ c cs, l.unsignedText = c :: cs ∧ c.isDigit = true := by
  obtain ⟨c, cs, hint⟩ := exists_cons_of_ne_nil l.intPart_ne_nil
  refine ⟨c, cs ++ l.fractionText, ?_, l.intPart_digits c (hint ▸ mem_cons_self)⟩
  rw [unsignedText, hint, cons_append]

theorem head_text : l.text.head? = some '-' ↔ l.negative = true := by
  obtain ⟨c, cs, hcs, hdigit⟩ := l.unsignedText_head
  rw [text, hcs]
  cases l.negative with
  | true => simp
  | false =>
    simp only [Bool.false_eq_true, if_false, nil_append, head?_cons, Option.some.injEq, iff_false]
    rintro rfl
    exact absurd hdigit (by decide)

theorem tail_text : (if l.text.head? = some '-' then l.text.tail else l.text) = l.unsignedText := by
  rw [if_congr l.head_text rfl rfl, text]
  cases l.negative <;> rfl

theorem fractionText_head : ∀ c ∈ l.fractionText.head?, c.isDigit = false := by
  intro c hc
  rw [fractionText] at hc
  split_ifs at hc
  · cases hc
  · cases hc
    decide

theorem scanDigits_text : scanDigits l.text = (l.intPart, l.fractionText) := by
  rw [scanDigits, tail_text, unsignedText, span_eq_takeWhile_dropWhile,
    takeWhile_append_of_pos l.intPart_digits, dropWhile_append_of_pos l.intPart_digits]
  have hhead := l.fractionText_head
  cases htext : l.fractionText with
  | nil => simp
  | cons c cs =>
    have hc : c.isDigit = false := hhead c (by rw [htext]; rfl)
    simp [hc]

theorem scanFraction_text : scanFraction l.fractionText =
    if l.fraction = [] then none else some (l.fraction, []) := by
  rw [fractionText]
  split_ifs with hnil
  · rfl
  · obtain ⟨c, cs, hfraction⟩ := exists_cons_of_ne_nil hnil
    have hall : ∀ d ∈ c :: cs, d.isDigit = true := hfraction ▸ l.fraction_digits
    rw [hfraction, scanFraction, if_pos (hall c mem_cons_self),
      span_eq_takeWhile_dropWhile, takeWhile_eq_self_iff.mpr hall,
      dropWhile_eq_nil_iff.mpr hall]

def signed (n : Int64) : Int64 := if l.negative then -n else n

theorem scanNumber_fraction (h : l.fraction ≠ []) : ∃ e, scanNumber l.text =
    (okOr e (checkedI64 l.magnitude) >>= fun n =>
      pure (.decimal (l.signed n) (UInt8.ofNat l.fraction.length), [])) := by
  rw [scanNumber]
  simp only [scanDigits_text, scanFraction_text, if_neg h, if_neg l.intPart_ne_nil,
    l.parseI64_digits, l.head_text]
  exact ⟨_, rfl⟩

theorem scanNumber_integer (h : l.fraction = []) : ∃ e, scanNumber l.text =
    (okOr e (checkedI64 (if l.negative then -(l.magnitude : Int) else l.magnitude)) >>= fun n =>
      pure (.integer n, [])) := by
  have hall : l.intPart.all Char.isDigit = true := all_eq_true.mpr l.intPart_digits
  have hvalue : digitsValue l.intPart = some l.magnitude := by
    rw [digitsValue, if_pos ⟨l.intPart_ne_nil, hall⟩, magnitude, h, append_nil,
      Nat.ofDigitChars_eq_foldl]
  have hparse : parseI64 (String.ofList ((if l.negative then ['-'] else []) ++ l.intPart)) =
      checkedI64 (if l.negative then -(l.magnitude : Int) else l.magnitude) := by
    cases l.negative with
    | true =>
      have htext : (String.ofList ('-' :: l.intPart)).toList = '-' :: l.intPart :=
        String.toList_ofList
      have hminus := parseI64_minus htext
      rw [hvalue] at hminus
      exact hminus
    | false =>
      simp only [Bool.false_eq_true, if_false, nil_append]
      rw [parseI64_unsigned hall, hvalue, Option.bind_some]
  have hrest : l.fractionText = [] := if_pos h
  rw [scanNumber]
  simp only [scanDigits_text, if_neg l.intPart_ne_nil, l.head_text, hparse, hrest]
  exact ⟨_, rfl⟩

theorem splitOnce_unsignedText : (splitOnce '.' l.unsignedText).getD (l.unsignedText, []) =
    (l.intPart, l.fraction) := by
  have hint : ∀ c ∈ l.intPart, decide (c ≠ '.') = true := by
    intro c hc
    refine decide_eq_true ?_
    rintro rfl
    exact absurd (l.intPart_digits _ hc) (by decide)
  rw [splitOnce, unsignedText, fractionText, span_eq_takeWhile_dropWhile,
    takeWhile_append_of_pos hint, dropWhile_append_of_pos hint]
  split_ifs with hnil
  · simp [hnil]
  · simp

theorem parseDecimalLiteral_text (name : String) :
    ∃ e, parseDecimalLiteral (String.ofList l.text) name = if 255 < l.fraction.length then .err e
      else okOr e (checkedI64 l.magnitude) >>= fun n =>
        pure (l.signed n, UInt8.ofNat l.fraction.length) := by
  have hne : l.intPart.isEmpty = false := by
    simp [l.intPart_ne_nil]
  have hall : ∀ cs : List Char, (∀ c ∈ cs, c.isDigit = true) → cs.all Char.isDigit = true :=
    fun cs h => all_eq_true.mpr h
  unfold parseDecimalLiteral
  dsimp only
  split
  · rename_i rest heq
    rw [String.toList_ofList] at heq
    have hneg : l.negative = true := l.head_text.mp (by rw [heq]; rfl)
    have hrest : rest = l.unsignedText := by
      have htext := heq
      rw [text, hneg, if_pos rfl] at htext
      exact (cons.inj htext).2.symm
    simp only [hrest, splitOnce_unsignedText, hne, Bool.false_and, Bool.false_eq_true, if_false,
      hall _ l.intPart_digits, hall _ l.fraction_digits, l.parseI64_digits, Bool.not_true,
      Bool.or_self, signed, hneg]
    exact ⟨_, rfl⟩
  · rename_i hsign
    have hneg : l.negative = false := by
      rw [← Bool.not_eq_true, ← l.head_text]
      intro hhead
      obtain ⟨cs, hcs⟩ := head?_eq_some_iff.mp hhead
      exact hsign cs (by rw [String.toList_ofList, hcs])
    have htext : l.text = l.unsignedText := by
      rw [text, hneg]
      rfl
    simp only [String.toList_ofList, htext, splitOnce_unsignedText, hne, Bool.false_and,
      Bool.false_eq_true, if_false, hall _ l.intPart_digits, hall _ l.fraction_digits,
      l.parseI64_digits, Bool.not_true, Bool.or_self, signed, hneg]
    exact ⟨_, rfl⟩

theorem toInt_signed {n : Int64} (h : n.toInt = l.magnitude) :
    (l.signed n).toInt = if l.negative then -(l.magnitude : Int) else l.magnitude := by
  rw [signed]
  split_ifs with hneg
  · have hne : n ≠ Int64.minValue := by
      rintro rfl
      rw [minValue_toInt] at h
      omega
    rw [toInt_neg_of_ne hne, h]
  · exact h

end Reading

end NumericLiteral

section

def Token.number : Token → Option ℚ
  | .integer n => some n.toInt
  | .decimal unscaled scale => some (decimalNumber unscaled scale)
  | _ => none

def SameDecimal : Result (Token × List Char) → Result (Int64 × UInt8) → Prop
  | .ok (.decimal unscaled scale, rest), .ok p => (unscaled, scale) = p ∧ rest = []
  | .err _, .err _ => True
  | _, _ => False

/-- A literal is read as the number it writes, in a statement and in a string. -/
structure NumericLiteral.Denotes (l : NumericLiteral) : Prop where
  number : ∀ token rest, scanNumber l.text = .ok (token, rest) → token.number = some l.number
  agrees : l.fraction ≠ [] → ∀ name,
    SameDecimal (scanNumber l.text) (parseDecimalLiteral (String.ofList l.text) name)

variable {l : NumericLiteral}

theorem NumericLiteral.number_integer {n : Int64} (hnil : l.fraction = [])
    (h : n.toInt = if l.negative then -(l.magnitude : Int) else l.magnitude) :
    (Token.integer n).number = some l.number := by
  rw [Token.number, l.number_eq, h, hnil]
  split_ifs <;> simp

theorem NumericLiteral.number_decimal {n : Int64} (h : n.toInt = l.magnitude)
    (hlen : l.fraction.length ≤ 255) :
    (Token.decimal (l.signed n) (UInt8.ofNat l.fraction.length)).number = some l.number := by
  have hscale : (UInt8.ofNat l.fraction.length).toNat = l.fraction.length :=
    UInt8.toNat_ofNat_of_lt' (by simp only [UInt8.size]; omega)
  rw [Token.number, decimalNumber, l.toInt_signed h, hscale, l.number_eq]
  split_ifs <;> simp

theorem checkedI64_eq_none {n : Nat} (h : checkedI64 n = none) : Int64.maxValue.toInt < n := by
  rw [checkedI64, minValue_toInt] at h
  split_ifs at h with hrange
  omega

theorem NumericLiteral.Denotes.integer (hnil : l.fraction = []) : l.Denotes where
  number := by
    intro token rest h
    obtain ⟨e, hscan⟩ := l.scanNumber_integer hnil
    rw [hscan] at h
    obtain ⟨n, hn, h⟩ := bind_eq_ok.mp h
    cases h
    exact NumericLiteral.number_integer hnil (toInt_of_checkedI64 (okOr_eq_ok.mp hn))
  agrees := fun h => absurd hnil h

/-- Literals are read as the numbers they write just when the number of fractional digits fits
a byte or the number does not fit into 64 bits at all. -/
theorem literal_denotes_iff (l : NumericLiteral) :
    l.Denotes ↔ l.fraction.length ≤ 255 ∨ Int64.maxValue.toInt < l.magnitude := by
  by_cases hnil : l.fraction = []
  · refine iff_of_true (.integer hnil) (.inl ?_)
    rw [hnil]
    exact Nat.zero_le _
  · obtain ⟨e, hscan⟩ := l.scanNumber_fraction hnil
    cases hchecked : checkedI64 l.magnitude with
    | none =>
      rw [hchecked] at hscan
      refine iff_of_true ⟨?_, ?_⟩ (.inr (checkedI64_eq_none hchecked))
      · intro token rest h
        rw [hscan] at h
        cases h
      · intro _ name
        obtain ⟨e', hparse⟩ := l.parseDecimalLiteral_text name
        rw [hchecked] at hparse
        rw [hscan, hparse]
        split_ifs <;> exact trivial
    | some n =>
      have hn : n.toInt = l.magnitude := toInt_of_checkedI64 hchecked
      have hfits : ¬ Int64.maxValue.toInt < l.magnitude := by
        have hlt := Int64.toInt_lt n
        rw [maxValue_toInt]
        omega
      rw [hchecked] at hscan
      rw [or_iff_left hfits]
      constructor
      · intro hdenotes
        by_contra hlong
        obtain ⟨e', hparse⟩ := l.parseDecimalLiteral_text ""
        rw [if_pos (Nat.not_le.mp hlong)] at hparse
        have hsame := hdenotes.agrees hnil ""
        rw [hscan, hparse] at hsame
        exact hsame
      · intro hlen
        refine ⟨?_, ?_⟩
        · intro token rest h
          rw [hscan] at h
          cases h
          exact NumericLiteral.number_decimal hn hlen
        · intro _ name
          obtain ⟨e', hparse⟩ := l.parseDecimalLiteral_text name
          rw [if_neg (Nat.not_lt.mpr hlen), hchecked] at hparse
          rw [hscan, hparse]
          exact ⟨rfl, rfl⟩

def longFraction : NumericLiteral where
  negative := false
  intPart := ['0']
  fraction := replicate 255 '0' ++ ['1']
  intPart_ne_nil := by decide
  intPart_digits := all_eq_true.mp (by decide)
  fraction_digits := all_eq_true.mp (by decide +kernel)

/-- It is read as `1` in a statement and rejected in a string. -/
theorem scanNumber_longFraction : scanNumber longFraction.text = .ok (.decimal 1 0, []) ∧
    (Token.decimal 1 0).number = some 1 ∧ longFraction.number < 1 ∧
    ∀ p, parseDecimalLiteral (String.ofList longFraction.text) "a" ≠ .ok p := by
  have hmagnitude : longFraction.magnitude = 1 := by decide +kernel
  refine ⟨by decide +kernel, by decide +kernel, ?_, ?_⟩
  · have hsign : longFraction.negative = false := rfl
    have hlen : longFraction.fraction.length = 256 := by decide +kernel
    rw [NumericLiteral.number_eq, hmagnitude, hsign, hlen]
    norm_num
  · intro p hp
    obtain ⟨e, hparse⟩ := longFraction.parseDecimalLiteral_text "a"
    rw [hp, if_pos (by decide +kernel)] at hparse
    cases hparse

variable {unscaled n : Int64} {scale : UInt8}

def displayDigits (unscaled : Int64) (scale : UInt8) : List Char :=
  replicate (scale.toNat + 1 - (Nat.toDigits 10 unscaled.toInt.natAbs).length) '0' ++
    Nat.toDigits 10 unscaled.toInt.natAbs

theorem displayDigits_length (unscaled : Int64) (scale : UInt8) :
    scale.toNat < (displayDigits unscaled scale).length := by
  rw [displayDigits, length_append, length_replicate]
  omega

theorem displayDigits_isDigit : ∀ c ∈ displayDigits unscaled scale, c.isDigit = true := by
  intro c hc
  rcases mem_append.mp hc with hzero | hdigit
  · rw [eq_of_mem_replicate hzero]
    rfl
  · exact Nat.isDigit_of_mem_toDigits (by decide) (by decide) hdigit

def displayed (unscaled : Int64) (scale : UInt8) : NumericLiteral where
  negative := unscaled < 0
  intPart := (displayDigits unscaled scale).take ((displayDigits unscaled scale).length - scale.toNat)
  fraction := (displayDigits unscaled scale).drop ((displayDigits unscaled scale).length - scale.toNat)
  intPart_ne_nil := by
    have hlen := displayDigits_length unscaled scale
    rw [← length_pos_iff_ne_nil, length_take]
    omega
  intPart_digits c hc := displayDigits_isDigit c (mem_of_mem_take hc)
  fraction_digits c hc := displayDigits_isDigit c (mem_of_mem_drop hc)

theorem displayed_fraction_length (unscaled : Int64) (scale : UInt8) :
    (displayed unscaled scale).fraction.length = scale.toNat := by
  have hlen := displayDigits_length unscaled scale
  rw [displayed, length_drop]
  omega

theorem displayed_magnitude (unscaled : Int64) (scale : UInt8) :
    (displayed unscaled scale).magnitude = unscaled.toInt.natAbs := by
  rw [NumericLiteral.magnitude, displayed, take_append_drop, displayDigits,
    Nat.ofDigitChars_append, Nat.ofDigitChars_replicate_zero, mul_zero,
    Nat.ofDigitChars_ten_toDigits]

theorem displayDigits_zero (unscaled : Int64) :
    displayDigits unscaled 0 = Nat.toDigits 10 unscaled.toInt.natAbs := by
  have hne : 0 < (Nat.toDigits 10 unscaled.toInt.natAbs).length :=
    length_pos_iff_ne_nil.mpr Nat.toDigits_ne_nil
  have hzero : (0 : UInt8).toNat + 1 - (Nat.toDigits 10 unscaled.toInt.natAbs).length = 0 := by
    change 0 + 1 - _ = 0
    omega
  rw [displayDigits, hzero]
  rfl

theorem displayDigits_eq (unscaled : Int64) (scale : UInt8) : displayDigits unscaled scale =
      if (Nat.toDigits 10 unscaled.toInt.natAbs).length ≤ scale.toNat then
        replicate (scale.toNat + 1 - (Nat.toDigits 10 unscaled.toInt.natAbs).length) '0' ++
          Nat.toDigits 10 unscaled.toInt.natAbs
      else Nat.toDigits 10 unscaled.toInt.natAbs := by
  rw [displayDigits]
  split_ifs with hle
  · rfl
  · have hzero : scale.toNat + 1 - (Nat.toDigits 10 unscaled.toInt.natAbs).length = 0 := by
      omega
    rw [hzero]
    rfl

theorem formatDecimal_eq (unscaled : Int64) (scale : UInt8) :
    formatDecimal unscaled scale = String.ofList (displayed unscaled scale).text := by
  have hsign : (displayed unscaled scale).negative = decide (unscaled < 0) := rfl
  have hlen := displayed_fraction_length unscaled scale
  rw [NumericLiteral.text, NumericLiteral.unsignedText, NumericLiteral.fractionText, hsign]
  by_cases hscale : scale = 0
  · subst hscale
    have hnil : (displayed unscaled 0).fraction = [] := length_eq_zero_iff.mp hlen
    have hint : (displayed unscaled 0).intPart = Nat.toDigits 10 unscaled.toInt.natAbs := by
      change (displayDigits unscaled 0).take (displayDigits unscaled 0).length = _
      rw [take_length, displayDigits_zero]
    refine String.toList_inj.mp ?_
    rw [formatDecimal, if_pos rfl, if_pos hnil, hint, append_nil, i64ToString_toList,
      String.toList_ofList]
    simp only [decide_eq_true_eq]
  · have hne : (displayed unscaled scale).fraction ≠ [] := by
      intro hnil
      rw [hnil] at hlen
      exact hscale (UInt8.toNat_inj.mp hlen.symm)
    rw [formatDecimal, if_neg hscale, if_neg hne]
    simp only [← displayDigits_eq, decide_eq_true_eq, append_assoc]
    rfl

theorem signed_natAbs (unscaled : Int64) (scale : UInt8) :
    (if (displayed unscaled scale).negative then -(unscaled.toInt.natAbs : Int)
      else unscaled.toInt.natAbs) = unscaled.toInt := by
  have hsign : (displayed unscaled scale).negative = true ↔ unscaled.toInt < 0 := by
    rw [displayed, decide_eq_true_eq]
    exact Int64.lt_iff_toInt_lt
  split_ifs with hneg
  · have hlt := hsign.mp hneg
    omega
  · have hge := mt hsign.mpr hneg
    omega

theorem signed_displayed (h : n.toInt = unscaled.toInt.natAbs) :
    (displayed unscaled scale).signed n = unscaled := by
  refine Int64.toInt_inj.mp ?_
  rw [(displayed unscaled scale).toInt_signed (h.trans (by rw [displayed_magnitude])),
    displayed_magnitude]
  exact signed_natAbs unscaled scale

theorem checkedI64_natAbs (h : n ≠ Int64.minValue) :
    checkedI64 (n.toInt.natAbs : Nat) = some (Int64.ofInt (n.toInt.natAbs : Nat)) := by
  have hmin := Int64.le_toInt n
  have hmax := Int64.toInt_lt n
  have hne : n.toInt ≠ -2 ^ 63 := fun h' => h (Int64.toInt_inj.mp (h'.trans minValue_toInt.symm))
  rw [checkedI64, minValue_toInt, maxValue_toInt, if_pos (by omega)]

/-- The magnitude of a displayed number is read as a signed one. -/
theorem parseDecimalLiteral_formatDecimal (unscaled : Int64) (scale : UInt8) (name : String) :
    ∃ e, parseDecimalLiteral (formatDecimal unscaled scale) name =
      if unscaled = Int64.minValue then .err e else .ok (unscaled, scale) := by
  obtain ⟨e, hparse⟩ := (displayed unscaled scale).parseDecimalLiteral_text name
  have hlen := scale.toNat_lt
  rw [displayed_fraction_length, displayed_magnitude, if_neg (by omega), UInt8.ofNat_toNat] at hparse
  refine ⟨e, ?_⟩
  rw [formatDecimal_eq, hparse]
  split_ifs with heq
  · subst heq
    have hnone : checkedI64 (Int64.minValue.toInt.natAbs : Nat) = none := by decide
    rw [hnone]
    rfl
  · have hsome := checkedI64_natAbs heq
    rw [hsome, okOr, ok_bind, signed_displayed (toInt_of_checkedI64 hsome)]
    rfl

/-- What is displayed for a value can be written back into its column, unless it is the least
unscaled number. -/
theorem coerce_toDisplayString_iff {v : Value} {columnType : ColumnType}
    (htype : v.HasType columnType) {text : String} (htext : v.toDisplayString = some text)
    (name : String) :
    coerce (.string text) columnType name = .ok v ↔ ∀ scale, v ≠ .decimal Int64.minValue scale := by
  cases v with
  | int n =>
    cases columnType with
    | int =>
      cases htext
      rw [coerce, parseI64_i64ToString]
      exact iff_of_true rfl fun scale h => by cases h
    | varchar | decimal | date => exact htype.elim
  | varchar s =>
    cases columnType with
    | varchar =>
      cases htext
      exact iff_of_true rfl fun scale h => by cases h
    | int | decimal | date => exact htype.elim
  | decimal unscaled scale =>
    cases columnType with
    | decimal columnScale =>
      obtain rfl : scale = columnScale := htype
      cases htext
      obtain ⟨e, hparse⟩ := parseDecimalLiteral_formatDecimal unscaled scale name
      rw [coerce, hparse]
      split_ifs with heq
      · subst heq
        exact iff_of_false (fun h => by cases h) fun h => h scale rfl
      · refine iff_of_true ?_ ?_
        · rw [ok_bind]
          dsimp only
          rw [rescaleDecimal_same]
          rfl
        · intro scale' h
          cases h
          exact heq rfl
    | int | varchar | date => exact htype.elim
  | date s =>
    cases columnType with
    | date =>
      cases htext
      rw [coerce, IsDate.parseDateLiteral htype]
      exact iff_of_true rfl fun scale h => by cases h
    | int | varchar | decimal => exact htype.elim
  | null => cases htext

theorem coerce_toDisplayString_minusHalf :
    coerce (.string "-0.50") (.decimal 2) "a" = .ok (.decimal (-50) 2) :=
  (coerce_toDisplayString_iff (show Value.HasType (.decimal (-50) 2) (.decimal 2) from rfl)
    (by decide +kernel) "a").mpr (by rintro scale ⟨⟩)

/-- The least number of a `DECIMAL(20, 0)` column is stored from a number, but the text it is
displayed as is refused. -/
theorem coerce_least_decimal :
    coerce (.integer Int64.minValue) (.decimal 0) "a" = .ok (.decimal Int64.minValue 0) ∧
    (Value.decimal Int64.minValue 0).toDisplayString = some "-9223372036854775808" ∧
    coerce (.string "-9223372036854775808") (.decimal 0) "a" =
      .err (.execution "Incorrect decimal value: '-9223372036854775808' for column 'a'") := by
  decide +kernel

end

end MysqlRust
