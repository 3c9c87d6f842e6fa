import Mathlib.Algebra.Order.Ring.Int
import Mathlib.Data.Nat.Log
import FundPolymarket.Session

set_option autoImplicit false

/- The values that a Python program has after it has read a JSON text, and what `str`, `int`,
`decimal.Decimal`, `dict.get` and the truth test make of them. -/
namespace Python

open FundPolymarket (orRaise)

/-- Exceptions of the language and its libraries, up to the classes that `except` clauses
tell apart. -/
inductive Exception where
  | valueError
  | typeError
  | attributeError
  | keyError
  | indexError
  | overflowError
  | invalidOperation
  | osError
  deriving DecidableEq, Repr

/-- A `Decimal`. The quiet and the signalling NaN behave alike here. -/
inductive ExtendedDecimal where
  | nan
  | infinite (negative : Bool)
  | finite (negative : Bool) (coefficient : ℕ) (exponent : ℤ)
  deriving DecidableEq, Repr

/-- A JSON value. A float is given by the decimal that its `repr` writes, which is all that
the readers below see of it: `int` only differs from 2 ^ 53 on. -/
inductive Json where
  | null
  | bool (value : Bool)
  | int (value : ℤ)
  | float (value : ExtendedDecimal)
  | str (text : String)
  | list (items : List Json)
  | dict (entries : List (String × Json))

/-- What the readers of a text look up in the Unicode database beyond ASCII. -/
class Unicode where
  decimal : Char → Option (Fin 10)
  isprintable : Char → Bool
  lower : String → String

/-- A database without characters beyond ASCII. -/
@[reducible] def Unicode.asciiOnly : Unicode := ⟨fun _ => none, fun _ => false, id⟩

section Text

/-- `str.isspace` of one character. -/
def isSpace (c : Char) : Bool :=
  let n := c.toNat
  (0x9 ≤ n && n ≤ 0xd) || (0x1c ≤ n && n ≤ 0x20) || n == 0x85 || n == 0xa0 || n == 0x1680 ||
    (0x2000 ≤ n && n ≤ 0x200a) || n == 0x2028 || n == 0x2029 || n == 0x202f || n == 0x205f ||
    n == 0x3000

def stripBy (blank : Char → Bool) (chars : List Char) : List Char :=
  ((chars.dropWhile blank).reverse.dropWhile blank).reverse

/-- `text.strip()`. -/
def strip (text : String) : String := String.ofList (stripBy isSpace text.toList)

/-- `text.isascii()`. -/
def isAscii (text : String) : Bool := text.toList.all fun c => c.toNat < 128

/-- `text.lower()`. -/
def lower [Unicode] (text : String) : String :=
  if isAscii text then text.toLower else Unicode.lower text

def sign : List Char → Bool × List Char
  | '+' :: rest => (false, rest)
  | '-' :: rest => (true, rest)
  | rest => (false, rest)

def signed (negative : Bool) (n : ℕ) : ℤ := if negative then -n else n

def ofDigits (digits : List ℕ) : ℕ := digits.foldl (fun value digit => 10 * value + digit) 0

def asciiDigit (c : Char) : ℕ := c.toNat - 48

theorem digit_lt {c : Char} (digit : c.isDigit) : 48 ≤ c.toNat ∧ c.toNat ≤ 57 := by
  simp only [Char.isDigit, Bool.and_eq_true, decide_eq_true_eq] at digit
  exact ⟨UInt32.le_iff_toNat_le.mp digit.1, UInt32.le_iff_toNat_le.mp digit.2⟩

theorem isSpace_digit {c : Char} (digit : c.isDigit) : isSpace c = false := by
  have bounds := digit_lt digit
  simp [isSpace]
  omega

theorem stripBy_of_none {blank : Char → Bool} {chars : List Char}
    (none : ∀ c ∈ chars, blank c = false) : stripBy blank chars = chars := by
  have kept : ∀ rest : List Char, (∀ c ∈ rest, blank c = false) → rest.dropWhile blank = rest := by
    intro rest clear
    cases rest with
    | nil => rfl
    | cons c rest => rw [List.dropWhile_cons, clear c List.mem_cons_self]; rfl
  rw [stripBy, kept chars none, kept _ (fun c member => none c (List.mem_reverse.mp member)),
    List.reverse_reverse]

theorem sign_digits (negative : Bool) {chars : List Char} (digits : ∀ c ∈ chars, c.isDigit) :
    sign ((if negative then ['-'] else []) ++ chars) = (negative, chars) := by
  cases negative with
  | true => rfl
  | false =>
      cases chars with
      | nil => rfl
      | cons c rest =>
          have digit := digits c List.mem_cons_self
          rw [if_neg Bool.false_ne_true, List.nil_append, sign]
          · rintro tail same
            cases (List.cons.inj same).1
            exact absurd digit (by decide)
          · rintro tail same
            cases (List.cons.inj same).1
            exact absurd digit (by decide)

section Digits

variable [Unicode]

/-- A decimal digit of any script, as `\d` matches it. -/
def digit? (c : Char) : Option ℕ :=
  if c.toNat < 128 then if c.isDigit then some (asciiDigit c) else none
  else (Unicode.decimal c).map Fin.val

/-- Digits with at most one underscore between two of them. -/
def groupedDigits : List Char → Option (List ℕ)
  | [] => none
  | [c] => (digit? c).map fun digit => [digit]
  | c :: '_' :: rest => do
      let digit ← digit? c
      let digits ← groupedDigits rest
      pure (digit :: digits)
  | c :: rest => do
      let digit ← digit? c
      let digits ← groupedDigits rest
      pure (digit :: digits)

/-- `int(text)`; `none` is the ValueError, also of a text with more than 4300 digits. The
separators 0x1c to 0x1f are no blanks here. -/
def intOfText (text : String) : Option ℤ :=
  let blank c := isSpace c && !(0x1c ≤ c.toNat && c.toNat ≤ 0x1f)
  let (negative, rest) := sign (stripBy blank text.toList)
  match groupedDigits rest with
  | some digits => if digits.length ≤ 4300 then some (signed negative (ofDigits digits)) else none
  | none => none

/-- How `Decimal` reads a character before it looks at the syntax. -/
def toAscii (c : Char) : Option Char :=
  if c.toNat = 0 then none
  else if c.toNat < 128 then some c
  else if isSpace c then some ' '
  else (Unicode.decimal c).map fun digit => Char.ofNat (48 + digit)

theorem digit?_of_isDigit {c : Char} (digit : c.isDigit) : digit? c = some (asciiDigit c) := by
  have bounds := digit_lt digit
  rw [digit?, if_pos (by omega), if_pos digit]

theorem groupedDigits_of_digits {chars : List Char} (nonempty : chars ≠ [])
    (digits : ∀ c ∈ chars, c.isDigit) :
    groupedDigits chars = some (chars.map asciiDigit) := by
  induction chars with
  | nil => exact absurd rfl nonempty
  | cons c rest ih =>
      have first := digit?_of_isDigit (digits c List.mem_cons_self)
      cases rest with
      | nil => simp [groupedDigits, first]
      | cons next rest =>
          have notSeparator : next ≠ '_' := by
            rintro rfl
            exact absurd (digits '_' (by simp)) (by decide)
          have later := ih (by simp) fun c member => digits c (List.mem_cons_of_mem _ member)
          rw [groupedDigits]
          · rw [first, later]
            rfl
          · exact fun empty => List.cons_ne_nil next rest empty
          · exact fun tail same => notSeparator (List.cons.inj same).1

/-- `str(n)`; `none` is the ValueError of a number with more than 4300 digits. -/
def textOfInt (n : ℤ) : Option String :=
  if (Nat.toDigits 10 n.natAbs).length ≤ 4300 then some (toString n) else none

theorem intOfText_digits {negative : Bool} {n : ℕ} (short : (Nat.toDigits 10 n).length ≤ 4300) :
    intOfText (String.ofList ((if negative then ['-'] else []) ++ Nat.toDigits 10 n)) =
      some (signed negative n) := by
  have digits : ∀ c ∈ Nat.toDigits 10 n, c.isDigit := fun c member =>
    Nat.isDigit_of_mem_toDigits (by decide) (by decide) member
  have value : ofDigits ((Nat.toDigits 10 n).map asciiDigit) = n := by
    rw [ofDigits, List.foldl_map]
    exact Nat.ofDigitChars_ten_toDigits
  have grouped := groupedDigits_of_digits Nat.toDigits_ne_nil digits
  have unblank : ∀ c ∈ (if negative then ['-'] else []) ++ Nat.toDigits 10 n,
      isSpace c = false := by
    intro c member
    rcases List.mem_append.mp member with minus | digit
    · cases negative with
      | true => exact List.mem_singleton.mp minus ▸ by decide
      | false => cases minus
    · exact isSpace_digit (digits c digit)
  rw [intOfText]
  simp only [String.toList_ofList]
  rw [stripBy_of_none fun c member => by rw [unblank c member, Bool.false_and],
    sign_digits negative digits]
  simp only [grouped, List.length_map, if_pos short, value]

/-- What `str` has written of an integer, `int` reads back. -/
theorem intOfText_textOfInt {n : ℤ} {text : String} (written : textOfInt n = some text) :
    intOfText text = some n := by
  unfold textOfInt at written
  split at written
  · rename_i short
    cases written
    rcases n with n | n
    · have digits : toString (Int.ofNat n) = String.ofList (Nat.toDigits 10 n) :=
        Nat.toString_eq_ofList_toDigits
      rw [digits]
      exact @intOfText_digits _ false n short
    · have digits : toString (Int.negSucc n) =
          String.ofList (['-'] ++ Nat.toDigits 10 (n + 1)) := by
        rw [String.ofList_append, ← Nat.toString_eq_ofList_toDigits]
        rfl
      rw [digits]
      exact @intOfText_digits _ true (n + 1) short
  · cases written

end Digits

/-- The exponent of a numeric literal. -/
def exponentPart : List Char → Option ℤ
  | [] => some 0
  | c :: rest =>
      if c = 'e' ∨ c = 'E' then
        let (negative, digits) := sign rest
        if digits ≠ [] ∧ digits.all Char.isDigit then
          some (signed negative (ofDigits (digits.map asciiDigit)))
        else none
      else none

/-- A numeric literal, within the exponents that a `Decimal` can have. -/
def finiteLiteral (negative : Bool) (chars : List Char) : Option ExtendedDecimal :=
  let whole := chars.takeWhile Char.isDigit
  let (fraction, rest) :=
    match chars.dropWhile Char.isDigit with
    | '.' :: rest => (rest.takeWhile Char.isDigit, rest.dropWhile Char.isDigit)
    | rest => ([], rest)
  if whole = [] ∧ fraction = [] then none
  else
    match exponentPart rest with
    | none => none
    | some power =>
        let coefficient := ofDigits ((whole ++ fraction).map asciiDigit)
        let exponent := power - fraction.length
        if exponent + Nat.log 10 coefficient ≤ 999999999999999999 ∧
            -1999999999999999997 ≤ exponent then
          some (.finite negative coefficient exponent)
        else none

def literal (negative : Bool) (chars : List Char) : Option ExtendedDecimal :=
  match chars.map Char.toLower with
  | ['i', 'n', 'f'] | ['i', 'n', 'f', 'i', 'n', 'i', 't', 'y'] => some (.infinite negative)
  | 'n' :: 'a' :: 'n' :: payload | 's' :: 'n' :: 'a' :: 'n' :: payload =>
      if payload.all Char.isDigit then some .nan else none
  | _ => finiteLiteral negative chars

/-- `Decimal(text)`; `none` is the InvalidOperation. Underscores count for nothing. -/
def decimalOfText [Unicode] (text : String) : Option ExtendedDecimal :=
  match ((stripBy isSpace text.toList).filter (· ≠ '_')).mapM toAscii with
  | some chars => literal (sign chars).1 (sign chars).2
  | none => none

end Text

namespace ExtendedDecimal

/-- `int(d)`. -/
def toInt : ExtendedDecimal → Except Exception ℤ
  | .nan => .error .valueError
  | .infinite _ => .error .overflowError
  | .finite negative coefficient exponent =>
      .ok (signed negative (if 0 ≤ exponent then coefficient * 10 ^ exponent.toNat
        else coefficient / 10 ^ (-exponent).toNat))

def isZero : ExtendedDecimal → Bool
  | .finite _ coefficient _ => coefficient == 0
  | _ => false

/-- `d <= 0`: an ordering comparison with a NaN is an invalid operation. -/
def nonpositive : ExtendedDecimal → Except Exception Bool
  | .nan => .error .invalidOperation
  | .infinite negative => .ok negative
  | .finite negative coefficient _ => .ok (negative || coefficient == 0)

/-- `d or None`. -/
def orNone (d : ExtendedDecimal) : Option ExtendedDecimal := if d.isZero then none else some d

def FinitePositive : ExtendedDecimal → Prop
  | .finite negative coefficient _ => negative = false ∧ 0 < coefficient
  | _ => False

/-- `repr` of a float. -/
def floatText : ExtendedDecimal → String
  | .nan => "nan"
  | .infinite negative => if negative then "-inf" else "inf"
  | .finite negative coefficient exponent =>
      let digits := toString coefficient
      let point : ℤ := digits.length + exponent
      let zeros (n : ℤ) := String.ofList (List.replicate n.toNat '0')
      let magnitude :=
        if -4 < point ∧ point ≤ 16 then
          if point ≤ 0 then "0." ++ zeros (-point) ++ digits
          else if digits.length ≤ point then digits ++ zeros (point - digits.length) ++ ".0"
          else String.ofList (digits.toList.take point.toNat) ++ "." ++
            String.ofList (digits.toList.drop point.toNat)
        else
          let power := toString (point - 1).natAbs
          let fraction := if digits.length = 1 then "" else "." ++ String.ofList digits.toList.tail
          String.ofList (digits.toList.take 1) ++ fraction ++ "e" ++
            (if point - 1 < 0 then "-" else "+") ++ zeros (2 - power.length) ++ power
      if negative then "-" ++ magnitude else magnitude

end ExtendedDecimal

section Str

variable [Unicode]

def hex (width n : ℕ) : String :=
  let digits := Nat.toDigits 16 n
  String.ofList (List.replicate (width - digits.length) '0' ++ digits)

/-- One character inside the `repr` of a text. -/
def reprChar (quote c : Char) : String :=
  let n := c.toNat
  if c = quote ∨ c = '\\' then "\\" ++ c.toString
  else if c = '\t' then "\\t"
  else if c = '\n' then "\\n"
  else if c = '\r' then "\\r"
  else if n < 0x20 ∨ n = 0x7f then "\\x" ++ hex 2 n
  else if n < 0x7f then c.toString
  else if Unicode.isprintable c then c.toString
  else if n ≤ 0xff then "\\x" ++ hex 2 n
  else if n ≤ 0xffff then "\\u" ++ hex 4 n
  else "\\U" ++ hex 8 n

def reprText (text : String) : String :=
  let quote := if '\'' ∈ text.toList ∧ '"' ∉ text.toList then '"' else '\''
  quote.toString ++ String.join (text.toList.map (reprChar quote)) ++ quote.toString

mutual

/-- `repr(value)`. -/
def Json.repr : Json → String
  | .null => "None"
  | .bool value => if value then "True" else "False"
  | .int value => toString value
  | .float value => value.floatText
  | .str text => reprText text
  | .list items => "[" ++ ", ".intercalate (reprItems items) ++ "]"
  | .dict entries => "\x7b" ++ ", ".intercalate (reprEntries entries) ++ "\x7d"

def reprItems : List Json → List String
  | [] => []
  | item :: rest => item.repr :: reprItems rest

def reprEntries : List (String × Json) → List String
  | [] => []
  | (key, value) :: rest => (reprText key ++ ": " ++ value.repr) :: reprEntries rest

end

/-- `str(value)`, also in an f-string. -/
def Json.text : Json → String
  | .str text => text
  | value => value.repr

end Str

namespace Json

/-- `bool(value)`. -/
def truthy : Json → Bool
  | .null => false
  | .bool value => value
  | .int value => value != 0
  | .float value => !value.isZero
  | .str text => text != ""
  | .list items => !items.isEmpty
  | .dict entries => !entries.isEmpty

/-- `value or other`. -/
def or (value other : Json) : Json := if value.truthy then value else other

/-- `value is None`. -/
def isNone : Json → Bool
  | .null => true
  | _ => false

/-- `value == text`. -/
def isText (text : String) : Json → Bool
  | .str own => own == text
  | _ => false

def lookup (entries : List (String × Json)) (key : String) : Option Json :=
  (entries.find? fun entry => entry.1 = key).map Prod.snd

/-- `value.get(key, default)`: only a dict has the method. -/
def get (value : Json) (key : String) (default : Json := .null) : Except Exception Json :=
  match value with
  | .dict entries => .ok ((lookup entries key).getD default)
  | _ => .error .attributeError

def field (entries : List (String × Json)) (key : String) : Json :=
  (lookup entries key).getD .null

@[simp] theorem get_dict (entries : List (String × Json)) (key : String) :
    (Json.dict entries).get key = .ok (field entries key) := rfl

theorem get_eq_ok {value found default : Json} {key : String} :
    value.get key default = .ok found ↔
      ∃ entries, value = .dict entries ∧ found = (lookup entries key).getD default := by
  cases value <;> simp [get, eq_comm]

@[simp] theorem isNone_iff {value : Json} : value.isNone = true ↔ value = .null := by
  cases value <;> simp [isNone]

@[simp] theorem isText_iff {value : Json} {text : String} :
    value.isText text = true ↔ value = .str text := by
  cases value <;> simp [isText]

/-- `value[key]`. -/
def getItem (value : Json) (key : String) : Except Exception Json :=
  match value with
  | .dict entries => orRaise .keyError (lookup entries key)
  | _ => .error .typeError

/-- `int(value)`. -/
def toInt [Unicode] : Json → Except Exception ℤ
  | .bool value => .ok (if value then 1 else 0)
  | .int value => .ok value
  | .float value => value.toInt
  | .str text => orRaise .valueError (intOfText text)
  | .null | .list _ | .dict _ => .error .typeError

theorem toInt_error [Unicode] {value : Json} {e : Exception} (raised : value.toInt = .error e) :
    e = .typeError ∨ e = .valueError ∨ e = .overflowError := by
  unfold toInt at raised
  split at raised
  · cases raised
  · cases raised
  · unfold ExtendedDecimal.toInt at raised
    split at raised <;> cases raised <;> simp
  · unfold orRaise at raised
    split at raised <;> cases raised
    simp
  · cases raised
    simp
  · cases raised
    simp
  · cases raised
    simp

end Json

end Python
