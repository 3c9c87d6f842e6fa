import FundPolymarket.PythonValues

set_option autoImplicit false

/- Points in time as `datetime` has them: microseconds since 1970, from the year 1 to the
year 9999, and an OverflowError outside. -/
namespace Python

def microsPerSecond : ℤ := 1000000

def minTime : ℤ := -62135596800000000

def maxTime : ℤ := 253402300799999999

/-- The years of the calendar. -/
def InCalendar (t : ℤ) : Prop := minTime ≤ t ∧ t ≤ maxTime

instance (t : ℤ) : Decidable (InCalendar t) := inferInstanceAs (Decidable (_ ∧ _))

/-- `t + timedelta(...)`. A difference that is too long for a timedelta leaves the calendar
from everywhere in it, and is the same error. -/
def plus (t difference : ℤ) : Except Exception ℤ :=
  if InCalendar (t + difference) then .ok (t + difference) else .error .overflowError

theorem plus_eq_ok {t difference later : ℤ} :
    plus t difference = .ok later ↔ InCalendar (t + difference) ∧ later = t + difference := by
  unfold plus
  split
  · rename_i within
    exact ⟨fun result => ⟨within, (Except.ok.inj result).symm⟩, fun facts => facts.2 ▸ rfl⟩
  · rename_i outside
    exact ⟨fun result => (by cases result), fun facts => absurd facts.1 outside⟩

theorem exists_plus_eq_ok {t difference : ℤ} :
    (∃ later, plus t difference = .ok later) ↔ InCalendar (t + difference) := by
  simp [plus_eq_ok]

section Calendar

def isLeap (year : ℕ) : Bool := year % 4 == 0 && (year % 100 != 0 || year % 400 == 0)

def daysInMonth (year month : ℕ) : ℕ :=
  if month = 2 then if isLeap year then 29 else 28
  else if month = 4 ∨ month = 6 ∨ month = 9 ∨ month = 11 then 30
  else 31

/-- Days from the first day of the year 1 on, which is day 1. -/
def toOrdinal (year month day : ℕ) : ℕ :=
  let before := year - 1
  before * 365 + before / 4 - before / 100 + before / 400 +
    ((List.range (month - 1)).map fun m => daysInMonth year (m + 1)).sum + day

/-- `datetime(year, month, day, hour, minute, second)`; `none` is the ValueError. -/
def datetime (year month day hour minute second : ℕ) : Option ℤ :=
  if (1 ≤ year ∧ year ≤ 9999) ∧ (1 ≤ month ∧ month ≤ 12) ∧
      (1 ≤ day ∧ day ≤ daysInMonth year month) ∧ hour < 24 ∧ minute < 60 ∧ second < 60 then
    some ((((toOrdinal year month day : ℤ) - 719163) * 86400 +
      (hour * 3600 + minute * 60 + second : ℕ)) * microsPerSecond)
  else none

end Calendar

section Strptime

/-- A character class `[low-high]` of ASCII digits. -/
def digitBetween (low high : ℕ) (c : Char) : Option ℕ :=
  if c.isDigit ∧ low ≤ asciiDigit c ∧ asciiDigit c ≤ high then some (asciiDigit c) else none

/-- `%m` is `1[0-2]|0[1-9]|[1-9]`. -/
def readMonth : List Char → Option ℕ
  | [c] => digitBetween 1 9 c
  | ['0', c] => digitBetween 1 9 c
  | ['1', c] => (digitBetween 0 2 c).map (10 + ·)
  | _ => none

variable [Unicode]

def readTwo (tens : Option ℕ) (c : Char) : Option ℕ := do
  let ten ← tens
  let digit ← digit? c
  pure (10 * ten + digit)

/-- `%Y`. -/
def readYear : List Char → Option ℕ
  | [a, b, c, d] => ([a, b, c, d].mapM digit?).map ofDigits
  | _ => none

/-- `%d` is `3[0-1]|[1-2]\d|0[1-9]|[1-9]| [1-9]`. -/
def readDay : List Char → Option ℕ
  | [c] => digitBetween 1 9 c
  | ['0', c] | [' ', c] => digitBetween 1 9 c
  | ['3', c] => (digitBetween 0 1 c).map (30 + ·)
  | [t, c] => readTwo (digitBetween 1 2 t) c
  | _ => none

/-- `%H` is `2[0-3]|[0-1]\d|\d`. -/
def readHour : List Char → Option ℕ
  | [c] => digit? c
  | ['2', c] => (digitBetween 0 3 c).map (20 + ·)
  | [t, c] => readTwo (digitBetween 0 1 t) c
  | _ => none

/-- `%M` is `[0-5]\d|\d`. So is `%S`, apart from 60 and 61, which `datetime` refuses. -/
def readMinute : List Char → Option ℕ
  | [c] => digit? c
  | [t, c] => readTwo (digitBetween 0 5 t) c
  | _ => none

/-- What stands before the first separator, and what follows it. -/
def splitAt? (separator : Char → Bool) : List Char → Option (List Char × List Char)
  | [] => none
  | c :: rest =>
      if separator c then some ([], rest)
      else (splitAt? separator rest).map fun parts => (c :: parts.1, parts.2)

/-- The day may begin with a blank of its own. -/
def splitDay? : List Char → Option (List Char × List Char)
  | ' ' :: rest => (splitAt? isSpace rest).map fun parts => (' ' :: parts.1, parts.2)
  | chars => splitAt? isSpace chars

/-- `datetime.strptime(text, "%Y-%m-%d %H:%M:%S")`; `none` is the ValueError. The blank of the
format stands for any number of them. -/
def strptime (text : String) : Option ℤ := do
  let (yearText, rest) ← splitAt? (· = '-') text.toList
  let (monthText, rest) ← splitAt? (· = '-') rest
  let (dayText, rest) ← splitDay? rest
  let (hourText, rest) ← splitAt? (· = ':') (rest.dropWhile isSpace)
  let (minuteText, secondText) ← splitAt? (· = ':') rest
  let year ← readYear yearText
  let month ← readMonth monthText
  let day ← readDay dayText
  let hour ← readHour hourText
  let minute ← readMinute minuteText
  let second ← readMinute secondText
  datetime year month day hour minute second

end Strptime

end Python
