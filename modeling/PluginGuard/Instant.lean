import PluginGuard.Text.Character
import PluginGuard.Text.Numeral

/-!
# Points in time

A day of the calendar and a time of that day, in universal time. A leap second
is the last second of its minute carried on: its nanoseconds run from one
thousand million up. Times are written with as many decimals as they need, in
groups of three; reading also takes blanks between the parts and any offset.
-/
namespace PluginGuard

structure Date where
  year : Int
  month : Nat
  day : Nat
  deriving DecidableEq, Repr

namespace Date

def isLeap (year : Int) : Bool := year % 4 == 0 && (year % 100 != 0 || year % 400 == 0)

def daysIn (year : Int) (month : Nat) : Nat :=
  if month == 2 then (if isLeap year then 29 else 28)
  else if [4, 6, 9, 11].contains month then 30
  else 31

def isValid (d : Date) : Bool :=
  1 ≤ d.month && d.month ≤ 12 && 1 ≤ d.day && d.day ≤ daysIn d.year d.month

/-- Days since the first of March of the year zero. Years are taken from March to
February, so that a leap day ends its year. -/
def number (d : Date) : Int :=
  let y := if d.month ≤ 2 then d.year - 1 else d.year
  let m : Int := if d.month ≤ 2 then d.month + 9 else (d.month : Int) - 3
  365 * y + y / 4 - y / 100 + y / 400 + (153 * m + 2) / 5 + d.day - 1

def ofNumber (n : Int) : Date :=
  let era := n / 146097
  let rest := n % 146097
  let yearOfEra := (rest - rest / 1460 + rest / 36524 - rest / 146096) / 365
  let dayOfYear := rest - (365 * yearOfEra + yearOfEra / 4 - yearOfEra / 100)
  let m := (5 * dayOfYear + 2) / 153
  let day := dayOfYear - (153 * m + 2) / 5 + 1
  let month := if m < 10 then m + 3 else m - 9
  let year := yearOfEra + era * 400 + (if month ≤ 2 then 1 else 0)
  ⟨year, month.toNat, day.toNat⟩

end Date

structure Instant where
  /-- The number of the day. -/
  day : Int
  second : Nat
  nano : Nat
  deriving DecidableEq, Repr

namespace Instant

def secondsPerDay : Nat := 86400
def nanosPerSecond : Nat := 1000000000

def isLeapSecond (t : Instant) : Bool := nanosPerSecond ≤ t.nano

def before (a b : Instant) : Bool :=
  a.day < b.day || (a.day == b.day &&
    (a.second < b.second || (a.second == b.second && a.nano < b.nano)))

/-- Nanoseconds from `b` to `a`. A leap second between the two times of day counts. -/
def since (a b : Instant) : Int :=
  let adjust : Int :=
    if b.second < a.second then (if b.isLeapSecond then 1 else 0)
    else if a.second < b.second then (if a.isLeapSecond then -1 else 0)
    else 0
  let seconds := (a.day - b.day) * secondsPerDay + ((a.second : Int) - b.second) + adjust
  seconds * nanosPerSecond + ((a.nano : Int) - b.nano)

def ofNanosSince1970 (nanos : Nat) : Instant :=
  let seconds := nanos / nanosPerSecond
  ⟨Date.number ⟨1970, 1, 1⟩ + (seconds / secondsPerDay : Nat), seconds % secondsPerDay,
    nanos % nanosPerSecond⟩

def nanosOfDays (days : Nat) : Int := days * secondsPerDay * nanosPerSecond

/-! ### Writing -/

def padded (width n : Nat) : String :=
  let digits := Nat.toDigits 10 n
  String.ofList (List.replicate (width - digits.length) '0' ++ digits)

def yearText (year : Int) : String :=
  if 0 ≤ year ∧ year ≤ 9999 then padded 4 year.toNat
  else (if year < 0 then "-" else "+") ++ padded 4 year.natAbs

def dateText (t : Instant) : String :=
  let d := Date.ofNumber t.day
  s!"{yearText d.year}-{padded 2 d.month}-{padded 2 d.day}"

def fractionText (nano : Nat) : String :=
  if nano = 0 then ""
  else if nano % 1000000 = 0 then "." ++ padded 3 (nano / 1000000)
  else if nano % 1000 = 0 then "." ++ padded 6 (nano / 1000)
  else "." ++ padded 9 nano

def timeText (t : Instant) : String :=
  let second := t.second % 60 + (if t.isLeapSecond then 1 else 0)
  s!"{padded 2 (t.second / 3600)}:{padded 2 (t.second / 60 % 60)}:{padded 2 second}" ++
    fractionText (t.nano % nanosPerSecond)

def written (t : Instant) : String := s!"{t.dateText}T{t.timeText}Z"

def display (t : Instant) : String := s!"{t.dateText} {t.timeText} UTC"

/-! ### Reading -/

namespace Grammar

abbrev Rest := List Char

def number? (width : Nat) (cs : Rest) : Option (Nat × Rest) :=
  let digits := (cs.take width).takeWhile Text.Ascii.isDigit
  (Text.Numeral.digits? digits).map fun n => (n, cs.drop digits.length)

def spaced? (width : Nat) (cs : Rest) : Option (Nat × Rest) :=
  number? width (Text.trimStartChars cs)

def year? (cs : Rest) : Option (Int × Rest) :=
  match Text.trimStartChars cs with
  | '-' :: rest => (number? rest.length rest).map fun (n, r) => (-(n : Int), r)
  | '+' :: rest => (number? rest.length rest).map fun (n, r) => ((n : Int), r)
  | rest => (number? 4 rest).map fun (n, r) => ((n : Int), r)

def mark? (c : Char) (cs : Rest) : Option Rest :=
  match Text.trimStartChars cs with
  | d :: rest => if d == c then some rest else none
  | [] => none

/-- Decimals as nanoseconds; those after the ninth are dropped. -/
def fraction? (cs : Rest) : Option (Nat × Rest) :=
  match cs with
  | '.' :: rest =>
    let digits := rest.takeWhile Text.Ascii.isDigit
    let kept := digits.take 9
    (Text.Numeral.digits? kept).map fun n =>
      (n * Nat.pow 10 (9 - kept.length), rest.drop digits.length)
  | _ => some (0, cs)

def twoDigits? (cs : Rest) : Option (Nat × Rest) :=
  match cs with
  | a :: b :: rest => (Text.Numeral.digits? [a, b]).map fun n => (n, rest)
  | _ => none

/-- Seconds east of universal time. -/
def offset? (cs : Rest) : Option (Int × Rest) :=
  let signed := fun (sign : Int) (cs : Rest) => do
    let (hours, cs) ← twoDigits? cs
    let (minutes, cs) ← twoDigits? (cs.dropWhile fun c => c == ':' || Text.isBlank c)
    if hours < 24 ∧ minutes < 60 then some (sign * (hours * 3600 + minutes * 60), cs) else none
  match cs with
  | 'Z' :: rest => some (0, rest)
  | 'z' :: rest => some (0, rest)
  | '+' :: rest => signed 1 rest
  | '-' :: rest => signed (-1) rest
  | '\u2212' :: rest => signed (-1) rest
  | a :: b :: c :: rest =>
    if Text.Ascii.lowerChars [a, b, c] = "utc".toList then some (0, rest) else none
  | _ => none

def separator? (cs : Rest) : Option Rest :=
  match cs with
  | c :: rest => if c == 't' || c == 'T' || c == ' ' then some rest else none
  | [] => none

end Grammar

def firstYear : Int := -262143
def lastYear : Int := 262142

def ofLocal? (date : Date) (hour minute second nano : Nat) (offset : Int) : Option Instant :=
  if !date.isValid || 24 ≤ hour || 60 ≤ minute || 60 < second then none
  else
    let (second, nano) := if second = 60 then (59, nano + nanosPerSecond) else (second, nano)
    let total : Int := (hour * 3600 + minute * 60 + second : Nat) - offset
    let day := date.number + total / secondsPerDay
    let year := (Date.ofNumber day).year
    if firstYear ≤ date.year ∧ date.year ≤ lastYear ∧ firstYear ≤ year ∧ year ≤ lastYear then
      some ⟨day, (total % secondsPerDay).toNat, nano⟩
    else none

open Grammar in
def parse? (text : String) : Option Instant := do
  let (year, cs) ← year? text.toList
  let (month, cs) ← spaced? 2 (← mark? '-' cs)
  let (day, cs) ← spaced? 2 (← mark? '-' cs)
  let (hour, cs) ← spaced? 2 (← separator? cs)
  let (minute, cs) ← spaced? 2 (← mark? ':' cs)
  let (second, cs) ← spaced? 2 (← mark? ':' cs)
  let (nano, cs) ← fraction? cs
  let (offset, cs) ← offset? (Text.trimStartChars cs)
  if cs.all Text.isBlank then ofLocal? ⟨year, month, day⟩ hour minute second nano offset else none

end Instant

end PluginGuard
