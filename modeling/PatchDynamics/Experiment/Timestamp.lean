/-!
# Points in time

A point in time is read from RFC 3339 text, with some liberty, and written back in universal time.

Reading takes `year-month-day`, a `T`, `t` or blank, `hour:minute:second`, an optional fraction and
an offset. Blanks may stand before every number, before the separators and at the end. A year has up
to four digits, or a sign and any number; all other numbers have one or two. Of a fraction the first
nine digits count. The offset is `Z`, `UTC` in any case, or a sign, two digits of hours, any colons
and blanks, and two digits of minutes. The sixtieth second of a minute is the leap second.

Writing gives the fraction in none, three, six or nine digits, as few as it needs.
-/

namespace PatchDynamics.Experiment

/-- A point in universal time. -/
structure Timestamp where
  /-- days since the first of January 1970 -/
  day : Int
  /-- seconds since midnight -/
  second : Nat
  /-- billionths of a second; from a billion on they count in the leap second that follows -/
  nanos : Nat
  deriving DecidableEq, Inhabited, Repr

namespace Timestamp

/-! ## The calendar -/

/-- Whether a year has a twenty-ninth of February. -/
def isLeapYear (y : Int) : Bool := y % 4 = 0 && (y % 100 ≠ 0 || y % 400 = 0)

/-- The number of days of a month. -/
def daysInMonth (y : Int) (m : Nat) : Nat :=
  if m = 2 then (if isLeapYear y then 29 else 28)
  else if m = 4 ∨ m = 6 ∨ m = 9 ∨ m = 11 then 30
  else 31

/-- Days from the first of January 1970 to a date. Years are counted from March, so that the leap
day is the last one. -/
def dayOfDate (y : Int) (m d : Nat) : Int :=
  let y' := if m ≤ 2 then y - 1 else y
  let era := y' / 400
  let yearOfEra := y' % 400
  let month := (m + 9) % 12
  let dayOfYear : Int := ((153 * month + 2) / 5 + d - 1 : Nat)
  era * 146097 + (yearOfEra * 365 + yearOfEra / 4 - yearOfEra / 100 + dayOfYear) - 719468

/-- The year, month and day of a day number. -/
def dateOfDay (day : Int) : Int × Nat × Nat :=
  let z := day + 719468
  let era := z / 146097
  let dayOfEra := z % 146097
  let yearOfEra := (dayOfEra - dayOfEra / 1460 + dayOfEra / 36524 - dayOfEra / 146096) / 365
  let dayOfYear := dayOfEra - (365 * yearOfEra + yearOfEra / 4 - yearOfEra / 100)
  let month := (5 * dayOfYear + 2) / 153
  let d := dayOfYear - (153 * month + 2) / 5 + 1
  let m := if month < 10 then month + 3 else month - 9
  let y := yearOfEra + era * 400 + (if m ≤ 2 then 1 else 0)
  (y, m.toNat, d.toNat)

/-- The first day that is a point in time. -/
def firstDay : Int := dayOfDate (-262143) 1 1

/-- The last day that is a point in time. -/
def lastDay : Int := dayOfDate 262142 12 31

/-! ## Reading -/

/-- The blanks of all scripts. -/
def isBlank (c : Char) : Bool :=
  let n := c.toNat
  (9 ≤ n && n ≤ 13) || n = 0x20 || n = 0x85 || n = 0xa0 || n = 0x1680 ||
    (0x2000 ≤ n && n ≤ 0x200a) || n = 0x2028 || n = 0x2029 || n = 0x202f || n = 0x205f || n = 0x3000

/-- What follows the blanks in front. -/
def skipBlanks (cs : List Char) : List Char := cs.dropWhile isBlank

/-- The value of a digit. -/
def digitValue (c : Char) : Nat := c.toNat - '0'.toNat

/-- The value of the digits in front, at most `width` of them, the count of those, and what
follows. -/
def digits : Nat → List Char → Nat × Nat → (Nat × Nat) × List Char
  | 0, cs, found => (found, cs)
  | width + 1, c :: cs, (value, count) =>
    if c.isDigit then digits width cs (value * 10 + digitValue c, count + 1)
    else ((value, count), c :: cs)
  | _ + 1, [], found => (found, [])

/-- A number of at most `width` digits after blanks. -/
def number? (width : Nat) (cs : List Char) : Option (Nat × List Char) :=
  match digits width (skipBlanks cs) (0, 0) with
  | ((_, 0), _) => none
  | ((value, _), rest) => some (value, rest)

/-- A signed number of any length right in front. -/
def unbounded? (cs : List Char) : Option (Nat × List Char) :=
  match digits cs.length cs (0, 0) with
  | ((_, 0), _) => none
  | ((value, _), rest) => some (value, rest)

/-- A year after blanks: up to four digits, or a sign and any number of them. -/
def year? (cs : List Char) : Option (Int × List Char) :=
  match skipBlanks cs with
  | '-' :: rest => (unbounded? rest).map fun (n, rest) => (-(n : Int), rest)
  | '+' :: rest => (unbounded? rest).map fun (n, rest) => ((n : Int), rest)
  | rest => (number? 4 rest).map fun (n, rest) => ((n : Int), rest)

/-- What follows the given sign, blanks before it skipped. -/
def expect? (c : Char) (cs : List Char) : Option (List Char) :=
  match skipBlanks cs with
  | d :: rest => if d = c then some rest else none
  | [] => none

/-- The billionths after a point, if a point stands in front. -/
def fraction? : List Char → Option (Nat × List Char)
  | '.' :: cs =>
    match digits 9 cs (0, 0) with
    | ((_, 0), _) => none
    | ((value, count), rest) => some (value * Nat.pow 10 (9 - count), rest.dropWhile Char.isDigit)
  | cs => some (0, cs)

/-- The value of exactly two digits in front, and what follows. -/
def twoDigits? : List Char → Option (Nat × List Char)
  | a :: b :: rest =>
    if a.isDigit ∧ b.isDigit then some (digitValue a * 10 + digitValue b, rest) else none
  | _ => none

/-- Hours and minutes of an offset after its sign, in minutes. -/
def offsetSize? (cs : List Char) : Option (Nat × List Char) := do
  let (hours, rest) ← twoDigits? cs
  let (minutes, rest) ← twoDigits? (rest.dropWhile fun c => c = ':' || isBlank c)
  if minutes < 60 then some (hours * 60 + minutes, rest) else none

/-- An offset in minutes, and what follows. -/
def offset? : List Char → Option (Int × List Char)
  | 'Z' :: rest | 'z' :: rest => some (0, rest)
  | '+' :: rest => (offsetSize? rest).map fun (n, rest) => ((n : Int), rest)
  | '-' :: rest | '\u2212' :: rest => (offsetSize? rest).map fun (n, rest) => (-(n : Int), rest)
  | u :: t :: c :: rest =>
    if u.toLower = 'u' ∧ t.toLower = 't' ∧ c.toLower = 'c' then some (0, rest) else none
  | _ => none

/-- The point in time at a local date, time of day and offset: none if there is no such date, time
or point. -/
def ofLocal? (y : Int) (month day hour minute second nanos : Nat) (offset : Int) :
    Option Timestamp :=
  if month < 1 ∨ 12 < month ∨ day < 1 ∨ daysInMonth y month < day then none
  else if 23 < hour ∨ 59 < minute ∨ 60 < second then none
  else if offset.natAbs ≥ 1440 then none
  else
    let localDay := dayOfDate y month day
    if localDay < firstDay ∨ lastDay < localDay then none
    else
      let (second, nanos) := if second = 60 then (59, nanos + 1000000000) else (second, nanos)
      let seconds := ((hour * 3600 + minute * 60 + second : Nat) : Int) - offset * 60
      let utcDay := localDay + seconds / 86400
      if utcDay < firstDay ∨ lastDay < utcDay then none
      else some ⟨utcDay, (seconds % 86400).toNat, nanos⟩

/-- The point in time that a text writes. -/
def parse? (text : String) : Option Timestamp := do
  let (y, cs) ← year? text.toList
  let cs ← expect? '-' cs
  let (month, cs) ← number? 2 cs
  let cs ← expect? '-' cs
  let (day, cs) ← number? 2 cs
  let cs ← match cs with
    | 'T' :: rest | 't' :: rest | ' ' :: rest => some rest
    | _ => none
  let (hour, cs) ← number? 2 cs
  let cs ← expect? ':' cs
  let (minute, cs) ← number? 2 cs
  let cs ← expect? ':' cs
  let (second, cs) ← number? 2 cs
  let (nanos, cs) ← fraction? cs
  let (offset, cs) ← offset? (skipBlanks cs)
  if (skipBlanks cs).isEmpty then ofLocal? y month day hour minute second nanos offset else none

/-! ## Writing -/

/-- A number in at least `width` digits. -/
def padded (width n : Nat) : String :=
  let digits := toString n
  "".pushn '0' (width - digits.length) ++ digits

/-- A year: four digits from zero to 9999, otherwise a sign and at least four. -/
def yearText (y : Int) : String :=
  if 0 ≤ y ∧ y ≤ 9999 then padded 4 y.toNat
  else (if y < 0 then "-" else "+") ++ padded 4 y.natAbs

/-- The fraction in as few groups of three digits as it needs. -/
def fractionText (nanos : Nat) : String :=
  if nanos = 0 then ""
  else if nanos % 1000000 = 0 then "." ++ padded 3 (nanos / 1000000)
  else if nanos % 1000 = 0 then "." ++ padded 6 (nanos / 1000)
  else "." ++ padded 9 nanos

/-- The point in time as text, in universal time. -/
def text (t : Timestamp) : String :=
  let (y, m, d) := dateOfDay t.day
  let second := t.second % 60 + t.nanos / 1000000000
  yearText y ++ "-" ++ padded 2 m ++ "-" ++ padded 2 d ++ "T" ++
    padded 2 (t.second / 3600) ++ ":" ++ padded 2 (t.second / 60 % 60) ++ ":" ++ padded 2 second ++
    fractionText (t.nanos % 1000000000) ++ "Z"

/-- The date and the time of day in digits, a hyphen between them, as they go into file names. -/
def stamp (t : Timestamp) : String :=
  let (y, m, d) := dateOfDay t.day
  yearText y ++ padded 2 m ++ padded 2 d ++ "-" ++ padded 2 (t.second / 3600) ++
    padded 2 (t.second / 60 % 60) ++ padded 2 (t.second % 60)

/-- The point in time so many billionths of a second after the beginning of 1970. -/
def ofNanoseconds (n : Int) : Timestamp :=
  let seconds := n / 1000000000
  ⟨seconds / 86400, (seconds % 86400).toNat, (n % 1000000000).toNat⟩

/-- Milliseconds since the beginning of 1970. -/
def milliseconds (t : Timestamp) : Int :=
  (t.day * 86400 + t.second) * 1000 + (t.nanos / 1000000 : Nat)

end Timestamp

end PatchDynamics.Experiment
