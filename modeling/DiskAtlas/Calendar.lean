/-
Days of the Gregorian calendar, which is extended to all years, and their
distance in days from 1 January 1970. Dates are limited to the years
-262143 to 262142. A day is read as year, month and day with a hyphen
between them, and an instant is shown as date and time of day.

When a day begins depends on where the clock stands. A time zone is known by
what its clocks show: where they are put back they show a time twice, and
where they are put forward they show some times never.
-/
import DiskAtlas.Text.Blank
import DiskAtlas.Text.Number

namespace DiskAtlas.Calendar

open Text

/-- A day by its year, month and day of the month. -/
structure Date where
  year : Int
  month : Nat
  day : Nat
  deriving Repr, DecidableEq

/-- The first year that a date may have. -/
def firstYear : Int := -262143

/-- The last year that a date may have. -/
def lastYear : Int := 262142

/-- Has the year a 29 February? -/
def isLeap (year : Int) : Bool :=
  (year % 4 == 0 && year % 100 != 0) || year % 400 == 0

/-- The number of days of a month; no day if there is no such month. -/
def daysInMonth (year : Int) (month : Nat) : Nat :=
  if month = 2 then if isLeap year then 29 else 28
  else if [4, 6, 9, 11].contains month then 30
  else if 1 ≤ month ∧ month ≤ 12 then 31
  else 0

/-- Is there such a day, in a year that is allowed? -/
def Date.isValid (d : Date) : Bool :=
  decide (firstYear ≤ d.year) && decide (d.year ≤ lastYear)
    && decide (1 ≤ d.day) && decide (d.day ≤ daysInMonth d.year d.month)

-- ======================================================== day numbers

/-- Days from 1 March of year 0 to a day of a year that begins in March.
`shifted` counts the months from March. -/
def daysFromMarch (year : Int) (shifted day : Nat) : Int :=
  365 * year + Int.fdiv year 4 - Int.fdiv year 100 + Int.fdiv year 400
    + ((153 * shifted + 2) / 5 : Nat) + day - 1

/-- Days from 1 January 1970 to a date. -/
def Date.dayNumber (d : Date) : Int :=
  let early := d.month ≤ 2
  let year := if early then d.year - 1 else d.year
  let shifted := if early then d.month + 9 else d.month - 3
  daysFromMarch year shifted d.day - 719468

/-- The date that lies `n` days after 1 January 1970. -/
def Date.ofDayNumber (n : Int) : Date :=
  let z := n + 719468
  let era := Int.fdiv z 146097
  let dayOfEra := (z - era * 146097).toNat
  let yearOfEra :=
    (dayOfEra - dayOfEra / 1460 + dayOfEra / 36524 - dayOfEra / 146096) / 365
  let dayOfYear :=
    dayOfEra - (365 * yearOfEra + yearOfEra / 4 - yearOfEra / 100)
  let shifted := (5 * dayOfYear + 2) / 153
  let day := dayOfYear - (153 * shifted + 2) / 5 + 1
  let month := if shifted < 10 then shifted + 3 else shifted - 9
  let year := (yearOfEra : Int) + era * 400
  ⟨if month ≤ 2 then year + 1 else year, month, day⟩

/-- There are fewer than a hundred million days to any date. -/
theorem Date.natAbs_dayNumber_lt {d : Date} (h : d.isValid = true) :
    d.dayNumber.natAbs < 100000000 := by
  unfold isValid firstYear lastYear at h
  simp only [Bool.and_eq_true, decide_eq_true_eq] at h
  obtain ⟨⟨⟨hfirst, hlast⟩, hday⟩, hmonth⟩ := h
  have hdays : daysInMonth d.year d.month ≤ 31 ∧
      (daysInMonth d.year d.month ≠ 0 → d.month ≤ 12) := by
    unfold daysInMonth
    split
    · split <;> omega
    · split
      · next hfour =>
        simp only [List.contains_eq_mem, List.mem_cons, List.not_mem_nil,
          or_false, decide_eq_true_eq] at hfour
        omega
      · split <;> omega
  unfold dayNumber daysFromMarch
  simp only [Int.fdiv_eq_ediv_of_nonneg _ (show (0 : Int) ≤ 4 by decide),
    Int.fdiv_eq_ediv_of_nonneg _ (show (0 : Int) ≤ 100 by decide),
    Int.fdiv_eq_ediv_of_nonneg _ (show (0 : Int) ≤ 400 by decide)]
  split <;> omega

/-- The midnight at which a date begins, as a clock shows it, in seconds
from the midnight at which 1970 began. -/
def Date.midnight (d : Date) : Int := d.dayNumber * 86400

/-- The midnight at which the next date begins, if there is a next one. -/
def Date.nextMidnight? (d : Date) : Option Int :=
  if d == ⟨lastYear, 12, 31⟩ then none else some (d.midnight + 86400)

-- ================================================================ zones

/-- A time zone. -/
structure Zone where
  /-- The first instant, in seconds from 1970 in universal time, at which
  clocks show a time; none if they never do. -/
  earliest? : Int → Option Int
  /-- No clock is off by a day. -/
  near : ∀ shown instant, earliest? shown = some instant →
    (instant - shown).natAbs < 86400

namespace Zone

/-- Clocks that are always ahead of universal time by so many seconds. -/
def fixed (ahead : Int) (h : ahead.natAbs < 86400) : Zone where
  earliest? shown := some (shown - ahead)
  near := by
    rintro shown _ ⟨⟩
    omega

/-- Clocks that show universal time. -/
def utc : Zone := fixed 0 (by decide)

/-- The first and the last second of a date, if clocks show the midnights
at both of its ends. -/
def secondsOf? (zone : Zone) (d : Date) : Option (Int × Int) := do
  let first ← zone.earliest? d.midnight
  let next ← zone.earliest? (← d.nextMidnight?)
  return (first, next - 1)

/-- The seconds of a date are far from the ends of a signed word. -/
theorem secondsOf?_bounded {zone : Zone} {d : Date} {first last : Int}
    (hd : d.isValid = true) (h : zone.secondsOf? d = some (first, last)) :
    first.natAbs < 10000000000000 ∧ last.natAbs < 10000000000000 := by
  have hdays := d.natAbs_dayNumber_lt hd
  simp only [secondsOf?, Date.nextMidnight?, Option.bind_eq_bind,
    Option.bind_eq_some_iff] at h
  obtain ⟨start, hstart, next, hnext, stop, hstop, heq⟩ := h
  have hfirst := zone.near _ _ hstart
  have hlast := zone.near _ _ hstop
  split at hnext
  · cases hnext
  · obtain rfl := Option.some.inj hnext
    obtain ⟨rfl, rfl⟩ := Prod.mk.inj (Option.some.inj heq)
    unfold Date.midnight at hfirst hlast
    omega

end Zone

-- ============================================================ reading

/-- At most `limit` digits at the start of a text, at least one. -/
def takeNumber (limit : Nat) (cs : List Char) :
    Option (Nat × List Char) := do
  let digits := (cs.take limit).takeWhile Char.isDigit
  let n ← readDigits 10 digits
  some (n, cs.drop digits.length)

/-- A year: up to four digits, or any number of them after a sign. Blanks
in front are skipped. -/
def takeYear (cs : List Char) : Option (Int × List Char) :=
  match trimStart cs with
  | '-' :: rest => (takeNumber rest.length rest).map fun (n, r) => (-n, r)
  | '+' :: rest => (takeNumber rest.length rest).map fun (n, r) => (n, r)
  | rest => (takeNumber 4 rest).map fun (n, r) => (n, r)

/-- A month or a day: one or two digits after blanks. -/
def takeTwoDigits (cs : List Char) : Option (Nat × List Char) :=
  takeNumber 2 (trimStart cs)

def afterHyphen : List Char → Option (List Char)
  | '-' :: cs => some cs
  | _ => none

/-- A date as year, month and day, and nothing after it. -/
def readDate (cs : List Char) : Option Date := do
  let (year, cs) ← takeYear cs
  let cs ← afterHyphen cs
  let (month, cs) ← takeTwoDigits cs
  let cs ← afterHyphen cs
  let (day, cs) ← takeTwoDigits cs
  let date : Date := ⟨year, month, day⟩
  if cs.isEmpty && date.isValid then some date else none

-- ============================================================ showing

/-- A number with zeros in front up to a width. -/
def padded (width n : Nat) : String :=
  let digits := toString n
  String.ofList (List.replicate (width - digits.length) '0') ++ digits

/-- A year: four digits, and with a sign if it needs more or is before
the year 0. -/
def yearText (year : Int) : String :=
  let digits := padded 4 year.natAbs
  if year < 0 then "-" ++ digits
  else if 9999 < year then "+" ++ digits
  else digits

/-- An instant, in seconds from 1970, as date and time of day in universal
time; nothing if the year is not allowed. -/
def instantText (seconds : Int) : Option String :=
  let date := Date.ofDayNumber (Int.fdiv seconds 86400)
  if firstYear ≤ date.year ∧ date.year ≤ lastYear then
    let rest := (Int.fmod seconds 86400).toNat
    some <| yearText date.year ++ "-" ++ padded 2 date.month ++ "-"
      ++ padded 2 date.day ++ "T" ++ padded 2 (rest / 3600) ++ ":"
      ++ padded 2 (rest / 60 % 60) ++ ":" ++ padded 2 (rest % 60) ++ "+00:00"
  else none

end DiskAtlas.Calendar
