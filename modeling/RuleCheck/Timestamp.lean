import RuleCheck.Text.Digits

/-!
# Timestamps

A timestamp is an instant, counted in seconds and nanoseconds from the start of 1970 in
universal time, together with the offset of the clock it was read from. Timestamps are compared
by instant alone; the offset only shows when a timestamp is written.

The interchange text is `2024-03-01T12:00:00.5Z`. It exists for local years 0 to 9999 and for
offsets of less than a day in whole minutes; every other timestamp is written in the long form
`-0001-12-31 23:59:59.0 +00:00:00`.
-/

namespace RuleCheck

/-- An instant, in whole seconds since the start of 1970 in universal time, rounded down, and
nanoseconds past them, and the seconds by which the clock that it was read from is ahead. -/
structure Timestamp where
  seconds : Int
  nanos : Fin 1000000000
  offset : Int
deriving DecidableEq

namespace Timestamp

def compareInstants (left right : Timestamp) : Ordering :=
  (compare left.seconds right.seconds).then (compare left.nanos.val right.nanos.val)

/-- Both name the same instant, whatever their offsets. -/
def sameInstant (left right : Timestamp) : Bool :=
  left.compareInstants right == .eq

/-- A date of the proleptic Gregorian calendar, in which the year before year 1 is year 0. -/
structure CalendarDate where
  year : Int
  month : Nat
  day : Nat
deriving DecidableEq

/-- The date a number of days after the first of January 1970. Years are counted from March, so
that the leap day comes last, in cycles of 400 years. -/
def CalendarDate.ofDays (days : Int) : CalendarDate :=
  let shifted := days + 719468
  let cycle := shifted / 146097
  let dayOfCycle := (shifted % 146097).toNat
  let yearOfCycle :=
    (dayOfCycle - dayOfCycle / 1460 + dayOfCycle / 36524 - dayOfCycle / 146096) / 365
  let dayOfYear := dayOfCycle - (365 * yearOfCycle + yearOfCycle / 4 - yearOfCycle / 100)
  let monthFromMarch := (5 * dayOfYear + 2) / 153
  let day := dayOfYear - (153 * monthFromMarch + 2) / 5 + 1
  let month := if monthFromMarch < 10 then monthFromMarch + 3 else monthFromMarch - 9
  let year := cycle * 400 + yearOfCycle
  ⟨if month ≤ 2 then year + 1 else year, month, day⟩

/-- Seconds since the start of 1970 on the local clock. -/
def localSeconds (timestamp : Timestamp) : Int :=
  timestamp.seconds + timestamp.offset

def localDate (timestamp : Timestamp) : CalendarDate :=
  .ofDays (timestamp.localSeconds / 86400)

def secondOfDay (timestamp : Timestamp) : Nat :=
  (timestamp.localSeconds % 86400).toNat

/-! ## Text -/

def twoDigits (value : Nat) : List Char :=
  Digits.zeroPadded 2 value

/-- The nanoseconds as a decimal fraction without trailing zeros. -/
def fractionDigits (timestamp : Timestamp) : List Char :=
  ((Digits.zeroPadded 9 timestamp.nanos).reverse.dropWhile (· == '0')).reverse

/-- The year in at least four digits, after a minus sign if it is negative. -/
def yearText (year : Int) : List Char :=
  if year < 0 then '-' :: Digits.zeroPadded 4 year.natAbs else Digits.zeroPadded 4 year.natAbs

def dateText (timestamp : Timestamp) : List Char :=
  let date := timestamp.localDate
  yearText date.year ++ '-' :: (twoDigits date.month ++ '-' :: twoDigits date.day)

/-- The sign of the offset; no offset at all counts as ahead. -/
def offsetSign (timestamp : Timestamp) : Char :=
  if timestamp.offset < 0 then '-' else '+'

def offsetText (timestamp : Timestamp) : List Char :=
  let minutes := timestamp.offset.natAbs / 60
  timestamp.offsetSign :: (twoDigits (minutes / 60) ++ ':' :: twoDigits (minutes % 60))

def minuteText (timestamp : Timestamp) : List Char :=
  let second := timestamp.secondOfDay
  twoDigits (second / 60 % 60) ++ ':' :: twoDigits (second % 60)

def hasInterchangeText (timestamp : Timestamp) : Bool :=
  let year := timestamp.localDate.year
  decide (0 ≤ year ∧ year ≤ 9999) && decide (timestamp.offset.natAbs < 86400)
    && timestamp.offset.natAbs % 60 == 0

/-- The interchange text: date, `T`, time of day, the fraction if there is one, and the offset,
which is `Z` for universal time. -/
def interchangeText (timestamp : Timestamp) : List Char :=
  let fraction := match timestamp.fractionDigits with
    | [] => []
    | digits => '.' :: digits
  let offset := if timestamp.offset = 0 then ['Z'] else timestamp.offsetText
  timestamp.dateText ++ 'T' :: (twoDigits (timestamp.secondOfDay / 3600) ++ ':' ::
    (timestamp.minuteText ++ fraction ++ offset))

/-- The long text: the hour without a leading zero, at least one digit of fraction, and the
offset down to its seconds. -/
def longText (timestamp : Timestamp) : List Char :=
  let fraction := match timestamp.fractionDigits with
    | [] => ['0']
    | digits => digits
  timestamp.dateText ++ ' ' :: (Nat.toDigits 10 (timestamp.secondOfDay / 3600) ++ ':' ::
    (timestamp.minuteText ++ '.' :: (fraction ++ ' ' ::
      (timestamp.offsetText ++ ':' :: twoDigits (timestamp.offset.natAbs % 60)))))

def text (timestamp : Timestamp) : String :=
  String.ofList
    (if timestamp.hasInterchangeText then timestamp.interchangeText else timestamp.longText)

end Timestamp

end RuleCheck
