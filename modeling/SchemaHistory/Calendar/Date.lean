import SchemaHistory.Text.Digit

/-!
# Dates and times of day

Dates of the Gregorian calendar, extended to the years -262143 to 262142, times of day down to the
nanosecond, and pairs of both without a time zone. A minute may have a leap second, numbered 60.
The text forms are those of ISO 8601: a year outside 0 to 9999 carries a sign, and a fraction has
three, six or nine digits, as few as hold it, or is left out when it is zero.
-/

namespace SchemaHistory

def isLeapYear (year : Int) : Bool := year % 4 == 0 && (year % 100 != 0 || year % 400 == 0)

def daysInMonth (year : Int) (month : Nat) : Nat :=
  if month = 2 then if isLeapYear year then 29 else 28
  else if month = 4 ∨ month = 6 ∨ month = 9 ∨ month = 11 then 30
  else 31

structure Date where
  year : Int
  month : Nat
  day : Nat
  year_mem : -262143 ≤ year ∧ year ≤ 262142
  month_mem : 1 ≤ month ∧ month ≤ 12
  day_mem : 1 ≤ day ∧ day ≤ daysInMonth year month
deriving DecidableEq

def Date.of? (year : Int) (month day : Nat) : Option Date :=
  if hy : -262143 ≤ year ∧ year ≤ 262142 then
    if hm : 1 ≤ month ∧ month ≤ 12 then
      if hd : 1 ≤ day ∧ day ≤ daysInMonth year month then
        some ⟨year, month, day, hy, hm, hd⟩
      else none
    else none
  else none

/-- A time of day. Second 60 is a leap second. -/
structure Time where
  hour : Nat
  minute : Nat
  second : Nat
  nanosecond : Nat
  hour_lt : hour < 24
  minute_lt : minute < 60
  second_le : second ≤ 60
  nanosecond_lt : nanosecond < 1000000000
deriving DecidableEq

def Time.of? (hour minute second nanosecond : Nat) : Option Time :=
  if hh : hour < 24 then
    if hm : minute < 60 then
      if hs : second ≤ 60 then
        if hn : nanosecond < 1000000000 then
          some ⟨hour, minute, second, nanosecond, hh, hm, hs, hn⟩
        else none
      else none
    else none
  else none

def Time.midnight : Time := ⟨0, 0, 0, 0, by decide, by decide, by decide, by decide⟩

def Time.wholeSeconds (time : Time) : Time :=
  { time with nanosecond := 0, nanosecond_lt := midnight.nanosecond_lt }

structure DateTime where
  date : Date
  time : Time
deriving DecidableEq

/-- A number with zeros in front up to a given width. -/
def paddedNumber (width n : Nat) : List Char := Text.zeroPadded width (Text.digitsOfNumber n)

/-- A year with at least four digits, and a sign if it is outside 0 to 9999. -/
def yearText (year : Int) : List Char :=
  let sign := if year < 0 then ['-'] else if 9999 < year then ['+'] else []
  sign ++ paddedNumber 4 year.natAbs

def Date.text (date : Date) : List Char :=
  yearText date.year ++ '-' :: paddedNumber 2 date.month ++ '-' :: paddedNumber 2 date.day

/-- The fraction of a second with its point, or nothing. -/
def fractionText (nanosecond : Nat) : List Char :=
  if nanosecond = 0 then []
  else if nanosecond % 1000000 = 0 then '.' :: paddedNumber 3 (nanosecond / 1000000)
  else if nanosecond % 1000 = 0 then '.' :: paddedNumber 6 (nanosecond / 1000)
  else '.' :: paddedNumber 9 nanosecond

def Time.text (time : Time) : List Char :=
  paddedNumber 2 time.hour ++ ':' :: paddedNumber 2 time.minute ++ ':' ::
    paddedNumber 2 time.second ++ fractionText time.nanosecond

/-- The text of a date and a time, with the given character between them. -/
def DateTime.text (separator : Char) (moment : DateTime) : List Char :=
  moment.date.text ++ separator :: moment.time.text

end SchemaHistory
