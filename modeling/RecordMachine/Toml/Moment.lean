import RecordMachine.Decimal.Integer

/-!
# Dates and times

The dates and times of a TOML document: a day of the calendar, a time of the day, or both, and then
perhaps how far the clock is ahead of universal time. Days follow the Gregorian calendar through all
years from 0 to 9999, and any minute may have a leap second.
-/

namespace RecordMachine.Toml

structure Date where
  year : Nat
  month : Nat
  day : Nat
deriving DecidableEq, Inhabited

structure Time where
  hour : Nat
  minute : Nat
  second : Nat
  nanosecond : Nat
deriving DecidableEq, Inhabited

/-- A date, a time, or both; the offset is in minutes. -/
inductive Moment where
  | date (date : Date)
  | time (time : Time)
  | dateTime (date : Date) (time : Time) (offset : Option Int)
deriving DecidableEq, Inhabited

def isLeapYear (year : Nat) : Bool :=
  year % 4 == 0 && (year % 100 != 0 || year % 400 == 0)

def daysOfMonth (year month : Nat) : Nat :=
  match month with
  | 2 => if isLeapYear year then 29 else 28
  | 4 | 6 | 9 | 11 => 30
  | _ => 31

/-! ## Reading -/

/-- What follows a character, if it is in front. -/
def skipChar? (c : Char) : List Char → Option (List Char)
  | d :: rest => if d = c then some rest else none
  | [] => none

/-- Reads a number of a fixed count of digits that lies between two bounds. -/
def readField (count least greatest : Nat) (text : List Char) : Option (Nat × List Char) := do
  let digits := text.take count
  let n ← Decimal.natOfDigits? digits
  if digits.length = count ∧ least ≤ n ∧ n ≤ greatest then some (n, text.drop count) else none

def readDate (text : List Char) : Option (Date × List Char) := do
  let (year, rest) ← readField 4 0 9999 text
  let (month, rest) ← readField 2 1 12 (← skipChar? '-' rest)
  let (day, rest) ← readField 2 1 (daysOfMonth year month) (← skipChar? '-' rest)
  return (⟨year, month, day⟩, rest)

def readClock (text : List Char) : Option (Nat × Nat × List Char) := do
  let (hour, rest) ← readField 2 0 23 text
  let (minute, rest) ← readField 2 0 59 (← skipChar? ':' rest)
  return (hour, minute, rest)

/-- Reads a fraction of a second, if there is one, in nanoseconds. Further digits are dropped. -/
def readNanoseconds : List Char → Nat × List Char
  | '.' :: rest =>
    match rest.span Char.isDigit with
    | ([], _) => (0, '.' :: rest)
    | (digits, rest) => (Nat.ofDigitChars 10 ((digits ++ List.replicate 9 '0').take 9) 0, rest)
  | text => (0, text)

def readTime (text : List Char) : Option (Time × List Char) := do
  let (hour, minute, rest) ← readClock text
  let (second, rest) ← readField 2 0 60 (← skipChar? ':' rest)
  let (nanosecond, rest) := readNanoseconds rest
  return (⟨hour, minute, second, nanosecond⟩, rest)

def readOffset : List Char → Option Int × List Char
  | [] => (none, [])
  | c :: rest =>
    if c = 'Z' ∨ c = 'z' then (some 0, rest)
    else if c = '+' ∨ c = '-' then
      match readClock rest with
      | some (hour, minute, rest) =>
        let minutes : Int := hour * 60 + minute
        (some (if c = '-' then -minutes else minutes), rest)
      | none => (none, c :: rest)
    else (none, c :: rest)

/-- Reads the time that follows a date, if one does: after the letter T or one blank. -/
def readTimeOfDate : List Char → Option (Time × List Char)
  | c :: rest => if c = 'T' ∨ c = 't' ∨ c = ' ' then readTime rest else none
  | [] => none

/-- Reads a date, a time, or both. -/
def readMoment (text : List Char) : Option (Moment × List Char) :=
  match readDate text with
  | some (date, rest) =>
    match readTimeOfDate rest with
    | some (time, rest) =>
      let (offset, rest) := readOffset rest
      some (.dateTime date time offset, rest)
    | none => some (.date date, rest)
  | none => (readTime text).map fun (time, rest) => (.time time, rest)

end RecordMachine.Toml
