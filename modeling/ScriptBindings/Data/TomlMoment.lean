import ScriptBindings.Data.TomlNumber

/-! Dates and times of a TOML text. Every date is one of the calendar. As
data a moment is a record with a key that is reserved for moments, and its
text in one spelling: a `T` before the time, a `Z` for no offset, and no
idle fraction. -/
namespace ScriptBindings.Toml

structure Date where
  year : Nat
  month : Nat
  day : Nat
  deriving DecidableEq, Repr

structure Clock where
  hour : Nat
  minute : Nat
  second : Nat
  nanosecond : Nat
  deriving DecidableEq, Repr

/-- How far a clock is from universal time. -/
inductive Zone where
  | utc
  | offset (minutes : Int)
  deriving DecidableEq, Repr

inductive Moment where
  | date (date : Date)
  | clock (clock : Clock)
  | dated (date : Date) (clock : Clock) (zone : Option Zone)
  deriving DecidableEq, Repr

def isLeapYear (year : Nat) : Bool :=
  year % 4 == 0 && (year % 100 != 0 || year % 400 == 0)

def monthLength (year month : Nat) : Nat :=
  if month == 2 then if isLeapYear year then 29 else 28
  else if month == 4 || month == 6 || month == 9 || month == 11 then 30
  else 31

/-- The number that exactly `count` digits write, and what follows them. -/
def fixedDigits? (count : Nat) (text : List Char) : Option (Nat × List Char) :=
  let digits := text.take count
  if digits.length == count && digits.all Char.isDigit then
    some (digitsValue 10 digits, text.drop count)
  else none

/-- A number of two digits within bounds. -/
def twoDigits? (least most : Nat) (text : List Char) : Option (Nat × List Char) := do
  let (value, rest) ← fixedDigits? 2 text
  guard (least ≤ value && value ≤ most)
  return (value, rest)

def afterChar? (c : Char) : List Char → Option (List Char)
  | d :: rest => if d == c then some rest else none
  | [] => none

def date? (text : List Char) : Option (Date × List Char) := do
  let (year, rest) ← fixedDigits? 4 text
  let (month, rest) ← twoDigits? 1 12 (← afterChar? '-' rest)
  let (day, rest) ← twoDigits? 1 (monthLength year month) (← afterChar? '-' rest)
  return (⟨year, month, day⟩, rest)

/-- The nanoseconds behind the seconds. Digits after the ninth are of no
account. -/
def nanoseconds : List Char → Nat × List Char
  | '.' :: rest =>
      match rest.takeWhile Char.isDigit with
      | [] => (0, '.' :: rest)
      | digits =>
          (digitsValue 10 ((digits ++ List.replicate 9 '0').take 9), rest.dropWhile Char.isDigit)
  | text => (0, text)

/-- A minute may have a second more. -/
def clock? (text : List Char) : Option (Clock × List Char) := do
  let (hour, rest) ← twoDigits? 0 23 text
  let (minute, rest) ← twoDigits? 0 59 (← afterChar? ':' rest)
  let (second, rest) ← twoDigits? 0 60 (← afterChar? ':' rest)
  let (nanosecond, rest) := nanoseconds rest
  return (⟨hour, minute, second, nanosecond⟩, rest)

def zone? : List Char → Option (Zone × List Char)
  | c :: rest =>
      if c == 'Z' || c == 'z' then some (.utc, rest)
      else if c == '+' || c == '-' then do
        let (hours, rest) ← twoDigits? 0 23 rest
        let (minutes, rest) ← twoDigits? 0 59 (← afterChar? ':' rest)
        let size : Int := (60 * hours + minutes : Nat)
        return (.offset (if c == '-' then -size else size), rest)
      else none
  | [] => none

/-- What may stand between a date and a time. -/
def isDelimiter (c : Char) : Bool :=
  c == 'T' || c == 't' || c == ' '

/-- The time of a date, if one follows. -/
def datedClock? : List Char → Option (Clock × Option Zone × List Char)
  | c :: rest => do
      guard (isDelimiter c)
      let (clock, rest) ← clock? rest
      match zone? rest with
      | some (zone, rest) => return (clock, some zone, rest)
      | none => return (clock, none, rest)
  | [] => none

def moment? (text : List Char) : Option (Moment × List Char) :=
  match date? text with
  | some (date, rest) =>
      match datedClock? rest with
      | some (clock, zone, rest) => some (.dated date clock zone, rest)
      | none => some (.date date, rest)
  | none => (clock? text).map fun (clock, rest) => (.clock clock, rest)

/-- A number with zeros in front of it, up to a width. -/
def padded (width value : Nat) : String :=
  let digits := Nat.toDigits 10 value
  String.ofList (List.replicate (width - digits.length) '0' ++ digits)

def Date.text (d : Date) : String :=
  padded 4 d.year ++ "-" ++ padded 2 d.month ++ "-" ++ padded 2 d.day

def Clock.fraction (c : Clock) : String :=
  if c.nanosecond == 0 then ""
  else
    let digits := (padded 9 c.nanosecond).toList
    "." ++ String.ofList (digits.reverse.dropWhile (· == '0')).reverse

def Clock.text (c : Clock) : String :=
  padded 2 c.hour ++ ":" ++ padded 2 c.minute ++ ":" ++ padded 2 c.second ++ c.fraction

def Zone.text : Zone → String
  | .utc => "Z"
  | .offset minutes =>
      (if minutes < 0 then "-" else "+") ++ padded 2 (minutes.natAbs / 60) ++ ":" ++
        padded 2 (minutes.natAbs % 60)

def Moment.text : Moment → String
  | .date d => d.text
  | .clock c => c.text
  | .dated d c none => d.text ++ "T" ++ c.text
  | .dated d c (some zone) => d.text ++ "T" ++ c.text ++ zone.text

/-- The key that is reserved for moments. -/
def momentKey : String :=
  "$__toml_private_datetime"

def Moment.toData (moment : Moment) : Data :=
  .record [(momentKey, .text moment.text)]

end ScriptBindings.Toml
