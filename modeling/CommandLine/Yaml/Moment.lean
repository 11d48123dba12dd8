import CommandLine.Yaml.Error
import CommandLine.Yaml.Kind

/-!
Moments: dates of the Gregorian calendar, perhaps with a time of day, perhaps with an offset from
universal time.
-/

set_option autoImplicit false

namespace CommandLine.Yaml

structure Date where
  year : Nat
  month : Nat
  day : Nat
  deriving DecidableEq, Repr

structure Clock where
  hour : Nat
  minute : Nat
  second : Nat
  microsecond : Nat
  /-- Seconds ahead of universal time. -/
  offset : Option Int
  deriving DecidableEq, Repr

structure Moment where
  date : Date
  clock : Option Clock
  deriving DecidableEq, Repr

/-! ### The calendar -/

def isLeap (year : Nat) : Bool := year % 4 == 0 && (year % 100 != 0 || year % 400 == 0)

def daysIn (year month : Nat) : Nat :=
  if month = 2 then if isLeap year then 29 else 28
  else if month = 4 ∨ month = 6 ∨ month = 9 ∨ month = 11 then 30
  else 31

/-- The part of a date that is out of its range, if one is. -/
def Date.fault? (date : Date) : Option MomentPart :=
  if date.year = 0 then some (.year 0)
  else if date.month < 1 ∨ 12 < date.month then some .month
  else if date.day < 1 ∨ daysIn date.year date.month < date.day then some .day
  else none

/-- A duration of seconds as days and the seconds of the last one. -/
def splitDays (seconds : Int) : Int × Nat := (seconds.fdiv 86400, (seconds.fmod 86400).toNat)

/-- The part of a time of day that is out of its range, if one is. The offset comes first. -/
def Clock.fault? (clock : Clock) : Option MomentPart :=
  let far := clock.offset.filter fun seconds ↦ 86400 ≤ seconds.natAbs
  match far with
  | some seconds => some (.offset (splitDays seconds).1 (splitDays seconds).2)
  | none =>
    if 23 < clock.hour then some .hour
    else if 59 < clock.minute then some .minute
    else if 59 < clock.second then some .second
    else none

/-- What is out of range in a moment. An offset that is too large is noticed before the date. -/
def Moment.fault? (moment : Moment) : Option MomentPart :=
  let time := moment.clock.bind Clock.fault?
  match time with
  | some (.offset days seconds) => some (.offset days seconds)
  | time => moment.date.fault?.or time

/-! ### Reading -/

/-- One or two digits, or any given number of them, and what follows. -/
def digits (least most : Nat) (text : List Char) : Option (Nat × List Char) :=
  let found := (text.take most).takeWhile Char.isDigit
  if found.length < least then none
  else some (found.foldl (fun value c ↦ value * 10 + (c.toNat - 0x30)) 0, text.drop found.length)

/-- The microseconds of a fraction: its first six digits, filled up with zeros. -/
def microseconds (fraction : List Char) : Nat :=
  ((fraction.take 6).foldl (fun value c ↦ value * 10 + (c.toNat - 0x30)) 0) *
    Nat.pow 10 (6 - (fraction.take 6).length)

/-- A space in front of an offset or behind a date. -/
def skipSpace (text : List Char) : List Char := text.dropWhile fun c ↦ c == ' ' || c == '\t'

/-- The offset that is the rest of a text, or none. -/
def offset? (text : List Char) : Option (Option Int) :=
  match skipSpace text with
  | [] => if text.isEmpty then some none else none
  | ['Z'] => some (some 0)
  | sign :: rest =>
    if Kind.isSign sign then do
      let (hours, rest) ← digits 1 2 rest
      let minutes ←
        match rest with
        | [] => some 0
        | ':' :: rest =>
          match digits 2 2 rest with
          | some (minutes, []) => some minutes
          | _ => none
        | _ => none
      let seconds : Int := hours * 3600 + minutes * 60
      return some (if sign = '-' then -seconds else seconds)
    else none

/-- The time of day that is the rest of a text. -/
def clock? (text : List Char) : Option Clock := do
  let (hour, rest) ← digits 1 2 text
  let (minute, rest) ← digits 2 2 (← Kind.behind ':' rest)
  let (second, rest) ← digits 2 2 (← Kind.behind ':' rest)
  let (fraction, rest) :=
    match rest with
    | '.' :: rest => rest.span Char.isDigit
    | rest => ([], rest)
  return ⟨hour, minute, second, microseconds fraction, ← offset? rest⟩

/-- The moment that a text writes, perhaps with parts that are out of range. -/
def moment? (text : List Char) : Option Moment := do
  let (year, rest) ← digits 4 4 text
  let (month, rest) ← digits 1 2 (← Kind.behind '-' rest)
  let (day, rest) ← digits 1 2 (← Kind.behind '-' rest)
  let date : Date := ⟨year, month, day⟩
  match rest with
  | [] => return ⟨date, none⟩
  | c :: time =>
    if c = 'T' ∨ c = 't' then return ⟨date, some (← clock? time)⟩
    else if c = ' ' ∨ c = '\t' then return ⟨date, some (← clock? (skipSpace time))⟩
    else none

/-- The moment that a scalar writes; a line feed at its end does not count. -/
def readMoment (text : List Char) : Except Error Moment :=
  match (moment? text).or (if text.getLast? = some '\n' then moment? text.dropLast else none) with
  | none => .error .noMoment
  | some moment =>
    match moment.fault? with
    | some part => .error (.outOfRange part)
    | none => .ok moment

/-! ### Writing -/

/-- A number in at least `width` digits. -/
def padded (width n : Nat) : String :=
  let digits := Nat.toDigits 10 n
  String.ofList (List.replicate (width - digits.length) '0' ++ digits)

def Date.text (date : Date) : String :=
  padded 4 date.year ++ "-" ++ padded 2 date.month ++ "-" ++ padded 2 date.day

def offsetText (seconds : Int) : String :=
  (if seconds < 0 then "-" else "+") ++ padded 2 (seconds.natAbs / 3600) ++ ":" ++
    padded 2 (seconds.natAbs / 60 % 60)

def Clock.text (clock : Clock) : String :=
  padded 2 clock.hour ++ ":" ++ padded 2 clock.minute ++ ":" ++ padded 2 clock.second ++
    (if clock.microsecond = 0 then "" else "." ++ padded 6 clock.microsecond) ++
    (clock.offset.map offsetText).getD ""

/-- A moment as it is shown by itself. -/
def Moment.text (moment : Moment) : String :=
  moment.date.text ++ (moment.clock.map fun clock ↦ " " ++ clock.text).getD ""

def zoneText (seconds : Int) : String :=
  if seconds = 0 then "datetime.timezone.utc"
  else
    "datetime.timezone(" ++ durationText (splitDays seconds).1 (splitDays seconds).2 ++ ")"

/-- A moment as it is shown inside a list or mapping. Seconds that are zero are left out. -/
def Moment.display (moment : Moment) : String :=
  let date := [moment.date.year, moment.date.month, moment.date.day]
  let shown (numbers : List Nat) := String.intercalate ", " (numbers.map toString)
  match moment.clock with
  | none => "datetime.date(" ++ shown date ++ ")"
  | some clock =>
    let seconds :=
      if clock.microsecond ≠ 0 then [clock.second, clock.microsecond]
      else if clock.second ≠ 0 then [clock.second]
      else []
    "datetime.datetime(" ++ shown (date ++ [clock.hour, clock.minute] ++ seconds) ++
      (clock.offset.map fun seconds ↦ ", tzinfo=" ++ zoneText seconds).getD "" ++ ")"

end CommandLine.Yaml
