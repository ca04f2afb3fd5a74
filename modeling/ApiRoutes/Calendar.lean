import ApiRoutes.Text
/-!
# Dates and times

Days of the common calendar, in years 1 to 9999, and moments with an optional distance from
Universal Time.
-/
namespace ApiRoutes

def isLeapYear (year : Nat) : Bool := year % 4 == 0 && (year % 100 != 0 || year % 400 == 0)

def daysInMonth (year month : Nat) : Nat :=
  match month with
  | 2 => if isLeapYear year then 29 else 28
  | 4 | 6 | 9 | 11 => 30
  | _ => 31

def IsDay (year month day : Nat) : Prop :=
  1 ≤ year ∧ year ≤ 9999 ∧ 1 ≤ month ∧ month ≤ 12 ∧ 1 ≤ day ∧ day ≤ daysInMonth year month

instance (year month day : Nat) : Decidable (IsDay year month day) := by
  unfold IsDay; infer_instance

/-- A day of the calendar. -/
structure Date where
  year : Nat
  month : Nat
  day : Nat
  ok : IsDay year month day
  deriving DecidableEq

namespace Date

instance : Inhabited Date := ⟨⟨1, 1, 1, by decide⟩⟩

/-- The day of a year, month and day, when there is one. -/
def of? (year month day : Nat) : Option Date :=
  if h : IsDay year month day then some ⟨year, month, day, h⟩ else none

def ordinal (d : Date) : Nat :=
  let y := d.year - 1
  365 * y + y / 4 - y / 100 + y / 400 +
    (List.range (d.month - 1)).foldl (fun n m => n + daysInMonth d.year (m + 1)) 0 + d.day

/-- A day as `2021-02-03`. -/
def isoText (d : Date) : Text :=
  Text.decimal 4 d.year ++ "-" ++ Text.decimal 2 d.month ++ "-" ++ Text.decimal 2 d.day

end Date

def IsClock (hour minute second microsecond : Nat) (offset : Option Int) : Prop :=
  hour < 24 ∧ minute < 60 ∧ second < 60 ∧ microsecond < 1000000 ∧
    (offset.getD 0).natAbs < 24 * 60

instance (h m s u : Nat) (o : Option Int) : Decidable (IsClock h m s u o) := by
  unfold IsClock; infer_instance

/-- A moment: a day and a time on the clock, whose distance from Universal Time may be known. -/
structure DateTime where
  date : Date
  hour : Nat
  minute : Nat
  second : Nat
  microsecond : Nat
  /-- Minutes ahead of Universal Time. -/
  offset : Option Int
  ok : IsClock hour minute second microsecond offset
  deriving DecidableEq

namespace DateTime

instance : Inhabited DateTime := ⟨⟨default, 0, 0, 0, 0, none, by decide⟩⟩

/-- The moment with these parts, when they are within their bounds. -/
def of? (date : Date) (hour minute second microsecond : Nat) (offset : Option Int) :
    Option DateTime :=
  if h : IsClock hour minute second microsecond offset then
    some ⟨date, hour, minute, second, microsecond, offset, h⟩
  else none

/-- Microseconds from the start of the calendar, in Universal Time when the distance is known. -/
def instant (d : DateTime) : Int :=
  let seconds : Int := ((d.date.ordinal * 24 + d.hour) * 60 + d.minute) * 60 + d.second
  (seconds - d.offset.getD 0 * 60) * 1000000 + d.microsecond

/-- Two moments are the same when they are the same instant, or show the same clock and neither
distance is known. -/
def sameInstant (a b : DateTime) : Bool :=
  a.offset.isSome == b.offset.isSome && a.instant == b.instant

/-- A distance from Universal Time as `+02:00`. -/
def offsetText (offset : Int) : Text :=
  (if offset < 0 then "-" else "+") ++ Text.decimal 2 (offset.natAbs / 60) ++
    ":" ++ Text.decimal 2 (offset.natAbs % 60)

/-- The clock as `04:05:06`, with a fraction of six digits unless it is zero. -/
def clockText (d : DateTime) : Text :=
  Text.decimal 2 d.hour ++ ":" ++ Text.decimal 2 d.minute ++ ":" ++ Text.decimal 2 d.second ++
    ((if d.microsecond = 0 then [] else "." ++ Text.decimal 6 d.microsecond) : Text)

/-- A moment with `separator` between day and clock. -/
def isoText (d : DateTime) (separator : Char) : Text :=
  d.date.isoText ++ [.scalar separator] ++ d.clockText ++ (d.offset.map offsetText).getD []

/-- A moment as interchange formats write it: Universal Time is `Z`. -/
def interchangeText (d : DateTime) : Text :=
  if d.offset = some 0 then d.date.isoText ++ "T" ++ d.clockText ++ "Z" else d.isoText 'T'

end DateTime

end ApiRoutes
