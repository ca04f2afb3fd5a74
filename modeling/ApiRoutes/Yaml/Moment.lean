import ApiRoutes.Calendar
import ApiRoutes.Yaml.Fault
/-!
# Days and moments

How a scalar spells a day or a moment (`Moment.ofChars?`), and the value that it spells.
-/
namespace ApiRoutes.Yaml

/-- The parts of a day or moment as they are spelt; they need not fit the calendar. -/
structure Moment where
  year : Nat
  month : Nat
  day : Nat
  /-- Hour, minute and second, when it is a moment. -/
  clock : Option (Nat × Nat × Nat) := none
  /-- The digits after the point. -/
  fraction : List Char := []
  /-- The distance from Universal Time in minutes, when it is said. -/
  zone : Option Int := none

namespace Moment

def number (ds : List Char) : Nat := ds.foldl (fun n d => 10 * n + (d.toNat - 48)) 0

/-- A number of at least `least` and at most `most` digits, and what follows. -/
def digits? (least most : Nat) (cs : List Char) : Option (Nat × List Char) :=
  let ds := (cs.take most).takeWhile Char.isDigit
  if ds.length < least then none else some (number ds, cs.drop ds.length)

def expect? (c : Char) : List Char → Option (List Char)
  | x :: rest => if x = c then some rest else none
  | [] => none

def isSpace (c : Char) : Bool := c == ' ' || c == '\t'

/-- The distance from Universal Time, which ends the text. -/
def zone? (cs : List Char) : Option (Option Int) :=
  match cs.dropWhile isSpace with
  | [] => if cs.isEmpty then some none else none
  | ['Z'] => some (some 0)
  | s :: rest =>
    if s == '+' || s == '-' then do
      let (hours, rest) ← digits? 1 2 rest
      let minutes ← match rest with
        | [] => some 0
        | rest => do
          let (m, rest) ← digits? 2 2 (← expect? ':' rest)
          if rest.isEmpty then some m else none
      let n : Int := hours * 60 + minutes
      some (some (if s == '-' then -n else n))
    else none

/-- The time of day and the distance, which end the text. -/
def clock? (cs : List Char) : Option ((Nat × Nat × Nat) × List Char × Option Int) := do
  let (hour, cs) ← digits? 1 2 cs
  let (minute, cs) ← digits? 2 2 (← expect? ':' cs)
  let (second, cs) ← digits? 2 2 (← expect? ':' cs)
  let (fraction, cs) := match cs with
    | '.' :: cs => (cs.takeWhile Char.isDigit, cs.dropWhile Char.isDigit)
    | cs => ([], cs)
  some ((hour, minute, second), fraction, ← zone? cs)

/-- The parts of a day or moment.  A moment is a day, a `T` or white space, and a time of day; months
and days of a moment need not have two digits. -/
def ofChars? (cs : List Char) : Option Moment := do
  let (year, cs) ← digits? 4 4 cs
  let (month, cs) ← digits? 1 2 (← expect? '-' cs)
  let (day, cs) ← digits? 1 2 (← expect? '-' cs)
  match cs with
  | [] => some { year, month, day }
  | c :: rest =>
    if c == 'T' || c == 't' then
      let (clock, fraction, zone) ← clock? rest
      some { year, month, day, clock := some clock, fraction, zone }
    else if isSpace c then
      let (clock, fraction, zone) ← clock? (rest.dropWhile isSpace)
      some { year, month, day, clock := some clock, fraction, zone }
    else none

/-- Is this the plain spelling of a day or moment?  A day alone has all its digits. -/
def isSpelling (cs : List Char) : Bool :=
  match ofChars? cs with
  | none => false
  | some m => m.clock.isSome || cs.length == 10

/-- Six digits of a fraction, as millionths. -/
def micros (ds : List Char) : Nat := number ((ds ++ List.replicate 6 '0').take 6)

/-- The day or moment, when the calendar has it. -/
def value? (m : Moment) : Option (Date ⊕ DateTime) := do
  let date ← Date.of? m.year m.month m.day
  match m.clock with
  | none => some (.inl date)
  | some (hour, minute, second) =>
    return .inr (← DateTime.of? date hour minute second (micros m.fraction) m.zone)

end Moment

end ApiRoutes.Yaml
