import ApiRoutes.CommandLine.Help
import ApiRoutes.Text.Difference
import ApiRoutes.Text.Display
/-!
# Wrong calls

What can be wrong with the words that a command is called with.
-/
namespace ApiRoutes.CommandLine

/-- What is wrong with a call. -/
inductive Fault where
  | unknownOption (name : Text) (similar : List Text)
  | wordMissing (name : Text)
  | wordNotTaken (name : Text)
  | optionMissing (option : CommandOption)
  | badWord (option : CommandOption) (reason : Text)
  | extraWords (words : List Text)
  | commandMissing
  | unknownCommand (name : Text)

/-- The spellings that are meant instead, perhaps. -/
def hint : List Text → Text
  | [] => []
  | [name] => " Did you mean " ++ name ++ "?"
  | names => " (Possible options: " ++ Text.joinWith ", " names ++ ")"

def Fault.message : Fault → Text
  | .unknownOption name similar => "No such option: " ++ name ++ hint similar
  | .wordMissing name => "Option " ++ name.display ++ " requires an argument."
  | .wordNotTaken name => "Option " ++ name.display ++ " does not take a value."
  | .optionMissing o => "Missing option " ++ o.shown ++ "."
  | .badWord o reason => "Invalid value for " ++ o.shown ++ ": " ++ reason
  | .extraWords [word] => "Got unexpected extra argument (" ++ word ++ ")"
  | .extraWords words => "Got unexpected extra arguments (" ++ Text.joinWith " " words ++ ")"
  | .commandMissing => "Missing command."
  | .unknownCommand name => "No such command " ++ name.display ++ "."

def Command.complaint (c : Command) (f : Fault) : Text :=
  c.usage ++ "\nTry '" ++ c.call ++ " --help' for help.\n\nError: " ++ f.message ++ "\n"

/-! ## Similar spellings -/

/-- How many items two lists have in common. -/
def shared (a b : Text) : Nat :=
  (difference a b).foldl (fun n piece => match piece with
    | .same items => n + items.length
    | .changed _ _ => n) 0

/-- Have the texts at least three fifths of their code points in common? -/
def isSimilar (a b : Text) : Bool := 3 * (a.length + b.length) ≤ 10 * shared a b

/-- Is the first text closer to `t` than the second?  Of two that are equally close, the later one in
the alphabet counts as closer. -/
def isCloser (t a b : Text) : Bool :=
  let left := shared a t * (b.length + t.length)
  let right := shared b t * (a.length + t.length)
  right < left || (left == right && compareLex b a == .lt)
where
  /-- Compares two texts, code point by code point. -/
  compareLex : Text → Text → Ordering
    | [], [] => .eq
    | [], _ :: _ => .lt
    | _ :: _, [] => .gt
    | x :: xs, y :: ys => (compare x.val y.val).then (compareLex xs ys)

/-- The three texts of a list that are closest to `t`, of those that are similar, in alphabetical
order. -/
def similarTo (t : Text) (names : List Text) : List Text :=
  let closest := ((names.filter (isSimilar · t)).mergeSort (isCloser t)).take 3
  closest.mergeSort fun a b => isCloser.compareLex a b != .gt

end ApiRoutes.CommandLine
