import ApiRoutes.CommandLine.Option
/-!
# Help

How a command is used and what its options are, in lines of at most 78 code points.
-/
namespace ApiRoutes.CommandLine

def lineWidth : Nat := 78

def columnLimit : Nat := 30

/-! ## Layout -/

/-- Words in lines: the line in the making, and the words that follow it.  A word goes onto the next
line where it would make the line longer than `width`. -/
def fillFrom (width : Nat) (line : Text) : List Text → List Text
  | [] => [line]
  | word :: rest =>
    if line.length + 1 + word.length ≤ width then fillFrom width (line ++ " " ++ word) rest
    else line :: fillFrom width word rest

/-- A text in lines of at most `width` code points. -/
def fill (width : Nat) (t : Text) : List Text :=
  match Text.splitAt ' ' t with
  | [] => []
  | word :: rest => fillFrom width word rest

/-- A text as a paragraph, two blanks in. -/
def paragraph (t : Text) : Text :=
  (fill (lineWidth - 2) t).flatMap fun line => "  " ++ line ++ "\n"

/-- A row of a table whose first column takes `column` code points.  A first cell that is wider has
a line of its own. -/
def row (column : Nat) (first second : Text) : Text :=
  let gap : Text :=
    if first.length + 2 ≤ column then Text.blanks (column - first.length)
    else "\n" ++ Text.blanks (column + 2)
  "  " ++ first ++ gap ++
    Text.joinWith ("\n" ++ Text.blanks (column + 2)) (fill (lineWidth - column - 2) second) ++ "\n"

def table (heading : Text) (rows : List (Text × Text)) : Text :=
  let widest := rows.foldl (fun n r => max n r.1.length) 0
  let column := min widest columnLimit + 2
  "\n" ++ heading ++ ":\n" ++ rows.flatMap fun r => row column r.1 r.2

/-! ## Commands -/

def CommandOption.form (o : CommandOption) : Text :=
  let spellings := Text.joinWith ", " o.spellings
  if o.kind.takesWord then spellings ++ " " ++ o.kind.placeholder else spellings

def CommandOption.purpose (o : CommandOption) : Text :=
  if o.isRequired then o.help ++ "  [required]" else o.help

def Command.usage (c : Command) : Text :=
  "Usage: " ++ c.call ++ (if c.commands.isEmpty then " [OPTIONS]" else " [OPTIONS] COMMAND [ARGS]...")

def Command.helpText (c : Command) : Text :=
  let commands : Text :=
    if c.commands.isEmpty then []
    else table "Commands" (c.commands.map fun e => (Text.ofString e.1, Text.ofString e.2))
  c.usage ++ "\n\n" ++ paragraph c.help ++
    table "Options" (c.options.map fun o => (o.form, o.purpose)) ++ commands

end ApiRoutes.CommandLine
