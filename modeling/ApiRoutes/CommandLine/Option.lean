import ApiRoutes.Text
/-!
# Commands and their options

A command has options, each with a long spelling (`--dry-run`) and perhaps a short one (`-v`).  Some
options stand alone, others take a word.
-/
namespace ApiRoutes.CommandLine

/-- What an option takes. -/
inductive Kind where
  /-- Nothing: it is there or not. -/
  | flag
  | word
  /-- A path that no file has. -/
  | folder
  /-- One of some words. -/
  | choice (words : List String)
  deriving DecidableEq

def Kind.takesWord : Kind → Bool
  | .flag => false
  | _ => true

def Kind.placeholder : Kind → Text
  | .flag => []
  | .word => "TEXT"
  | .folder => "DIRECTORY"
  | .choice words => "[" ++ Text.joinWith "|" (words.map Text.ofString) ++ "]"

/-- What an option does to the command. -/
inductive Role where
  /-- It is a setting of the command. -/
  | setting
  /-- It shows the help of the command instead. -/
  | help
  /-- It shows the version of the program instead. -/
  | version
  deriving DecidableEq

/-- An option of a command. -/
structure CommandOption where
  /-- The long spelling, without its dashes. -/
  name : String
  short : Option Char := none
  kind : Kind := .flag
  isRequired : Bool := false
  role : Role := .setting
  help : String
  deriving DecidableEq

namespace CommandOption

def long (o : CommandOption) : Text := "--" ++ o.name

/-- The spellings, the short one first. -/
def spellings (o : CommandOption) : List Text :=
  (o.short.map fun c => Text.ofChars ['-', c]).toList ++ [o.long]

def shown (o : CommandOption) : Text := Text.joinWith " / " (o.spellings.map fun s => "'" ++ s ++ "'")

/-- The variable of the environment that stands for an option of a command. -/
def variableName (lead : Text) (o : CommandOption) : Text :=
  lead ++ "_" ++ Text.toUpper (Text.replace "-" "_" o.name)

def isUrgent (o : CommandOption) : Bool := o.role ≠ .setting

end CommandOption

def helpOption : CommandOption where
  name := "help"
  role := .help
  help := "Show this message and exit."

/-- A command. -/
structure Command where
  /-- The words that call the command. -/
  call : String
  /-- The start of the variables of the environment that stand for its options. -/
  environmentLead : String
  /-- What the command does. -/
  help : String
  options : List CommandOption
  /-- The commands that the first word other than an option names, with what they do. -/
  commands : List (String × String) := []

end ApiRoutes.CommandLine
