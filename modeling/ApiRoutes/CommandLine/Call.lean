import ApiRoutes.CommandLine.Fault
import ApiRoutes.Disk.Tree
/-!
# Calls

The words that a command is called with, read as its options and the words between them
(`readCall`), and the settings that the options, the environment and the defaults make up
(`settingsOf`).
-/
namespace ApiRoutes.CommandLine

/-! ## Options among words -/

/-- An option as it was given. -/
structure Given where
  option : CommandOption
  /-- The word that it took; a flag stands for one that says yes. -/
  word : Text

def yes : Text := "yes"

/-- What an option takes from the words after it: the option with its word, and whether that is the
first of them. -/
def takeWord (o : CommandOption) (spelling : Text) (attached : Option Text) (rest : List Text) :
    Except Fault (Given × Bool) :=
  match o.kind.takesWord, attached, rest with
  | true, some word, _ => .ok (⟨o, word⟩, false)
  | true, none, word :: _ => .ok (⟨o, word⟩, true)
  | true, none, [] => .error (.wordMissing spelling)
  | false, none, _ => .ok (⟨o, yes⟩, false)
  | false, some _, _ => .error (.wordNotTaken spelling)

def readLong (c : Command) (spelling : Text) (attached : Option Text) (rest : List Text) :
    Except Fault (List Given × Bool) :=
  match c.options.find? fun o => o.long == spelling with
  | none => .error (.unknownOption spelling (similarTo spelling (c.options.map CommandOption.long)))
  | some o => do
    let (given, taken) ← takeWord o spelling attached rest
    return ([given], taken)

def readShort (c : Command) (rest : List Text) : Text → Except Fault (List Given × Bool)
  | [] => .ok ([], false)
  | letter :: more =>
    let spelling := .scalar '-' :: [letter]
    match c.options.find? fun o => o.short.map CodePoint.scalar == some letter with
    | none => .error (.unknownOption spelling [])
    | some o =>
      if o.kind.takesWord then do
        let attached := if more.isEmpty then none else some more
        let (given, taken) ← takeWord o spelling attached rest
        return ([given], taken)
      else do
        let (givens, taken) ← readShort c rest more
        return (⟨o, yes⟩ :: givens, taken)

def givesOptions (word : Text) : Bool := word.startsWith "-" && 1 < word.length

/-- The options that a word gives, and whether the last of them takes the next word. -/
def readOption (c : Command) (word : Text) (rest : List Text) : Except Fault (List Given × Bool) :=
  if word.startsWith "--" then
    let name := Text.before '=' word
    readLong c name (if name == word then none else some (word.drop (name.length + 1))) rest
  else readShort c rest (word.drop 1)

/-- The options among words, and the other words.  Two dashes end the options; in a command that
takes another command, so does the first other word. -/
def readWords (c : Command) : List Text → Except Fault (List Given × List Text)
  | [] => .ok ([], [])
  | word :: rest =>
    if word == "--" then .ok ([], rest)
    else if givesOptions word then do
      let (givens, taken) ← readOption c word rest
      let (more, words) ← readWords c (rest.drop taken.toNat)
      return (givens ++ more, words)
    else if c.commands.isEmpty then do
      let (givens, words) ← readWords c rest
      return (givens, word :: words)
    else .ok ([], word :: rest)
termination_by words => words.length
decreasing_by all_goals simp; try omega

/-! ## Settings -/

/-- The environment: variables and their values. -/
abbrev Environment := List (Text × Text)

def valueIn? (env : Environment) (name : Text) : Option Text :=
  ((env.find? fun e => e.1 == name).map (·.2)).filter (!·.isEmpty)

/-- A setting: an option and its word, in the order in which they are looked at. -/
abbrev Choices := List (CommandOption × Text)

def yesWords : List String := ["1", "on", "t", "true", "y", "yes"]

def noWords : List String := ["", "0", "f", "false", "n", "no", "off"]

def flagWords : Text :=
  Text.joinWith ", " (["", "0", "1", "f", "false", "n", "no", "off", "on", "t", "true", "y", "yes"])

def flagOf? (word : Text) : Option Bool :=
  let word := Text.toLower (Text.trim Text.isSpace word)
  if yesWords.any fun w => word == w then some true
  else if noWords.any fun w => word == w then some false
  else none

/-- Is there a file at a path?  Nothing is, where the path asks for a folder. -/
def namesFile (d : Disk) (word : Text) : Bool :=
  ((Text.splitAt '/' word).getLast?.any Path.leads) &&
    match d.at? (.ofText word) with
    | .ok (some (.file _)) => true
    | _ => false

def reasonAgainst? (d : Disk) (o : CommandOption) (word : Text) : Option Text :=
  match o.kind with
  | .word => none
  | .flag =>
    if (flagOf? word).isSome then none
    else some (word.display ++ " is not a valid boolean. Recognized values: " ++ flagWords)
  | .folder =>
    if namesFile d word then some ("Directory " ++ word.display ++ " is a file.") else none
  | .choice words =>
    if words.any fun w => word == w then none
    else some (word.display ++ " is not one of " ++
      Text.joinWith ", " (words.map fun w => (Text.ofString w).display) ++ ".")

/-- The options of a command in the order in which they are looked at: those that show something
first, and of each sort the given ones first. -/
def inOrder (c : Command) (givens : List Given) : List CommandOption :=
  let given := (givens.map (·.option)).eraseDups
  let all := given ++ c.options.filter fun o => !given.contains o
  all.filter CommandOption.isUrgent ++ all.filter fun o => !o.isUrgent

/-- The word of an option: the last one given, or else that of the environment. -/
def wordOf? (env : Environment) (c : Command) (givens : List Given) (o : CommandOption) :
    Option Text :=
  ((givens.reverse.find? fun g => g.option == o).map (·.word)).or
    (valueIn? env (o.variableName c.environmentLead))

/-- What a call comes to: settings, or something to show instead. -/
inductive Request where
  | settings (choices : Choices)
  | help
  | version

/-- The settings of options, in their order. -/
def chooseFrom (env : Environment) (d : Disk) (c : Command) (givens : List Given) :
    List CommandOption → Choices → Except Fault Request
  | [], choices => .ok (.settings choices)
  | o :: rest, choices =>
    match wordOf? env c givens o with
    | none =>
      if o.isRequired then .error (.optionMissing o)
      else chooseFrom env d c givens rest choices
    | some word =>
      match reasonAgainst? d o word with
      | some reason => .error (.badWord o reason)
      | none =>
        match o.role, flagOf? word with
        | .help, some true => .ok .help
        | .version, some true => .ok .version
        | _, _ => chooseFrom env d c givens rest (choices ++ [(o, word)])

/-- What a call comes to, and the words that are no options. -/
def readCall (env : Environment) (d : Disk) (c : Command) (words : List Text) :
    Except Fault (Request × List Text) := do
  let (givens, others) ← readWords c words
  return (← chooseFrom env d c givens (inOrder c givens) [], others)

def Choices.word? (choices : Choices) (name : String) : Option Text :=
  (choices.find? fun e => e.1.name == name).map (·.2)

def Choices.isSet (choices : Choices) (name : String) : Bool :=
  (choices.word? name).bind flagOf? == some true

end ApiRoutes.CommandLine
