import SparqlModel.CommandLine.Suggestion
import SparqlModel.Text.Split

/-!
# Options and arguments

Options start with hyphens. The value of an option is the next argument, or stands after an equals
sign, or directly after the letter of a short option. Two hyphens alone end the options. For an
unknown long option or command the names close to it are suggested.
-/

namespace SparqlModel.CommandLine

inductive UsageError
  | missingCommand
  | unknownCommand (name : String) (suggested : List String)
  | unknownOption (name : String) (suggested : List String)
  | optionNeedsValue (name : String)
  | optionTakesNoValue (name : String)
  | missingDirectory
  | directoryNotFound (path : String)
  | directoryIsFile (path : String)
  | notInteger (option text : String)
  | belowRange (option : String) (number : Int)
  | extraArguments (arguments : List String)
  | badParameter (text : String)

def UsageError.message : UsageError → String
  | missingCommand => "Missing command."
  | unknownCommand name suggested =>
    "No such command " ++ Text.quoted name ++ "." ++ suggestionText suggested
  | unknownOption name suggested =>
    "No such option " ++ Text.quoted name ++ "." ++ suggestionText suggested
  | optionNeedsValue name => "Option " ++ Text.quoted name ++ " requires an argument."
  | optionTakesNoValue name => "Option " ++ Text.quoted name ++ " does not take a value."
  | missingDirectory => "Missing argument 'CONFIG_DIR'."
  | directoryNotFound path =>
    "Invalid value for 'CONFIG_DIR': Directory " ++ Text.quoted path ++ " does not exist."
  | directoryIsFile path =>
    "Invalid value for 'CONFIG_DIR': Directory " ++ Text.quoted path ++ " is a file."
  | notInteger option text =>
    "Invalid value for '" ++ option ++ "': " ++ Text.quoted text
      ++ " is not a valid integer range."
  | belowRange option number =>
    "Invalid value for '" ++ option ++ "': " ++ toString number ++ " is not in the range x>=0."
  | extraArguments [argument] => "Got unexpected extra argument (" ++ argument ++ ")"
  | extraArguments arguments =>
    "Got unexpected extra arguments (" ++ " ".intercalate arguments ++ ")"
  | badParameter text =>
    "Invalid value for --param: expected NAME=VALUE, got '" ++ text ++ "'"

/-- An option by its long name, with its short letter and whether it takes a value. -/
structure OptionSpec where
  long : String
  short : Option Char
  takesValue : Bool

/-- An option as it was given; a flag has no value. -/
structure Given where
  option : String
  value : Option String

/-- The given options in order, and the arguments. -/
structure Parsed where
  given : List Given
  arguments : List String

def findLong? (specs : List OptionSpec) (name : String) : Option OptionSpec :=
  specs.find? fun s => s.long == name

def findShort? (specs : List OptionSpec) (letter : Char) : Option OptionSpec :=
  specs.find? fun s => s.short == some letter

/-- The long names that may be meant by an unknown one. Every command has a help option, too. -/
def longNames (specs : List OptionSpec) : List String :=
  specs.map (·.long) ++ ["--help"]

/-- The text before the first equals sign, and the text after it if there is one. -/
def splitEquals (s : String) : String × Option String :=
  let name := s.toList.takeWhile (· != '=')
  match s.toList.dropWhile (· != '=') with
  | _ :: value => (String.ofList name, some (String.ofList value))
  | [] => (s, none)

/-- The letters of a short option argument. An option that takes a value uses up the other
letters, or the next argument. -/
def shortOptions (specs : List OptionSpec) :
    List Char → List String → Except UsageError (List Given × List String)
  | [], rest => .ok ([], rest)
  | letter :: letters, rest =>
    match findShort? specs letter with
    | none => .error (.unknownOption (String.ofList ['-', letter]) [])
    | some spec =>
      if spec.takesValue then
        match letters, rest with
        | [], [] => .error (.optionNeedsValue (String.ofList ['-', letter]))
        | [], value :: rest => .ok ([⟨spec.long, some value⟩], rest)
        | letters, rest => .ok ([⟨spec.long, some (String.ofList letters)⟩], rest)
      else do
        let (given, rest) ← shortOptions specs letters rest
        return (⟨spec.long, none⟩ :: given, rest)

def readOption (specs : List OptionSpec) (argument : String) (rest : List String) :
    Except UsageError (List Given × List String) :=
  let (name, value) := splitEquals argument
  match findLong? specs name with
  | some spec =>
    if spec.takesValue then
      match value, rest with
      | some value, rest => .ok ([⟨spec.long, some value⟩], rest)
      | none, value :: rest => .ok ([⟨spec.long, some value⟩], rest)
      | none, [] => .error (.optionNeedsValue name)
    else if value.isSome then .error (.optionTakesNoValue name)
    else .ok ([⟨spec.long, none⟩], rest)
  | none =>
    if argument.startsWith "--" then
      .error (.unknownOption name (suggestions name (longNames specs)))
    else shortOptions specs argument.toList.tail rest

/-- A hyphen alone is an argument. -/
def isOption (argument : String) : Bool :=
  argument.startsWith "-" && argument != "-"

/-- Read options and arguments. If they are not mixed, the first argument ends the options. The
bound is the number of arguments. -/
def parseArguments (specs : List OptionSpec) (isMixed : Bool) :
    Nat → List String → Except UsageError Parsed
  | 0, arguments => .ok ⟨[], arguments⟩
  | _ + 1, [] => .ok ⟨[], []⟩
  | fuel + 1, argument :: rest =>
    if argument == "--" then .ok ⟨[], rest⟩
    else if isOption argument then do
      let (given, rest) ← readOption specs argument rest
      let parsed ← parseArguments specs isMixed fuel rest
      return { parsed with given := given ++ parsed.given }
    else if isMixed then do
      let parsed ← parseArguments specs isMixed fuel rest
      return { parsed with arguments := argument :: parsed.arguments }
    else .ok ⟨[], argument :: rest⟩

def parse (specs : List OptionSpec) (isMixed : Bool) (arguments : List String) :
    Except UsageError Parsed :=
  parseArguments specs isMixed arguments.length arguments

namespace Parsed

def has (p : Parsed) (option : String) : Bool :=
  p.given.any fun g => g.option == option

def values (p : Parsed) (option : String) : List String :=
  (p.given.filter fun g => g.option == option).filterMap (·.value)

def value? (p : Parsed) (option : String) : Option String :=
  (p.values option).getLast?

end Parsed

end SparqlModel.CommandLine
