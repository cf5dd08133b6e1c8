import SparqlModel.CommandLine.Arguments
import SparqlModel.Config.Session
import SparqlModel.Config.Tree
import SparqlModel.Query.Basic
import SparqlModel.Settings
import SparqlModel.Text.Control

/-!
# Commands

The command `sparql` prints the query for a configuration directory, and `validate` reports the
problems of its model. Warnings go to the error output, with the option `--verbose` all events. What
the commands print has no control sequences; the lines of events are written as they are.
-/

namespace SparqlModel.CommandLine

/-- How a run ends: with a version, a usage error, output, or an error of the configuration. -/
inductive Result
  | usage (error : UsageError)
  | printed (output log : String)
  | aborted (log : String)
  | malformed
  | failed (error : Config.Error) (log : String)

def versionText : String := "main, version 0.3.0\n"

def mainOptions : List OptionSpec :=
  [⟨"--version", none, false⟩, ⟨"--verbose", some 'v', false⟩]

def queryOptions : List OptionSpec :=
  [⟨"--query", some 'q', true⟩, ⟨"--variable", none, true⟩, ⟨"--param", none, true⟩,
    ⟨"--template", none, false⟩, ⟨"--no-values", none, false⟩, ⟨"--indent", none, true⟩,
    ⟨"--limit", none, true⟩, ⟨"--where-only", none, false⟩]

/-- The lines of the events that are shown. Without `--verbose` only warnings are. -/
def logText (isVerbose : Bool) (stamp : String) (events : List Event) : String :=
  String.join (events.map fun e =>
    if isVerbose then
      stamp ++ " - " ++ e.source ++ " - " ++ e.level.label ++ " - " ++ e.message ++ "\n"
    else if e.level == .warning then e.level.label ++ ": " ++ e.message ++ "\n"
    else "")

/-- How a run ends on an error of the configuration. -/
def fail (error : Config.Error) (log : String) : Result :=
  match error with
  | .malformed _ => .malformed
  | error =>
    match error.report? with
    | some report =>
      .aborted (log ++ Text.withoutControls ("Error: " ++ report.message) ++ "\nAborted!\n")
    | none => .failed error log

def checkRange (option : String) (n : Int) : Except UsageError Nat :=
  if n < 0 then .error (.belowRange option n) else .ok n.toNat

def readRange (option text : String) : Except UsageError Nat :=
  match Settings.wholeNumber? text with
  | some n => checkRange option n
  | none => .error (.notInteger option text)

/-- Check the integer options among the given ones, in the order in which they were first given. -/
def checkGiven (p : Parsed) : List Given → Except UsageError Unit
  | [] => .ok ()
  | g :: rest => do
    if g.option == "--indent" || g.option == "--limit" then
      let _ ← readRange g.option ((p.value? g.option).getD "")
    checkGiven p rest

def rangeOption (p : Parsed) (option : String) (default : Int) : Except UsageError Nat :=
  match p.value? option with
  | some text => readRange option text
  | none => checkRange option default

def orUsage {α : Type} (reading : Except UsageError α) : Except Result α :=
  reading.mapError .usage

def findDirectory (place : String → Config.Place) (arguments : List String) :
    Except Result (String × Config.Files) :=
  match arguments with
  | [] => .error (.usage .missingDirectory)
  | path :: _ =>
    match place path with
    | .missing => .error (.usage (.directoryNotFound path))
    | .file _ => .error (.usage (.directoryIsFile path))
    | .impossible => .error (.failed (.data .unreadable) "")
    | .directory files => .ok (path, files)

def noExtraArguments (arguments : List String) : Except UsageError Unit :=
  if arguments.length ≤ 1 then .ok () else .error (.extraArguments arguments.tail)

/-- A binding `NAME=VALUE`. Blanks around the name and the value are dropped. -/
def readBinding (text : String) : Except UsageError (String × Value) :=
  match splitEquals text with
  | (name, some value) =>
    if name.isEmpty then .error (.badParameter text)
    else .ok (Text.strip name, .text (Text.strip value))
  | _ => .error (.badParameter text)

/-- What a `sparql` command asks for. -/
structure QueryRequest where
  directory : String
  files : Config.Files
  query : Option String
  variableNames : List String
  parameters : Pattern.Parameters
  options : Pattern.Options
  limit : Nat
  whereOnly : Bool

/-- Read the arguments of a `sparql` command. Faults are reported in the order: given options, the
directory, defaults, extra arguments, bindings. -/
def readQueryRequest (settings : Settings) (place : String → Config.Place)
    (arguments : List String) : Except Result QueryRequest := do
  let p ← orUsage (parse queryOptions true arguments)
  orUsage (checkGiven p p.given)
  let (directory, files) ← findDirectory place p.arguments
  let indent ← orUsage (rangeOption p "--indent" settings.indent)
  let limit ← orUsage (rangeOption p "--limit" settings.limit)
  orUsage (noExtraArguments p.arguments)
  let bindings ← orUsage ((p.values "--param").mapM readBinding)
  return {
    directory, files, limit
    query := p.value? "--query"
    variableNames := p.values "--variable"
    parameters := Table.ofPairs bindings
    options := {
      emitValues := !p.has "--no-values"
      templateMode := p.has "--template"
      indentUnit := String.ofList (List.replicate indent ' ') }
    whereOnly := p.has "--where-only" }

/-- The named query that a request relies on: the one it names, or the first one if it asks for no
variables and there are any. -/
def relevantQuery (r : QueryRequest) (s : Config.Session) :
    Except Config.Error (Option Config.QuerySpec) :=
  match r.query with
  | some name => (s.query r.files (some name)).1.map some
  | none =>
    if !r.variableNames.isEmpty then .ok none
    else
      match s.readQueries r.files with
      | (.error e, _) => .error e
      | (.ok [], _) => .ok none
      | (.ok table, _) => (Config.Session.findQuery table none).map some

/-- The requested variables: those of the command line, else those of the query, else all. -/
def selection (r : QueryRequest) (spec : Option Config.QuerySpec) : Option (List String) :=
  if !r.variableNames.isEmpty then some r.variableNames
  else
    match spec with
    | some q => if q.variableNames.isEmpty then none else some q.variableNames
    | none => none

/-- The lines that a request asks for, or the events up to a parameter that cannot be written. -/
def queryLines (r : QueryRequest) (m : Model) (spec : Option Config.QuerySpec) :
    Except (List Event) (List String × List Event) :=
  let selected := selection r spec
  let bound := Table.update ((spec.map (·.parameters)).getD []) r.parameters
  match Pattern.obstacle? m.index selected bound r.options with
  | some events => .error events
  | none =>
    if r.whereOnly then
      let block := Pattern.generate m.index selected bound r.options
      .ok (block.lines, block.events)
    else .ok (Query.generate m selected bound r.options (some r.limit))

def runQuery (isVerbose : Bool) (stamp : String) (r : QueryRequest) : Result :=
  let outcome := (Config.Session.start r.directory).model r.files
  let log := logText isVerbose stamp
  match outcome.result with
  | .error e => fail e (log outcome.events)
  | .ok m =>
    match relevantQuery r outcome.session with
    | .error e => fail e (log outcome.events)
    | .ok spec =>
      match queryLines r m spec with
      | .ok (lines, events) =>
        .printed (Text.withoutControls ("\n".intercalate lines) ++ "\n")
          (log (outcome.events ++ events))
      | .error events => .failed (.data .unreadable) (log (outcome.events ++ events))

/-- Report the problems of the model in a directory. -/
def runValidate (isVerbose : Bool) (stamp : String) (directory : String) (files : Config.Files) :
    Result :=
  match (Config.Session.start directory).buildSubjects files with
  | (.error e, _) => fail e ""
  | (.ok subjects, s) =>
    match s.readPrefixes files with
    | (.error e, _) => fail e ""
    | (.ok table, _) =>
      match problems subjects table with
      | [] => .printed (Text.withoutControls ("OK " ++ directory ++ " is valid") ++ "\n") ""
      | found =>
        .aborted (logText isVerbose stamp [.problemsFound found.length]
          ++ Text.withoutControls (Problem.summary found) ++ "\nAborted!\n")

/-- The arguments of a `validate` command: a directory and nothing else. -/
def readDirectory (place : String → Config.Place) (arguments : List String) :
    Except Result (String × Config.Files) := do
  let p ← orUsage (parse [] true arguments)
  let r ← findDirectory place p.arguments
  orUsage (noExtraArguments p.arguments)
  return r

def commandNames : List String := ["sparql", "validate"]

/-- How a run ends whose first argument is not a command. After two hyphens it may still be an
option that concerns all commands. -/
def unknownCommand (name : String) (arguments : List String) : Result :=
  match parse mainOptions false (name :: arguments) with
  | .error e => .usage e
  | .ok p =>
    if p.has "--version" then .printed versionText ""
    else .usage (.unknownCommand name (suggestions name commandNames))

def runCommand (settings : Settings) (place : String → Config.Place) (stamp : String)
    (isVerbose : Bool) : List String → Result
  | [] => .usage .missingCommand
  | "sparql" :: arguments =>
    match readQueryRequest settings place arguments with
    | .ok r => runQuery isVerbose stamp r
    | .error result => result
  | "validate" :: arguments =>
    match readDirectory place arguments with
    | .ok (directory, files) => runValidate isVerbose stamp directory files
    | .error result => result
  | name :: arguments => unknownCommand name arguments

/-- Run the program with its settings, the places in the file system, and a stamp for the lines of
the log. -/
def run (settings : Settings) (place : String → Config.Place) (stamp : String)
    (arguments : List String) : Result :=
  match parse mainOptions false arguments with
  | .error e => .usage e
  | .ok p =>
    if p.has "--version" then .printed versionText ""
    else runCommand settings place stamp (p.has "--verbose") p.arguments

def Result.exitCode : Result → Nat
  | printed .. => 0
  | usage _ => 2
  | _ => 1

def Result.output : Result → String
  | printed output _ => output
  | _ => ""

def Result.log : Result → String
  | usage error => Text.withoutControls ("Error: " ++ error.message)
  | printed _ log => log
  | aborted log => log
  | malformed => "YAML error"
  | failed _ log => log

end SparqlModel.CommandLine
