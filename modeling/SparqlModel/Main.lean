import SparqlModel.CommandLine.Run

/-!
# The program

Reads the environment and the places that the arguments may name, runs the command, and prints.
-/

namespace SparqlModel.CommandLine

def readFile? (path : String) : IO (Option ByteArray) := do
  try return some (← IO.FS.readBinFile path)
  catch _ => return none

def readFiles (directory : String) : IO Config.Files := do
  let mut files : Config.Files := []
  for file in [Config.prefixFile, Config.modelFile, Config.queryFile] do
    if let some bytes ← readFile? (Config.joinPath directory file) then
      files := files ++ [(file, bytes)]
  return files

def isDirectoryError : IO.Error → Bool
  | .inappropriateType _ code _ => code == 21
  | _ => false

/-- What a path leads to. A directory is told by the error of reading it. -/
def probe (path : String) : IO Config.Place := do
  try
    return .file (← IO.FS.readBinFile path)
  catch e =>
    if isDirectoryError e then return .directory (← readFiles path) else return .missing

def readEnvironment : IO (Table String) := do
  let mut environment : Table String := []
  for name in Settings.names do
    if let some value ← IO.getEnv name then
      environment := environment ++ [(name, value)]
  return environment

def placeAmong (places : List (String × Config.Place)) (path : String) : Config.Place :=
  (places.lookup path).getD .missing

def ensureLine (s : String) : String :=
  if s.isEmpty || s.endsWith "\n" then s else s ++ "\n"

/-- Run the program and print what it says. -/
def execute (arguments : List String) : IO UInt32 := do
  match Settings.read? (← readEnvironment) with
  | none =>
    IO.eprintln "Error: a setting is not a whole number"
    return 1
  | some settings =>
    let places ← arguments.mapM fun a => return (a, ← probe a)
    let stamp := toString (← IO.monoMsNow)
    let result := run settings (placeAmong places) stamp arguments
    IO.print result.output
    IO.eprint (ensureLine result.log)
    return result.exitCode.toUInt32

end SparqlModel.CommandLine

def main (arguments : List String) : IO UInt32 :=
  SparqlModel.CommandLine.execute arguments
