/-!
# Events

What a run reports besides its result. Names that a model does not have are warnings; the other
events tell the size of intermediate results.
-/

namespace SparqlModel

inductive Level
  | debug
  | warning
deriving DecidableEq

def Level.label : Level → String
  | debug => "DEBUG"
  | warning => "WARNING"

inductive Event
  | subjectsLoaded (count : Nat) (directory : String)
  | flattened (subjects triples blanks : Nat)
  | problemsFound (count : Nat)
  | modelBuilt (subjects triples : Nat)
  | unknownVariable (name : String)
  | untypedPath (name : String)
  | unknownParameter (name : String)
  | patternGenerated (required optional count : Nat)
  | queryGenerated (lines : Nat)
deriving DecidableEq

namespace Event

def level : Event → Level
  | unknownVariable _ | unknownParameter _ => .warning
  | _ => .debug

def source : Event → String
  | subjectsLoaded .. => "rdfpattern.config.rdf_config"
  | flattened .. => "rdfpattern.flattener"
  | problemsFound .. => "rdfpattern.validator"
  | modelBuilt .. => "rdfpattern.model"
  | unknownVariable .. | untypedPath .. | unknownParameter .. | patternGenerated .. =>
    "rdfpattern.sparql.where"
  | queryGenerated .. => "rdfpattern.sparql.query"

def message : Event → String
  | subjectsLoaded n directory => "Loaded " ++ toString n ++ " subjects from " ++ directory
  | flattened s t b =>
    "Flattened " ++ toString s ++ " subjects into " ++ toString t ++ " triples (" ++ toString b
      ++ " blank nodes)"
  | problemsFound n => "Validation found " ++ toString n ++ " errors"
  | modelBuilt s t =>
    "Built model with " ++ toString s ++ " subjects and " ++ toString t ++ " triples"
  | unknownVariable name => "Variable " ++ name ++ " not found in model, skipping"
  | untypedPath name => "No typed blank nodes on path to " ++ name ++ ", using property path"
  | unknownParameter name =>
    "Parameter " ++ name ++ " does not match any model object, skipping"
  | patternGenerated r o v =>
    "Generated " ++ toString r ++ " required and " ++ toString o ++ " optional triples for "
      ++ toString v ++ " variables"
  | queryGenerated n => "Generated query with " ++ toString n ++ " lines"

end Event

def warnings (events : List Event) : List String :=
  (events.filter fun e => e.level == .warning).map (·.message)

end SparqlModel
