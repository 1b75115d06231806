import Flowline.Engine.Operation
import Flowline.Execution.Record
import Flowline.Condition.Catalogue
import Flowline.Json.Read
import Flowline.Workflow.Source

/-!
The commands: to check a workflow in a file, to run it and print the record of its execution, and to list
the operators of conditions. What a command prints, and the code it ends with, depends on its arguments,
the environment and the files only, and on the time at which it is called.
-/

namespace Flowline

/-- How a command ends. -/
inductive CommandResult
  /-- It has printed something, and succeeded or not. -/
  | printed (text : String) (success : Bool)
  /-- The arguments are of no use; there may be a message about one of them. -/
  | misused (message? : Option String)
  /-- It has failed with a message. -/
  | refused (message : String)
  /-- It has failed in a way that it has no message for. -/
  | broken (fault : Fault)
deriving Repr

namespace CommandResult

def exitCode : CommandResult → UInt32
  | printed _ success => if success then 0 else 1
  | misused _ => 2
  | refused _ => 1
  | broken _ => 1

def output : CommandResult → String
  | printed text _ => text
  | _ => ""

def complaint? : CommandResult → Option String
  | printed _ _ => none
  | misused message? => some (message?.getD "Invalid arguments")
  | refused message => some message
  | broken fault => some fault.message

end CommandResult

/-- What a command sees of the world. -/
structure CommandWorld where
  environment : String → Option String
  /-- What a file holds, if there is one at a path. -/
  file? : String → Option String
  now : Moment
  /-- The ids that a workflow gets which has none. -/
  newId : String
  newUuid : String

namespace CommandLine

/-! ## Arguments -/

/-- An option that a command takes. -/
structure OptionForm where
  name : String
  takesValue : Bool

/-- Arguments that were read: options with their values, and the others. -/
structure Arguments where
  options : List (String × String)
  others : List String

/-- The name of an option and the value that is joined to it with an equals sign. -/
def splitOption (argument : String) : String × Option String :=
  let cs := argument.toList
  let name := cs.takeWhile (· != '=')
  match cs.dropWhile (· != '=') with
  | [] => (argument, none)
  | _ :: value => (String.ofList name, some (String.ofList value))

/-- An argument is an option: it starts with a dash and has more than that. -/
def isOption (argument : String) : Bool :=
  argument.startsWith "-" && 1 < argument.length

/-- Reads arguments. After two dashes everything is no option. -/
def readArguments (forms : List OptionForm) (read : Arguments) :
    List String → Option Arguments
  | [] => some read
  | "--" :: rest => some { read with others := read.others ++ rest }
  | argument :: rest =>
    if isOption argument then
      let (name, joined?) := splitOption argument
      match forms.find? (·.name == name), joined?, rest with
      | none, _, _ => none
      | some form, some value, rest =>
        if form.takesValue then
          readArguments forms { read with options := read.options ++ [(name, value)] } rest
        else none
      | some form, none, rest =>
        if form.takesValue then
          match rest with
          | value :: rest =>
            readArguments forms { read with options := read.options ++ [(name, value)] } rest
          | [] => none
        else readArguments forms { read with options := read.options ++ [(name, "")] } rest
    else readArguments forms { read with others := read.others ++ [argument] } rest

/-- The value of an option; of several ones the last. -/
def Arguments.option? (a : Arguments) (name : String) : Option String :=
  (a.options.reverse.find? (·.1 == name)).map (·.2)

/-! ## Commands -/

/-- The result of a computation that gives a result of a command; a fault in the domain is told, another
one is not caught. -/
def settle (r : Except Fault CommandResult) : CommandResult :=
  match r with
  | .ok result => result
  | .error fault => if fault.isWorded then .refused fault.message else .broken fault

def fileOf? (world : CommandWorld) (a : Arguments) : Option (String × String) :=
  match a.others with
  | [path] => (world.file? path).map fun content => (path, content)
  | _ => none

def workflowOf (world : CommandWorld) (path content : String) : Except Fault Workflow :=
  Workflow.ofFile path (some content) world.newId world.newUuid

def validate (world : CommandWorld) (path content : String) : Except Fault CommandResult := do
  let w ← workflowOf world path content
  let nodes := w.nodes.length
  let connections := w.connections.length
  return .printed
    s!"Workflow '{w.title}' is valid ({nodes} nodes, {connections} connections)\n" true

/-- What a text says that triggers a run: a mapping. -/
def triggerOf (text : String) : Except String Value :=
  match Json.read? text with
  | none => .error "Invalid value for --trigger: Invalid JSON"
  | some (.map entries) => .ok (.map entries)
  | some _ => .error "Invalid value for --trigger: Trigger payload must be a JSON object"

def setup (config : Config) : Setup where
  config := config
  actions := Actions.register [] Action.logMessage
  actionTypes := []
  notify? := some fun _ => .ok ()
  publishes := false
  refusal? := none
  share := 0

/-- Runs a workflow, and prints the record of its execution. -/
def execute (world : CommandWorld) (config : Config) (w : Workflow) (trigger : Value) :
    Except Fault CommandResult := do
  let g := Engine.new config world.now 0
  let g := { g with memory := g.memory.saveWorkflow w }
  let e ← ((Work.execute (setup config) w trigger .null).run.run g).1
  let text ← Json.render .indented e.toValue
  return .printed (text ++ "\n") (e.status != .failed)

def run (world : CommandWorld) (config : Config) (a : Arguments) (path content : String) :
    CommandResult :=
  match triggerOf ((a.option? "--trigger").getD "\x7b\x7d") with
  | .error message => .misused (some message)
  | .ok trigger => settle do
    let w ← workflowOf world path content
    let active := if (a.option? "--activate").isSome then { w with status := .active } else w
    execute world config active trigger

def padded (length : Nat) (s : String) : String :=
  s ++ String.ofList (List.replicate (length - s.length) ' ')

def operators : String :=
  String.join (Operator.catalogue.map fun (category, descriptions) =>
    category ++ ":\n" ++ String.join (descriptions.map fun d =>
      "  " ++ padded 24 d.name ++ " " ++ d.label ++ "\n"))

def withFile (world : CommandWorld) (forms : List OptionForm) (arguments : List String)
    (command : Arguments → String → String → CommandResult) : CommandResult :=
  match readArguments forms ⟨[], []⟩ arguments with
  | none => .misused none
  | some a =>
    match fileOf? world a with
    | none => .misused none
    | some (path, content) => command a path content

/-- The options of all commands, and the name of the command with what stands after it. -/
def readCommand : List String → Option (Option String × List String)
  | [] => some (none, [])
  | "--log-level" :: _ :: rest => readCommand rest
  | argument :: rest =>
    if isOption argument then
      match splitOption argument with
      | ("--log-level", some _) => readCommand rest
      | _ => none
    else some (some argument, rest)

def perform (world : CommandWorld) (arguments : List String) : CommandResult :=
  match readCommand arguments with
  | none => .misused none
  | some (none, _) => .misused none
  | some (some name, rest) =>
    if !(["validate", "run", "operators"].contains name) then .misused none
    else
      match Config.ofEnvironment world.environment with
      | .error fault => .broken fault
      | .ok config =>
        match name with
        | "validate" => withFile world [] rest fun _ path content =>
          settle (validate world path content)
        | "run" =>
          withFile world [⟨"--trigger", true⟩, ⟨"--activate", false⟩] rest (run world config)
        | _ => if rest.isEmpty then .printed operators true else .misused none

end CommandLine

end Flowline
