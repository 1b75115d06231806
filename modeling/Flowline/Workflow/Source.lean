import Flowline.Json.Read
import Flowline.Text.Case
import Flowline.Workflow.Record
import Flowline.Workflow.Validation
import Flowline.Yaml.Node
import Flowline.Yaml.Write

/-!
Workflows from values, texts and files, and as texts. A text is read as YAML; what kind of text a file
holds is told by the end of its name. Only workflows without problems are read.
-/

namespace Flowline.Workflow

/-- The fault of a definition that has the wrong form, which is reported as such. -/
def formFault (fault : Fault) : Fault :=
  match fault with
  | .missingKey | .wrongType | .badValue | .badArgument _ => .parse "Invalid workflow definition"
  | fault => fault

/-- The entry that holds a definition inside another value, or the value itself. -/
def unwrapped (v : Value) : Value :=
  match v.field? "workflow" with
  | some (.map entries) => .map entries
  | _ => v

/-- The workflow that a value defines, with ids for one that has none. -/
def parse (v : Value) (newId newUuid : String) : Except Fault Workflow := do
  if !v.isMap then
    throw (.parse s!"Workflow definition must be a mapping, got {v.typeName}")
  let w ← (ofValue (unwrapped v) newId newUuid).mapError formFault
  if w.problems.isEmpty then return w else throw (.invalidWorkflow w.problems)

def yamlValue (text : String) : Except Fault Value :=
  match Yaml.read text with
  | .ok v => .ok v
  | .error .malformed => .error (.parse "Failed to parse YAML")
  | .error (.scalar fault) => .error fault

def jsonValue (text : String) : Except Fault Value :=
  match Json.read? text with
  | some v => .ok v
  | none => .error (.parse "Failed to parse JSON")

def ofText (text : String) (newId newUuid : String) : Except Fault Workflow := do
  parse (← yamlValue text) newId newUuid

/-- The end of the name of a file, from the last point on, in small letters and without points. A name
has none if its last point is its first or its last character. -/
def fileFormat (path : String) : String :=
  let name := (path.toList.reverse.takeWhile (· != '/')).reverse
  let ending := (name.reverse.takeWhile (· != '.')).reverse
  if name.contains '.' && !ending.isEmpty && ending.length + 1 < name.length then
    Text.lower (String.ofList ending)
  else ""

/-- The workflow in a file, given its path and what it holds; nothing where there is no such file. -/
def ofFile (path : String) (content? : Option String) (newId newUuid : String) :
    Except Fault Workflow := do
  let format := fileFormat path
  if !(["yaml", "yml", "json"].contains format) then
    throw (.parse s!"Unsupported file format: {format}")
  match content? with
  | none => throw (.parse s!"Workflow file not found: {path}")
  | some text =>
    parse (← if format == "json" then jsonValue text else yamlValue text) newId newUuid

/-- The workflow of a source that is no file: a text, or a mapping. -/
def ofSource (v : Value) (newId newUuid : String) : Except Fault Workflow :=
  match v with
  | .map entries => parse (.map entries) newId newUuid
  | .str text => ofText text newId newUuid
  | v => .error (.parse s!"Unsupported source type: <class '{v.typeName}'>")

def toYaml (w : Workflow) : String := Yaml.write w.toValue

/-- The JSON text of a workflow; there is none where a whole number in it has too many digits. -/
def toJson (w : Workflow) : Except Fault String := Json.render .document w.toValue

end Flowline.Workflow
