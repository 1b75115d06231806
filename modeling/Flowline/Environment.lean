import Flowline.Table
import Flowline.Text.Blank

/-!
Files that set variables: lines with a name, an equals sign and a value. A value may be quoted, and may
contain references to other variables. Variables that are set outside the file come before those in it.
-/

namespace Flowline.Environment

/-- Variables, in the order in which a file names them first; some may have no value. -/
abbrev Variables := Table String (Option String)

/-! ## Reading -/

def isInlineBlank (c : Char) : Bool := Text.isBlank c && c != '\n' && c != '\r'

def isLineEnd (c : Char) : Bool := c == '\n' || c == '\r'

def skipInline (cs : List Char) : List Char := cs.dropWhile isInlineBlank

def skipLine (cs : List Char) : List Char := (cs.dropWhile fun c => !isLineEnd c).drop 1

/-- What stands after the word that may come before a name. -/
def skipExport (cs : List Char) : List Char :=
  let word := "export".toList
  if word.isPrefixOf cs then
    let rest := cs.drop word.length
    let after := skipInline rest
    if after.length < rest.length then after else cs
  else cs

/-- A name, or none in front of a comment, and what stands after it; an error where no name can be. -/
def readName (cs : List Char) : Except (List Char) (Option String × List Char) :=
  match cs with
  | '#' :: _ => .ok (none, cs)
  | '\'' :: rest =>
    let name := rest.takeWhile (· != '\'')
    match rest.dropWhile (· != '\'') with
    | _ :: after => if name.isEmpty then .error cs else .ok (some (String.ofList name), after)
    | [] => .error cs
  | _ =>
    let inName (c : Char) : Bool := c != '=' && c != '#' && !Text.isBlank c
    let name := cs.takeWhile inName
    if name.isEmpty then .error cs else .ok (some (String.ofList name), cs.dropWhile inName)

/-- Cuts a text at a quote that no backslash stands in front of. If there is none, the last quote with a
backslash in front of it is the end, and the backslash stays. -/
def cutQuoted (quote : Char) : List Char → Option (List Char × List Char)
  | [] => none
  | '\\' :: c :: rest =>
    if c == quote then
      match cutQuoted quote rest with
      | some (inner, after) => some ('\\' :: c :: inner, after)
      | none => some (['\\'], rest)
    else (cutQuoted quote (c :: rest)).map fun (inner, after) => ('\\' :: inner, after)
  | c :: rest =>
    if c == quote then some ([], rest)
    else (cutQuoted quote rest).map fun (inner, after) => (c :: inner, after)

/-- What a character after a backslash stands for in double quotes. -/
def doubleEscape? : Char → Option Char
  | '\\' => some '\\'
  | '\'' => some '\''
  | '"' => some '"'
  | 'a' => some '\x07'
  | 'b' => some '\x08'
  | 'f' => some '\x0c'
  | 'n' => some '\n'
  | 'r' => some '\r'
  | 't' => some '\t'
  | 'v' => some '\x0b'
  | _ => none

/-- What a character after a backslash stands for in single quotes. -/
def singleEscape? : Char → Option Char
  | '\\' => some '\\'
  | '\'' => some '\''
  | _ => none

/-- Replaces the characters that a backslash stands in front of. -/
def unescape (escape? : Char → Option Char) : List Char → List Char
  | [] => []
  | '\\' :: c :: rest =>
    match escape? c with
    | some d => d :: unescape escape? rest
    | none => '\\' :: unescape escape? (c :: rest)
  | c :: rest => c :: unescape escape? rest

/-- A text without the comment at its end, which has a blank in front of it. -/
def withoutComment : List Char → List Char
  | [] => []
  | c :: rest =>
    if Text.isBlank c && (rest.dropWhile Text.isBlank).head? == some '#' then []
    else c :: withoutComment rest

/-- A value, and what stands after it; an error where a quote has no end. -/
def readValue (cs : List Char) : Except (List Char) (String × List Char) :=
  let quoted (quote : Char) (escape? : Char → Option Char) (rest : List Char) :=
    match cutQuoted quote rest with
    | some (inner, after) => .ok (String.ofList (unescape escape? inner), after)
    | none => .error cs
  match cs with
  | '\'' :: rest => quoted '\'' singleEscape? rest
  | '"' :: rest => quoted '"' doubleEscape? rest
  | _ =>
    let line := cs.takeWhile fun c => !isLineEnd c
    let value := (withoutComment line).reverse.dropWhile Text.isBlank
    .ok (String.ofList value.reverse, cs.dropWhile fun c => !isLineEnd c)

/-- What stands after the end of a line, where only a comment may come first. -/
def endLine (cs : List Char) : Except (List Char) (List Char) :=
  let after := match skipInline cs with
    | '#' :: rest => rest.dropWhile fun c => !isLineEnd c
    | _ => cs
  match skipInline after with
  | [] => .ok []
  | c :: rest => if isLineEnd c then .ok rest else .error after

/-- One setting, and what stands after it. An error says from where on the line cannot be read. -/
def readSetting (cs : List Char) :
    Except (List Char) (Option (String × Option String) × List Char) := do
  let (name?, rest) ← readName (skipExport cs)
  match skipInline rest with
  | '=' :: rest =>
    let (value, rest) ← readValue (skipInline rest)
    return (name?.map fun name => (name, some value), ← endLine rest)
  | rest => return (name?.map fun name => (name, none), ← endLine rest)

/-- The settings in a text. Lines that cannot be read are passed over. -/
def settings (fuel : Nat) (cs : List Char) : List (String × Option String) :=
  match fuel with
  | 0 => []
  | fuel + 1 =>
    match cs.dropWhile Text.isBlank with
    | [] => []
    | cs =>
      match readSetting cs with
      | .ok (setting?, rest) => setting?.toList ++ settings fuel rest
      | .error rest => settings fuel (skipLine rest)

/-! ## References -/

/-- The name in a reference, the value it has otherwise, and what stands after it. -/
def reference? (cs : List Char) : Option (String × String × List Char) :=
  match cs with
  | '$' :: '{' :: rest =>
    let name := rest.takeWhile fun c => c != '}' && c != ':'
    match rest.dropWhile fun c => c != '}' && c != ':' with
    | '}' :: after => some (String.ofList name, "", after)
    | ':' :: '-' :: rest =>
      match rest.dropWhile (· != '}') with
      | _ :: after => some (String.ofList name, String.ofList (rest.takeWhile (· != '}')), after)
      | [] => none
    | _ => none
  | _ => none

/-- A value with its references replaced. A variable without a value stands for the empty text. -/
def expand (lookup : String → Option (Option String)) (fuel : Nat) (cs : List Char) : List Char :=
  match fuel with
  | 0 => []
  | fuel + 1 =>
    match cs with
    | [] => []
    | c :: rest =>
      match reference? (c :: rest) with
      | some (name, otherwise, after) =>
        let value := match lookup name with
          | some value? => value?.getD ""
          | none => otherwise
        value.toList ++ expand lookup fuel after
      | none => c :: expand lookup fuel rest

/-- The variables that settings give, one after the other. -/
def assign (outer : String → Option String) (vars : Variables) :
    List (String × Option String) → Variables
  | [] => vars
  | (name, value?) :: rest =>
    let lookup (name : String) : Option (Option String) :=
      match outer name with
      | some value => some (some value)
      | none => vars.get? name
    let expanded := value?.map fun value =>
      String.ofList (expand lookup (value.length + 1) value.toList)
    assign outer (vars.put name expanded) rest

def plainLines : List Char → List Char
  | [] => []
  | '\r' :: '\n' :: rest => '\n' :: plainLines rest
  | '\r' :: rest => '\n' :: plainLines rest
  | c :: rest => c :: plainLines rest

def ofText (outer : String → Option String) (text : String) : Variables :=
  let cs := plainLines text.toList
  assign outer [] (settings (cs.length + 1) cs)

/-- The value of a variable: the one from outside, or the one in the file. -/
def value? (outer : String → Option String) (inner : Variables) (name : String) : Option String :=
  match outer name with
  | some value => some value
  | none => (inner.get? name).join

end Flowline.Environment
