import Flowline.Yaml.Tag
import Flowline.Yaml.Tokens

/-!
The tree of nodes of a YAML text. A text holds at most one document, and an alias stands for the node
that an anchor before it names.
-/

namespace Flowline.Yaml

/-- A node: its tag and its text or parts. -/
inductive Node
  | scalar (tag : Tag) (text : String)
  | sequence (tag : Tag) (items : List Node)
  | mapping (tag : Tag) (entries : List (Node × Node))
deriving Repr

namespace Node

/-- A node without text, where one may be left out. -/
def empty : Node := .scalar .null ""

instance : Inhabited Node := ⟨empty⟩

/-- What is left to read and what earlier parts have named. -/
structure Reading where
  tokens : List Token
  anchors : List (String × Node)
  handles : List (String × String)

abbrev Reader := StateT Reading (Except Failure)

def refuse {α : Type} : Reader α := throw .malformed

def peek : Reader Token := do return (← get).tokens.headD .streamEnd

def advance : Reader Unit := modify fun r => { r with tokens := r.tokens.tail }

def accept (t : Token) : Reader Bool := do
  if (← peek) == t then
    advance
    return true
  else return false

/-- Takes the next token, which must be a given one. -/
def expect (t : Token) : Reader Unit := do
  if !(← accept t) then refuse

def isNext (ts : List Token) : Reader Bool := do return ts.contains (← peek)

/-! ## Properties of a node -/

def anchorName? : Reader (Option String) := do
  match ← peek with
  | .anchor name =>
    advance
    return some name
  | _ => return none

def tagText? : Reader (Option TagText) := do
  match ← peek with
  | .tag t =>
    advance
    return some t
  | _ => return none

def properties : Reader (Option String × Option TagText) := do
  match ← anchorName? with
  | some name => return (some name, ← tagText?)
  | none =>
    match ← tagText? with
    | some t => return (← anchorName?, some t)
    | none => return (none, none)

/-- The full name of a tag; the lone mark asks for the kind that the text looks like. -/
def fullName (t : TagText) : Reader String := do
  match t.handle? with
  | none => return t.suffix
  | some handle =>
    match (← get).handles.lookup handle with
    | some start => return start ++ t.suffix
    | none => refuse

def kindOf (name? : Option String) (standard : Tag) : Tag :=
  match name? with
  | none => standard
  | some name => if name == "!" then standard else Tag.ofName name

def scalarKind (name? : Option String) (text : String) (isPlain : Bool) : Tag :=
  match name? with
  | none => if isPlain then Tag.ofPlain text else .str
  | some name => if name == "!" then Tag.ofPlain text else Tag.ofName name

/-! ## Nodes -/

mutual

/-- A node; a sequence that is not indented counts as one where `loose` says so, and blocks where
`inBlock` does. -/
def read (fuel : Nat) (inBlock loose : Bool) : Reader Node := do
  match fuel with
  | 0 => refuse
  | fuel + 1 =>
    match ← peek with
    | .alias name =>
      advance
      match (← get).anchors.lookup name with
      | some node => return node
      | none => refuse
    | _ =>
      let (anchor?, tagText?) ← properties
      let name? ← tagText?.mapM fullName
      if let some anchor := anchor? then
        if ((← get).anchors.lookup anchor).isSome then refuse
      let node ← readContent fuel inBlock loose name? anchor?.isSome
      if let some anchor := anchor? then
        modify fun r => { r with anchors := (anchor, node) :: r.anchors }
      return node

/-- The text or the parts of a node; they may be absent after a tag or an anchor. -/
def readContent (fuel : Nat) (inBlock loose : Bool) (name? : Option String) (isNamed : Bool) :
    Reader Node := do
  match fuel with
  | 0 => refuse
  | fuel + 1 =>
    match ← peek with
    | .scalar text isPlain =>
      advance
      return .scalar (scalarKind name? text isPlain) text
    | .blockEntry =>
      if loose then return .sequence (kindOf name? .seq) (← readLooseSequence fuel)
      else absent
    | .flowSequenceStart =>
      advance
      return .sequence (kindOf name? .seq) (← readFlowSequence fuel true)
    | .flowMappingStart =>
      advance
      return .mapping (kindOf name? .map) (← readFlowMapping fuel true)
    | .blockSequenceStart =>
      if inBlock then
        advance
        return .sequence (kindOf name? .seq) (← readBlockSequence fuel)
      else absent
    | .blockMappingStart =>
      if inBlock then
        advance
        return .mapping (kindOf name? .map) (← readBlockMapping fuel)
      else absent
    | _ => absent
where
  absent : Reader Node :=
    if isNamed || name?.isSome then return .scalar (scalarKind name? "" true) ""
    else refuse

/-- A node, or an empty one where one of some tokens is next. -/
def readUnless (fuel : Nat) (inBlock loose : Bool) (ends : List Token) : Reader Node := do
  match fuel with
  | 0 => refuse
  | fuel + 1 => if ← isNext ends then return empty else read fuel inBlock loose

def readBlockSequence (fuel : Nat) : Reader (List Node) := do
  match fuel with
  | 0 => refuse
  | fuel + 1 =>
    if ← accept .blockEntry then
      let item ← readUnless fuel true false [.blockEntry, .blockEnd]
      return item :: (← readBlockSequence fuel)
    else
      expect .blockEnd
      return []

/-- The items of a sequence that is indented no further than the key before it. -/
def readLooseSequence (fuel : Nat) : Reader (List Node) := do
  match fuel with
  | 0 => refuse
  | fuel + 1 =>
    if ← accept .blockEntry then
      let item ← readUnless fuel true false [.blockEntry, .key, .value, .blockEnd]
      return item :: (← readLooseSequence fuel)
    else return []

def readBlockMapping (fuel : Nat) : Reader (List (Node × Node)) := do
  match fuel with
  | 0 => refuse
  | fuel + 1 =>
    if ← isNext [.blockEnd] then
      advance
      return []
    else
      let ends : List Token := [.key, .value, .blockEnd]
      expect .key
      let key ← readUnless fuel true true ends
      let value ← if ← accept .value then readUnless fuel true true ends else pure empty
      return (key, value) :: (← readBlockMapping fuel)

/-- The items of a sequence in brackets and its end. -/
def readFlowSequence (fuel : Nat) (isFirst : Bool) : Reader (List Node) := do
  match fuel with
  | 0 => refuse
  | fuel + 1 =>
    if ← accept .flowSequenceEnd then return []
    if !isFirst then expect .flowEntry
    if ← accept .key then
      let key ← readUnless fuel false false [.value, .flowEntry, .flowSequenceEnd]
      let value ← if ← accept .value then readUnless fuel false false [.flowEntry, .flowSequenceEnd]
        else pure empty
      return .mapping .map [(key, value)] :: (← readFlowSequence fuel false)
    else if ← accept .flowSequenceEnd then return []
    else
      let item ← read fuel false false
      return item :: (← readFlowSequence fuel false)

/-- The entries of a mapping in braces and its end. -/
def readFlowMapping (fuel : Nat) (isFirst : Bool) : Reader (List (Node × Node)) := do
  match fuel with
  | 0 => refuse
  | fuel + 1 =>
    if ← accept .flowMappingEnd then return []
    if !isFirst then expect .flowEntry
    if ← accept .key then
      let key ← readUnless fuel false false [.value, .flowEntry, .flowMappingEnd]
      let value ← if ← accept .value then readUnless fuel false false [.flowEntry, .flowMappingEnd]
        else pure empty
      return (key, value) :: (← readFlowMapping fuel false)
    else if ← accept .flowMappingEnd then return []
    else
      let key ← read fuel false false
      return (key, empty) :: (← readFlowMapping fuel false)

end

/-! ## Documents -/

/-- The directives before a document: one version, and handles for tags. -/
def readDirectives (fuel : Nat) (hasVersion : Bool) (handles : List (String × String)) :
    Reader (List (String × String)) := do
  match fuel with
  | 0 => refuse
  | fuel + 1 =>
    match ← peek with
    | .directive "YAML" args =>
      advance
      if hasVersion || (args.headD "").toNat? != some 1 then refuse
      readDirectives fuel true handles
    | .directive "TAG" args =>
      advance
      match args with
      | [handle, start] =>
        if (handles.lookup handle).isSome then refuse
        readDirectives fuel hasVersion (handles ++ [(handle, start)])
      | _ => refuse
    | .directive _ _ =>
      advance
      readDirectives fuel hasVersion handles
    | _ => return handles

def standardHandles : List (String × String) := [("!", "!"), ("!!", Tag.namespaceText)]

def passEnds (fuel : Nat) : Reader Unit := do
  match fuel with
  | 0 => return ()
  | fuel + 1 => if ← accept .documentEnd then passEnds fuel

def isDirective (t : Token) : Bool :=
  match t with
  | .directive _ _ => true
  | _ => false

/-- The node of the only document; nothing for a text without one. -/
def readDocument (fuel : Nat) : Reader (Option Node) := do
  let first ← peek
  if first == .streamEnd then return none
  let node ←
    if isDirective first || first == .documentStart then
      let handles ← readDirectives fuel false []
      expect .documentStart
      modify fun r => { r with handles := handles ++ standardHandles }
      let next ← peek
      if isDirective next || [.documentStart, .documentEnd, .streamEnd].contains next then pure empty
      else read fuel true false
    else read fuel true false
  passEnds fuel
  if (← peek) == .streamEnd then return some node else refuse

def ofText (text : String) : Except Failure (Option Node) := do
  let tokens ← tokenize text
  return (← (readDocument (4 * tokens.length + 8)).run ⟨tokens, [], standardHandles⟩).1

/-! ## Values -/

def keyOf : Value → Except Failure Scalar
  | .scalar s => .ok s
  | _ => .error .malformed

def distinctKeys (entries : List (Scalar × Value)) : List Scalar :=
  (Entries.insertAll [] entries).map (·.1)

mutual

def toValue : Node → Except Failure Value
  | .scalar tag text => tag.scalarValue text
  | .sequence .seq items => do return .list (← toValues items)
  | .sequence .omap items => do return .list (← toPairs items)
  | .sequence .pairs items => do return .list (← toPairs items)
  | .sequence _ _ => .error .malformed
  | .mapping .map entries => do
    let (merged, own) ← toEntries entries
    return .map (Entries.insertAll [] (merged ++ own))
  | .mapping .set entries => do
    let (merged, own) ← toEntries entries
    return .set (distinctKeys (merged ++ own))
  | .mapping _ _ => .error .malformed

def toValues : List Node → Except Failure (List Value)
  | [] => .ok []
  | node :: rest => do
    let v ← toValue node
    return v :: (← toValues rest)

def toPairs : List Node → Except Failure (List Value)
  | [] => .ok []
  | .mapping _ [(key, value)] :: rest => do
    let k ← toValue key
    let v ← toValue value
    return .list [k, v] :: (← toPairs rest)
  | _ => .error .malformed

/-- The entries that are merged into a mapping, and its own. -/
def toEntries : List (Node × Node) →
    Except Failure (List (Scalar × Value) × List (Scalar × Value))
  | [] => .ok ([], [])
  | (.scalar .merge _, source) :: rest => do
    let added ← toMerged source
    let (merged, own) ← toEntries rest
    return (added ++ merged, own)
  | (.scalar .value text, value) :: rest => do
    let v ← toValue value
    let (merged, own) ← toEntries rest
    return (merged, (.str text, v) :: own)
  | (key, value) :: rest => do
    let k ← keyOf (← toValue key)
    let v ← toValue value
    let (merged, own) ← toEntries rest
    return (merged, (k, v) :: own)

/-- The entries of a mapping to be merged, or of several, of which the first ones win. -/
def toMerged : Node → Except Failure (List (Scalar × Value))
  | .mapping _ entries => do
    let (merged, own) ← toEntries entries
    return merged ++ own
  | .sequence _ items => toMergedAll items
  | .scalar _ _ => .error .malformed

def toMergedAll : List Node → Except Failure (List (Scalar × Value))
  | [] => .ok []
  | .mapping _ entries :: rest => do
    let (merged, own) ← toEntries entries
    return (← toMergedAll rest) ++ merged ++ own
  | _ => .error .malformed

end

end Node

/-- The value of a YAML text; a text without a document has none. -/
def read (text : String) : Except Failure Value := do
  match ← Node.ofText text with
  | some node => node.toValue
  | none => return .null

end Flowline.Yaml
