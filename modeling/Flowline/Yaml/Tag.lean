import Flowline.Json.Read
import Flowline.Value.Number
import Flowline.Yaml.Token

/-!
Tags: the kind of a node, the kind of a plain scalar by the look of its text, and the value that a text
denotes under a tag. Whole numbers may be written in base 2, 8, 16 or 60, and digits may be parted by
underscores.
-/

namespace Flowline.Yaml

/-- The kind of a node. -/
inductive Tag
  | null | bool | int | float | binary | timestamp | omap | pairs | set | str | seq | map | merge
  | value
  /-- A kind that denotes nothing here. -/
  | unknown
deriving Repr, DecidableEq

namespace Tag

/-- What the full names of the known tags begin with. -/
def namespaceText : String := "tag:yaml.org,2002:"

def named : List (String × Tag) := [
  ("null", null), ("bool", bool), ("int", int), ("float", float), ("binary", binary),
  ("timestamp", timestamp), ("omap", omap), ("pairs", pairs), ("set", set), ("str", str), ("seq", seq),
  ("map", map), ("merge", merge), ("value", value)]

def ofName (name : String) : Tag :=
  ((named.find? fun (n, _) => namespaceText ++ n == name).map (·.2)).getD unknown

end Tag

/-! ## The look of a text -/

def nullTexts : List String := ["~", "null", "Null", "NULL", ""]

def trueTexts : List String :=
  ["yes", "Yes", "YES", "true", "True", "TRUE", "on", "On", "ON"]

def falseTexts : List String :=
  ["no", "No", "NO", "false", "False", "FALSE", "off", "Off", "OFF"]

def isDigitOrGap (c : Char) : Bool := c.isDigit || c == '_'

def afterSign (cs : List Char) : List Char :=
  match cs with
  | '+' :: rest => rest
  | '-' :: rest => rest
  | _ => cs

def startsWithDigit (cs : List Char) : Bool := (cs.headD endMark).isDigit

def colonPieces : List Char → List (List Char)
  | [] => [[]]
  | ':' :: rest => [] :: colonPieces rest
  | c :: rest =>
    match colonPieces rest with
    | piece :: pieces => (c :: piece) :: pieces
    | [] => [[c]]

def isSixtieth (cs : List Char) : Bool :=
  match cs with
  | [a] => a.isDigit
  | [a, b] => '0' ≤ a && a ≤ '5' && b.isDigit
  | _ => false

/-- Places in base sixty between colons, at least two. -/
def isSexagesimal (cs : List Char) : Bool :=
  match colonPieces cs with
  | first :: second :: rest =>
    startsWithDigit first && first.all isDigitOrGap && (second :: rest).all isSixtieth
  | _ => false

def looksInt (cs : List Char) : Bool :=
  match afterSign cs with
  | '0' :: 'b' :: rest => !rest.isEmpty && rest.all fun c => c == '0' || c == '1' || c == '_'
  | '0' :: 'x' :: rest => !rest.isEmpty && rest.all fun c => (Json.hexValue? c).isSome || c == '_'
  | '0' :: rest => rest.all fun c => ('0' ≤ c && c ≤ '7') || c == '_'
  | cs => startsWithDigit cs && (cs.all isDigitOrGap || isSexagesimal cs)

def looksExponent (cs : List Char) : Bool :=
  match cs with
  | [] => true
  | e :: sign :: digits =>
    (e == 'e' || e == 'E') && (sign == '+' || sign == '-') && !digits.isEmpty &&
      digits.all Char.isDigit
  | _ => false

def looksFloat (cs : List Char) : Bool :=
  let unsigned := afterSign cs
  let beforePoint := unsigned.takeWhile (· != '.')
  let afterPoint := (unsigned.dropWhile (· != '.')).drop 1
  if !unsigned.contains '.' then false
  else if [".inf", ".Inf", ".INF"].contains (String.ofList unsigned) then true
  else if [".nan", ".NaN", ".NAN"].contains (String.ofList cs) then true
  else if beforePoint.isEmpty then
    unsigned.length = cs.length && startsWithDigit afterPoint &&
      looksExponent (afterPoint.dropWhile isDigitOrGap)
  else if startsWithDigit beforePoint && beforePoint.all isDigitOrGap then
    looksExponent (afterPoint.dropWhile isDigitOrGap)
  else isSexagesimal beforePoint && afterPoint.all isDigitOrGap

/-! ## Times -/

/-- The parts of a time as written; the clock and the offset may be absent. -/
structure TimeText where
  year : Nat
  month : List Char
  day : List Char
  clock? : Option (Nat × Nat × Nat × List Char)
  /-- The sign, hours and minutes of the offset. -/
  offset? : Option (Bool × Nat × Nat)

def decimal (cs : List Char) : Nat := Nat.ofDigitChars 10 cs 0

def takeDigits? (n : Nat) (cs : List Char) : Option (List Char × List Char) :=
  let ds := cs.take n
  if ds.length = n ∧ ds.all Char.isDigit then some (ds, cs.drop n) else none

def takeFewDigits? (cs : List Char) : Option (List Char × List Char) :=
  takeDigits? 2 cs <|> takeDigits? 1 cs

def afterChar? (c : Char) (cs : List Char) : Option (List Char) :=
  match cs with
  | x :: rest => if x == c then some rest else none
  | [] => none

/-- An offset after blanks: none, the letter `Z`, or a sign and hours, perhaps with minutes. -/
def readOffsetText? (cs : List Char) : Option (Option (Bool × Nat × Nat)) :=
  match cs.dropWhile isBlankOrTab with
  | [] => if cs.isEmpty then some none else none
  | 'Z' :: rest => if rest.isEmpty then some (some (false, 0, 0)) else none
  | sign :: rest => do
    if sign != '+' && sign != '-' then none
    let (hours, rest) ← takeFewDigits? rest
    if rest.isEmpty then return some (sign == '-', decimal hours, 0)
    let (minutes, rest) ← takeDigits? 2 (← afterChar? ':' rest)
    if rest.isEmpty then return some (sign == '-', decimal hours, decimal minutes) else none
where
  isBlankOrTab (c : Char) : Bool := c == ' ' || c == '\t'

/-- What separates a date from a clock: the letter `T`, or blanks. -/
def afterSeparator? (cs : List Char) : Option (List Char) :=
  match cs with
  | 'T' :: rest => some rest
  | 't' :: rest => some rest
  | ' ' :: rest => some (rest.dropWhile fun c => c == ' ' || c == '\t')
  | '\t' :: rest => some (rest.dropWhile fun c => c == ' ' || c == '\t')
  | _ => none

def TimeText.read? (cs : List Char) : Option TimeText := do
  let (year, rest) ← takeDigits? 4 cs
  let (month, rest) ← takeFewDigits? (← afterChar? '-' rest)
  let (day, rest) ← takeFewDigits? (← afterChar? '-' rest)
  if rest.isEmpty then return ⟨decimal year, month, day, none, none⟩
  let (hour, rest) ← takeFewDigits? (← afterSeparator? rest)
  let (minute, rest) ← takeDigits? 2 (← afterChar? ':' rest)
  let (second, rest) ← takeDigits? 2 (← afterChar? ':' rest)
  let (fraction, rest) := match rest with
    | '.' :: rest => (rest.takeWhile Char.isDigit, rest.dropWhile Char.isDigit)
    | _ => ([], rest)
  let offset? ← readOffsetText? rest
  return ⟨decimal year, month, day, some (decimal hour, decimal minute, decimal second, fraction),
    offset?⟩

/-- The text looks like a time: a date has two digits for month and day unless a clock follows. -/
def looksTimestamp (cs : List Char) : Bool :=
  match TimeText.read? cs with
  | some t => t.clock?.isSome || (t.month.length = 2 && t.day.length = 2)
  | none => false

/-- The offset in seconds, if it is less than a day. -/
def TimeText.offset (t : TimeText) : Except Fault (Option Int) :=
  match t.offset? with
  | none => .ok none
  | some (negative, hours, minutes) =>
    let seconds : Int := ((hours * 3600 + minutes * 60 : Nat) : Int)
    if seconds < 86400 then .ok (some (if negative then -seconds else seconds))
    else .error .badValue

/-- The date, or the moment where there is a clock. -/
def TimeText.toValue (t : TimeText) : Except Fault Value :=
  match t.clock?, Date.of? t.year (decimal t.month) (decimal t.day) with
  | none, some d => .ok (.date d)
  | some (hour, minute, second, fraction), some d => do
    let offset? ← t.offset
    let micro := decimal ((fraction ++ List.replicate 6 '0').take 6)
    if hour < 24 ∧ minute < 60 ∧ second < 60 then
      return .moment ⟨d, hour, minute, second, micro, offset?⟩
    else throw .badValue
  | _, none => .error .badValue

def Tag.ofPlain (text : String) : Tag :=
  let cs := text.toList
  if trueTexts.contains text || falseTexts.contains text then .bool
  else if looksFloat cs then .float
  else if looksInt cs then .int
  else if text == "<<" then .merge
  else if nullTexts.contains text then .null
  else if looksTimestamp cs then .timestamp
  else if text == "=" then .value
  else .str

/-! ## Values of texts -/

/-- The number that digits denote in a base up to sixteen. -/
def digitsInBase (base : Nat) (cs : List Char) : Except Fault Int :=
  if cs.isEmpty then .error .badValue
  else
    cs.foldlM (fun (n : Int) c =>
      match Json.hexValue? c with
      | some d => if d < base then .ok (n * base + d) else .error .badValue
      | none => .error .badValue) 0

def wholeNumber (cs : List Char) : Except Fault Int :=
  match Numeral.whole? (String.ofList cs) with
  | some n =>
    if n.plain && n.legible && n.size ≤ Value.maxNumeralSize then .ok n.toInt else .error .badValue
  | none => .error .badValue

/-- A double in decimal digits, or a word for one that is not finite. -/
def doubleNumber (cs : List Char) : Except Fault Float :=
  match Numeral.whole? (String.ofList cs) with
  | some n => if n.legible then .ok n.toFloat else .error .badValue
  | none =>
    let word := String.ofList (afterSign cs)
    let negative := cs.headD endMark == '-'
    if word == "inf" || word == "infinity" then
      .ok (if negative then -Double.infinity else Double.infinity)
    else if word == "nan" then .ok Double.nan
    else .error .badValue

def intOf (text : String) : Except Fault Int := do
  let cs := text.toList.filter (· != '_')
  if cs.isEmpty then throw .badIndex
  let unsigned := afterSign cs
  let sign (n : Int) : Int := if cs.headD endMark == '-' then -n else n
  if unsigned == ['0'] then return 0
  match unsigned with
  | [] => throw .badIndex
  | '0' :: 'b' :: digits => return sign (← digitsInBase 2 digits)
  | '0' :: 'x' :: digits => return sign (← digitsInBase 16 digits)
  | '0' :: _ => return sign (← digitsInBase 8 unsigned)
  | _ =>
    let places ← (colonPieces unsigned).mapM wholeNumber
    return sign (places.foldl (fun n place => n * 60 + place) 0)

/-- The sum of places in base sixty, the last one first. -/
def sexagesimalSum (sum base : Float) : List Float → Float
  | [] => sum
  | place :: rest => sexagesimalSum (sum + place * base) (base * 60) rest

def floatOf (text : String) : Except Fault Float := do
  let cs := (text.toList.filter (· != '_')).map Char.toLower
  if cs.isEmpty then throw .badIndex
  let unsigned := afterSign cs
  let sign (x : Float) : Float := if cs.headD endMark == '-' then -x else x
  if String.ofList unsigned == ".inf" then return sign Double.infinity
  if String.ofList unsigned == ".nan" then return Double.nan
  if unsigned.contains ':' then
    let places ← (colonPieces unsigned).mapM doubleNumber
    return sign (sexagesimalSum 0 1 places.reverse)
  return sign (← doubleNumber unsigned)

def boolOf (text : String) : Except Fault Bool :=
  let word := text.toLower
  if ["yes", "true", "on"].contains word then .ok true
  else if ["no", "false", "off"].contains word then .ok false
  else .error .missingKey

/-- The six bits that a character of binary data stands for. -/
def sixBits? (c : Char) : Option Nat :=
  if 'A' ≤ c ∧ c ≤ 'Z' then some (c.toNat - 65)
  else if 'a' ≤ c ∧ c ≤ 'z' then some (c.toNat - 71)
  else if c.isDigit then some (c.toNat + 4)
  else if c == '+' then some 62
  else if c == '/' then some 63
  else none

/-- The bytes of groups of four characters; padding ends the last group, other characters are skipped.
The accumulator holds the bits of the group so far and their characters. -/
def binaryBytes (bits count pads : Nat) : List Char → Option (List UInt8)
  | [] => if count = 0 then some [] else none
  | c :: rest =>
    if c == '=' then
      if 2 ≤ count && 4 ≤ count + pads + 1 then some []
      else binaryBytes bits count (if 2 ≤ count then pads + 1 else pads) rest
    else
      match sixBits? c with
      | none => binaryBytes bits count pads rest
      | some n =>
        let bits := bits * 64 + n
        let emit (b : Nat) (tail : Option (List UInt8)) : Option (List UInt8) :=
          tail.map (b.toUInt8 :: ·)
        if count = 0 then binaryBytes n 1 0 rest
        else if count = 1 then emit (bits / 16) (binaryBytes (bits % 16) 2 0 rest)
        else if count = 2 then emit (bits / 4) (binaryBytes (bits % 4) 3 0 rest)
        else emit bits (binaryBytes 0 0 0 rest)

/-- The value of a text under a tag for scalars; other tags need parts. -/
def Tag.scalarValue (tag : Tag) (text : String) : Except Failure Value :=
  let denoting (r : Except Fault Value) : Except Failure Value :=
    match r with
    | .ok v => .ok v
    | .error fault => .error (.scalar fault)
  match tag with
  | .null => .ok .null
  | .bool => denoting ((boolOf text).map .bool)
  | .int => denoting ((intOf text).map .int)
  | .float => denoting ((floatOf text).map .float)
  | .str => .ok (.str text)
  | .timestamp =>
    match TimeText.read? text.toList with
    | some t => denoting t.toValue
    | none => .error (.scalar .noMember)
  | .binary =>
    if text.toList.all (·.toNat < 128) then
      match binaryBytes 0 0 0 text.toList with
      | some bytes => .ok (.scalar (.bytes bytes))
      | none => .error .malformed
    else .error .malformed
  | _ => .error .malformed

end Flowline.Yaml
