import Flowline.Fault
import Flowline.Text.Blank
import Flowline.Text.Digit

/-!
Tokens of the expression language. `tokenize` cuts a text into tokens and drops the blanks between them;
each token keeps its text and its place, and the last one marks the end.
-/

namespace Flowline.Expression

open Text

/-- What a token is. -/
inductive TokenKind
  | number | string | name | operator
  | leftParen | rightParen | leftBracket | rightBracket | leftBrace | rightBrace
  | comma | colon | dot | stop
deriving Repr, DecidableEq, Inhabited

def TokenKind.label : TokenKind → String
  | .number => "NUMBER"
  | .string => "STRING"
  | .name => "IDENT"
  | .operator => "OP"
  | .leftParen => "LPAREN"
  | .rightParen => "RPAREN"
  | .leftBracket => "LBRACKET"
  | .rightBracket => "RBRACKET"
  | .leftBrace => "LBRACE"
  | .rightBrace => "RBRACE"
  | .comma => "COMMA"
  | .colon => "COLON"
  | .dot => "DOT"
  | .stop => "EOF"

/-- A piece of an expression with its place, counted in characters. -/
structure Token where
  kind : TokenKind
  text : String
  position : Nat
deriving Repr, DecidableEq, Inhabited

/-! ## Where tokens end

A size counts the characters of a token after its first one. -/

def countWhile (p : Char → Bool) (cs : List Char) : Nat := (cs.takeWhile p).length

/-- Size of a point and the digits after it, or nothing. -/
def fractionSize : List Char → Nat
  | '.' :: rest =>
    match countWhile isDecimal rest with
    | 0 => 0
    | n => n + 1
  | _ => 0

def exponentSize : List Char → Nat
  | e :: rest =>
    if e == 'e' || e == 'E' then
      match rest with
      | '+' :: digits | '-' :: digits =>
        match countWhile isDecimal digits with
        | 0 => 0
        | n => n + 2
      | digits =>
        match countWhile isDecimal digits with
        | 0 => 0
        | n => n + 1
    else 0
  | [] => 0

def numberSize (rest : List Char) : Nat :=
  let whole := countWhile isDecimal rest
  let rest := rest.drop whole
  let fraction := fractionSize rest
  whole + fraction + exponentSize (rest.drop fraction)

/-- Size of a string after its opening quote, its closing quote included. A backslash takes the next
character with it, and that is on the same line. -/
def stringSize? (quote : Char) : List Char → Option Nat
  | [] => none
  | '\\' :: c :: rest => if c == '\n' then none else (stringSize? quote rest).map (· + 2)
  | c :: rest =>
    if c == quote then some 1
    else if c == '\\' then none
    else (stringSize? quote rest).map (· + 1)

def isNameStart (c : Char) : Bool := c.isAlpha || c == '_'

def isNameChar (c : Char) : Bool := c.isAlphanum || c == '_'

/-- Size of an operator after its first character. The longest operator wins. -/
def operatorSize? (c : Char) (rest : List Char) : Option Nat :=
  match c, rest with
  | '=', '=' :: '=' :: _ => some 2
  | '!', '=' :: '=' :: _ => some 2
  | '=', '=' :: _ => some 1
  | '!', '=' :: _ => some 1
  | '>', '=' :: _ => some 1
  | '<', '=' :: _ => some 1
  | '&', '&' :: _ => some 1
  | '|', '|' :: _ => some 1
  | c, _ => if ['<', '>', '!', '+', '-', '*', '/', '%'].contains c then some 0 else none

def markKind? (c : Char) : Option TokenKind :=
  match c with
  | '(' => some .leftParen
  | ')' => some .rightParen
  | '[' => some .leftBracket
  | ']' => some .rightBracket
  | '\x7b' => some .leftBrace
  | '\x7d' => some .rightBrace
  | ',' => some .comma
  | ':' => some .colon
  | '.' => some .dot
  | _ => none

/-- What starts with a character, and its size; no kind stands for blanks. -/
def lexeme? (c : Char) (rest : List Char) : Option (Option TokenKind × Nat) :=
  if isBlank c then some (none, countWhile isBlank rest)
  else if isDecimal c then some (some .number, numberSize rest)
  else if c == '"' || c == '\'' then (stringSize? c rest).map fun n => (some .string, n)
  else if isNameStart c then some (some .name, countWhile isNameChar rest)
  else
    match operatorSize? c rest with
    | some n => some (some .operator, n)
    | none => (markKind? c).map fun kind => (some kind, 0)

/-! ## Cutting -/

/-- The tokens of a text that begins at a position, the end mark included. -/
def tokensFrom (position : Nat) : List Char → Except ExpressionFault (List Token)
  | [] => .ok [⟨.stop, "", position⟩]
  | c :: rest =>
    match lexeme? c rest with
    | none => .error (.unexpectedCharacter c position)
    | some (kind?, size) => do
      let tokens ← tokensFrom (position + size + 1) (rest.drop size)
      match kind? with
      | some kind => return ⟨kind, String.ofList (c :: rest.take size), position⟩ :: tokens
      | none => return tokens
termination_by cs => cs.length
decreasing_by simp only [List.length_drop, List.length_cons]; omega

def tokenize (s : String) : Except ExpressionFault (List Token) :=
  tokensFrom 0 s.toList

end Flowline.Expression
