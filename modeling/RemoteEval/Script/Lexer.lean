import RemoteEval.Script.Position
import RemoteEval.Script.Token

/-!
# From characters to tokens

`scan` finds the longest lexeme at the start of characters : a gap of blanks or a comment, a
token, or a fault. `tokenize` scans a whole source, drops the gaps and stops at the first
fault. A literal whose closing quote never comes is a fault of its own (`unterminated`),
because more input can still close it.
-/

namespace RemoteEval.Script

/-- Why characters are no token. -/
inductive LexicalFault where
  /-- A character with which no token starts. -/
  | unexpected (c : Char)
  /-- A literal that is not closed. -/
  | unterminated
  /-- A backslash before a character that means nothing after one. -/
  | unknownEscape (c : Char)
  /-- A whole number out of range, as it was written. -/
  | invalidNumber (digits : String)
  /-- A character literal that holds nothing. -/
  | emptyCharacter
  /-- A character literal that holds several characters. -/
  | crowdedCharacter
deriving DecidableEq, Repr

/-- What a fault says. -/
def LexicalFault.message : LexicalFault → String
  | unexpected c => "unexpected character `" ++ String.singleton c ++ "`"
  | unterminated => "unterminated literal"
  | unknownEscape c => "unknown escape sequence `\\" ++ String.singleton c ++ "`"
  | invalidNumber digits => "invalid number `" ++ digits ++ "`"
  | emptyCharacter => "empty character literal"
  | crowdedCharacter => "too many characters in character literal"

/-- What stands at the start of characters. -/
inductive Lexeme where
  /-- Blanks or a comment. -/
  | gap
  /-- A token. -/
  | token (t : Token)
  /-- Characters that are no token. -/
  | fault (f : LexicalFault)
deriving DecidableEq

/-! ## Character classes -/

/-- Blanks between tokens. -/
def isGap (c : Char) : Bool :=
  c = ' ' || c = '\t' || c = '\r' || c = '\n' || c = '\x0c'

/-- Characters inside a number : digits, and underscores that mean nothing. -/
def isDigitPart (c : Char) : Bool :=
  c.isDigit || c = '_'

/-- Characters with which a name starts. -/
def isNameStart (c : Char) : Bool :=
  c.isAlpha || c = '_'

/-- Characters inside a name. -/
def isNamePart (c : Char) : Bool :=
  c.isAlphanum || c = '_'

/-! ## Numbers -/

/-- The number that decimal digits spell, underscores aside. -/
def digitsValue (cs : List Char) : Nat :=
  (cs.filter Char.isDigit).foldl (fun n c => 10 * n + (c.toNat - '0'.toNat)) 0

/-- One more than the largest whole number. -/
def intLimit : Nat := 1 <<< 63

/-- The lexeme of a whole number. -/
def wholeNumber (digits : List Char) : Lexeme :=
  if digitsValue digits < intLimit then .token (.int (Int64.ofNat (digitsValue digits)))
  else .fault (.invalidNumber (String.ofList digits))

/-- The token of a number with a fraction : the nearest floating-point number. -/
def fractionNumber (whole fraction : List Char) : Token :=
  .float (Float.ofScientific (digitsValue (whole ++ fraction)) true
    (fraction.filter Char.isDigit).length)

/-- A number that starts with the digit `c`, and how many characters follow `c` in it. -/
def scanNumber (c : Char) (cs : List Char) : Lexeme × Nat :=
  let run := cs.takeWhile isDigitPart
  match cs.drop run.length with
  | '.' :: d :: more =>
    if d.isDigit then
      let fraction := d :: more.takeWhile isDigitPart
      (.token (fractionNumber (c :: run) fraction), run.length + 1 + fraction.length)
    else (wholeNumber (c :: run), run.length)
  | _ => (wholeNumber (c :: run), run.length)

/-! ## Names -/

/-- The token of a word : a reserved word or a name. -/
def wordToken (word : List Char) : Token :=
  match String.ofList word with
  | "true" => .bool true
  | "false" => .bool false
  | "null" => .null
  | other => .name other

/-! ## Literals -/

/-- The characters up to the closing quote, if it comes. A backslash takes the next character
with it, which must not be a newline. -/
def literalBody? (quote : Char) : List Char → Option (List Char)
  | [] => none
  | c :: rest =>
    if c = quote then some []
    else if c = '\\' then
      match rest with
      | [] => none
      | d :: more => if d = '\n' then none else (literalBody? quote more).map (c :: d :: ·)
    else (literalBody? quote rest).map (c :: ·)

/-- The characters of a literal that is not closed : all of them, but none behind a backslash that
stands before a newline. -/
def openBody (quote : Char) : List Char → List Char
  | [] => []
  | c :: rest =>
    if c = quote then []
    else if c = '\\' then
      match rest with
      | [] => [c]
      | d :: more => if d = '\n' then [c] else c :: d :: openBody quote more
    else c :: openBody quote rest

/-- The character that a backslash makes of the next one. -/
def escape? : Char → Option Char
  | 'n' => some '\n'
  | 't' => some '\t'
  | 'r' => some '\r'
  | '0' => some '\x00'
  | '"' => some '"'
  | '\'' => some '\''
  | '\\' => some '\\'
  | _ => none

/-- Replace every escape by what it stands for. -/
def unescape : List Char → Except LexicalFault (List Char)
  | [] => .ok []
  | c :: rest =>
    if c = '\\' then
      match rest with
      | [] => .error .unterminated
      | d :: more =>
        match escape? d with
        | some e => (unescape more).map (e :: ·)
        | none => .error (.unknownEscape d)
    else (unescape rest).map (c :: ·)

/-- The lexeme of a closed text literal. -/
def textLiteral (body : List Char) : Lexeme :=
  match unescape body with
  | .ok cs => .token (.str (String.ofList cs))
  | .error f => .fault f

/-- The lexeme of a closed character literal. -/
def characterLiteral (body : List Char) : Lexeme :=
  match unescape body with
  | .ok [] => .fault .emptyCharacter
  | .ok [c] => .token (.char c)
  | .ok _ => .fault .crowdedCharacter
  | .error f => .fault f

/-- A literal behind its opening quote, and how many characters follow that quote in it. -/
def scanLiteral (quote : Char) (lexeme : List Char → Lexeme) (cs : List Char) : Lexeme × Nat :=
  match literalBody? quote cs with
  | some body => (lexeme body, body.length + 1)
  | none => (.fault .unterminated, (openBody quote cs).length)

/-! ## Marks -/

/-- A mark that starts with `c`, two characters before one. -/
def scanMark (c : Char) (cs : List Char) : Lexeme × Nat :=
  match cs.head?.bind (Mark.pair? c) with
  | some m => (.token (.mark m), 1)
  | none =>
    match Mark.single? c with
    | some m => (.token (.mark m), 0)
    | none => (.fault (.unexpected c), 0)

/-! ## The scanner -/

/-- The longest lexeme that starts with `c`, and how many characters follow `c` in it. -/
def scan (c : Char) (cs : List Char) : Lexeme × Nat :=
  if isGap c then (.gap, (cs.takeWhile isGap).length)
  else if c = '/' && cs.head? = some '/' then (.gap, (cs.takeWhile (· ≠ '\n')).length)
  else if c.isDigit then scanNumber c cs
  else if isNameStart c then
    let run := cs.takeWhile isNamePart
    (.token (wordToken (c :: run)), run.length)
  else if c = '"' then scanLiteral '"' textLiteral cs
  else if c = '\'' then scanLiteral '\'' characterLiteral cs
  else scanMark c cs

/-- The tokens of characters that start at `offset`, of which the first `skip` belong to the
lexeme before. -/
def tokensFrom (offset : Nat) :
    (skip : Nat) → List Char → Except (Placed LexicalFault) (List (Placed Token))
  | _, [] => .ok []
  | skip + 1, c :: cs => tokensFrom (offset + c.utf8Size) skip cs
  | 0, c :: cs =>
    let (lexeme, more) := scan c cs
    let stop := offset + width (c :: cs.take more)
    match lexeme with
    | .gap => tokensFrom (offset + c.utf8Size) more cs
    | .token t =>
      match tokensFrom (offset + c.utf8Size) more cs with
      | .ok rest => .ok (⟨t, offset, stop⟩ :: rest)
      | .error f => .error f
    | .fault f => .error ⟨f, offset, stop⟩

/-- The tokens of a source, or its first fault. -/
def tokenize (source : List Char) : Except (Placed LexicalFault) (List (Placed Token)) :=
  tokensFrom 0 0 source

end RemoteEval.Script
