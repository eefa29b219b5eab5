import RemoteEval.Number.Notation

/-!
# Tokens

The words of the script language : punctuation and operators (`Mark`), literals and names.
`Token.shown` is how a message names a token.
-/

namespace RemoteEval.Script

/-- Punctuation and operators. -/
inductive Mark where
  | equal | notEqual | lessEqual | greaterEqual | bothHold | eitherHolds
  | assign | bang | less | greater | plus | minus | star | slash | percent
  | openParen | closeParen | openBracket | closeBracket | openBrace | closeBrace
  | comma | colon | semicolon
deriving DecidableEq, Repr

namespace Mark

/-- How a mark is written. -/
def spelling : Mark → String
  | equal => "=="
  | notEqual => "!="
  | lessEqual => "<="
  | greaterEqual => ">="
  | bothHold => "&&"
  | eitherHolds => "||"
  | assign => "="
  | bang => "!"
  | less => "<"
  | greater => ">"
  | plus => "+"
  | minus => "-"
  | star => "*"
  | slash => "/"
  | percent => "%"
  | openParen => "("
  | closeParen => ")"
  | openBracket => "["
  | closeBracket => "]"
  | openBrace => "\x7b"
  | closeBrace => "\x7d"
  | comma => ","
  | colon => ":"
  | semicolon => ";"

/-- The mark that two characters spell. -/
def pair? : Char → Char → Option Mark
  | '=', '=' => some equal
  | '!', '=' => some notEqual
  | '<', '=' => some lessEqual
  | '>', '=' => some greaterEqual
  | '&', '&' => some bothHold
  | '|', '|' => some eitherHolds
  | _, _ => none

/-- The mark that one character spells. -/
def single? : Char → Option Mark
  | '=' => some assign
  | '!' => some bang
  | '<' => some less
  | '>' => some greater
  | '+' => some plus
  | '-' => some minus
  | '*' => some star
  | '/' => some slash
  | '%' => some percent
  | '(' => some openParen
  | ')' => some closeParen
  | '[' => some openBracket
  | ']' => some closeBracket
  | '\x7b' => some openBrace
  | '\x7d' => some closeBrace
  | ',' => some comma
  | ':' => some colon
  | ';' => some semicolon
  | _ => none

end Mark

/-- A word of the language. -/
inductive Token where
  /-- Punctuation or an operator. -/
  | mark (m : Mark)
  /-- The word of a truth value. -/
  | bool (b : Bool)
  /-- The word for the absence of a value. -/
  | null
  /-- A whole number. -/
  | int (i : Int64)
  /-- A number with a fraction. -/
  | float (x : Float)
  /-- A text. -/
  | str (s : String)
  /-- A character. -/
  | char (c : Char)
  /-- A name. -/
  | name (n : String)
deriving DecidableEq

/-- How a message names a token. -/
def Token.shown : Token → String
  | mark m => "`" ++ m.spelling ++ "`"
  | bool true => "true"
  | bool false => "false"
  | null => "null"
  | int i => toString i.toInt
  | float x => Number.Layout.plain.text x
  | str _ => "string literal"
  | char _ => "character literal"
  | name n => n

end RemoteEval.Script
