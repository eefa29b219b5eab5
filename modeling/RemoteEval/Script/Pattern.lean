import Mathlib.Computability.Language
import RemoteEval.Script.Lexer

/-!
# Patterns of lexemes

What can stand in a source is declared by patterns (`Pattern`), each with the words it matches
(`Pattern.language`) and with what is read from such a word (`Pattern.read`). A source is cut by
longest match : of all prefixes of what is left that some pattern matches, the longest is taken
(`Longest`). A reserved word is a name, too, and is preferred to it.

`Tiles` is a text that is cut into tokens in this way, with blanks and comments between them
(`Gap`). `Fails` is a place where that ends.
-/

namespace RemoteEval.Script

open scoped Computability

/-! ## Words -/

/-- The words of one character of a class. -/
def oneOf (p : Char → Bool) : Language Char :=
  {word | ∃ c, p c = true ∧ word = [c]}

/-- The one word of a spelling. -/
def spelled (s : String) : Language Char :=
  {s.toList}

/-- A digit, and behind it digits and underscores. -/
def digitWords : Language Char :=
  oneOf Char.isDigit * (oneOf isDigitPart)∗

/-- What can stand between quotes : a character other than the quote and the backslash, or a
backslash with the character it takes with it, which is no newline. -/
def quotedPieces (quote : Char) : Language Char :=
  oneOf (fun c => c ≠ quote && c ≠ '\\') + spelled "\\" * oneOf (· ≠ '\n')

/-- Literals between two quotes. -/
def closedLiterals (quote : Char) : Language Char :=
  oneOf (· = quote) * (quotedPieces quote)∗ * oneOf (· = quote)

/-- Literals without their closing quote, which may end with a backslash. -/
def openLiterals (quote : Char) : Language Char :=
  oneOf (· = quote) * (quotedPieces quote)∗ * (1 + spelled "\\")

/-! ## Patterns -/

/-- What can stand in a source. -/
inductive Pattern where
  /-- Blanks. -/
  | blank
  /-- A comment up to the end of its line. -/
  | comment
  /-- The word of a truth value. -/
  | bool (b : Bool)
  /-- The word for the absence of a value. -/
  | null
  /-- Punctuation or an operator. -/
  | mark (m : Mark)
  /-- A whole number. -/
  | whole
  /-- A number with a fraction. -/
  | fraction
  /-- A text. -/
  | str
  /-- A character. -/
  | char
  /-- A name. -/
  | name
  /-- A text whose closing quote does not come. -/
  | openStr
  /-- A character whose closing quote does not come. -/
  | openChar
deriving DecidableEq, Repr

namespace Pattern

/-- The words a pattern matches. -/
def language : Pattern → Language Char
  | blank => oneOf isGap * (oneOf isGap)∗
  | comment => spelled "//" * (oneOf (· ≠ '\n'))∗
  | bool true => spelled "true"
  | bool false => spelled "false"
  | null => spelled "null"
  | mark m => spelled m.spelling
  | whole => digitWords
  | fraction => digitWords * spelled "." * digitWords
  | str => closedLiterals '"'
  | char => closedLiterals '\''
  | name => oneOf isNameStart * (oneOf isNamePart)∗
  | openStr => openLiterals '"'
  | openChar => openLiterals '\''

/-- What is read from a word that a pattern matches. -/
def read : Pattern → List Char → Lexeme
  | blank, _ | comment, _ => .gap
  | bool b, _ => .token (.bool b)
  | null, _ => .token .null
  | mark m, _ => .token (.mark m)
  | whole, word => wholeNumber word
  | fraction, word =>
    .token (fractionNumber (word.takeWhile (· ≠ '.')) (word.dropWhile (· ≠ '.')).tail)
  | str, word => textLiteral word.tail.dropLast
  | char, word => characterLiteral word.tail.dropLast
  | name, word => .token (.name (String.ofList word))
  | openStr, _ | openChar, _ => .fault .unterminated

/-- Whether a pattern matches a word that would be a name. -/
def isReserved : Pattern → Bool
  | bool _ | null => true
  | _ => false

end Pattern

/-! ## Longest match -/

/-- A pattern matches `word`, and of the words with which `word ++ rest` starts no pattern matches
a longer one. -/
structure Longest (p : Pattern) (word rest : List Char) : Prop where
  /-- The pattern matches the word. -/
  fits : word ∈ p.language
  /-- No pattern matches more of what is left. -/
  longest : ∀ (q : Pattern) (more : List Char), more <+: rest → word ++ more ∈ q.language →
    more = []
  /-- No other pattern matches the word, unless it is a reserved word, which could be a name. -/
  preferred : ∀ q : Pattern, word ∈ q.language → q = p ∨ p.isReserved = true ∧ q = .name

/-- No pattern matches anything with which `text` starts. -/
def Unmatched (text : List Char) : Prop :=
  ∀ (q : Pattern) (word : List Char), word <+: text → word ∉ q.language

/-! ## Tokens in a text -/

/-- Blanks and comments in front of `rest`. -/
inductive Gap (rest : List Char) : List Char → Prop where
  /-- Nothing. -/
  | nil : Gap rest []
  /-- A blank. -/
  | blank {c : Char} {gap : List Char} (hc : isGap c = true) (h : Gap rest gap) :
    Gap rest (c :: gap)
  /-- A comment, which runs to the end of its line or of the source. -/
  | comment {body gap : List Char} (hbody : '\n' ∉ body)
    (hend : ∀ c ∈ (gap ++ rest).head?, c = '\n') (h : Gap rest gap) :
    Gap rest ('/' :: '/' :: body ++ gap)

/-- A text that starts at `offset`, and behind which stands `rest`, is cut into tokens by longest
match, with gaps before, between and behind them. -/
inductive Tiles (rest : List Char) :
    (offset : Nat) → (text : List Char) → (tokens : List (Placed Token)) → Prop where
  /-- No token. -/
  | done {offset : Nat} {gap : List Char} (hgap : Gap rest gap) : Tiles rest offset gap []
  /-- A gap, and the longest word behind it, which is a token, before the other tokens. -/
  | token {offset : Nat} {gap word text : List Char} {p : Pattern} {t : Token}
    {tokens : List (Placed Token)} (hgap : Gap (word ++ text ++ rest) gap)
    (hword : Longest p word (text ++ rest)) (hread : p.read word = .token t)
    (htext : Tiles rest (offset + width (gap ++ word)) text tokens) :
    Tiles rest offset (gap ++ word ++ text)
      (⟨t, offset + width gap, offset + width (gap ++ word)⟩ :: tokens)

/-- At the start of a text that starts at `offset` stands no token. -/
inductive Fails (offset : Nat) : List Char → Placed LexicalFault → Prop where
  /-- What the pattern of the longest word cannot read. -/
  | unreadable {p : Pattern} {word rest : List Char} {f : LexicalFault}
    (hword : Longest p word rest) (hread : p.read word = .fault f) :
    Fails offset (word ++ rest) ⟨f, offset, offset + width word⟩
  /-- A character with which no pattern matches anything. -/
  | unmatched {c : Char} {rest : List Char} (h : Unmatched (c :: rest)) :
    Fails offset (c :: rest) ⟨.unexpected c, offset, offset + c.utf8Size⟩

end RemoteEval.Script
