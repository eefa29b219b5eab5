import RemoteEval.Script.Lexer
import RemoteEval.Script.Nesting
import RemoteEval.Script.Parser

/-!
# Reading a source

`parse` reads a whole source : its tokens, then the nesting limit, then its statements. The
first of these that fails decides (`Refusal`). A literal without its closing quote and an
open statement both make the source incomplete.
-/

namespace RemoteEval.Script

/-- Why a source is no program. -/
inductive Malformation where
  /-- Characters that are no token. -/
  | lexical (fault : LexicalFault)
  /-- Too much is open. -/
  | tooDeep
  /-- A token with which no program goes on. -/
  | unexpected (t : Token)

/-- What a malformation says. -/
def Malformation.message : Malformation → String
  | lexical fault => fault.message
  | tooDeep => "nesting too deep (limit " ++ toString nestingLimit ++ ")"
  | unexpected t => "unexpected " ++ t.shown

/-- Why a source is not read as a program. -/
inductive Refusal where
  /-- More input is needed. -/
  | incomplete
  /-- No further input helps. -/
  | malformed (position : Position) (cause : Malformation)

/-- The refusal of a source for its characters. -/
def Refusal.ofLexical (source : List Char) (f : Placed LexicalFault) : Refusal :=
  match f.item with
  | .unterminated => .incomplete
  | fault => .malformed (Position.locate source f.start) (.lexical fault)

/-- Read tokens as a program. -/
def parseTokens (source : List Char) (tokens : List (Placed Token)) : Except Refusal Program :=
  match firstTooDeep? tokens with
  | some t => .error (.malformed (Position.locate source t.start) .tooDeep)
  | none =>
    match judge tokens with
    | .program p => .ok p
    | .incomplete => .error .incomplete
    | .unexpected t =>
      .error (.malformed (Position.locate source t.start) (.unexpected t.item))

/-- Read a source as a program. -/
def parse (source : List Char) : Except Refusal Program :=
  match tokenize source with
  | .error f => .error (Refusal.ofLexical source f)
  | .ok tokens => parseTokens source tokens

end RemoteEval.Script
