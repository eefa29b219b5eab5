import RemoteEval.Text.Hidden

/-!
# Quoted texts

A text is shown between quotes with its quotes, its backslashes, the usual control
characters and every hidden character escaped (`quoted`), a single character likewise between
single quotes (`quotedChar`).
-/

namespace RemoteEval.Text

/-- A code point in braces, in lower-case hexadecimal. -/
def codePointEscape (c : Char) : List Char :=
  ['\\', 'u', '\x7b'] ++ Nat.toDigits 16 c.toNat ++ ['\x7d']

/-- A character inside quotes of the kind `quote`. -/
def escaped (quote : Char) (c : Char) : List Char :=
  match c with
  | '\x00' => ['\\', '0']
  | '\t' => ['\\', 't']
  | '\r' => ['\\', 'r']
  | '\n' => ['\\', 'n']
  | '\\' => ['\\', '\\']
  | c =>
    if c = quote then ['\\', c]
    else if isHidden c then codePointEscape c
    else [c]

/-- A text between double quotes. -/
def quoted (s : String) : String :=
  String.ofList ('"' :: s.toList.flatMap (escaped '"') ++ ['"'])

/-- A character between single quotes. -/
def quotedChar (c : Char) : String :=
  String.ofList ('\'' :: escaped '\'' c ++ ['\''])

end RemoteEval.Text
