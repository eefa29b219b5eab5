/-!
# Settings as text

Settings are written in a notation of nulls, truth values, numbers, texts, lists and named
members. `Json.read?` reads a text of exactly one value, and `Json.write` writes a value
without blanks. Of the literals only those have a value here that a setting can hold, natural
numbers and texts ; any other number, and a text that holds half of a surrogate pair, is read
as its spelling (`Json.other`, `Name.other`).
-/

namespace RemoteEval.Config

/-- The name of a member. -/
inductive Name where
  /-- A text. -/
  | text (s : String)
  /-- A name that is no text, as it is spelled. -/
  | other (spelling : String)
deriving DecidableEq, Repr

/-- A value of the notation. -/
inductive Json where
  /-- The absence of a value. -/
  | null
  /-- A truth value. -/
  | bool (b : Bool)
  /-- A number without sign, fraction or exponent. -/
  | natural (n : Nat)
  /-- A text. -/
  | text (s : String)
  /-- A literal that no setting holds, as it is spelled. -/
  | other (spelling : String)
  /-- Values in order. -/
  | list (items : List Json)
  /-- Values with their names, in order. -/
  | members (fields : List (Name × Json))

instance : Inhabited Json := ⟨.null⟩

namespace Json

/-- A name as a value. -/
def ofName : Name → Json
  | .text s => text s
  | .other spelling => other spelling

/-- Values with their names. -/
def ofFields (fields : List (String × Json)) : Json :=
  members (fields.map fun f => (.text f.1, f.2))

/-! ## Writing -/

/-- A control character as an escape. -/
def controlEscape (c : Char) : List Char :=
  let digits := Nat.toDigits 16 c.toNat
  ['\\', 'u'] ++ List.replicate (4 - digits.length) '0' ++ digits

/-- A character of a text. -/
def escapedChar (c : Char) : List Char :=
  match c with
  | '"' => ['\\', '"']
  | '\\' => ['\\', '\\']
  | '\x08' => ['\\', 'b']
  | '\x0c' => ['\\', 'f']
  | '\n' => ['\\', 'n']
  | '\r' => ['\\', 'r']
  | '\t' => ['\\', 't']
  | c => if c.toNat < 0x20 then controlEscape c else [c]

/-- A text between quotes. -/
def writeText (s : String) : List Char :=
  '"' :: s.toList.flatMap escapedChar ++ ['"']

/-- The characters of a name. -/
def nameChars : Name → List Char
  | .text s => writeText s
  | .other spelling => spelling.toList

mutual

/-- The characters of a value. -/
def chars : Json → List Char
  | null => "null".toList
  | bool true => "true".toList
  | bool false => "false".toList
  | natural n => Nat.toDigits 10 n
  | text s => writeText s
  | other spelling => spelling.toList
  | list [] => ['[', ']']
  | list (v :: rest) => '[' :: v.chars ++ itemChars rest
  | members [] => ['\x7b', '\x7d']
  | members ((name, v) :: rest) =>
    '\x7b' :: nameChars name ++ ':' :: v.chars ++ memberChars rest

/-- The rest of a list, with its end. -/
def itemChars : List Json → List Char
  | [] => [']']
  | v :: rest => ',' :: v.chars ++ itemChars rest

/-- The rest of some members, with their end. -/
def memberChars : List (Name × Json) → List Char
  | [] => ['\x7d']
  | (name, v) :: rest => ',' :: nameChars name ++ ':' :: v.chars ++ memberChars rest

end

/-- The text of a value. -/
def write (j : Json) : String := String.ofList j.chars

/-! ## Reading literals -/

/-- Characters that may stand between others. -/
def isBlank (c : Char) : Bool :=
  c = ' ' || c = '\n' || c = '\t' || c = '\r'

/-- Drop blanks. -/
def skip (cs : List Char) : List Char := cs.dropWhile isBlank

/-- The value of a hexadecimal digit. -/
def hexDigit? (c : Char) : Option Nat :=
  if '0' ≤ c ∧ c ≤ '9' then some (c.toNat - '0'.toNat)
  else if 'a' ≤ c ∧ c ≤ 'f' then some (c.toNat - 'a'.toNat + 10)
  else if 'A' ≤ c ∧ c ≤ 'F' then some (c.toNat - 'A'.toNat + 10)
  else none

/-- The value of four hexadecimal digits. -/
def hexUnit? (a b c d : Char) : Option Nat := do
  return (((← hexDigit? a) * 16 + (← hexDigit? b)) * 16 + (← hexDigit? c)) * 16 + (← hexDigit? d)

/-- The character that a short escape stands for. -/
def shortEscape? : Char → Option Char
  | '"' => some '"'
  | '\\' => some '\\'
  | '/' => some '/'
  | 'b' => some '\x08'
  | 'f' => some '\x0c'
  | 'n' => some '\n'
  | 'r' => some '\r'
  | 't' => some '\t'
  | _ => none

/-- The code units of a text behind its opening quote, and what follows the closing one. A
character that is written as itself or by a short escape counts as one unit. -/
def units? : List Char → Option (List Nat × List Char)
  | [] => none
  | c :: rest =>
    if c = '"' then some ([], rest)
    else if c = '\\' then
      match rest with
      | 'u' :: a :: b :: c :: d :: more =>
        match hexUnit? a b c d, units? more with
        | some n, some (ns, after) => some (n :: ns, after)
        | _, _ => none
      | e :: more =>
        match shortEscape? e, units? more with
        | some s, some (ns, after) => some (s.toNat :: ns, after)
        | _, _ => none
      | [] => none
    else if c.toNat < 0x20 then none
    else
      match units? rest with
      | some (ns, after) => some (c.toNat :: ns, after)
      | none => none

/-- Whether a unit is the first half of a surrogate pair. -/
def isLeadingHalf (n : Nat) : Bool := 0xD800 ≤ n && n < 0xDC00

/-- Whether a unit is the second half of a surrogate pair. -/
def isTrailingHalf (n : Nat) : Bool := 0xDC00 ≤ n && n < 0xE000

/-- The characters of code units, if each half of a surrogate pair has the other. -/
def pairUp? : List Nat → Option (List Char)
  | [] => some []
  | n :: rest =>
    if isLeadingHalf n then
      match rest with
      | m :: more =>
        if isTrailingHalf m then
          (pairUp? more).map (Char.ofNat (0x10000 + (n - 0xD800) * 0x400 + (m - 0xDC00)) :: ·)
        else none
      | [] => none
    else if isTrailingHalf n then none
    else (pairUp? rest).map (Char.ofNat n :: ·)

/-- A name behind its opening quote. -/
def readName? (cs : List Char) : Option (Name × List Char) :=
  match units? cs with
  | some (ns, after) =>
    match pairUp? ns with
    | some s => some (.text (String.ofList s), after)
    | none => some (.other (String.ofList ('"' :: cs.take (cs.length - after.length))), after)
  | none => none

/-- A text behind its opening quote. -/
def readText? (cs : List Char) : Option (Json × List Char) :=
  (readName? cs).map fun (name, after) => (ofName name, after)

/-- Digits at the start of characters. -/
def digits (cs : List Char) : List Char := cs.takeWhile Char.isDigit

/-- A whole number at the start of characters : a zero, or digits that start with none. -/
def whole (cs : List Char) : List Char :=
  if cs.head? = some '0' then ['0'] else digits cs

/-- A fraction at the start of characters, if there is a point : at least one digit. -/
def fraction? (cs : List Char) : Option (List Char) :=
  match cs with
  | '.' :: rest => if digits rest = [] then none else some ('.' :: digits rest)
  | _ => some []

/-- An exponent at the start of characters, if there is its letter : at least one digit, and a
sign before it or none. -/
def exponent? (cs : List Char) : Option (List Char) :=
  match cs with
  | e :: rest =>
    if e = 'e' || e = 'E' then
      let sign := rest.take 1 |>.filter fun c => c = '+' || c = '-'
      let ds := digits (rest.drop sign.length)
      if ds = [] then none else some (e :: sign ++ ds)
    else some []
  | [] => some []

/-- The value of decimal digits. -/
def naturalOf (ds : List Char) : Nat :=
  ds.foldl (fun n c => 10 * n + (c.toNat - '0'.toNat)) 0

/-- A number at the start of characters. -/
def readNumber? (cs : List Char) : Option (Json × List Char) := do
  let sign := cs.take 1 |>.filter (· = '-')
  let first := whole (cs.drop sign.length)
  if first = [] then none
  let rest := cs.drop (sign.length + first.length)
  let part ← fraction? rest
  let rest := rest.drop part.length
  let power ← exponent? rest
  let after := rest.drop power.length
  let spelling := sign ++ first ++ part ++ power
  if spelling = first then some (natural (naturalOf first), after)
  else some (other (String.ofList spelling), after)

/-- What follows a word, if the characters start with it. -/
def after? (word : String) (cs : List Char) : Option (List Char) :=
  if word.toList.isPrefixOf cs then some (cs.drop word.length) else none

/-- A word or a number. -/
def readPlain? (cs : List Char) : Option (Json × List Char) :=
  match after? "null" cs, after? "true" cs, after? "false" cs with
  | some rest, _, _ => some (null, rest)
  | _, some rest, _ => some (bool true, rest)
  | _, _, some rest => some (bool false, rest)
  | _, _, _ => readNumber? cs

/-! ## Reading values -/

mutual

/-- A value at the start of characters, found in at most `fuel` steps. -/
def value? : (fuel : Nat) → List Char → Option (Json × List Char)
  | 0, _ => none
  | fuel + 1, cs =>
    match skip cs with
    | '"' :: rest => readText? rest
    | '[' :: rest =>
      match skip rest with
      | ']' :: after => some (list [], after)
      | _ =>
        match items? fuel rest with
        | some (vs, after) => some (list vs, after)
        | none => none
    | '\x7b' :: rest =>
      match skip rest with
      | '\x7d' :: after => some (members [], after)
      | _ =>
        match fields? fuel rest with
        | some (fs, after) => some (members fs, after)
        | none => none
    | rest => readPlain? rest

/-- The items of a list that is not empty, up to its end. -/
def items? : (fuel : Nat) → List Char → Option (List Json × List Char)
  | 0, _ => none
  | fuel + 1, cs =>
    match value? fuel cs with
    | none => none
    | some (v, rest) =>
      match skip rest with
      | ']' :: after => some ([v], after)
      | ',' :: rest =>
        match items? fuel rest with
        | some (vs, after) => some (v :: vs, after)
        | none => none
      | _ => none

/-- The members of an object that is not empty, up to its end. -/
def fields? : (fuel : Nat) → List Char → Option (List (Name × Json) × List Char)
  | 0, _ => none
  | fuel + 1, cs =>
    match skip cs with
    | '"' :: rest =>
      match readName? rest with
      | some (name, rest) =>
        match skip rest with
        | ':' :: rest =>
          match value? fuel rest with
          | none => none
          | some (v, rest) =>
            match skip rest with
            | '\x7d' :: after => some ([(name, v)], after)
            | ',' :: rest =>
              match fields? fuel rest with
              | some (fs, after) => some ((name, v) :: fs, after)
              | none => none
            | _ => none
        | _ => none
      | none => none
    | _ => none

end

/-- The value that a text is, if it is exactly one. -/
def read? (s : String) : Option Json :=
  match value? (s.toList.length + 1) s.toList with
  | some (v, rest) => if skip rest = [] then some v else none
  | none => none

end Json

end RemoteEval.Config
