/-!
# Texts as octets

`encode` writes a text in UTF-8. `decode` reads any octets back : a decoder stands between
two characters or inside one (`Decoder`), and each longest run of octets that begins a
character but does not finish it becomes one replacement character. `decode?` reads only
octets that are the encoding of a text.
-/

namespace RemoteEval.Text

/-- The octets of a text, character after character. -/
def encode (s : String) : List UInt8 :=
  s.toList.flatMap String.utf8EncodeChar

/-- The character written for octets that are part of none. -/
def replacement : Char := '\uFFFD'

/-- Where a decoder stands between two octets. -/
inductive Decoder where
  /-- Between two characters. -/
  | between
  /-- Inside a character : the next octet lies between `low` and `high`, `later` octets follow
  it, and `code` holds the bits read so far. -/
  | inside (later : Nat) (low high : UInt8) (code : Nat)
deriving DecidableEq, Repr

/-- Read the first octet of a character. -/
def Decoder.start (b : UInt8) : List Char × Decoder :=
  if b < 0x80 then ([Char.ofNat b.toNat], .between)
  else if b < 0xC2 then ([replacement], .between)
  else if b < 0xE0 then ([], .inside 0 0x80 0xBF (b.toNat - 0xC0))
  else if b == 0xE0 then ([], .inside 1 0xA0 0xBF 0)
  else if b == 0xED then ([], .inside 1 0x80 0x9F 0xD)
  else if b < 0xF0 then ([], .inside 1 0x80 0xBF (b.toNat - 0xE0))
  else if b == 0xF0 then ([], .inside 2 0x90 0xBF 0)
  else if b < 0xF4 then ([], .inside 2 0x80 0xBF (b.toNat - 0xF0))
  else if b == 0xF4 then ([], .inside 2 0x80 0x8F 4)
  else ([replacement], .between)

/-- Read one octet. An octet that cannot go on with the character begun before it closes that
character as a replacement and is read as a first octet. -/
def Decoder.step : Decoder → UInt8 → List Char × Decoder
  | .between, b => Decoder.start b
  | .inside later low high code, b =>
    if low ≤ b && b ≤ high then
      let code := code * 64 + (b.toNat - 0x80)
      match later with
      | 0 => ([Char.ofNat code], .between)
      | later + 1 => ([], .inside later 0x80 0xBF code)
    else
      let (written, next) := Decoder.start b
      (replacement :: written, next)

/-- What the end of the octets leaves : a replacement for a character cut short. -/
def Decoder.finish : Decoder → List Char
  | .between => []
  | .inside .. => [replacement]

/-- The characters read from octets by a decoder that stands at `p`. -/
def decodeFrom : Decoder → List UInt8 → List Char
  | p, [] => p.finish
  | p, b :: bs => (p.step b).1 ++ decodeFrom (p.step b).2 bs

/-- The text of any octets, with a replacement character for each run that is no character. -/
def decode (bs : List UInt8) : String :=
  String.ofList (decodeFrom .between bs)

/-- The text whose encoding the octets are, if there is one. -/
def decode? (bs : List UInt8) : Option String :=
  if encode (decode bs) = bs then some (decode bs) else none

/-- How many octets a text takes. -/
def octetCount (s : String) : Nat :=
  (encode s).length

end RemoteEval.Text
