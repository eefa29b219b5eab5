import RemoteEval.Text.Utf8

/-!
# What octets read as

Octets need not be the encoding of a text. What they read as is a relation (`Reads`) : the octets of
a character read as that character, and where no character stands, the longest run of octets with
which one begins, or else a single octet, reads as one replacement character (`IsFlaw`).
-/

namespace RemoteEval.Text

/-- The encoding of some character begins with a run of octets. -/
def BeginsCharacter (run : List UInt8) : Prop :=
  ∃ c : Char, run <+: String.utf8EncodeChar c

/-- A run of octets that is part of no character, in front of others. -/
structure IsFlaw (run rest : List UInt8) : Prop where
  /-- It holds some octets. -/
  ne_nil : run ≠ []
  /-- No character stands where it starts. -/
  no_character : ∀ c : Char, ¬String.utf8EncodeChar c <+: run ++ rest
  /-- A character begins with it, unless it is a single octet. -/
  begins : BeginsCharacter run ∨ run.length = 1
  /-- No character begins with it and the octet behind it. -/
  longest : ∀ b ∈ rest.head?, ¬BeginsCharacter (run ++ [b])

/-- The characters that octets read as. -/
inductive Reads : List UInt8 → List Char → Prop
  | nil : Reads [] []
  | character {bs : List UInt8} {cs : List Char} (c : Char) (h : Reads bs cs) :
      Reads (String.utf8EncodeChar c ++ bs) (c :: cs)
  | flaw {run bs : List UInt8} {cs : List Char} (hrun : IsFlaw run bs) (h : Reads bs cs) :
      Reads (run ++ bs) (replacement :: cs)

end RemoteEval.Text
