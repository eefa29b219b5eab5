import RemoteEval.Text.Pieces

/-!
# Resource lists on the wire

Identities travel as one text with a separator between each two. The empty text is the empty
list.
-/

namespace RemoteEval.Wire

/-- The character between two identities. -/
def separator : Char := ';'

/-- Identities as one text. -/
def joinIdentities (ids : List String) : String :=
  String.ofList (Text.glue separator (ids.map String.toList))

/-- The identities of a text. -/
def splitIdentities (body : String) : List String :=
  if body = "" then [] else (Text.pieces separator body.toList).map String.ofList

end RemoteEval.Wire
