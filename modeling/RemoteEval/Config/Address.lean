/-!
# Socket addresses

An address with a port, as four octets or as eight groups of sixteen bits. `Address.text` is
its shortest form and `Address.ofText?` reads any form.
-/

namespace RemoteEval.Config

/-- Four octets. -/
structure Octets where
  /-- First octet. -/
  a : UInt8
  /-- Second octet. -/
  b : UInt8
  /-- Third octet. -/
  c : UInt8
  /-- Fourth octet. -/
  d : UInt8
deriving DecidableEq, Repr

/-- Eight groups. -/
structure Groups where
  /-- The groups in order. -/
  items : List UInt16
  /-- There are eight. -/
  count : items.length = 8
deriving DecidableEq, Repr

/-- An address with a port. -/
inductive Address where
  /-- Four octets and a port. -/
  | v4 (host : Octets) (port : UInt16)
  /-- Eight groups, a zone or zero, and a port. -/
  | v6 (host : Groups) (zone : UInt32) (port : UInt16)
deriving DecidableEq, Repr

/-! ## Writing -/

/-- Decimal digits. -/
def decimal (n : Nat) : List Char := Nat.toDigits 10 n

/-- Four octets with dots. -/
def Octets.chars (o : Octets) : List Char :=
  decimal o.a.toNat ++ '.' :: decimal o.b.toNat ++ '.' :: decimal o.c.toNat ++
    '.' :: decimal o.d.toNat

/-- Groups in hexadecimal with colons. -/
def groupChars : List UInt16 → List Char
  | [] => []
  | [g] => Nat.toDigits 16 g.toNat
  | g :: rest => Nat.toDigits 16 g.toNat ++ ':' :: groupChars rest

/-- How many groups at the start are zero. -/
def leadingZeros (gs : List UInt16) : Nat := (gs.takeWhile (· = 0)).length

/-- Where the first longest run of zeros starts and how long it is, for groups from place `i`
on. -/
def longestZeros (i : Nat) : List UInt16 → Nat × Nat
  | [] => (i, 0)
  | g :: rest =>
    let here := leadingZeros (g :: rest)
    let (j, n) := longestZeros (i + 1) rest
    if n ≤ here then (i, here) else (j, n)

/-- The octets of an address of which the groups before are zeros and ones only. -/
def Groups.mapped? (g : Groups) : Option Octets :=
  match g.items with
  | [0, 0, 0, 0, 0, 0xFFFF, x, y] =>
    some ⟨(x >>> 8).toUInt8, x.toUInt8, (y >>> 8).toUInt8, y.toUInt8⟩
  | _ => none

/-- Eight groups, the longest run of at least two zeros left out. -/
def Groups.chars (g : Groups) : List Char :=
  match g.mapped? with
  | some o => "::ffff:".toList ++ o.chars
  | none =>
    let (i, n) := longestZeros 0 g.items
    if 1 < n then
      groupChars (g.items.take i) ++ ':' :: ':' :: groupChars (g.items.drop (i + n))
    else groupChars g.items

namespace Address

/-- The characters of an address. -/
def chars : Address → List Char
  | v4 host port => host.chars ++ ':' :: decimal port.toNat
  | v6 host zone port =>
    let zoneChars := if zone = 0 then [] else '%' :: decimal zone.toNat
    '[' :: host.chars ++ zoneChars ++ ']' :: ':' :: decimal port.toNat

/-- The text of an address. -/
def text (a : Address) : String := String.ofList a.chars

end Address

/-! ## Reading -/

/-- Something read from the start of characters, and what follows it. -/
abbrev Reader (α : Type) := List Char → Option (α × List Char)

/-- The value of a digit in a base of at most sixteen. -/
def digit? (base : Nat) (c : Char) : Option Nat :=
  let n :=
    if '0' ≤ c ∧ c ≤ '9' then c.toNat - '0'.toNat
    else if 'a' ≤ c ∧ c ≤ 'f' then c.toNat - 'a'.toNat + 10
    else if 'A' ≤ c ∧ c ≤ 'F' then c.toNat - 'A'.toNat + 10
    else base
  if n < base then some n else none

/-- All digits at the start of characters. -/
def digitRun (base : Nat) : List Char → List Nat × List Char
  | [] => ([], [])
  | c :: rest =>
    match digit? base c with
    | some n => ((n :: (digitRun base rest).1), (digitRun base rest).2)
    | none => ([], c :: rest)

/-- A number below `limit`, of all the digits at the start of characters. -/
def number? (base limit : Nat) : Reader Nat := fun cs =>
  let (ds, rest) := digitRun base cs
  let n := ds.foldl (fun n d => base * n + d) 0
  if ds = [] || limit ≤ n then none else some (n, rest)

/-- A given character. -/
def given? (c : Char) : Reader Unit
  | d :: rest => if d = c then some ((), rest) else none
  | [] => none

/-- One octet : at most three digits, of which the first of several is no zero. -/
def octet? : Reader UInt8 := fun cs =>
  let ds := (digitRun 10 cs).1
  if 3 < ds.length || (1 < ds.length && ds.head? = some 0) then none
  else (number? 10 256 cs).map fun (n, rest) => (UInt8.ofNat n, rest)

/-- Four octets with dots. -/
def octets? : Reader Octets := fun cs => do
  let (a, cs) ← octet? cs
  let ((), cs) ← given? '.' cs
  let (b, cs) ← octet? cs
  let ((), cs) ← given? '.' cs
  let (c, cs) ← octet? cs
  let ((), cs) ← given? '.' cs
  let (d, cs) ← octet? cs
  return (⟨a, b, c, d⟩, cs)

/-- A number as parts of a short form are written : hexadecimal behind `0x`, octal behind a zero,
else decimal. -/
def part? : Reader Nat
  | '0' :: 'x' :: rest | '0' :: 'X' :: rest => number? 16 (1 <<< 32) rest
  | '0' :: rest => number? 8 (1 <<< 32) ('0' :: rest)
  | cs => number? 10 (1 <<< 32) cs

/-- Parts with dots, at most `limit` of them. -/
def parts? : (limit : Nat) → Reader (List Nat)
  | 0, _ => none
  | limit + 1, cs =>
    match part? cs with
    | some (n, '.' :: rest) => (parts? limit rest).map fun (ns, rest) => (n :: ns, rest)
    | some (n, rest) => some ([n], rest)
    | none => none

/-- The octets of a number below `2 ^ 32`, the highest first. -/
def Octets.ofNumber (n : Nat) : Octets :=
  ⟨UInt8.ofNat (n >>> 24), UInt8.ofNat (n >>> 16), UInt8.ofNat (n >>> 8), UInt8.ofNat n⟩

/-- The number that parts stand for of which `places` octets are left : each part is one octet,
and the last one all that are left. -/
def numberOfParts? : (places : Nat) → List Nat → Option Nat
  | _, [] => none
  | places, [n] => if n < 1 <<< (8 * places) then some n else none
  | places, n :: rest =>
    if n < 256 then (numberOfParts? (places - 1) rest).map (n <<< (8 * (places - 1)) + ·) else none

/-- Four octets in a short form : up to four parts, of which the last fills what the others
leave. -/
def shortOctets? : Reader Octets := fun cs => do
  let (ns, rest) ← parts? 4 cs
  let n ← numberOfParts? 4 ns
  return (.ofNumber n, rest)

/-- One group : at most four hexadecimal digits. -/
def group? : Reader UInt16 := fun cs =>
  if 4 < (digitRun 16 cs).1.length then none
  else (number? 16 65536 cs).map fun (n, rest) => (UInt16.ofNat n, rest)

/-- What stands behind a separator, which only the first item goes without. -/
def separated? {α : Type} (first : Bool) (item : Reader α) : Reader α := fun cs =>
  if first then item cs
  else
    match given? ':' cs with
    | some ((), rest) => item rest
    | none => none

/-- Two octets as a group. -/
def groupOfOctets (high low : UInt8) : UInt16 :=
  high.toUInt16 * 256 + low.toUInt16

/-- As many groups as there are, at most `limit`, the last two perhaps as four octets ; whether
they are, and what follows. -/
def groups (first : Bool) : (limit : Nat) → List Char → List UInt16 × Bool × List Char
  | 0, cs => ([], false, cs)
  | limit + 1, cs =>
    match (if limit = 0 then none else separated? first octets? cs) with
    | some (o, rest) => ([groupOfOctets o.a o.b, groupOfOctets o.c o.d], true, rest)
    | none =>
      match separated? first group? cs with
      | some (g, rest) =>
        let (gs, embedded, rest) := groups false limit rest
        (g :: gs, embedded, rest)
      | none => ([], false, cs)

/-- Eight groups, of which one run may be left out. -/
def groups? : Reader Groups := fun cs => do
  let (front, embedded, rest) := groups true 8 cs
  if h : front.length = 8 then return (⟨front, h⟩, rest)
  if embedded then none
  let ((), rest) ← given? ':' rest
  let ((), rest) ← given? ':' rest
  let (back, _, rest) := groups true (7 - front.length) rest
  let items := front ++ List.replicate (8 - front.length - back.length) 0 ++ back
  if h : items.length = 8 then return (⟨items, h⟩, rest)
  none

/-- A colon and a port. -/
def port? : Reader UInt16 := fun cs => do
  let ((), cs) ← given? ':' cs
  let (n, cs) ← number? 10 65536 cs
  return (UInt16.ofNat n, cs)

/-- A percent sign and a zone, or nothing. -/
def zone? : Reader UInt32 := fun cs =>
  match given? '%' cs with
  | some ((), rest) => (number? 10 (1 <<< 32) rest).map fun (n, rest) => (UInt32.ofNat n, rest)
  | none => some (0, cs)

namespace Address

/-- An address of four octets. -/
def readV4? : Reader Address := fun cs => do
  let (host, cs) ← octets? cs
  let (port, cs) ← port? cs
  return (v4 host port, cs)

/-- An address of eight groups. -/
def readV6? : Reader Address := fun cs => do
  let ((), cs) ← given? '[' cs
  let (host, cs) ← groups? cs
  let (zone, cs) ← zone? cs
  let ((), cs) ← given? ']' cs
  let (port, cs) ← port? cs
  return (v6 host zone port, cs)

/-- The address that a text is. -/
def ofText? (s : String) : Option Address :=
  match (readV4? s.toList).orElse fun _ => readV6? s.toList with
  | some (a, []) => some a
  | _ => none

end Address

end RemoteEval.Config
