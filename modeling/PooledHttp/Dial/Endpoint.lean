import PooledHttp.Text.Decimal

/-!
# Network addresses

Addresses of both families and the endpoints made of an address and a port. An address is read in
the usual forms: four decimal octets without leading zeros, or up to eight groups of at most four
hexadecimal digits, where `::` stands for one or more groups of zero and the last two groups may be
written as four octets. It is written in its shortest form: the longest run of two or more zero
groups, the first one of equals, becomes `::`.
-/

set_option autoImplicit false

namespace PooledHttp

/-- An address: four octets or eight groups of sixteen bits. -/
inductive IpAddress where
  | v4 (octets : List Nat)
  | v6 (groups : List Nat)
  deriving DecidableEq, Repr

/-- An address and a port. An address of eight groups can be bound to a zone of the machine's
network; zone zero stands for none. -/
structure Endpoint where
  address : IpAddress
  zone : Nat
  port : Nat
  deriving DecidableEq, Repr

namespace IpAddress

/-- One octet: up to three digits, without a leading zero. -/
def octet? (t : Text) : Option Nat :=
  if Decimal.isNumeral t && decide (t.length ≤ 3) && !(t.head? == some '0' && decide (1 < t.length))
      && decide (Decimal.value t ≤ 255) then some (Decimal.value t)
  else none

/-- Four octets with dots between them. -/
def octets? (t : Text) : Option (List Nat) :=
  let pieces := Text.cut '.' t
  if pieces.length = 4 then pieces.mapM octet? else none

/-- The value of a hexadecimal digit. -/
def hexDigit? (c : Char) : Option Nat :=
  if c.isDigit then some (c.toNat - '0'.toNat)
  else if 'a' ≤ c && c ≤ 'f' then some (c.toNat - 'a'.toNat + 10)
  else if 'A' ≤ c && c ≤ 'F' then some (c.toNat - 'A'.toNat + 10)
  else none

/-- One group: up to four hexadecimal digits. -/
def group? (t : Text) : Option Nat :=
  if t.isEmpty || decide (4 < t.length) then none
  else (t.mapM hexDigit?).map fun ds => ds.foldl (fun n d => 16 * n + d) 0

/-- Groups with colons between them; the last piece may be four octets, which make two groups. -/
def groups? : List Text → Option (List Nat)
  | [] => some []
  | [last] =>
    match octets? last with
    | some [a, b, c, d] => some [256 * a + b, 256 * c + d]
    | _ => (group? last).map ([·])
  | piece :: rest => do return (← group? piece) :: (← groups? rest)

/-- Groups that may be missing altogether. -/
def someGroups? (t : Text) : Option (List Nat) := if t.isEmpty then some [] else groups? (Text.cut ':' t)

/-- The text before the first `::` and the text after it. -/
def cutGap? : Text → Option (Text × Text)
  | ':' :: ':' :: rest => some ([], rest)
  | c :: rest => (cutGap? rest).map fun (a, b) => (c :: a, b)
  | [] => none

/-- Eight groups, some of which may be left out once. -/
def ofGroups? (t : Text) : Option (List Nat) :=
  match cutGap? t with
  | none => (groups? (Text.cut ':' t)).bind fun gs => if gs.length = 8 then some gs else none
  | some (front, back) =>
    if '.' ∈ front then none
    else do
      let head ← someGroups? front
      let tail ← someGroups? back
      if head.length + tail.length ≤ 7 then
        return head ++ List.replicate (8 - head.length - tail.length) 0 ++ tail
      else none

/-- Read an address of either family. -/
def read? (t : Text) : Option IpAddress :=
  match octets? t with
  | some os => some (.v4 os)
  | none => (ofGroups? t).map .v6

/-- Octets with dots between them. -/
def writeOctets (os : List Nat) : Text := List.intercalate ['.'] (os.map Decimal.write)

/-- Groups with colons between them. -/
def writeGroups (gs : List Nat) : Text := List.intercalate [':'] (gs.map (Nat.toDigits 16))

/-- The number of zeros at the front. -/
def zeroRun (gs : List Nat) : Nat := (gs.takeWhile (· == 0)).length

/-- Where the longest run of zeros starts, and its length; the first one of equals. -/
def longestRun (gs : List Nat) : Nat × Nat :=
  (List.range gs.length).foldl (fun best i =>
    if zeroRun (gs.drop i) > best.2 then (i, zeroRun (gs.drop i)) else best) (0, 0)

/-- Write an address. -/
def write : IpAddress → Text
  | .v4 os => writeOctets os
  | .v6 gs =>
    match gs with
    | [0, 0, 0, 0, 0, 0xffff, a, b] =>
      "::ffff:".toList ++ writeOctets [a / 256, a % 256, b / 256, b % 256]
    | _ =>
      let (start, length) := longestRun gs
      if length > 1 then
        writeGroups (gs.take start) ++ "::".toList ++ writeGroups (gs.drop (start + length))
      else writeGroups gs

end IpAddress

namespace Endpoint

/-- The largest number of a zone. -/
def maxZone : Nat := UInt32.size - 1

/-- A number of at most `limit` without a sign. -/
def number? (limit : Nat) (t : Text) : Option Nat :=
  if Decimal.isNumeral t then Decimal.read? limit t else none

/-- An address of eight groups, and its zone after a percent sign. -/
def zoned? (t : Text) : Option (List Nat × Nat) :=
  match Text.cutOnce? '%' t with
  | some (groups, zone) => do return (← IpAddress.ofGroups? groups, ← number? maxZone zone)
  | none => (IpAddress.ofGroups? t).map fun gs => (gs, 0)

/-- Read an endpoint: an address of four octets or an address in brackets, a colon and a port. -/
def read? (t : Text) : Option Endpoint :=
  match t with
  | '[' :: rest =>
    match Text.cutOnce? ']' rest with
    | some (address, ':' :: port) => do
      let (gs, zone) ← zoned? address
      return ⟨.v6 gs, zone, ← number? Decimal.maxPort port⟩
    | _ => none
  | _ => match Text.cutOnce? ':' t with
    | some (octets, port) => do
      return ⟨.v4 (← IpAddress.octets? octets), 0, ← number? Decimal.maxPort port⟩
    | none => none

/-- Write an endpoint. -/
def write (e : Endpoint) : Text :=
  (match e.address with
    | .v4 _ => e.address.write
    | .v6 _ =>
      let zone := if e.zone = 0 then [] else '%' :: Decimal.write e.zone
      '[' :: e.address.write ++ zone ++ [']']) ++ ':' :: Decimal.write e.port

/-- The written form as a string, for messages. -/
def name (e : Endpoint) : String := String.ofList e.write

end Endpoint
end PooledHttp
