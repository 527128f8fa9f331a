/-! # Pids of members

A member of a factory is named after the factory and an identifier: sixteen random bytes in which a
version and a variant are marked, written in hexadecimal groups.
-/
namespace Provisioning
namespace MemberPid

/-- Sixteen bytes, as they are drawn or as an identifier. -/
abbrev Bytes := Vector UInt8 16

/-- The pid of a member, from the pid of its factory and sixteen random bytes, for a way of
marking bytes as an identifier and a way of writing an identifier. -/
def mintBy (marking : Bytes → Bytes) (writing : Bytes → String) (factoryPid : String)
    (draw : Bytes) : String :=
  factoryPid ++ "." ++ writing (marking draw)

/-- Marks the version in the seventh byte and the variant in the ninth. -/
def markAt (place : Nat) (byte : UInt8) : UInt8 :=
  if place = 6 then (byte &&& 0x0F) ||| 0x40
  else if place = 8 then (byte &&& 0x3F) ||| 0x80
  else byte

/-- Marks sixteen bytes as an identifier. -/
def mark (draw : Bytes) : Bytes := draw.mapIdx markAt

/-- The two lower-case hexadecimal digits of a byte. -/
def hex (byte : UInt8) : List Char :=
  [Nat.digitChar (byte.toNat / 16), Nat.digitChar (byte.toNat % 16)]

/-- The places in front of which a hyphen stands. -/
def startsGroup (place : Nat) : Bool := place == 4 || place == 6 || place == 8 || place == 10

/-- The digits of the bytes from a place on, in groups of 4, 2, 2, 2 and 6 bytes. -/
def grouped (place : Nat) : List UInt8 → List Char
  | [] => []
  | b :: rest => (if startsGroup place then ['-'] else []) ++ hex b ++ grouped (place + 1) rest

/-- Writes an identifier. -/
def write (id : Bytes) : String := String.ofList (grouped 0 id.toList)

/-- The pid of a member, from the pid of its factory and sixteen random bytes. -/
def mint : String → Bytes → String := mintBy mark write

end MemberPid
end Provisioning
