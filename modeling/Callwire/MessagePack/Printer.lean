/-
# Writing data as MessagePack

Every datum has one form: the smallest that holds it. An integer that is not
negative takes the unsigned forms. A record is a map from its names; nothing
is written as a binary or an extension.

The writer puts bytes in front of what it has written, so the output so far is
read last byte first.

Key definitions: `MessagePack.integer`, `MessagePack.string`,
`MessagePack.write`, `MessagePack.print`.
-/
import Callwire.Bytes
import Callwire.Datum

namespace Callwire
namespace MessagePack

/-- The low byte of a number. -/
def byte (n : Nat) : UInt8 := UInt8.ofNat n

/-- An integer that is not negative. -/
def natural (n : Nat) : Bytes :=
  if n < 0x80 then [byte n]
  else if n < 0x100 then 0xcc :: Bytes.word 1 n
  else if n < 0x10000 then 0xcd :: Bytes.word 2 n
  else if n < 0x100000000 then 0xce :: Bytes.word 4 n
  else 0xcf :: Bytes.word 8 n

/-- An integer below zero. -/
def negative (n : Int) : Bytes :=
  if -0x20 ≤ n then [byte (n + 0x100).toNat]
  else if -0x80 ≤ n then 0xd0 :: Bytes.word 1 (n + 0x100).toNat
  else if -0x8000 ≤ n then 0xd1 :: Bytes.word 2 (n + 0x10000).toNat
  else if -0x80000000 ≤ n then 0xd2 :: Bytes.word 4 (n + 0x100000000).toNat
  else 0xd3 :: Bytes.word 8 (n + 0x10000000000000000).toNat

/-- An integer. -/
def integer (n : Int) : Bytes := if n < 0 then negative n else natural n.toNat

/-- What stands before the bytes of a string. -/
def stringHead (len : Nat) : Bytes :=
  if len < 32 then [byte (0xa0 + len)]
  else if len < 0x100 then 0xd9 :: Bytes.word 1 len
  else if len < 0x10000 then 0xda :: Bytes.word 2 len
  else 0xdb :: Bytes.word 4 len

/-- A string. -/
def string (s : String) : Bytes :=
  let bs := Bytes.ofText s
  stringHead bs.length ++ bs

/-- What stands before the items of a list. -/
def listHead (len : Nat) : Bytes :=
  if len < 16 then [byte (0x90 + len)]
  else if len < 0x10000 then 0xdc :: Bytes.word 2 len
  else 0xdd :: Bytes.word 4 len

/-- What stands before the entries of a map. -/
def mapHead (len : Nat) : Bytes :=
  if len < 16 then [byte (0x80 + len)]
  else if len < 0x10000 then 0xde :: Bytes.word 2 len
  else 0xdf :: Bytes.word 4 len

mutual

/-- Writes a datum in front of the output. -/
def write : Datum → Bytes → Bytes
  | .null, out => 0xc0 :: out
  | .bool b, out => (if b then 0xc3 else 0xc2) :: out
  | .int n, out => (integer n).reverse ++ out
  | .double bits, out => (0xcb :: Bytes.word 8 bits.toNat).reverse ++ out
  | .single bits, out => (0xca :: Bytes.word 4 bits.toNat).reverse ++ out
  | .text s, out => (string s).reverse ++ out
  | .list items, out => writeItems items ((listHead items.length).reverse ++ out)
  | .map entries, out => writeEntries entries ((mapHead entries.length).reverse ++ out)

/-- Writes items one after the other. -/
def writeItems : List Datum → Bytes → Bytes
  | [], out => out
  | d :: ds, out => writeItems ds (write d out)

/-- Writes each key and its value one after the other. -/
def writeEntries : List (Datum × Datum) → Bytes → Bytes
  | [], out => out
  | (k, v) :: es, out => writeEntries es (write v (write k out))

end

/-- The MessagePack form of a datum. -/
def print (d : Datum) : Bytes := (write d []).reverse

end MessagePack
end Callwire
