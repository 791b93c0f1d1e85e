/-
# Frames

A frame is an encoded header and an encoded body behind the lengths of both,
two words of 32 bits. The lengths keep frames apart whatever the codec is. A
frame has a header that is not empty and not above `maxHeaderSize`, and a body
within a limit that each side sets for what it reads.

Key definitions: `Lengths`, `Lengths.check`, `Lengths.ofParts`, `Frame`,
`Frame.build`, `Frame.encode`, `Frame.readHeader`, `Frame.readBody`.
-/
import Callwire.Fault
import Callwire.Header

namespace Callwire

/-- The greatest size of an encoded body that a side writes, and reads unless
it is told otherwise. -/
def maxBodySize : Nat := 67108864

/-- The lengths before a frame. -/
structure Lengths where
  header : Nat
  body : Nat
deriving DecidableEq, Repr

namespace Lengths

/-- How many bytes the lengths take. -/
def size : Nat := 8

/-- The bytes of the lengths. -/
def encode (l : Lengths) : Bytes := Bytes.word 4 l.header ++ Bytes.word 4 l.body

theorem length_encode (l : Lengths) : l.encode.length = size := by
  simp [encode, Bytes.length_word, size]

/-- The lengths at the front of the bytes, if they are all there. -/
def decode? (bs : Bytes) : Option Lengths :=
  match Bytes.split? 4 bs with
  | none => none
  | some (h, rest) => (Bytes.split? 4 rest).map fun p => ⟨Bytes.toNat h, Bytes.toNat p.1⟩

/-- The lengths keep the limits. -/
def check (l : Lengths) (limit : Nat) : Except FramingFault Unit :=
  if l.header = 0 then .error .emptyHeader
  else if maxHeaderSize < l.header then .error (.headerTooLarge l.header)
  else if limit < l.body then .error (.bodyTooLarge l.body limit)
  else .ok ()

/-- The lengths of two parts, if words hold them and they keep the limits. -/
def ofParts (header body limit : Nat) : Except FramingFault Lengths :=
  if 0x100000000 ≤ header then .error (.headerTooLarge header)
  else if 0x100000000 ≤ body then .error (.bodyTooLarge body limit)
  else
    let l : Lengths := ⟨header, body⟩
    match l.check limit with
    | .error e => .error e
    | .ok () => .ok l

/-- The bytes of the whole frame. -/
def total (l : Lengths) : Nat := size + l.header + l.body

end Lengths

/-- A frame: the bytes of its header and of its body. -/
structure Frame where
  header : Bytes
  body : Bytes
deriving DecidableEq, Repr, Inhabited

namespace Frame

/-- The lengths of the frame's parts. -/
def lengths (f : Frame) : Lengths := ⟨f.header.length, f.body.length⟩

/-- The frame on the wire. -/
def toBytes (f : Frame) : Bytes := f.lengths.encode ++ f.header ++ f.body

/-- A frame of two encoded parts, if they keep the limits. -/
def build (header body : Bytes) : Except FramingFault Frame :=
  match Lengths.ofParts header.length body.length maxBodySize with
  | .error e => .error e
  | .ok _ => .ok ⟨header, body⟩

/-- A frame of an encoded header and body, if they keep the limits. -/
def ofHeader (codec : Codec) (h : Header) (body : Bytes) : Except Fault Frame := do
  let header ← (codec.encode h.toDatum).mapError .codec
  (build header body).mapError .framing

/-- A frame of a header and a body. The header is encoded first. -/
def encode (codec : Codec) (h : Header) (body : Datum) : Except Fault Frame := do
  let header ← (codec.encode h.toDatum).mapError .codec
  let body ← (codec.encode body).mapError .codec
  (build header body).mapError .framing

/-- The frame's header. -/
def readHeader (f : Frame) (codec : Codec) : Except Fault Header :=
  match codec.decode Header.shape f.header with
  | .error e => .error (.framing (.unreadableHeader e))
  | .ok d => match Header.ofDatum? d with
    | some h => .ok h
    | none => .error (.framing (.unreadableHeader (.packRead .malformed)))

/-- The frame's body, as a value of a shape. -/
def readBody (f : Frame) (codec : Codec) (shape : Shape) : Except Fault Datum :=
  (codec.decode shape f.body).mapError .codec

end Frame
end Callwire
