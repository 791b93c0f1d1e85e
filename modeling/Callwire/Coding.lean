/-
# Writing and reading data with a codec

A fault says what went wrong. Where a text stands in the place of something else
it gives the whole text, however long that is.

Key definitions: `Json.describe`, `CodecFault`, `CodecFault.message`, `Codec.encode`,
`Codec.decode`.
-/
import Callwire.Codec
import Callwire.Json.Printer
import Callwire.Json.Reader
import Callwire.MessagePack.Printer
import Callwire.MessagePack.Reader

namespace Callwire

/-- What went wrong in a JSON text, and where a stray text ends. A position at the
end of a codec's name is taken for the place of the fault, which is not told. -/
def Json.describe (why : Unread Text.Position) : String :=
  Text.withoutPosition why.message ++ (why.place?.map Text.Position.text).getD ""

/-- Why a codec did not write or read. There is no fault of writing MessagePack:
every datum has a form in it. -/
inductive CodecFault where
  | jsonWrite
  | jsonRead (why : Unread Text.Position)
  | packRead (why : Unread Unit)
deriving DecidableEq, Repr

namespace CodecFault

/-- The text of the fault. -/
def message : CodecFault → String
  | jsonWrite => "JSON error: key must be a string"
  | jsonRead why => "JSON error: " ++ Json.describe why
  | packRead why => "MsgPack decode error: " ++ why.message

end CodecFault

namespace Codec

/-- The bytes of a datum. A value that fails while it is being written out is no
datum, and is left out. -/
def encode : Codec → Datum → Except CodecFault Bytes
  | messagePack, d => .ok (MessagePack.print d)
  | json, d => match Json.print? d with
    | some bs => .ok bs
    | none => .error .jsonWrite

/-- The datum of a shape in bytes. -/
def decode : Codec → Shape → Bytes → Except CodecFault Datum
  | messagePack, shape, bs => (MessagePack.read shape bs).mapError .packRead
  | json, shape, bs => (Json.read shape bs).mapError .jsonRead

end Codec
end Callwire
