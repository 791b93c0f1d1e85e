/-
# The options of a connection

The side that dials sends one line of JSON before its first frame: a magic
number, the codec, and two budgets. A budget travels in whole milliseconds, in
a word of 64 bits, and zero bounds nothing. There is no answer to the line.

Key definitions: `Options`, `Options.line`, `Options.parse`, `Options.receive`.
-/
import Callwire.Frame.Stream

namespace Callwire

/-- What the dialing side asks of a connection. -/
structure Options where
  magic : Nat
  codec : Codec
  connectTimeout : Duration
  handleTimeout : Duration
deriving DecidableEq, Repr

namespace Options

/-- The magic number of every connection. -/
def magicNumber : Nat := 0x3bef5c

/-- The most bytes of an options line. -/
def lineLimit : Nat := 4096

/-- Ten seconds to connect, no bound on a call. -/
def default : Options := ⟨magicNumber, .messagePack, .ofSeconds 10, .zero⟩

/-- The milliseconds of a budget on the wire. -/
def wireMillis (d : Duration) : Nat := d.millis % 0x10000000000000000

/-- The options as data: four fields in this order. -/
def toDatum (o : Options) : Datum :=
  .record [("magicNumber", .int o.magic), ("codecID", .text o.codec.id),
    ("connectTimeout", .int (wireMillis o.connectTimeout)),
    ("handleTimeout", .int (wireMillis o.handleTimeout))]

/-- The shape of options. -/
def shape : Shape :=
  .record "ConnectionOptions" [⟨"magicNumber", .int .u32, none⟩, ⟨"codecID", .codec, none⟩,
    ⟨"connectTimeout", .int .u64, none⟩, ⟨"handleTimeout", .int .u64, none⟩]

/-- The options that data of that shape give. -/
def ofDatum? : Datum → Option Options
  | .map [(_, .int magic), (_, .text id), (_, .int connect), (_, .int handle)] =>
    (Codec.ofId? id).map fun codec =>
      ⟨magic.toNat, codec, .ofMillis connect.toNat, .ofMillis handle.toNat⟩
  | _ => none

/-- The magic number is the right one. -/
def check (o : Options) : Except Fault Unit :=
  if o.magic = magicNumber then .ok () else .error (.protocol (.wrongMagic o.magic))

/-- The options as text. -/
def text (o : Options) : Bytes := (Json.write o.toDatum []).reverse

/-- The options on the wire. -/
def line (o : Options) : Bytes := o.text ++ [0x0a]

/-- The options of a line without its end. -/
def parse (bs : Bytes) : Except Fault Options := do
  let d ← (Json.read shape bs).mapError fun e => .protocol (.unreadableOptions e)
  match ofDatum? d with
  | none => throw (.protocol (.unreadableOptions .malformed))
  | some o => do
    o.check
    return o

/-- The options at the front of a stream. -/
def receive (s : Stream) : Except Fault Options × Stream :=
  match s.readLine lineLimit with
  | (.error e, s) => (.error e, s)
  | (.ok none, s) => (.error (.protocol .closedBeforeOptions), s)
  | (.ok (some bs), s) => (parse bs, s)

end Options
end Callwire
