/-
# A sample service

One method of every kind a service can have: arithmetic that overflows, text,
failures, a crash, replies that cannot be written, data of any shape, and
methods that take their time or change their receiver.

Key definitions: `Sample.Receiver`, `Sample.Kind`, `Kind.method`, `Sample.service`.
-/
import Callwire.Service

namespace Callwire
namespace Sample

/-- What the methods act on: a number that tells receivers apart and a total. -/
structure Receiver where
  id : Nat := 0
  total : Int := 0
deriving DecidableEq, Repr

/-- What the runtime says of a panic, but for the number of the task. -/
def panicked : String := "task panicked"

/-- The kinds of methods. -/
inductive Kind where
  | sum | add | neg | echo | len | fail | unit | id | big | any | half | bad | panic | sleep
  | grow | total
deriving DecidableEq, Repr

namespace Kind

/-- The kinds in order. -/
def all : List Kind :=
  [sum, add, neg, echo, len, fail, unit, id, big, any, half, bad, panic, sleep, grow, total]

/-- The name of the kind's own method. -/
def name : Kind → String
  | sum => "Sum"
  | add => "Add"
  | neg => "Neg"
  | echo => "Echo"
  | len => "Len"
  | fail => "Fail"
  | unit => "Unit"
  | id => "Id"
  | big => "Big"
  | any => "Any"
  | half => "Half"
  | bad => "Bad"
  | panic => "Panic"
  | sleep => "Sleep"
  | grow => "Grow"
  | total => "Total"

/-- The kind of a name. -/
def ofName? (s : String) : Option Kind := all.find? (·.name == s)

/-- The shape of the argument. -/
def argument : Kind → Shape
  | sum => .record "Args" [⟨"num1", .int .i32, none⟩, ⟨"num2", .int .i32, none⟩]
  | add => .tuple [.int .i32, .int .i32]
  | neg => .scalar (.int .i64)
  | echo | len | fail => .scalar .text
  | unit | id | total => .scalar .unit
  | big => .scalar (.int .usize)
  | sleep => .scalar (.int .u64)
  | any => .any
  | half => .optional (.int .i32)
  | bad => .scalar (.int .i32)
  | panic => .scalar .bool
  | grow => .tuple [.int .u64, .int .i64]

/-- An integer reply of a width, or the failure of a method whose result has no room. -/
def bounded (w : Width) (n : Int) : Outcome :=
  if w.holds n then .reply (.int n) else .failure "overflow"

/-- Adds to the total, which is a word of 64 bits. -/
def growBy (r : Receiver) (n : Int) : Receiver := { r with total := (r.total + n).bmod 0x10000000000000000 }

/-- What a method does at once, given its argument. A text of `2^63` bytes or more
has no room anywhere. -/
def act (k : Kind) (argument : Datum) (r : Receiver) : Receiver × Outcome :=
  match k, argument with
  | sum, .map [(_, .int a), (_, .int b)] => (r, bounded .i32 (a + b))
  | add, .list [.int a, .int b] => (r, bounded .i32 (a + b))
  | neg, .int n => (r, bounded .i64 (-n))
  | echo, .text s => (r, .reply (.text s))
  | len, .text s => (r, .reply (.int s.utf8ByteSize))
  | fail, .text s => (r, .failure s)
  | unit, _ => (r, .reply .null)
  | id, _ => (r, .reply (.int r.id))
  | big, .int n =>
    (r, if n < 0x8000000000000000 then .reply (.text ("".pushn 'x' n.toNat)) else .crash panicked)
  | any, d => (r, .reply d)
  | half, .int n => (r, .reply (.int (n.tdiv 2)))
  | half, _ => (r, .reply .null)
  | bad, .int n => (r, .reply (.map [(Datum.ints [n, n], .int n)]))
  | panic, .bool b => (r, if b then .crash panicked else .reply (.bool false))
  | sleep, .int n => (r, .reply (.int n))
  | grow, .list [_, .int n] =>
    let r := growBy r n
    (r, .reply (.int r.total))
  | total, _ => (r, .reply (.int r.total))
  | _, _ => (r, .crash panicked)

/-- How long a method waits, given its argument. -/
def wait (k : Kind) (argument : Datum) : Duration :=
  match k, argument with
  | sleep, .int n => .ofMillis n.toNat
  | grow, .list [.int n, _] => .ofMillis n.toNat
  | _, _ => .zero

/-- The method of a kind. -/
def method (k : Kind) : Method Receiver where
  argument := k.argument
  run d := ⟨k.wait d, k.act d⟩

end Kind

/-- A service with methods of given names and kinds. -/
def service (name : String) (id : Nat) (methods : List (String × Method Receiver)) :
    Service Receiver :=
  methods.foldl (fun s m => s.add m.1 m.2) { name := name, receiver := { id := id } }

end Sample
end Callwire
