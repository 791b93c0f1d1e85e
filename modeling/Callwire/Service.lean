/-
# Services and their methods

A service is a receiver and the methods that act on it. A method says how its
argument is read and what it does with one: it waits for some time and then,
at once, changes the receiver and gives an outcome. The wait and the action
depend on the argument alone, so a call that waits holds nothing.

Key definitions: `Outcome`, `Behaviour`, `Method`, `Service`, `Service.add`,
`Service.check`, `Service.shortName`.
-/
import Callwire.Fault
import Callwire.Text.Split

namespace Callwire

/-- What a handler gives in the end. A handler that crashes gives nothing; the
text is what the runtime says of it. -/
inductive Outcome where
  | reply (d : Datum)
  | failure (text : String)
  | crash (text : String)
deriving Repr

/-- What a call does once its argument is known: it waits, then acts. -/
structure Behaviour (σ : Type) where
  wait : Duration
  act : σ → σ × Outcome

/-- A method: the shape of its argument, what it does with one, and the names of
both its types. -/
structure Method (σ : Type) where
  argument : Shape
  run : Datum → Behaviour σ
  argumentType : String := ""
  replyType : String := ""

/-- A method under a name, and how often it was called; the count is a word that wraps. -/
structure Entry (σ : Type) where
  name : String
  method : Method σ
  calls : UInt64 := 0

/-- A named receiver and its methods. Names that were given twice are kept in
the order of the second time. -/
structure Service (σ : Type) where
  name : String
  receiver : σ
  entries : List (Entry σ) := []
  repeated : List String := []

namespace Entry

variable {σ : Type}

/-- The entry as a debug text. -/
def describe (e : Entry σ) : String :=
  "MethodType \x7b name: " ++ Text.quoted e.name ++ ", arg_type: " ++
    Text.quoted e.method.argumentType ++ ", reply_type: " ++ Text.quoted e.method.replyType ++
    ", num_calls: " ++ toString e.calls ++ " \x7d"

/-- Replaces the entry of the same name, or adds one at the end. -/
def put (e : Entry σ) : List (Entry σ) → List (Entry σ)
  | [] => [e]
  | x :: xs => if x.name = e.name then e :: xs else x :: put e xs

end Entry

namespace Service

variable {σ : Type}

/-- The entry of a method name. -/
def find? (s : Service σ) (name : String) : Option (Entry σ) :=
  s.entries.find? (·.name == name)

/-- Adds a method. A second one of the same name takes the place of the first,
and the service is no longer fit to be registered. -/
def add (s : Service σ) (name : String) (m : Method σ) : Service σ :=
  { s with
    entries := Entry.put ⟨name, m, 0⟩ s.entries
    repeated := if (s.find? name).isSome then s.repeated ++ [name] else s.repeated }

/-- A method name that no request could reach. -/
def badName (name : String) : Bool := name.isEmpty || name.toList.contains '.'

/-- The service can be registered: every method of it can be reached. -/
def check (s : Service σ) : Except ServiceFault Unit :=
  if s.name.isEmpty then .error .emptyName
  else if s.entries.isEmpty then .error (.noMethods s.name)
  else match s.repeated with
    | m :: _ => .error (.repeatedMethod s.name m)
    | [] =>
      match s.entries.find? fun e => badName e.name with
      | some e => .error (.badMethodName s.name e.name)
      | none => .ok ()

/-- The names of the methods, in the order in which they were added. -/
def methodNames (s : Service σ) : List String := s.entries.map (·.name)

/-- The service as a debug text. -/
def describe (s : Service σ) : String :=
  "Service \x7b name: " ++ Text.quoted s.name ++ ", methods: [" ++
    ", ".intercalate (s.methodNames.map Text.quoted) ++ "] \x7d"

/-- What follows the last pair of colons. -/
def afterColons? : List Char → Option (List Char)
  | [] => none
  | c :: cs =>
    match afterColons? cs with
    | some r => some r
    | none => if c = ':' ∧ cs.head? = some ':' then some cs.tail else none

/-- The name of a service that is named after the type of its receiver: the
last segment of the type's path, without parameters. -/
def shortName (path : String) : String :=
  let cs := path.toList.takeWhile (· != '<')
  String.ofList ((afterColons? cs).getD cs)

/-- Counts a call of a method. -/
def count (s : Service σ) (name : String) : Service σ :=
  { s with entries := s.entries.map fun e =>
      if e.name = name then { e with calls := e.calls + 1 } else e }

end Service
end Callwire
