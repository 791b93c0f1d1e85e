/-
# What a reader of data gives

A reader takes a value of a shape from the front of bytes, or says why there is
none. Most causes are told alike: the bytes do not have the form of the shape.
Two carry a text of their own. A text may stand in the place of something else,
and a text may name a codec that does not exist.

Key definitions: `Unread`, `Unread.message`, `Unread.place?`, `Reading`,
`Reading.require`.
-/
import Callwire.Text.Quoted

namespace Callwire

/-- Why bytes were not read. A place is told by `π`. -/
inductive Unread (π : Type) where
  | malformed
  | strayText (s wanted : String) (place : π)
  | unknownCodec (id : String)
deriving DecidableEq, Repr

namespace Unread

variable {π ρ : Type}

/-- The same cause, its place told in another way. -/
def map (f : π → ρ) : Unread π → Unread ρ
  | malformed => .malformed
  | strayText s wanted place => .strayText s wanted (f place)
  | unknownCodec id => .unknownCodec id

/-- The place where a stray text ends. -/
def place? : Unread π → Option π
  | strayText _ _ place => some place
  | _ => none

/-- What went wrong, but not where. The text of a malformed datum stands for many:
each reader of a format has one for each way to miss the form, none of them long. -/
def message : Unread π → String
  | malformed => "the data do not have the expected form"
  | strayText s wanted _ => "invalid type: string " ++ Text.quoted s ++ ", expected " ++ wanted
  | unknownCodec id => "invalid codec type " ++ id

end Unread

/-- What was read, or why nothing was. -/
abbrev Reading (π α : Type) := Except (Unread π) α

/-- What may not be there, as a reader's answer. -/
def Reading.require {π α : Type} : Option α → Reading π α
  | some a => .ok a
  | none => .error .malformed

end Callwire
