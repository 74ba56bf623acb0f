import HaxeBindings.Catalog.TypeRef

/-!
# The log of a run

A run reports what it leaves out and what it has done.  A report is an `Event`: a
cause with the names involved.  Its level, its channel and its wording are
functions of it, and a step that reports returns its result with the events, in
order (`Logged`).
-/

namespace HaxeBindings

open Text Schema

/-- How urgent a report is. -/
inductive Level where
  | debug
  | info
  | warning
  deriving DecidableEq

namespace Level

/-- The word for a level. -/
def word : Level → String
  | debug => "DEBUG"
  | info => "INFO"
  | warning => "WARNING"

end Level

/-- The kinds of members an entry can be of. -/
inductive MemberKind where
  | constructors
  | properties
  | methods
  deriving DecidableEq

namespace MemberKind

/-- The field that lists members of the kind. -/
def word : MemberKind → String
  | constructors => "constructors"
  | properties => "properties"
  | methods => "methods"

end MemberKind

/-- What a run reports. -/
inductive Event where
  | malformedAssembly
  | partialAssembly (assembly error : Text)
  | malformedType (assembly : Text)
  | unnamedType (assembly : Text)
  | malformedMember (kind : MemberKind) (owner : Text)
  | rejectedMember (kind : MemberKind) (owner : Text) (cause : RefError)
  /-- A compiler generated type of the catalog is not exported. -/
  | generatedType (fullName : Text)
  | exportable (dump : Text) (count : Nat)
  /-- A descriptor with a compiler generated name is not rendered. -/
  | generatedDescriptor (name : Text)
  | unmappable (name : Text) (cause : DigitsError)
  | rendered (name : Text) (members : Nat)
  | overwritten (name previous path : Text)
  | finished (types members : Nat)

/-- The part of the library that reports an event. -/
inductive Channel where
  | reflection
  | generator
  deriving DecidableEq

namespace Channel

/-- The name of a channel in a log line. -/
def word : Channel → String
  | reflection => "hxextern.reflection"
  | generator => "hxextern.generator"

end Channel

namespace Event

/-- The level of an event. -/
def level : Event → Level
  | malformedAssembly | partialAssembly _ _ | malformedType _ | unnamedType _
  | malformedMember _ _ | rejectedMember _ _ _ | unmappable _ _ | overwritten _ _ _ => .warning
  | exportable _ _ | finished _ _ => .info
  | generatedType _ | generatedDescriptor _ | rendered _ _ => .debug

/-- The channel of an event. -/
def channel : Event → Channel
  | malformedAssembly | partialAssembly _ _ | malformedType _ | unnamedType _
  | malformedMember _ _ | rejectedMember _ _ _ | generatedType _ => .reflection
  | exportable _ _ | generatedDescriptor _ | unmappable _ _ | rendered _ _ | overwritten _ _ _
  | finished _ _ => .generator

/-- The wording of an event. -/
def message : Event → Text
  | malformedAssembly => "skipping malformed assembly entry".toList
  | partialAssembly assembly error =>
    "assembly ".toList ++ assembly ++ " was only partially enumerated: ".toList ++ error
  | malformedType assembly => "skipping malformed type entry in ".toList ++ assembly
  | unnamedType assembly =>
    "skipping type entry in ".toList ++ assembly ++ ": type entry without full_name".toList
  | malformedMember kind owner =>
    "skipping malformed ".toList ++ kind.word.toList ++ " entry on ".toList ++ owner
  | rejectedMember kind owner cause =>
    "skipping ".toList ++ kind.word.toList ++ " entry on ".toList ++ owner ++ ": ".toList ++
      cause.message
  | generatedType name | generatedDescriptor name =>
    "skipping compiler generated type ".toList ++ name
  | exportable dump count => dump ++ ": ".toList ++ ofNat count ++ " exportable types".toList
  | unmappable name cause => "skipping type ".toList ++ name ++ ": ".toList ++ cause.message
  | rendered name members => name ++ ": ".toList ++ ofNat members ++ " members".toList
  | overwritten name previous path =>
    name ++ " overwrites the extern generated for ".toList ++ previous ++ " at ".toList ++ path
  | finished types members =>
    "generated ".toList ++ ofNat types ++ " externs with ".toList ++ ofNat members ++
      " members".toList

/-- The log line of an event. -/
def line (e : Event) : Text :=
  e.level.word.toList ++ ' ' :: e.channel.word.toList ++ ": ".toList ++ e.message

end Event

/-- A result with the events reported on the way to it. -/
structure Logged (α : Type) where
  value : α
  log : List Event

namespace Logged

/-- A result without a report. -/
def silent {α : Type} (value : α) : Logged α := ⟨value, []⟩

/-- The values that are there, and all events in order. -/
def collect {α : Type} (results : List (Logged (Option α))) : Logged (List α) :=
  ⟨results.filterMap value, results.flatMap log⟩

end Logged
end HaxeBindings
