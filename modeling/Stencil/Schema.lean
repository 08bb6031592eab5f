import Stencil.Signature
import Stencil.Text.Quoted

/-!
# Schemas

What a host says about its record types: their methods and how their records are written. Values
mention types only by name and number, a schema supplies the rest.
-/

namespace Stencil

/-- How a method binds its receiver. -/
inductive Receiver where
  /-- Callable on values and pointers alike. -/
  | value
  /-- Callable only through a pointer or on an addressable record. -/
  | pointer
deriving DecidableEq, Inhabited

/-- A method of a record type. The body gets the receiver and the coerced arguments and answers a
value or a message. -/
structure Method where
  name : String
  receiver : Receiver
  sig : Signature
  call : Value → List Value → Except String Value

/-- The description of one record type. -/
structure TypeInfo where
  methods : List Method
  /-- The text of a record, from the record and the texts of its fields. -/
  stringer : Option (Value → List String → String)

namespace TypeInfo

/-- A description without methods and without a textual form of its own. -/
def plain : TypeInfo := ⟨[], none⟩

/-- The method `name`; of several methods of one name the last counts. -/
def method? (info : TypeInfo) (name : String) : Option Method :=
  info.methods.reverse.find? (·.name == name)

end TypeInfo

/-- The descriptions of all record types. -/
structure Schema where
  info : RecordType → TypeInfo

namespace Schema

/-- The schema that describes no type. -/
def plain : Schema := ⟨fun _ => .plain⟩

/-- The method `name` of a record type. -/
def method? (schema : Schema) (ty : RecordType) (name : String) : Option Method :=
  (schema.info ty).method? name

end Schema

namespace Receiver

/-- The name of the way a receiver is bound. -/
def name : Receiver → String
  | value => "Value"
  | pointer => "Pointer"

end Receiver

namespace Method

/-- The diagnostic form of a method. -/
def debug (m : Method) : String :=
  "Method \x7b name: " ++ Text.quoted m.name ++ ", receiver: " ++ m.receiver.name ++
    ", sig: " ++ m.sig.debug ++ " \x7d"

end Method

namespace RecordType

/-- The diagnostic form of a record type with the given methods. -/
def debug (ty : RecordType) (methods : List String) : String :=
  "TypeDescriptor \x7b name: " ++ Text.quoted ty.name ++
    ", fields: [" ++ ", ".intercalate (ty.fields.map Text.quoted) ++
    "], methods: [" ++ ", ".intercalate (methods.map Text.quoted) ++ "] \x7d"

end RecordType
end Stencil
