import Schematron.Json.Basic

/-!
# Records in configuration

A record is configured by an object that names the fields to set, or by a list
that gives the fields in their order. What is not given keeps its default, so
every record has one. A list may be short but not long, and an object may name
what is no field but may not name a field twice, whichever of its names it uses.

The table of fields is the whole description of a record: it is read and written
through the same table, and reading depends on the members an object gives to
each field and not on their order.
-/

namespace Schematron

namespace Config

/-- A field of the record type `α`. -/
structure Field (α : Type) where
  /-- The name it is written under. -/
  name : String
  /-- Further names it is read under. -/
  aliases : List String
  /-- The record with the field as a value gives it, if the value fits the field. -/
  set : Json → α → Option α
  /-- The value of the field. -/
  get : α → Json

namespace Field

variable {α : Type}

/-- Whether a member name means the field. -/
def isNamed (f : Field α) (name : Option String) : Bool :=
  match name with
  | none => false
  | some name => name = f.name || f.aliases.contains name

/-- The values that the members of an object give to the field. -/
def given (f : Field α) (members : List (Option String × Json)) : List Json :=
  members.filterMap fun member => if f.isNamed member.1 then some member.2 else none

/-- The record with the field as the members of an object give it; two values are too many. -/
def setFrom (members : List (Option String × Json)) (record : α) (f : Field α) : Option α :=
  match f.given members with
  | [] => some record
  | [value] => f.set value record
  | _ => none

end Field

variable {α : Type}

/-- The record with its fields as the members of an object give them. Every member has to have
a readable name. -/
def readMembers (fields : List (Field α)) (start : α) (members : List (Option String × Json)) :
    Option α :=
  if members.all fun member => member.1.isSome then
    fields.foldlM (Field.setFrom members) start
  else none

/-- The record with its first fields as a list gives them. -/
def readItems : List (Field α) → α → List Json → Option α
  | _, record, [] => some record
  | [], _, _ :: _ => none
  | f :: fields, record, item :: items => do readItems fields (← f.set item record) items

/-- The record that a value configures, starting from the default one. -/
def readRecord (fields : List (Field α)) (start : α) : Json → Option α
  | .object members => readMembers fields start members
  | .array items => readItems fields start items
  | _ => none

/-- The object that names every field of a record. -/
def writeRecord (fields : List (Field α)) (record : α) : List (String × Json) :=
  fields.map fun f => (f.name, f.get record)

def readBool : Json → Option Bool
  | .bool b => some b
  | _ => none

def readText : Json → Option String
  | .string s => s
  | _ => none

end Config

end Schematron
