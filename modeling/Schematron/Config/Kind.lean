import Schematron.Config.Number
import Schematron.Config.Record
import Schematron.Kind

/-!
# Constraints in configuration

Sets and ranges are records. A kind is an object with the member `kind`, at any
place among the members of its set or range, or a list that starts with the name
of the kind.

Until its kind is known the rest of such a value has to be kept, so all of it is
held to what can be kept: readable texts, numbers within double precision, and a
bounded depth. A record alone skips what it does not know without looking into
it.
-/

namespace Schematron

namespace Config

def readTexts : Json → Option (List String)
  | .array items => items.mapM readText
  | _ => none

end Config

namespace ValueSet

/-- The only field of a set, which may be called `in` as well. -/
def fields : List (Config.Field ValueSet) :=
  [{ name := "values"
     aliases := ["in"]
     set := fun j _ => (Config.readTexts j).map ValueSet.mk
     get := fun s => .array (s.values.map Json.ofString) }]

def ofJson? (j : Json) : Option ValueSet := Config.readRecord fields empty j

def toMembers (s : ValueSet) : List (String × Json) := Config.writeRecord fields s

def toJson (s : ValueSet) : Json := .ofMembers s.toMembers

end ValueSet

namespace Comparison

def name : Comparison → String
  | equalTo => "equal_to"
  | greaterThan => "greater_than"
  | greaterThanOrEqualTo => "greater_than_or_equal_to"
  | lessThan => "less_than"
  | lessThanOrEqualTo => "less_than_or_equal_to"
  | otherThan => "other_than"

def ofName? (name : String) : Option Comparison := all.find? fun c => c.name = name

theorem ofName?_name (c : Comparison) : ofName? c.name = some c := by cases c <;> decide

/-- The field of a range that holds the bound of a comparison. -/
def field (c : Comparison) : Config.Field NumericRange where
  name := c.name
  aliases := []
  set := fun j r => (Number.boundOfJson? j).map fun n => r.set (.bound c n)
  get := fun r => Number.boundToJson (r.bound c)

end Comparison

namespace NumericRange

def fields : List (Config.Field NumericRange) :=
  { name := "even"
    aliases := []
    set := fun j r => (Config.readBool j).map fun b => r.set (.even b)
    get := fun r => .bool r.even } ::
  { name := "odd"
    aliases := []
    set := fun j r => (Config.readBool j).map fun b => r.set (.odd b)
    get := fun r => .bool r.odd } ::
  Comparison.all.map Comparison.field

def ofJson? (j : Json) : Option NumericRange := Config.readRecord fields unbounded j

def toMembers (r : NumericRange) : List (String × Json) := Config.writeRecord fields r

def toJson (r : NumericRange) : Json := .ofMembers r.toMembers

end NumericRange

namespace Json

/-- How deep arrays and objects may nest in a value that is kept. -/
def keptDepth : Nat := 127

mutual

/-- Whether a value can be kept, with arrays and objects nesting at most `depth` deep. -/
def isKept (depth : Nat) : Json → Bool
  | .integer n => (Binary64.ofDecimal ⟨n < 0, n.natAbs, 0⟩).isFinite
  | .decimal d => (Binary64.ofDecimal d).isFinite
  | .string s => s.isSome
  | .array items => depth ≠ 0 && areKept (depth - 1) items
  | .object members => depth ≠ 0 && membersAreKept (depth - 1) members
  | _ => true
termination_by structural value => value

def areKept (depth : Nat) : List Json → Bool
  | [] => true
  | item :: rest => item.isKept depth && areKept depth rest
termination_by structural items => items

def membersAreKept (depth : Nat) : List (Option String × Json) → Bool
  | [] => true
  | member :: rest => memberIsKept depth member && membersAreKept depth rest
termination_by structural members => members

def memberIsKept (depth : Nat) : Option String × Json → Bool
  | (name, value) => name.isSome && value.isKept depth
termination_by structural member => member

end

end Json

namespace Kind

def name : Kind → String
  | scope => "scope"
  | requiredPresence => "required_presence"
  | optionalPresence => "optional_presence"
  | forbiddenPresence => "forbidden_presence"
  | setInclusion _ => "set_inclusion"
  | setExclusion _ => "set_exclusion"
  | numericRange _ => "numeric_range"

/-- A kind without content. An object may hold members beside the name of the kind, a list may
not hold items. -/
def bare? (kind : Kind) : Json → Option Kind
  | .array (_ :: _) => none
  | _ => some kind

/-- The kind of a name with the content that the rest of its value configures. -/
def ofContent? (name : String) (content : Json) : Option Kind :=
  match name with
  | "scope" => bare? scope content
  | "required_presence" => bare? requiredPresence content
  | "optional_presence" => bare? optionalPresence content
  | "forbidden_presence" => bare? forbiddenPresence content
  | "set_inclusion" => (ValueSet.ofJson? content).map setInclusion
  | "set_exclusion" => (ValueSet.ofJson? content).map setExclusion
  | "numeric_range" => (NumericRange.ofJson? content).map numericRange
  | _ => none

/-- Whether a member names the kind. -/
def isTag (member : Option String × Json) : Bool := member.1 = some "kind"

def ofJson? (j : Json) : Option Kind :=
  if j.isKept Json.keptDepth then
    match j with
    | .object members =>
      match members.filter isTag with
      | [(_, .string (some name))] =>
        ofContent? name (.object (members.filter fun member => !isTag member))
      | _ => none
    | .array (.string (some name) :: rest) => ofContent? name (.array rest)
    | _ => none
  else none

def contentMembers : Kind → List (String × Json)
  | setInclusion s => s.toMembers
  | setExclusion s => s.toMembers
  | numericRange r => r.toMembers
  | _ => []

/-- The object of a kind, which starts with its name. -/
def toJson (k : Kind) : Json := .ofMembers (("kind", .ofString k.name) :: k.contentMembers)

end Kind

end Schematron
