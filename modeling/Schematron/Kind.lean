import Schematron.Number

/-!
# Kinds of constraints

A constraint says that its context has to be present, may be present or should
be absent, that its value is one of a set or none of it, or that its value is a
number in a range. A scope says nothing; it only holds other constraints.
-/

namespace Schematron

/-- The values listed by a set constraint, in the order of their declaration. -/
structure ValueSet where
  values : List String
  deriving DecidableEq, Repr, Inhabited

namespace ValueSet

def empty : ValueSet := ⟨[]⟩

def isEmpty (s : ValueSet) : Bool := s.values.isEmpty

end ValueSet

/-- The relations that a range can ask for between a value and a bound. -/
inductive Comparison where
  | equalTo
  | greaterThan
  | greaterThanOrEqualTo
  | lessThan
  | lessThanOrEqualTo
  | otherThan
  deriving DecidableEq, Repr

namespace Comparison

/-- Every comparison, in the order in which a range lists its requirements. -/
def all : List Comparison :=
  [equalTo, greaterThan, greaterThanOrEqualTo, lessThan, lessThanOrEqualTo, otherThan]

theorem mem_all (c : Comparison) : c ∈ all := by cases c <;> simp [all]

end Comparison

/-- The requirements on a numeric value. Each bound is optional, and parity counts only when
it is asked for. -/
structure NumericRange where
  /-- Whether the value has to be even. -/
  even : Bool
  /-- Whether the value has to be odd. -/
  odd : Bool
  equalTo : Option Number
  /-- An exclusive lower bound. -/
  greaterThan : Option Number
  /-- An inclusive lower bound. -/
  greaterThanOrEqualTo : Option Number
  /-- An exclusive upper bound. -/
  lessThan : Option Number
  /-- An inclusive upper bound. -/
  lessThanOrEqualTo : Option Number
  otherThan : Option Number
  deriving DecidableEq, Repr

namespace NumericRange

/-- The range that every number satisfies. -/
def unbounded : NumericRange := ⟨false, false, none, none, none, none, none, none⟩

def bound (r : NumericRange) : Comparison → Option Number
  | .equalTo => r.equalTo
  | .greaterThan => r.greaterThan
  | .greaterThanOrEqualTo => r.greaterThanOrEqualTo
  | .lessThan => r.lessThan
  | .lessThanOrEqualTo => r.lessThanOrEqualTo
  | .otherThan => r.otherThan

/-- The range with another bound for a comparison; `none` drops the bound. -/
def withBound (r : NumericRange) (c : Comparison) (n : Option Number) : NumericRange :=
  match c with
  | .equalTo => { r with equalTo := n }
  | .greaterThan => { r with greaterThan := n }
  | .greaterThanOrEqualTo => { r with greaterThanOrEqualTo := n }
  | .lessThan => { r with lessThan := n }
  | .lessThanOrEqualTo => { r with lessThanOrEqualTo := n }
  | .otherThan => { r with otherThan := n }

@[simp] theorem bound_withBound (r : NumericRange) (c d : Comparison) (n : Option Number) :
    (r.withBound c n).bound d = if d = c then n else r.bound d := by
  cases c <;> cases d <;> rfl

@[simp] theorem even_withBound (r : NumericRange) (c : Comparison) (n : Option Number) :
    (r.withBound c n).even = r.even := by
  cases c <;> rfl

@[simp] theorem odd_withBound (r : NumericRange) (c : Comparison) (n : Option Number) :
    (r.withBound c n).odd = r.odd := by
  cases c <;> rfl

/-- A change of one of the requirements of a range. -/
inductive Setting where
  | even (required : Bool)
  | odd (required : Bool)
  /-- Another bound, or none, for a comparison. -/
  | bound (comparison : Comparison) (number : Option Number)
  deriving DecidableEq, Repr

def set (r : NumericRange) : Setting → NumericRange
  | .even required => { r with even := required }
  | .odd required => { r with odd := required }
  | .bound comparison number => r.withBound comparison number

/-- Equality of two bounds, as numbers where both are present. -/
def sameBound : Option Number → Option Number → Bool
  | none, none => true
  | some a, some b => a.equals b
  | _, _ => false

/-- Equality of ranges, with their bounds compared as numbers. -/
def equals (r s : NumericRange) : Bool :=
  r.even = s.even && r.odd = s.odd && Comparison.all.all fun c => sameBound (r.bound c) (s.bound c)

/-- Whether nothing is asked for beyond being a number. -/
def isUnconstrained (r : NumericRange) : Bool := r.equals unbounded

end NumericRange

/-- What a constraint says about its context. -/
inductive Kind where
  /-- Nothing of its own. -/
  | scope
  /-- The context must be present. -/
  | requiredPresence
  /-- The context may be present. -/
  | optionalPresence
  /-- The context should not be present. -/
  | forbiddenPresence
  /-- The value must be one of the set. -/
  | setInclusion (allowed : ValueSet)
  /-- The value must be none of the set. -/
  | setExclusion (forbidden : ValueSet)
  /-- The value must be a number in the range. -/
  | numericRange (range : NumericRange)
  deriving DecidableEq, Repr

namespace Kind

def label : Kind → String
  | scope => "scope"
  | requiredPresence => "required"
  | optionalPresence => "optional"
  | forbiddenPresence => "forbidden"
  | setInclusion _ => "included"
  | setExclusion _ => "excluded"
  | numericRange _ => "numeric"

def isScope : Kind → Bool
  | scope => true
  | _ => false

def values? : Kind → Option ValueSet
  | setInclusion s => some s
  | setExclusion s => some s
  | _ => none

def range? : Kind → Option NumericRange
  | numericRange r => some r
  | _ => none

/-- The same kind with another set; kinds without one stay as they are. -/
def withValues (k : Kind) (s : ValueSet) : Kind :=
  match k with
  | setInclusion _ => setInclusion s
  | setExclusion _ => setExclusion s
  | k => k

/-- The same kind with another range; kinds without one stay as they are. -/
def withRange (k : Kind) (r : NumericRange) : Kind :=
  match k with
  | numericRange _ => numericRange r
  | k => k

theorem values?_withValues (k : Kind) (s : ValueSet) :
    (k.withValues s).values? = k.values?.map fun _ => s := by
  cases k <;> rfl

theorem range?_withRange (k : Kind) (r : NumericRange) :
    (k.withRange r).range? = k.range?.map fun _ => r := by
  cases k <;> rfl

/-- Equality of kinds, with numbers compared as numbers. -/
def equals : Kind → Kind → Bool
  | numericRange r, numericRange s => r.equals s
  | k, l => k = l

end Kind

end Schematron
