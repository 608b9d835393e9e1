import Schematron.Kind
import Schematron.Message
import Schematron.Sentence

/-!
# Assertions of constraints

Each constraint other than a scope turns into one assertion: an XPath 1.0 test
and the message for its failure. Both are written relative to the context of the
enclosing rule, so they name the constraint's own context and no longer path.

A set is tested by a substring search. Every listed value stands between two
delimiters in one literal, and so does the value that is searched for, which
restricts the search to whole values as long as no listed value contains the
delimiter: `_ab_` does not occur in `_cab_`.
-/

namespace Schematron

/-- A test and the message that is reported when it is false. -/
structure Assertion where
  test : String
  message : Message
  deriving DecidableEq, Repr

/-- The text with a backslash before every occurrence of a character. -/
def backslashed (mark : Char) (s : String) : String :=
  String.ofList (s.toList.flatMap fun c => if c = mark then ['\\', c] else [c])

/-- The value between two delimiters, as the set literal has to contain it. -/
def delimited (value : String) : String := "_" ++ value ++ "_"

/-- The characters occur in the text without a gap. -/
def occursIn (cs : List Char) : List Char → Bool
  | [] => cs.isEmpty
  | c :: rest => cs.isPrefixOf (c :: rest) || occursIn cs rest

/-- To occur in a text is to be an infix of it. -/
theorem occursIn_iff {cs text : List Char} : occursIn cs text = true ↔ cs <:+: text := by
  induction text with
  | nil => simp [occursIn]
  | cons c rest ih => simp [occursIn, ih, List.infix_cons_iff]

namespace ValueSet

/-- The literal that a set test searches, without its quotes. -/
def literal (s : ValueSet) : String :=
  " ".intercalate (s.values.map fun value => delimited (backslashed '\'' value))

/-- Whether a field value is found by the test of the set. -/
def finds (s : ValueSet) (value : String) : Bool :=
  occursIn (delimited value).toList s.literal.toList

/-- The values in double quotes, joined as alternatives. -/
def alternatives (s : ValueSet) : String :=
  sentence .or (s.values.map fun value => "\"" ++ backslashed '"' value ++ "\"")

def test (s : ValueSet) (context : String) : String :=
  "contains('" ++ s.literal ++ "', concat('_', " ++ context ++ ", '_'))"

end ValueSet

namespace Comparison

def operator : Comparison → String
  | equalTo => "="
  | greaterThan => ">"
  | greaterThanOrEqualTo => ">="
  | lessThan => "<"
  | lessThanOrEqualTo => "<="
  | otherThan => "!="

/-- The requirement up to the bound, in words. -/
def phrase : Comparison → String
  | equalTo => "MUST be equal to "
  | greaterThan => "MUST be greater than "
  | greaterThanOrEqualTo => "MUST be greater than or equal to "
  | lessThan => "MUST be less than "
  | lessThanOrEqualTo => "MUST be less than or equal to "
  | otherThan => "MUST NOT be equal to "

end Comparison

/-- One condition of a numeric test with the words for it. -/
structure Requirement where
  test : String
  phrase : String
  deriving DecidableEq, Repr

namespace NumericRange

/-- The requirement of a comparison, if the range has a bound for it. -/
def requirement? (r : NumericRange) (context : String) (c : Comparison) : Option Requirement :=
  (r.bound c).map fun n =>
    ⟨"number(" ++ context ++ ") " ++ c.operator ++ " " ++ n.text, c.phrase ++ n.text⟩

/-- What a range asks of the value of a context: to be a number, then the parities, then the
comparisons in their order. -/
def requirements (r : NumericRange) (context : String) : List Requirement :=
  ⟨"number(" ++ context ++ ") = " ++ context, "MUST be a number"⟩ ::
    (if r.even then [⟨"number(" ++ context ++ ") mod 2 = 0", "MUST be even"⟩] else []) ++
    (if r.odd then [⟨"number(" ++ context ++ ") mod 2 = 1", "MUST be odd"⟩] else []) ++
    Comparison.all.filterMap (r.requirement? context)

/-- The test that a context satisfies a range. -/
def test (r : NumericRange) (context : String) : String :=
  " and ".intercalate ((r.requirements context).map fun q => "(" ++ q.test ++ ")")

def phrase (r : NumericRange) (context : String) : String :=
  sentence .and ((r.requirements context).map Requirement.phrase)

end NumericRange

namespace Assertion

/-- The message for a context that is wrong by its presence or absence. -/
def presenceMessage (context requirement : String) : Message :=
  .ofString ("element \"" ++ context ++ "\" " ++ requirement)

/-- The message for a context whose value is wrong, with the value found there. -/
def valueMessage (context requirement : String) : Message :=
  ((Message.empty.text "text \"").valueOf context).text
    ("\": element \"" ++ context ++ "\" " ++ requirement)

@[simp] theorem parts_presenceMessage (context requirement : String) :
    (presenceMessage context requirement).parts =
      [.text ("element \"" ++ context ++ "\" " ++ requirement)] := by
  simp [presenceMessage, Message.ofString, Message.text, Message.empty, Message.appendText]

@[simp] theorem parts_valueMessage (context requirement : String) :
    (valueMessage context requirement).parts =
      [.text "text \"", .valueOf context,
        .text ("\": element \"" ++ context ++ "\" " ++ requirement)] := by
  simp [valueMessage, Message.valueOf, Message.text, Message.empty, Message.appendText]

/-- The assertion of a constraint; a scope has none. -/
def ofKind? (context : String) : Kind → Option Assertion
  | .scope => none
  | .requiredPresence =>
    some ⟨"count(" ++ context ++ ") >= 1", presenceMessage context "is REQUIRED"⟩
  | .optionalPresence =>
    some ⟨"count(" ++ context ++ ") >= 0", presenceMessage context "is OPTIONAL"⟩
  | .forbiddenPresence =>
    some ⟨"not(" ++ context ++ ")", presenceMessage context "is NOT RECOMMENDED"⟩
  | .setInclusion allowed =>
    some ⟨allowed.test context, valueMessage context ("MUST be " ++ allowed.alternatives)⟩
  | .setExclusion forbidden =>
    some ⟨"not(" ++ forbidden.test context ++ ")",
      valueMessage context ("MUST NOT be " ++ forbidden.alternatives)⟩
  | .numericRange range =>
    some ⟨range.test context, valueMessage context (range.phrase context)⟩

/-- A constraint reports that its context is there or is not, or the value found there. -/
theorem message_of_ofKind? {context : String} {k : Kind} {a : Assertion}
    (made : ofKind? context k = some a) : ∃ requirement,
      a.message = presenceMessage context requirement ∨
      a.message = valueMessage context requirement := by
  cases k with
  | scope => cases made
  | requiredPresence => cases made; exact ⟨_, .inl rfl⟩
  | optionalPresence => cases made; exact ⟨_, .inl rfl⟩
  | forbiddenPresence => cases made; exact ⟨_, .inl rfl⟩
  | setInclusion allowed => cases made; exact ⟨_, .inr rfl⟩
  | setExclusion forbidden => cases made; exact ⟨_, .inr rfl⟩
  | numericRange range => cases made; exact ⟨_, .inr rfl⟩

theorem ofKind?_eq_none_iff {context : String} {k : Kind} :
    ofKind? context k = none ↔ k = .scope := by
  cases k <;> simp [ofKind?]

end Assertion

end Schematron
