import Schematron.Proofs.Document.Built
import Schematron.Proofs.Document.Elements
import Schematron.Proofs.Markup.Place

/-!
# Values inside of messages

Broken lines put blanks before tags, and a message may hold tags: those of its
values. A value starts a line unless a text stands before it, and the end tag of the
element starts one unless a text stands last. So the text of a message survives the
breaking of lines exactly if each of its values stands between two texts.

That the text changes otherwise is a matter of length: blanks are only ever added.
The messages of constraints name their values in the middle of a sentence, and so the
assertions of flat rules are the same on one line and on many.
-/

namespace Schematron

namespace OutputOptions

/-- The options without broken lines. -/
def oneLine (o : OutputOptions) : OutputOptions := { o with indent := 0 }

variable {o : OutputOptions}

theorem validate_oneLine (valid : o.validate = .ok ()) : o.oneLine.validate = .ok () := valid

@[simp] theorem tag_oneLine (depth : Nat) (name : String) (attributes : List Attribute) :
    o.oneLine.tag depth name attributes = o.tag depth name attributes := rfl

@[simp] theorem lead_oneLine (depth : Nat) (breaks : Bool) : o.oneLine.lead depth breaks = "" := by
  simp [lead, oneLine]

@[simp] theorem lead_false (depth : Nat) : o.lead depth false = "" := by
  simp [lead]

/-- A tag that starts a line has blanks before it. -/
theorem length_lead_pos (pretty : 0 < o.indent) (depth : Nat) : 0 < (o.lead depth true).length := by
  have line_break : 0 < "\n".length := by decide
  simp [lead, pretty, line_break]

end OutputOptions

namespace Xml

variable (o : OutputOptions)

mutual

/-- Broken lines make nothing shorter. -/
theorem length_print_oneLine_le (node : Xml) (depth : Nat) (breaks : Bool) :
    (node.print o.oneLine depth breaks).length ≤ (node.print o depth breaks).length := by
  cases node with
  | element name attributes children =>
      cases children with
      | nil => simp [print, String.length_append]
      | cons child rest =>
          have inside := length_printAll_oneLine_le (child :: rest) (depth + 1) true
          simp only [print, String.length_append, OutputOptions.lead_oneLine,
            OutputOptions.tag_oneLine]
          simp only [String.length_empty]
          omega
  | text content => simp [print]

theorem length_printAll_oneLine_le (nodes : List Xml) (depth : Nat) (breaks : Bool) :
    (printAll o.oneLine depth breaks nodes).length ≤ (printAll o depth breaks nodes).length := by
  cases nodes with
  | nil => simp [printAll]
  | cons node rest =>
      have first := length_print_oneLine_le node depth breaks
      have later := length_printAll_oneLine_le rest depth (!node.isText)
      rw [printAll, printAll, String.length_append, String.length_append]
      omega

end

end Xml

namespace Message

/-- Behind some other parts, every value has a text right before it and a text right behind it. -/
def FlankedBehind (front parts : List MessagePart) : Prop :=
  ∀ before select after, parts = before ++ .valueOf select :: after →
    (front ++ before).getLast?.any MessagePart.isText = true ∧
      after.head?.any MessagePart.isText = true

/-- Every value has a text right before it and a text right behind it. -/
def Flanked (m : Message) : Prop := FlankedBehind [] m.parts

/-- No tag of the parts starts a line, nor does the tag behind them. -/
def Seamless : Bool → List MessagePart → Prop
  | breaks, [] => breaks = false
  | _, .text _ :: rest => Seamless false rest
  | breaks, .valueOf _ :: rest => breaks = false ∧ Seamless true rest

theorem flankedBehind_nil (front : List MessagePart) : FlankedBehind front [] := by
  intro before select after split
  simp at split

/-- Only the neighbours of the first part count for it, and the part is a neighbour of the next. -/
theorem flankedBehind_cons {front rest : List MessagePart} {part : MessagePart} :
    FlankedBehind front (part :: rest) ↔
      (part.isText = false → front.getLast?.any MessagePart.isText = true ∧
        rest.head?.any MessagePart.isText = true) ∧ FlankedBehind (front ++ [part]) rest := by
  constructor
  · intro flanked
    constructor
    · intro value
      cases part with
      | text content => cases value
      | valueOf select => simpa using flanked [] select rest rfl
    · intro before select after split
      rw [List.append_assoc]
      exact flanked (part :: before) select after (by rw [split, List.cons_append])
  · rintro ⟨first, later⟩ before select after split
    cases before with
    | nil =>
        obtain ⟨rfl, rfl⟩ := List.cons.inj split
        simpa using first rfl
    | cons other before =>
        obtain ⟨rfl, tail⟩ := List.cons.inj split
        have found := later before select after tail
        rwa [List.append_assoc] at found

/-- Tags start no lines exactly if all values are flanked and the first part is no value that comes
behind a tag. -/
theorem seamless_iff {front parts : List MessagePart} :
    Seamless (!front.getLast?.any MessagePart.isText) parts ↔
      (front.getLast?.any MessagePart.isText = true ∨ parts.head?.any MessagePart.isText = true) ∧
        FlankedBehind front parts := by
  induction parts generalizing front with
  | nil => simp [Seamless, flankedBehind_nil]
  | cons part rest ih =>
      have next := @ih (front ++ [part])
      rw [List.getLast?_concat, Option.any_some] at next
      rw [flankedBehind_cons]
      cases part with
      | text content => simpa [Seamless, MessagePart.isText] using next
      | valueOf select =>
          simp only [MessagePart.isText, Bool.not_false, Bool.false_eq_true, false_or] at next
          rw [Seamless, next]
          simp [MessagePart.isText, and_assoc]

/-- A message of some parts has no gap in it exactly if all its values are flanked. -/
theorem seamless_true_iff {m : Message} (some_part : m.parts ≠ []) :
    Seamless true m.parts ↔ m.Flanked := by
  have start := @seamless_iff [] m.parts
  rw [List.getLast?_nil, Option.any_none, Bool.not_false] at start
  rw [start, Flanked, and_iff_right_iff_imp]
  intro flanked
  obtain ⟨part, rest, parts⟩ := List.exists_cons_of_ne_nil some_part
  rw [parts] at flanked ⊢
  right
  cases value : part.isText with
  | true => simpa using value
  | false =>
      obtain ⟨alone, -⟩ := (flankedBehind_cons.mp flanked).1 value
      cases alone

end Message

namespace Xml

variable {o : OutputOptions}

/-- The text of some parts inside of an element, up to its end tag, is the same on one line exactly
if no tag starts a line. -/
theorem printed_oneLine_iff (pretty : 0 < o.indent) {parts : List MessagePart}
    (filled : .text "" ∉ parts) (depth : Nat) (breaks : Bool) :
    printAll o (depth + 1) breaks (parts.flatMap MessagePart.nodes) ++
        o.lead depth (breaksAfter breaks (parts.flatMap MessagePart.nodes)) =
      printAll o.oneLine (depth + 1) breaks (parts.flatMap MessagePart.nodes) ++
        o.oneLine.lead depth (breaksAfter breaks (parts.flatMap MessagePart.nodes)) ↔
      Message.Seamless breaks parts := by
  rw [OutputOptions.lead_oneLine, String.append_empty]
  induction parts generalizing breaks with
  | nil =>
      rw [List.flatMap_nil, breaksAfter_nil, Message.Seamless]
      cases breaks with
      | false => simp [printAll]
      | true =>
          have longer := OutputOptions.length_lead_pos pretty depth
          have blank : o.lead depth true ≠ "" := by
            intro none_left
            rw [none_left] at longer
            exact absurd longer (by decide)
          simp [printAll, blank]
  | cons part rest ih =>
      obtain ⟨some_text, filled_rest⟩ := List.ne_and_not_mem_of_not_mem_cons filled
      rw [List.flatMap_cons]
      cases part with
      | text content =>
          have nodes : (MessagePart.text content).nodes = [.text content] := by
            refine if_neg ?_
            rintro rfl
            exact some_text rfl
          rw [nodes, List.singleton_append, printAll, printAll, breaksAfter_cons, print, print,
            String.append_assoc, String.append_right_inj, isText, Bool.not_true, ih filled_rest,
            Message.Seamless]
      | valueOf select =>
          rw [MessagePart.nodes, List.singleton_append, printAll, printAll, breaksAfter_cons,
            print_element, print_element, isText, Bool.not_false, Message.Seamless, between,
            between, OutputOptions.lead_oneLine, String.empty_append, OutputOptions.tag_oneLine]
          cases breaks with
          | false =>
              rw [OutputOptions.lead_false, String.empty_append, String.append_assoc,
                String.append_right_inj, ih filled_rest]
              simp
          | true =>
              have longer := OutputOptions.length_lead_pos pretty (depth + 1)
              have shorter :=
                length_printAll_oneLine_le o (rest.flatMap MessagePart.nodes) (depth + 1) true
              constructor
              · intro same
                have lengths := congrArg String.length same
                simp only [String.length_append] at lengths
                omega
              · rintro ⟨continues, -⟩
                cases continues

end Xml

namespace Message

variable {o : OutputOptions} {m : Message}

/-- A part of a built message is a node. -/
theorem Built.nodes_eq_nil_iff (built : m.Built) : m.nodes = [] ↔ m.parts = [] := by
  obtain ⟨parts⟩ := m
  have filled := built.normal.filled
  cases parts with
  | nil => simp [nodes]
  | cons part rest =>
      cases part with
      | text content =>
          have some_text : content ≠ "" := by
            rintro rfl
            exact filled (.head _)
          simp [nodes, MessagePart.nodes, Xml.ofText, some_text]
      | valueOf select => simp [nodes, MessagePart.nodes]

/-- What stands between the tags of an element around a message is the same on one line exactly if
its values are flanked by texts. -/
theorem Built.between_oneLine_iff (built : m.Built) (pretty : 0 < o.indent) (depth : Nat) :
    Xml.between o depth m.nodes = Xml.between o.oneLine depth m.nodes ↔ m.Flanked := by
  by_cases bare : m.parts = []
  · have flanked : m.Flanked := by
      rw [Flanked, bare]
      exact flankedBehind_nil []
    rw [built.nodes_eq_nil_iff.mpr bare]
    exact iff_of_true rfl flanked
  · have some_node := mt built.nodes_eq_nil_iff.mp bare
    rw [Xml.between_of_ne_nil some_node, Xml.between_of_ne_nil some_node, Option.some.injEq,
      ← seamless_true_iff bare]
    exact Xml.printed_oneLine_iff pretty built.normal.filled depth true

end Message

namespace Assertion

variable {context : String} {kind : Kind} {a : Assertion}

/-- The message of a constraint is one text, or a value between two of them. -/
theorem flanked_of_ofKind? (made : ofKind? context kind = some a) : a.message.Flanked := by
  obtain ⟨requirement, presence | value⟩ := message_of_ofKind? made
  · rw [presence, Message.Flanked, parts_presenceMessage, Message.flankedBehind_cons]
    exact ⟨nofun, Message.flankedBehind_nil _⟩
  · rw [value, Message.Flanked, parts_valueMessage]
    simp only [Message.flankedBehind_cons]
    exact ⟨nofun, fun _ => ⟨rfl, rfl⟩, nofun, Message.flankedBehind_nil _⟩

end Assertion

def Message.inAssert (m : Message) (attributes : List Attribute) : Xml :=
  .element "assert" attributes m.nodes

namespace Document

variable {o : OutputOptions}

/-- An element of a document stands in its text at the place where it is in the tree. -/
theorem toXml_eq_surround {d : Document} {place : Xml.Place} {name : String}
    {attributes : List Attribute} {children : List Xml} (valid : o.validate = .ok ())
    (reachable : ∀ p ∈ d.patterns, p.Reachable)
    (stands : d.elements = place.fill (.element name attributes children)) :
    d.toXml o = .ok (o.surround place (.element name attributes children)
      ((o.tag place.depth name attributes).around (Xml.between o place.depth children))) := by
  rw [toXml_eq_typeset valid reachable, o.typeset_tokensAll, stands, o.print_fill]

/-- Wherever an `assert` element stands in a document, what is written between its tags is the same
with broken lines as on one line exactly if each value of its message is flanked by texts. The
messages of constraints are like that, so an assertion of a flat rule comes out the same both ways,
behind the blanks before its start tag. -/
theorem message_on_one_line_iff (valid : o.validate = .ok ()) (pretty : 0 < o.indent) :
    (∀ (d : Document) (place : Xml.Place) (attributes : List Attribute) (m : Message),
      (∀ p ∈ d.patterns, p.Reachable) → m.Built →
      d.elements = place.fill (m.inAssert attributes) →
      d.toXml o = .ok (o.surround place (m.inAssert attributes)
        ((o.tag place.depth "assert" attributes).around (Xml.between o place.depth m.nodes))) ∧
      d.toXml o.oneLine = .ok (o.oneLine.surround place (m.inAssert attributes)
        ((o.tag place.depth "assert" attributes).around
          (Xml.between o.oneLine place.depth m.nodes))) ∧
      (Xml.between o place.depth m.nodes = Xml.between o.oneLine place.depth m.nodes ↔
        m.Flanked)) ∧
    (∀ context kind, kind ≠ .scope →
      ∃ a, Assertion.ofKind? context kind = some a ∧ a.message.Flanked) ∧
    ∀ (t : Tree) (records : List RuleRecord),
      t.rules = .ok records ∨ (∃ id, t.rulesFrom id = .ok records) →
      ∀ r ∈ records, ∀ a ∈ r.assertions, ∀ (d : Document) (place : Xml.Place),
      (∀ p ∈ d.patterns, p.Reachable) → d.elements = place.fill a.tree →
      d.toXml o = .ok (o.surround place a.tree (a.tree.print o.oneLine place.depth false)) ∧
      d.toXml o.oneLine =
        .ok (o.oneLine.surround place a.tree (a.tree.print o.oneLine place.depth false)) := by
  have valid_oneLine := OutputOptions.validate_oneLine valid
  refine ⟨?_, ?_, ?_⟩
  · intro d place attributes m reachable built stands
    exact ⟨toXml_eq_surround valid reachable stands,
      toXml_eq_surround valid_oneLine reachable stands,
      built.between_oneLine_iff pretty place.depth⟩
  · intro context kind other
    obtain ⟨a, made⟩ := Option.ne_none_iff_exists'.mp (mt Assertion.ofKind?_eq_none_iff.mp other)
    exact ⟨a, made, Assertion.flanked_of_ofKind? made⟩
  · intro t records flat r listed a member d place reachable stands
    have made : a.Made := by
      rcases flat with flat | ⟨id, flat⟩
      · exact Tree.made_of_rules flat r listed a member
      · exact Tree.made_of_rulesFrom flat r listed a member
    obtain ⟨context, kind, flanked⟩ := made
    have same : Xml.between o place.depth a.message.nodes =
        Xml.between o.oneLine place.depth a.message.nodes :=
      (Message.Built.between_oneLine_iff (Assertion.built_of_ofKind? flanked) pretty _).mpr
        (Assertion.flanked_of_ofKind? flanked)
    have alone : a.tree.print o.oneLine place.depth false =
        (o.tag place.depth "assert" [("test", a.test)]).around
          (Xml.between o.oneLine place.depth a.message.nodes) := by
      rw [Assertion.tree, Xml.print_element, OutputOptions.lead_false, String.empty_append,
        OutputOptions.tag_oneLine]
    rw [alone]
    constructor
    · rw [← same]
      exact toXml_eq_surround valid reachable stands
    · exact toXml_eq_surround valid_oneLine reachable stands

/-- A message that starts with a value, whose line is broken before it. -/
def leading : Message := .ofParts [.valueOf "c", .text "<"]

/-- A message with its value in the middle. -/
def interior : Message := .ofParts [.text "is ", .text "not ", .valueOf "c", .text "!"]

/-- The tree of a scope with a set and a presence below it. -/
def choosing : Tree := (Pattern.run 7
  [.scope "/", .child ⟨7, 0⟩ "d" (.setInclusion ⟨["x"]⟩),
    .child ⟨7, 0⟩ "c" .requiredPresence]).constraints

theorem message_on_one_line_iff_samples :
    tabbed.validate = .ok () ∧ 0 < tabbed.indent ∧ leading.Built ∧ interior.Built ∧
    Xml.between tabbed 0 leading.nodes ≠ Xml.between tabbed.oneLine 0 leading.nodes ∧
    Xml.between tabbed 1 interior.nodes = Xml.between tabbed.oneLine 1 interior.nodes ∧
    ∃ r first last, choosing.rules = .ok [r] ∧ r.assertions = [first, last] ∧
      (Document.record r).toXml tabbed = .ok (tabbed.surround
        (.inside [] "rule" [("context", "/")] (.among [first.tree] []) []) last.tree
        (last.tree.print tabbed.oneLine 1 false)) := by
  have valid : tabbed.validate = .ok () := by decide
  have pretty : 0 < tabbed.indent := by decide
  have leading_built : leading.Built := ⟨_, rfl⟩
  have interior_built : interior.Built := ⟨_, rfl⟩
  obtain ⟨placed, -, flat⟩ := message_on_one_line_iff valid pretty
  obtain ⟨-, -, leading_iff⟩ := placed (.assert ⟨some "b", some leading⟩) (.among [] [])
    [("test", "b")] leading nofun leading_built rfl
  obtain ⟨-, -, interior_iff⟩ := placed (.rule ⟨none, none, [⟨none, some interior⟩]⟩)
    (.inside [] "rule" [] (.among [] []) []) [] interior nofun interior_built rfl
  refine ⟨valid, pretty, leading_built, interior_built, ?_, ?_, ?_⟩
  · refine mt leading_iff.mp fun flanked => ?_
    obtain ⟨alone, -⟩ := flanked [] "c" [.text "<"] (by decide)
    cases alone
  · refine interior_iff.mpr ?_
    have parts : interior.parts = [.text "is not ", .valueOf "c", .text "!"] := by decide
    rw [Message.Flanked, parts]
    simp only [Message.flankedBehind_cons]
    exact ⟨nofun, fun _ => ⟨rfl, rfl⟩, nofun, Message.flankedBehind_nil _⟩
  · have rules : choosing.rules = .ok [⟨"/",
        (Assertion.ofKind? "c" .requiredPresence).toList ++
          (Assertion.ofKind? "d" (.setInclusion ⟨["x"]⟩)).toList⟩] := by
      decide +kernel
    refine ⟨_, _, _, rules, rfl, ?_⟩
    exact (flat choosing _ (.inl rules) _ (.head _) _ (.tail _ (.head _)) (.record _) _ nofun rfl).1

end Document

end Schematron
