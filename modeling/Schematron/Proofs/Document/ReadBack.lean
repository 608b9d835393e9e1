import Schematron.Proofs.Document.Decode

/-!
# Documents read back from their text

`Markup.Told decode content values` says that pieces of markup can be read back
and that the decoder takes their nodes for the given values. The markup of a
document tells what the document shows, part by part.

`Document.read_back` puts this together with the reader of texts: under the compact
options, the text of any document is read back as its element tree.
-/

namespace Schematron

namespace Markup

/-- Pieces that can be read back and are then decoded to some values. None of them is a text. -/
structure Told {α : Type} (decode : Xml → Option α) (content : List Markup) (values : List α) :
    Prop where
  legible : ∀ piece ∈ content, Legible piece
  tagged : ∀ piece ∈ content, piece.isText = false
  decoded : (nodesAll "sch" [] content).mapM decode = some values

namespace Told

variable {α β γ : Type} {decode : Xml → Option α} {content more : List Markup}
  {values others : List α}

theorem isChain (h : Told decode content values) : content.IsChain Apart := by
  have pairwise : content.Pairwise Apart := by
    refine List.pairwise_of_forall_mem_list fun a member b _ => ?_
    simp [Apart, h.tagged a member]
  exact pairwise.isChain

theorem nil : Told decode [] [] := ⟨by simp, by simp, rfl⟩

theorem append (h : Told decode content values) (h' : Told decode more others) :
    Told decode (content ++ more) (values ++ others) where
  legible := List.forall_mem_append.mpr ⟨h.legible, h'.legible⟩
  tagged := List.forall_mem_append.mpr ⟨h.tagged, h'.tagged⟩
  decoded := by
    have first := h.decoded
    have second := h'.decoded
    rw [nodesAll_eq_flatMap] at first second ⊢
    rw [List.flatMap_append, List.mapM_append, first, second]
    rfl

theorem flatMap {f : γ → List Markup} {g : γ → List α} {l : List γ}
    (each : ∀ c ∈ l, Told decode (f c) (g c)) : Told decode (l.flatMap f) (l.flatMap g) :=
  related_flatMap nil append each

theorem map {f : γ → Markup} {g : γ → α} {l : List γ}
    (each : ∀ c ∈ l, Told decode [f c] [g c]) : Told decode (l.map f) (l.map g) := by
  rw [List.map_eq_flatMap, List.map_eq_flatMap]
  exact flatMap each

/-- A decoder that takes at least what another one takes. -/
theorem imp {decode' : Xml → Option β} {f : α → β} (h : Told decode content values)
    (agrees : ∀ x a, decode x = some a → decode' x = some (f a)) :
    Told decode' content (values.map f) where
  legible := h.legible
  tagged := h.tagged
  decoded := by
    have decoded := h.decoded
    clear h
    generalize nodesAll "sch" [] content = nodes at decoded ⊢
    induction nodes generalizing values with
    | nil =>
        cases decoded
        rfl
    | cons x rest ih =>
        rw [List.mapM_cons] at decoded ⊢
        obtain ⟨a, first, decoded⟩ := Option.bind_eq_some_iff.mp decoded
        obtain ⟨others, later, decoded⟩ := Option.bind_eq_some_iff.mp decoded
        cases decoded
        rw [agrees x a first, ih later]
        rfl

variable {name : String} {keys : List String} {fields : List (Option String)} {value : α}
  {decode : List (Option String) → List Xml → Option α}

theorem local_presentAttributes (known : ∀ key ∈ keys, Local key)
    (lengths : keys.length = fields.length) :
    ∀ a ∈ presentAttributes (keys.zip fields), Local a.1 := by
  intro a member
  have listed := key_of_mem_presentAttributes member
  rw [List.map_fst_zip (Nat.le_of_eq lengths)] at listed
  exact known _ listed

/-- An element tells what its fields and its children are decoded to. -/
theorem element (known : ∀ key ∈ name :: keys, Local key) (distinct : keys.Nodup)
    (lengths : keys.length = fields.length) (legible : ∀ piece ∈ content, Legible piece)
    (apart : content.IsChain Apart)
    (decoded : decode fields (nodesAll "sch" [] content) = some value) :
    Told (Xml.element? name keys decode)
      [.element name (presentAttributes (keys.zip fields)) content] [value] where
  legible piece member := by
    obtain ⟨name_local, keys_local⟩ := List.forall_mem_cons.mp known
    rw [List.mem_singleton.mp member]
    exact .element name_local (local_presentAttributes keys_local lengths) legible apart
  tagged piece member := by
    rw [List.mem_singleton.mp member]
    rfl
  decoded := by
    rw [nodesAll, nodesAll, nodes, List.append_nil, List.nil_append, List.mapM_cons,
      Xml.element?_presentAttributes distinct lengths, decoded]
    rfl

theorem empty (known : ∀ key ∈ name :: keys, Local key) (distinct : keys.Nodup)
    (lengths : keys.length = fields.length) (decoded : decode fields [] = some value) :
    Told (Xml.element? name keys decode)
      [.empty name (presentAttributes (keys.zip fields))] [value] where
  legible piece member := by
    obtain ⟨name_local, keys_local⟩ := List.forall_mem_cons.mp known
    rw [List.mem_singleton.mp member]
    exact .empty name_local (local_presentAttributes keys_local lengths)
  tagged piece member := by
    rw [List.mem_singleton.mp member]
    rfl
  decoded := by
    rw [nodesAll, nodesAll, nodes, List.append_nil, List.nil_append, List.mapM_cons,
      Xml.element?_presentAttributes distinct lengths, decoded]
    rfl

end Told

end Markup

/-! ### What the parts tell -/

theorem MessagePart.decoded_toMarkup {parts : List MessagePart} (filled : .text "" ∉ parts) :
    (Markup.nodesAll "sch" [] (parts.map MessagePart.toMarkup)).mapM MessagePart.ofXml? =
      some parts := by
  induction parts with
  | nil => rfl
  | cons part rest ih =>
      obtain ⟨other, later⟩ := not_or.mp (mt List.mem_cons.mpr filled)
      rw [List.map_cons, Markup.nodesAll, List.mapM_append, ih later]
      cases part with
      | text content =>
          have some_text : content ≠ "" := fun nothing => other (by rw [nothing])
          rw [toMarkup, Markup.nodes, if_neg some_text]
          rfl
      | valueOf select => rfl

theorem Message.legible_toMarkup (m : Message) : ∀ piece ∈ m.toMarkup, Markup.Legible piece := by
  intro piece member
  obtain ⟨part, -, rfl⟩ := List.mem_map.mp member
  cases part with
  | text content => exact .text
  | valueOf select =>
      refine .empty (by decide) fun a member => ?_
      rw [List.mem_singleton.mp member]
      show Markup.Local "select"
      decide

theorem Message.Normal.isChain_toMarkup {m : Message} (normal : m.Normal) :
    m.toMarkup.IsChain Markup.Apart := by
  refine List.isChain_map_of_isChain MessagePart.toMarkup ?_ normal.apart
  intro a b apart
  cases a <;> cases b <;> simp_all [MessagePart.toMarkup, Markup.Apart, Markup.isText,
    MessagePart.isText]

theorem Assert.told {a : Assert} (built : a.Built) :
    Markup.Told ofXml? [a.toMarkup] [a.shown] := by
  obtain ⟨test, message⟩ := a
  have told (content : List Markup) := @Markup.Told.element Assert content "assert" ["test"] [test]
  cases message with
  | none => exact told [] (by decide) (by decide) rfl (by simp) .nil rfl
  | some m =>
      have normal := (built m rfl).normal
      refine told m.toMarkup (by decide) (by decide) rfl m.legible_toMarkup normal.isChain_toMarkup ?_
      have decoded := MessagePart.decoded_toMarkup normal.filled
      simp only [Message.toMarkup, decoded, Option.map_some, shown, Option.getD_some]

theorem Assertion.told {a : Assertion} (built : a.Built) :
    Markup.Told Assert.ofXml? [a.toMarkup] [a.shown] := by
  refine @Assert.told ⟨some a.test, some a.message⟩ fun m member => ?_
  rw [← Option.mem_some_iff.mp member]
  exact built

theorem Rule.told {r : Rule} (built : r.Built) : Markup.Told ofXml? [r.toMarkup] [r.shown] := by
  have asserts : Markup.Told Assert.ofXml? (r.asserts.map Assert.toMarkup)
      (r.asserts.map Assert.shown) := .map fun a member => Assert.told (built a member)
  refine @Markup.Told.element _ _ "rule" ["id", "context"] [r.id, r.context] _ _ (by decide)
    (by decide) rfl asserts.legible asserts.isChain ?_
  simp only [asserts.decoded, Option.map_some, shown]

theorem RuleRecord.told {r : RuleRecord} (built : r.Built) :
    Markup.Told Rule.ofXml? [r.toMarkup] [r.shown] := by
  have asserts : Markup.Told Assert.ofXml? (r.assertions.map Assertion.toMarkup)
      (r.assertions.map Assertion.shown) := .map fun a member => Assertion.told (built a member)
  refine @Markup.Told.element _ _ "rule" ["id", "context"] [none, some r.path] _ _ (by decide)
    (by decide) rfl asserts.legible asserts.isChain ?_
  simp only [asserts.decoded, Option.map_some, shown]

theorem NamespaceBinding.told (n : NamespaceBinding) : Markup.Told ofXml? [n.toMarkup] [n] :=
  @Markup.Told.empty _ "ns" ["prefix", "uri"] [n.nsPrefix, n.uri] _ _ (by decide) (by decide) rfl rfl

theorem Paragraph.told (p : Paragraph) : Markup.Told ofXml? [p.toMarkup] [p.shown] := by
  obtain ⟨message⟩ := p
  have told (content : List Markup) := @Markup.Told.element Paragraph content "p" [] []
  cases message with
  | none => exact told [] (by decide) (by decide) rfl (by simp) .nil rfl
  | some text =>
      refine told [.text text] (by decide) (by decide) rfl ?_ (.singleton _) ?_
      · intro piece member
        rw [List.mem_singleton.mp member]
        exact .text
      · rw [Markup.nodesAll, Markup.nodes]
        by_cases silent : text = ""
        · simp [silent, shown, Markup.nodesAll]
        · simp [silent, shown, Markup.nodesAll]

theorem PatternItem.told {p : Pattern} (built : p.Built) {item : PatternItem}
    (member : item ∈ p.items) :
    Markup.Told ofXml? (item.toMarkup p.constraints) (item.shown p.constraints) := by
  have of_rule (x : Xml) (r : Rule) (decoded : Rule.ofXml? x = some r) :
      ofXml? x = some (.rule r) := by
    rw [ofXml?, Xml.name_of_element? decoded, decoded]
    rfl
  cases item with
  | paragraph paragraph =>
      refine paragraph.told.imp fun x value decoded => ?_
      rw [ofXml?, Xml.name_of_element? decoded, decoded]
      rfl
  | rule r => exact (Rule.told (built.rules r member)).imp of_rule
  | scope root =>
      obtain ⟨records, flat, each⟩ := built.reachable.sound.exists_built_rules member
      have told : Markup.Told Rule.ofXml? (records.map RuleRecord.toMarkup)
          (records.map RuleRecord.shown) :=
        .map fun record listed => RuleRecord.told (each record listed)
      have items := told.imp of_rule
      rw [List.map_map] at items
      simp only [toMarkup, shown, flat]
      exact items

theorem Pattern.told {p : Pattern} (built : p.Built) :
    Markup.Told ofXml? [p.toMarkup] [p.shown] := by
  have items : Markup.Told PatternItem.ofXml? (p.items.flatMap (PatternItem.toMarkup p.constraints))
      (p.items.flatMap (PatternItem.shown p.constraints)) :=
    .flatMap fun item member => PatternItem.told built member
  refine @Markup.Told.element _ _ "pattern" ["id", "name"] [p.id, p.name] _ _ (by decide)
    (by decide) rfl items.legible items.isChain ?_
  simp only [items.decoded, Option.map_some, shown]

theorem SchemaItem.told {s : Schema} (built : s.Built) {item : SchemaItem}
    (member : item ∈ s.items) : Markup.Told ofXml? [item.toMarkup] [item.shown] := by
  cases item with
  | binding n =>
      refine n.told.imp fun x value decoded => ?_
      rw [ofXml?, Xml.name_of_element? decoded, decoded]
      rfl
  | paragraph p =>
      refine p.told.imp fun x value decoded => ?_
      rw [ofXml?, Xml.name_of_element? decoded, decoded]
      rfl
  | pattern p =>
      have listed : p ∈ s.patterns := List.mem_filterMap.mpr ⟨.pattern p, member, rfl⟩
      refine (Pattern.told (built p listed)).imp fun x value decoded => ?_
      rw [ofXml?, Xml.name_of_element? decoded, decoded]
      rfl

theorem Schema.told {s : Schema} (built : s.Built) :
    Markup.Told ofXml? [s.toMarkup] [s.shown] := by
  have items : Markup.Told SchemaItem.ofXml? (s.items.map SchemaItem.toMarkup)
      (s.items.map SchemaItem.shown) := .map fun item member => SchemaItem.told built member
  refine @Markup.Told.element _ _ "schema" ["id", "title"] [s.id, s.title] _ _ (by decide)
    (by decide) rfl items.legible items.isChain ?_
  simp only [items.decoded, Option.map_some, shown]

def OutputOptions.compactFor (uri : String) : OutputOptions := { compact with namespaceUri := uri }

theorem OutputOptions.validate_compactFor (uri : String) : (compactFor uri).validate = .ok () := by
  have named : isPrefixName "sch" = true := by decide
  simp [validate, compactFor, compact, standard, named]

namespace Document

/-- The markup of a document tells what the document shows. -/
theorem told {d : Document} (built : d.Built) : Markup.Told ofXml? d.toMarkup [d.shown] := by
  have of_rule (x : Xml) (r : Rule) (decoded : Rule.ofXml? x = some r) :
      ofXml? x = some (.rule r) := by
    rw [ofXml?, Xml.name_of_element? decoded, decoded]
    rfl
  have of_assert (x : Xml) (a : Assert) (decoded : Assert.ofXml? x = some a) :
      ofXml? x = some (.assert a) := by
    rw [ofXml?, Xml.name_of_element? decoded, decoded]
    rfl
  cases d with
  | schema s =>
      refine (Schema.told built).imp fun x value decoded => ?_
      rw [ofXml?, Xml.name_of_element? decoded, decoded]
      rfl
  | binding n =>
      refine n.told.imp fun x value decoded => ?_
      rw [ofXml?, Xml.name_of_element? decoded, decoded]
      rfl
  | paragraph p =>
      refine p.told.imp fun x value decoded => ?_
      rw [ofXml?, Xml.name_of_element? decoded, decoded]
      rfl
  | pattern p =>
      refine (Pattern.told built).imp fun x value decoded => ?_
      rw [ofXml?, Xml.name_of_element? decoded, decoded]
      rfl
  | rule r => exact (Rule.told built).imp of_rule
  | assert a => exact (Assert.told built).imp of_assert
  | assertion a => exact (Assertion.told built).imp of_assert
  | record r => exact (RuleRecord.told built).imp of_rule
  | message m => cases built

/-- A document is one element that can be read back. -/
theorem exists_legible {d : Document} (built : d.Built) :
    ∃ piece, d.toMarkup = [piece] ∧ piece.Legible ∧ piece.isText = false := by
  have told := Document.told built
  obtain ⟨piece, single⟩ : ∃ piece, d.toMarkup = [piece] := by
    cases d with
    | message m => cases built
    | _ => exact ⟨_, rfl⟩
  rw [single] at told
  exact ⟨piece, single, told.legible piece (.head []), told.tagged piece (.head [])⟩

/-- The text of a document on one line, and what the reader makes of it. -/
theorem exists_text {d : Document} (built : d.Built) (uri : String) :
    ∃ text name attributes children,
      d.toXml (.compactFor uri) = .ok text ∧
      Xml.read text = some (.element name (("xmlns:sch", uri) :: attributes) children) ∧
      Markup.nodesAll "sch" [] d.toMarkup = [.element name attributes children] ∧
      Xml.Lacks "xmlns:sch" (.element name attributes children) ∧
      Document.ofXml? (.element name attributes children) = some d.shown := by
  have told := Document.told built
  obtain ⟨piece, single, legible, tagged⟩ := exists_legible built
  rw [single] at told
  have legible_ns : Reader.LegibleName "sch" := by decide
  have legible_key : Reader.LegibleName "xmlns:sch" := by decide
  obtain ⟨text, name, bound, children, written, root, reading⟩ :=
    @Markup.read_render piece (.compactFor uri) (OutputOptions.validate_compactFor uri) rfl rfl
      legible_ns legible_key legible tagged
  obtain ⟨attributes, rfl, own⟩ := Markup.exists_own_attributes root
  change Markup.nodes "sch" [] piece = _ at own
  have nodes : Markup.nodesAll "sch" [] [piece] = [.element name attributes children] := by
    rw [Markup.nodesAll, Markup.nodesAll, List.append_nil, own]
  have lacks : Xml.Lacks "xmlns:sch" (.element name attributes children) := by
    refine @Markup.Legible.lacks "sch" piece legible "xmlns:sch" (by decide) _ ?_
    rw [own]
    exact .head []
  have decoded := told.decoded
  rw [nodes, List.mapM_cons] at decoded
  obtain ⟨shown, first, decoded⟩ := Option.bind_eq_some_iff.mp decoded
  cases decoded
  refine ⟨text, name, attributes, children, ?_, reading, ?_, lacks, first⟩
  · rw [toXml, single]
    exact written
  · rw [single]
    exact nodes

/-- Two documents have the same text on one line exactly if they show the same. -/
theorem toXml_eq_iff {d d' : Document} (built : d.Built) (built' : d'.Built) (uri : String) :
    d.toXml (.compactFor uri) = d'.toXml (.compactFor uri) ↔ d.shown = d'.shown := by
  constructor
  · intro same
    obtain ⟨text, name, attributes, children, written, reading, -, -, decoded⟩ :=
      exists_text built uri
    obtain ⟨text', name', attributes', children', written', reading', -, -, decoded'⟩ :=
      exists_text built' uri
    rw [written, written'] at same
    cases same
    rw [reading] at reading'
    cases reading'
    rw [decoded] at decoded'
    exact Option.some.inj decoded'
  · intro same
    rw [← toXml_shown built, ← toXml_shown built', same]

/-- Nothing is lost in the text of a document, and nothing in its strings gets out of its place.
The reader finds one root, whose first attribute binds the prefix, and below it exactly the nodes
of the document. They are decoded to what the document shows, and so no two documents have the
same text unless they show the same. -/
theorem read_back {d : Document} (built : d.Built) (uri : String) :
    (∃ text name attributes children,
      d.toXml (.compactFor uri) = .ok text ∧
      Xml.read text = some (.element name (("xmlns:sch", uri) :: attributes) children) ∧
      Markup.nodesAll "sch" [] d.toMarkup = [.element name attributes children] ∧
      Xml.Lacks "xmlns:sch" (.element name attributes children) ∧
      Document.ofXml? (.element name attributes children) = some d.shown) ∧
    ∀ d' : Document, d'.Built →
      (d.toXml (.compactFor uri) = d'.toXml (.compactFor uri) ↔ d.shown = d'.shown) := by
  constructor
  · exact exists_text built uri
  · intro d' built'
    exact toXml_eq_iff built built' uri

end Document

/-- A rule full of marks and references, with an empty message in the end. -/
def Rule.marked : Rule := ⟨some "&lt;", some "a[b < 1]",
  [⟨some "a>b", some (.ofParts [.text "is &amp; <", .valueOf "\"x\"", .text ">"])⟩,
    ⟨none, some .empty⟩]⟩

def Pattern.marked : Pattern := .run 0
  [.setName (some "\"a\" & 'b'"), .rule .marked, .scope "/",
    .child ⟨0, 0⟩ "a&b" .requiredPresence]

theorem Rule.built_marked : marked.Built := by
  intro a listed m spoken
  rcases List.mem_cons.mp listed with rfl | last
  · exact ⟨_, (Option.mem_some_iff.mp spoken).symm⟩
  · rw [List.mem_singleton.mp last] at spoken
    exact ⟨[], (Option.mem_some_iff.mp spoken).symm⟩

theorem Pattern.built_marked : marked.Built where
  reachable := ⟨0, _, rfl⟩
  rules r member := by
    have items : marked.items = [.rule .marked, .scope ⟨0, 0⟩] := by decide +kernel
    have same : r = .marked := by simpa [items] using member
    rw [same]
    exact Rule.built_marked

theorem Document.read_back_marked :
    (Document.pattern .marked).Built ∧ ∃ text name attributes children,
      (Document.pattern .marked).toXml (.compactFor "urn:a&b") = .ok text ∧
      Xml.read text = some (.element name (("xmlns:sch", "urn:a&b") :: attributes) children) ∧
      Document.ofXml? (.element name attributes children) =
        some (Document.pattern .marked).shown := by
  have built : (Document.pattern .marked).Built := Pattern.built_marked
  obtain ⟨⟨text, name, attributes, children, written, reading, -, -, decoded⟩, -⟩ :=
    Document.read_back built "urn:a&b"
  exact ⟨built, text, name, attributes, children, written, reading, decoded⟩

end Schematron
