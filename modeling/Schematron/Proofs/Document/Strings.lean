import Mathlib.Data.List.ReduceOption
import Schematron.Proofs.Assertion.Legal
import Schematron.Proofs.Document.Elements

/-!
# The strings of a document

`Document.strings` lists what a document was given: its identifiers, titles, texts,
tests and paths, and the contexts and the values of all constraints in its trees,
those that were replaced included.

`Xml.Uses` says that some nodes are tidy and show no other characters than some
strings do. The elements of a document use its strings, although none of the tests,
messages and paths of a constraint is one of them.
-/

namespace Schematron

open Grammar

/-! ### What is given -/

def Node.strings (n : Node) : List String := n.context :: n.kind.strings

def Tree.strings (t : Tree) : List String := t.nodes.toList.flatMap Node.strings

def RuleRecord.strings (r : RuleRecord) : List String :=
  r.path :: r.assertions.flatMap Assertion.strings

def NamespaceBinding.strings (n : NamespaceBinding) : List String :=
  [n.nsPrefix, n.uri].reduceOption

def Paragraph.strings (p : Paragraph) : List String := p.message.toList

def Assert.strings (a : Assert) : List String :=
  [a.test].reduceOption ++ a.message.toList.flatMap Message.strings

def Rule.strings (r : Rule) : List String :=
  [r.id, r.context].reduceOption ++ r.asserts.flatMap Assert.strings

/-- The strings of an item of a pattern. Those of its scopes are in its tree. -/
def PatternItem.strings : PatternItem → List String
  | paragraph p => p.strings
  | rule r => r.strings
  | scope _ => []

def Pattern.strings (p : Pattern) : List String :=
  [p.id, p.name].reduceOption ++ (p.items.flatMap PatternItem.strings ++ p.constraints.strings)

def SchemaItem.strings : SchemaItem → List String
  | binding n => n.strings
  | paragraph p => p.strings
  | pattern p => p.strings

def Schema.strings (s : Schema) : List String :=
  [s.id, s.title].reduceOption ++ s.items.flatMap SchemaItem.strings

def Document.strings : Document → List String
  | schema s => s.strings
  | binding n => n.strings
  | paragraph p => p.strings
  | pattern p => p.strings
  | rule r => r.strings
  | assert a => a.strings
  | assertion a => a.strings
  | record r => r.strings
  | message m => m.strings

/-! ### Rules of constraints -/

theorem legal_joinPath {path context : String} (above : Legal path) (named : Legal context) :
    Legal (joinPath path context) := by
  have slash : Legal "/" := by decide
  rw [joinPath]
  split <;> simp [above, named, slash]

namespace Tree

variable {t : Tree} {id : NodeId} {n : Node}

theorem legal_of_get? (legal : ∀ s ∈ t.strings, Legal s) (found : t.get? id = some n) :
    ∀ s ∈ n.strings, Legal s := by
  have place : t.nodes[id.index]? = some n := by
    rw [get?] at found
    split at found
    · exact found
    · cases found
  have listed : n ∈ t.nodes.toList := Array.mem_toList_iff.mpr (Array.mem_of_getElem? place)
  exact fun s member => legal s (List.mem_flatMap.mpr ⟨n, listed, member⟩)

theorem legal_context (legal : ∀ s ∈ t.strings, Legal s) (found : t.get? id = some n) :
    Legal n.context :=
  legal_of_get? legal found n.context (.head n.kind.strings)

namespace Sound

theorem legal_path (h : t.Sound) (legal : ∀ s ∈ t.strings, Legal s) (found : t.get? id = some n)
    {path : String} (climbed : t.path id = .ok path) : Legal path := by
  refine h.up_induction (motive := fun id => ∀ path, t.path id = .ok path → Legal path)
    ?_ ?_ id n found path climbed
  · intro id n found root path climbed
    rw [path_of_root found root] at climbed
    cases climbed
    exact legal_context legal found
  · intro id n p found parent above path climbed
    rw [path_of_child h found parent] at climbed
    obtain ⟨before, reached, rfl⟩ := Except.map_eq_ok_iff.mp climbed
    exact legal_joinPath (above before reached) (legal_context legal found)

/-- The rule of a node shows the contexts on the way to it and what its children say. -/
theorem legal_ruleOf? (h : t.Sound) (legal : ∀ s ∈ t.strings, Legal s) {r : RuleRecord}
    (rule : t.ruleOf? id = some r) : ∀ s ∈ r.strings, Legal s := by
  rw [ruleOf?] at rule
  split at rule
  · cases rule
  · next speaks =>
    obtain ⟨path, climbed, rfl⟩ := Option.map_eq_some_iff.mp rule
    obtain ⟨⟨context, child⟩, first⟩ := List.exists_mem_of_ne_nil _ speaks
    obtain ⟨n, -, found, -⟩ := mem_asserted_iff.mp first
    refine List.forall_mem_cons.mpr ⟨?_, List.forall_mem_flatMap.mpr fun a listed => ?_⟩
    · exact h.legal_path legal found (Except.toOption_eq_some_iff.mp climbed)
    · obtain ⟨⟨context, child⟩, member, made⟩ := List.mem_filterMap.mp listed
      obtain ⟨n, m, found, linked, below, -⟩ := mem_asserted_iff.mp member
      obtain ⟨m', below', -, named, -⟩ := h.child_later found linked
      rw [below] at below'
      cases below'
      rw [assertionOf?, below, Option.bind_some] at made
      have kept := legal_of_get? legal below
      exact Assertion.legal_of_ofKind? made (named ▸ legal_context legal below)
        (List.forall_mem_cons.mp kept).2

theorem legal_rulesFrom (h : t.Sound) (legal : ∀ s ∈ t.strings, Legal s)
    (found : t.get? id = some n) {records : List RuleRecord}
    (flat : t.rulesFrom id = .ok records) : ∀ r ∈ records, ∀ s ∈ r.strings, Legal s := by
  rw [h.rulesFrom_eq found] at flat
  cases flat
  intro r member
  obtain ⟨visit, -, rule⟩ := List.mem_filterMap.mp member
  exact h.legal_ruleOf? legal rule

end Sound

end Tree

/-! ### What is shown -/

section presentAttributes

variable {pairs : List (String × Option String)}

theorem keys_presentAttributes :
    ((presentAttributes pairs).map (·.1)).Sublist (pairs.map (·.1)) := by
  induction pairs with
  | nil => exact .slnil
  | cons pair rest ih =>
      obtain ⟨key, value⟩ := pair
      cases value with
      | none => exact .cons key ih
      | some value => exact .cons_cons key ih

theorem values_presentAttributes :
    (presentAttributes pairs).map (·.2) = (pairs.map (·.2)).reduceOption := by
  induction pairs with
  | nil => rfl
  | cons pair rest ih =>
      obtain ⟨key, value⟩ := pair
      cases value with
      | none => exact ih
      | some value => exact congrArg (value :: ·) ih

end presentAttributes

namespace Xml

/-- The nodes are tidy, and all that they show is legal if some strings are. -/
structure Uses (nodes : List Xml) (given : List String) : Prop where
  tidy : ∀ node ∈ nodes, node.Tidy
  legal : (∀ s ∈ given, Legal s) → ∀ s ∈ stringsAll nodes, Legal s

theorem stringsAll_append (nodes others : List Xml) :
    stringsAll (nodes ++ others) = stringsAll nodes ++ stringsAll others := by
  induction nodes with
  | nil => rfl
  | cons node rest ih => rw [List.cons_append, stringsAll, stringsAll, ih, List.append_assoc]

namespace Uses

variable {nodes others : List Xml} {given more : List String}

theorem nil : Uses [] given where
  tidy := by simp
  legal := by simp [stringsAll]

theorem append (h : Uses nodes given) (h' : Uses others more) :
    Uses (nodes ++ others) (given ++ more) where
  tidy := List.forall_mem_append.mpr ⟨h.tidy, h'.tidy⟩
  legal legal := by
    obtain ⟨first, second⟩ := List.forall_mem_append.mp legal
    rw [stringsAll_append, List.forall_mem_append]
    exact ⟨h.legal first, h'.legal second⟩

/-- The strings may be others, if they are legal only together with the first ones. -/
theorem of_legal (h : Uses nodes given)
    (legal : (∀ s ∈ more, Legal s) → ∀ s ∈ given, Legal s) : Uses nodes more where
  tidy := h.tidy
  legal all := h.legal (legal all)

theorem flatMap {α : Type} {f : α → List Xml} {g : α → List String} {l : List α}
    (each : ∀ a ∈ l, Uses (f a) (g a)) : Uses (l.flatMap f) (l.flatMap g) :=
  related_flatMap nil append each

theorem map {α : Type} {f : α → Xml} {g : α → List String} {l : List α}
    (each : ∀ a ∈ l, Uses [f a] (g a)) : Uses (l.map f) (l.flatMap g) := by
  rw [List.map_eq_flatMap]
  exact flatMap each

theorem ofText (content : String) : Uses (Xml.ofText content) [content] := by
  rw [Xml.ofText]
  split
  · exact nil
  · constructor
    · intro node member
      rw [List.mem_singleton.mp member]
      exact .text
    · intro legal
      simpa [stringsAll, strings] using legal

/-- An element uses the values of its attributes and what its content uses. -/
theorem element {name : String} (keys : List String) (values : List (Option String))
    (lengths : keys.length = values.length)
    (named : ∀ n ∈ name :: keys, isNCName n.toList = true) (distinct : keys.Nodup)
    (h : Uses nodes given) :
    Uses [.element name (presentAttributes (keys.zip values)) nodes]
      (values.reduceOption ++ given) := by
  obtain ⟨own, fields⟩ := List.forall_mem_cons.mp named
  have present : ((presentAttributes (keys.zip values)).map (·.1)).Sublist keys := by
    have kept := @keys_presentAttributes (keys.zip values)
    rwa [List.map_fst_zip (Nat.le_of_eq lengths)] at kept
  have once : ((presentAttributes (keys.zip values)).map fun a => a.1.toList).Nodup := by
    have spelled := (distinct.sublist present).map fun _ _ same => String.toList_injective same
    rwa [List.map_map] at spelled
  constructor
  · intro node member
    rw [List.mem_singleton.mp member]
    refine .element own (fun a listed => ?_) once h.tidy
    exact fields a.1 (present.subset (List.mem_map_of_mem listed))
  · intro legal
    obtain ⟨attributes, content⟩ := List.forall_mem_append.mp legal
    have same : (presentAttributes (keys.zip values)).map (·.2) = values.reduceOption := by
      rw [values_presentAttributes, List.map_snd_zip (Nat.le_of_eq lengths.symm)]
    rw [stringsAll, stringsAll, List.append_nil, strings, same, List.forall_mem_append]
    exact ⟨attributes, h.legal content⟩

end Uses

end Xml

open Xml (Uses)

theorem Message.uses (m : Message) : Uses m.nodes m.strings := by
  rw [nodes, strings, List.map_eq_flatMap]
  refine .flatMap fun part _ => ?_
  cases part with
  | text content => exact .ofText content
  | valueOf select => exact .element ["select"] [some select] rfl (by decide) (by decide) .nil

theorem Assertion.uses (a : Assertion) : Uses [a.tree] a.strings :=
  .element ["test"] [some a.test] rfl (by decide) (by decide) a.message.uses

theorem RuleRecord.uses (r : RuleRecord) : Uses [r.tree] r.strings :=
  .element ["context"] [some r.path] rfl (by decide) (by decide) (.map fun a _ => a.uses)

theorem NamespaceBinding.uses (n : NamespaceBinding) : Uses [n.tree] n.strings := by
  have fields : Uses [n.tree] ([n.nsPrefix, n.uri].reduceOption ++ []) :=
    .element ["prefix", "uri"] [n.nsPrefix, n.uri] rfl (by decide) (by decide) .nil
  rwa [List.append_nil] at fields

theorem Paragraph.uses (p : Paragraph) : Uses [p.tree] p.strings := by
  have texts : Uses (p.message.toList.flatMap Xml.ofText) (p.message.toList.flatMap fun s => [s]) :=
    .flatMap fun text _ => .ofText text
  rw [List.flatMap_singleton'] at texts
  exact .element [] [] rfl (by decide) (by decide) texts

theorem Assert.uses (a : Assert) : Uses [a.tree] a.strings :=
  .element ["test"] [a.test] rfl (by decide) (by decide) (.flatMap fun m _ => m.uses)

theorem Rule.uses (r : Rule) : Uses [r.tree] r.strings :=
  .element ["id", "context"] [r.id, r.context] rfl (by decide) (by decide)
    (.map fun a _ => a.uses)

/-- The trees of an item use its strings and, for a scope, those of the constraints. -/
theorem PatternItem.uses {constraints : Tree} (sound : constraints.Sound) (item : PatternItem)
    (known : ∀ root, item = .scope root → ∃ n, constraints.get? root = some n) :
    Uses (item.trees constraints) (item.strings ++ constraints.strings) := by
  cases item with
  | paragraph p => exact p.uses.of_legal fun legal s own => legal s (List.mem_append_left _ own)
  | rule r => exact r.uses.of_legal fun legal s own => legal s (List.mem_append_left _ own)
  | scope root =>
      obtain ⟨n, found⟩ := known root rfl
      rw [trees]
      split
      · next records flat =>
        refine Uses.of_legal (.map fun r _ => r.uses) fun legal => ?_
        exact List.forall_mem_flatMap.mpr (sound.legal_rulesFrom legal found flat)
      · exact .nil

theorem Pattern.Sound.uses {p : Pattern} (h : p.Sound) : Uses [p.tree] p.strings := by
  have items : Uses (p.items.flatMap (PatternItem.trees p.constraints))
      (p.items.flatMap fun item => item.strings ++ p.constraints.strings) := by
    refine .flatMap fun item member => item.uses h.constraints ?_
    rintro root rfl
    exact h.scope_found member
  refine .element ["id", "name"] [p.id, p.name] rfl (by decide) (by decide) (items.of_legal ?_)
  intro legal
  obtain ⟨own, constraints⟩ := List.forall_mem_append.mp legal
  refine List.forall_mem_flatMap.mpr fun item member => List.forall_mem_append.mpr ⟨?_, constraints⟩
  exact fun s inside => own s (List.mem_flatMap.mpr ⟨item, member, inside⟩)

theorem Schema.uses {s : Schema} (sound : ∀ p ∈ s.patterns, p.Sound) : Uses [s.tree] s.strings := by
  refine .element ["id", "title"] [s.id, s.title] rfl (by decide) (by decide) ?_
  refine .map fun item member => ?_
  cases item with
  | binding n => exact n.uses
  | paragraph p => exact p.uses
  | pattern p =>
      have listed : p ∈ s.patterns := List.mem_filterMap.mpr ⟨.pattern p, member, rfl⟩
      exact (sound p listed).uses

/-- The elements of a document are tidy and show nothing but its strings and words of their own. -/
theorem Document.uses {d : Document} (reachable : ∀ p ∈ d.patterns, p.Reachable) :
    Uses d.elements d.strings := by
  cases d with
  | schema s => exact Schema.uses fun p member => (reachable p member).sound
  | binding n => exact n.uses
  | paragraph p => exact p.uses
  | pattern p => exact (reachable p (.head _)).sound.uses
  | rule r => exact r.uses
  | assert a => exact a.uses
  | assertion a => exact a.uses
  | record r => exact r.uses
  | message m => exact m.uses

end Schematron
