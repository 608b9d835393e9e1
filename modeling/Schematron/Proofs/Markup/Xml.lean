import Schematron.Proofs.Markup.Reader
import Schematron.Proofs.Markup.Tokens

/-!
# Reading element trees back

Tokens are put together to elements with a stack of the elements that are open.
`Markup.nodes` is the tree that a piece of markup is meant to be, and `read_render`
says that a document on one line is read back as exactly that tree.

The piece has to be legible: its names and keys are named and have no prefix of
their own, nothing in it stops with an error, and no two texts are adjacent,
since a reader could not tell where one of them ends. Values and texts may be
any strings.
-/

namespace Schematron

inductive Xml where
  | element (name : String) (attributes : List Attribute) (children : List Xml)
  | text (content : String)
  deriving Repr

namespace Xml

/-- No element of the tree has an attribute of the given key. -/
inductive Lacks (key : String) : Xml → Prop where
  | element {name : String} {attributes : List Attribute} {children : List Xml} :
    (∀ a ∈ attributes, a.1 ≠ key) → (∀ child ∈ children, Lacks key child) →
    Lacks key (.element name attributes children)
  | text {content : String} : Lacks key (.text content)

/-- An element that is not closed yet, with the nodes before it in its parent. -/
structure Open where
  tag : Tag
  before : List Xml

/-- The nodes that tokens form, inside of the open elements and behind some siblings. -/
def build : List Open → List Xml → List Token → Option (List Xml)
  | [], siblings, [] => some siblings
  | _ :: _, _, [] => none
  | stack, siblings, .startTag tag :: rest => build (⟨tag, siblings⟩ :: stack) [] rest
  | stack, siblings, .emptyTag tag :: rest =>
    build stack (siblings ++ [.element tag.name tag.attributes []]) rest
  | stack, siblings, .text content :: rest => build stack (siblings ++ [.text content]) rest
  | last :: stack, siblings, .endTag name :: rest =>
    if last.tag.name = name then
      build stack (last.before ++ [.element last.tag.name last.tag.attributes siblings]) rest
    else none
  | [], _, .endTag _ :: _ => none
  | _, _, .declaration :: _ => none

/-- The root element of a text that holds nothing else. -/
def read (text : String) : Option Xml :=
  match (Reader.tokenize text).bind (build [] []) with
  | some [.element name attributes children] => some (.element name attributes children)
  | _ => none

variable {stack : List Open} {siblings : List Xml} {tag : Tag} {rest : List Token}

theorem build_startTag :
    build stack siblings (.startTag tag :: rest) = build (⟨tag, siblings⟩ :: stack) [] rest := by
  cases stack <;> rfl

theorem build_emptyTag : build stack siblings (.emptyTag tag :: rest) =
    build stack (siblings ++ [.element tag.name tag.attributes []]) rest := by
  cases stack <;> rfl

theorem build_text {content : String} : build stack siblings (.text content :: rest) =
    build stack (siblings ++ [.text content]) rest := by
  cases stack <;> rfl

theorem build_endTag {before : List Xml} :
    build (⟨tag, before⟩ :: stack) siblings (.endTag tag.name :: rest) =
      build stack (before ++ [.element tag.name tag.attributes siblings]) rest :=
  if_pos rfl

end Xml

namespace Markup

mutual

/-- The nodes that a piece of markup stands for. An empty text is none. -/
def nodes (nsPrefix : String) (binding : List Attribute) : Markup → List Xml
  | .element name attributes content =>
    [.element (nsPrefix ++ ":" ++ name) (binding ++ attributes) (nodesAll nsPrefix [] content)]
  | .empty name attributes => [.element (nsPrefix ++ ":" ++ name) (binding ++ attributes) []]
  | .text content => if content = "" then [] else [.text content]
  | .fail _ => []

def nodesAll (nsPrefix : String) (binding : List Attribute) : List Markup → List Xml
  | [] => []
  | piece :: rest => piece.nodes nsPrefix binding ++ nodesAll nsPrefix binding rest

end

def isText : Markup → Bool
  | .text _ => true
  | _ => false

def Apart (a b : Markup) : Prop := ¬ (a.isText = true ∧ b.isText = true)

/-- A legible name without a prefix. -/
def Local (name : String) : Prop := Reader.LegibleName name ∧ ':' ∉ name.toList

instance (name : String) : Decidable (Local name) := inferInstanceAs (Decidable (_ ∧ _))

/-- A piece that can be read back. -/
inductive Legible : Markup → Prop where
  | element {name : String} {attributes : List Attribute} {content : List Markup} :
    Local name → (∀ a ∈ attributes, Local a.1) → (∀ piece ∈ content, Legible piece) →
    content.IsChain Apart → Legible (.element name attributes content)
  | empty {name : String} {attributes : List Attribute} :
    Local name → (∀ a ∈ attributes, Local a.1) → Legible (.empty name attributes)
  | text {content : String} : Legible (.text content)

variable {nsPrefix : String} {binding : List Attribute} {piece : Markup} {content : List Markup}

theorem Legible.outcome_eq (h : Legible piece) : piece.outcome = .ok () := by
  induction h with
  | element _ _ _ _ ih =>
      rw [outcome]
      exact outcomeAll_eq_ok_iff.mpr ih
  | empty => rfl
  | text => rfl

theorem tokensAll_eq_flatMap (legible : ∀ piece ∈ content, Legible piece) :
    tokensAll nsPrefix binding content = content.flatMap (tokens nsPrefix binding) :=
  tokensAll_of_complete fun piece member => (legible piece member).outcome_eq

theorem nodesAll_eq_flatMap (content : List Markup) :
    nodesAll nsPrefix binding content = content.flatMap (nodes nsPrefix binding) := by
  induction content with
  | nil => rfl
  | cons piece rest ih => rw [nodesAll, List.flatMap_cons, ih]

/-- The binding only adds to the attributes of the root. -/
theorem exists_own_attributes {name : String} {attributes : List Attribute} {children : List Xml}
    (root : piece.nodes nsPrefix binding = [.element name attributes children]) :
    ∃ own, attributes = binding ++ own ∧
      piece.nodes nsPrefix [] = [.element name own children] := by
  cases piece with
  | element inner own content =>
      rw [nodes] at root
      cases root
      exact ⟨own, rfl, rfl⟩
  | empty inner own =>
      cases root
      exact ⟨own, rfl, rfl⟩
  | text content =>
      rw [nodes] at root
      split at root
      · cases root
      · cases root
  | fail error => cases root

theorem legibleName_qualified {name : String} (legible_ns : Reader.LegibleName nsPrefix)
    (named : Reader.LegibleName name) : Reader.LegibleName (nsPrefix ++ ":" ++ name) := by
  constructor
  · simp
  · intro c member
    rw [String.toList_append, String.toList_append, List.mem_append, List.mem_append] at member
    rcases member with (inside | colon) | inside
    · exact legible_ns.2 c inside
    · have same : c = ':' := by simpa using colon
      rw [same]
      decide
    · exact named.2 c inside

theorem legible_wrap {tag : Tag} {inner : List Token} (legible : Reader.LegibleTag tag)
    (each : ∀ token ∈ inner, Reader.Legible token) :
    ∀ token ∈ wrap tag inner, Reader.Legible token := by
  intro token member
  rw [wrap] at member
  split at member
  · rw [List.mem_singleton.mp member]
    exact legible
  · rcases List.mem_append.mp member with front | last
    · rcases List.mem_cons.mp front with rfl | inside
      · exact legible
      · exact each token inside
    · rw [List.mem_singleton.mp last]
      exact legible.1

theorem Legible.tokens (h : Legible piece) (legible_ns : Reader.LegibleName nsPrefix)
    (legible_binding : ∀ a ∈ binding, Reader.LegibleName a.1) :
    ∀ token ∈ piece.tokens nsPrefix binding, Reader.Legible token := by
  induction h generalizing binding with
  | @element name attributes content named keys legible _ ih =>
      rw [Markup.tokens]
      refine legible_wrap ⟨legibleName_qualified legible_ns named.1, ?_⟩ ?_
      · exact List.forall_mem_append.mpr ⟨legible_binding, fun a member => (keys a member).1⟩
      · rw [tokensAll_eq_flatMap legible]
        intro token member
        obtain ⟨inner, listed, inside⟩ := List.mem_flatMap.mp member
        exact ih inner listed (by simp) token inside
  | @empty name attributes named keys =>
      intro token member
      rw [Markup.tokens, List.mem_singleton] at member
      rw [member]
      exact ⟨legibleName_qualified legible_ns named.1,
        List.forall_mem_append.mpr ⟨legible_binding, fun a member => (keys a member).1⟩⟩
  | @text content =>
      intro token member
      rw [Markup.tokens] at member
      split at member
      · cases member
      · next some_text =>
        rw [List.mem_singleton.mp member]
        exact some_text

theorem apart_of_left {a b : Token} (other : Reader.isText a = false) : Reader.Apart a b := by
  simp [Reader.Apart, other]

theorem apart_of_right {a b : Token} (other : Reader.isText b = false) : Reader.Apart a b := by
  simp [Reader.Apart, other]

/-- The tokens of a piece that is no text begin and end with a tag. -/
theorem Legible.ends (h : Legible piece) (other : piece.isText = false) :
    (∃ first rest, piece.tokens nsPrefix binding = first :: rest ∧ Reader.isText first = false) ∧
      ∃ rest last, piece.tokens nsPrefix binding = rest ++ [last] ∧ Reader.isText last = false := by
  cases h with
  | element =>
      rw [Markup.tokens, wrap]
      split
      · exact ⟨⟨_, _, rfl, rfl⟩, [], _, rfl, rfl⟩
      · exact ⟨⟨_, _, rfl, rfl⟩, _, _, rfl, rfl⟩
  | empty => exact ⟨⟨_, _, rfl, rfl⟩, [], _, rfl, rfl⟩
  | text => cases other

/-- Texts that are apart among the pieces are apart among the tokens. -/
theorem isChain_flatMap (legible : ∀ piece ∈ content, Legible piece)
    (each : ∀ piece ∈ content, (piece.tokens nsPrefix binding).IsChain Reader.Apart)
    (apart : content.IsChain Apart) :
    (content.flatMap (tokens nsPrefix binding)).IsChain Reader.Apart := by
  induction content with
  | nil => exact .nil
  | cons piece rest ih =>
      obtain ⟨first, later⟩ := List.forall_mem_cons.mp legible
      obtain ⟨chain, chains⟩ := List.forall_mem_cons.mp each
      rw [List.flatMap_cons, List.isChain_append]
      refine ⟨chain, ih later chains apart.tail, ?_⟩
      intro x hx y hy
      cases other : piece.isText with
      | false =>
          obtain ⟨-, before, last, written, tagged⟩ := @Legible.ends nsPrefix binding _ first other
          rw [written, List.getLast?_concat, Option.mem_some_iff] at hx
          exact apart_of_left (hx ▸ tagged)
      | true =>
          cases rest with
          | nil => cases hy
          | cons next more =>
              have next_other : next.isText = false := by
                have seam := (List.isChain_cons_cons.mp apart).1
                simpa [Apart, other] using seam
              obtain ⟨⟨start, behind, written, tagged⟩, -⟩ :=
                @Legible.ends nsPrefix binding _ (later next List.mem_cons_self) next_other
              rw [List.flatMap_cons, written, List.cons_append, List.head?_cons,
                Option.mem_some_iff] at hy
              exact apart_of_right (hy ▸ tagged)

theorem isChain_wrap {tag : Tag} {inner : List Token} (chain : inner.IsChain Reader.Apart) :
    (wrap tag inner).IsChain Reader.Apart := by
  rw [wrap]
  split
  · exact .singleton _
  · refine List.isChain_append.mpr ⟨List.isChain_cons.mpr ⟨?_, chain⟩, .singleton _, ?_⟩
    · intro y _
      exact apart_of_left rfl
    · intro x _ y hy
      rw [List.head?_cons, Option.mem_some_iff] at hy
      exact apart_of_right (hy ▸ rfl)

/-- No two texts are adjacent among the tokens of a legible piece. -/
theorem Legible.isChain (h : Legible piece) :
    (piece.tokens nsPrefix binding).IsChain Reader.Apart := by
  induction h generalizing binding with
  | @element name attributes content _ _ legible apart ih =>
      rw [Markup.tokens, tokensAll_eq_flatMap legible]
      exact isChain_wrap (isChain_flatMap legible (fun inner listed => ih inner listed) apart)
  | empty => exact .singleton _
  | @text content =>
      rw [Markup.tokens]
      split
      · exact .nil
      · exact .singleton _

/-- The tokens of a legible piece form its nodes. -/
theorem Legible.build_tokens (h : Legible piece) (stack : List Xml.Open) (siblings : List Xml)
    (rest : List Token) :
    Xml.build stack siblings (piece.tokens nsPrefix binding ++ rest) =
      Xml.build stack (siblings ++ piece.nodes nsPrefix binding) rest := by
  induction h generalizing binding stack siblings rest with
  | @element name attributes content _ _ legible _ ih =>
      have inner (stack : List Xml.Open) (siblings : List Xml) (rest : List Token)
          (pieces : List Markup) (inside : pieces ⊆ content) :
          Xml.build stack siblings (pieces.flatMap (Markup.tokens nsPrefix []) ++ rest) =
            Xml.build stack (siblings ++ pieces.flatMap (Markup.nodes nsPrefix [])) rest := by
        induction pieces generalizing siblings with
        | nil => simp
        | cons piece pieces pieces_ih =>
            rw [List.flatMap_cons, List.append_assoc, ih piece (inside (.head pieces)),
              pieces_ih _ fun other later => inside (.tail piece later), List.flatMap_cons,
              List.append_assoc]
      rw [Markup.tokens, Markup.nodes, tokensAll_eq_flatMap legible, nodesAll_eq_flatMap, wrap]
      split
      · next silent =>
        -- Content without tokens has no nodes either.
        have no_nodes := inner [] [] [] content fun _ member => member
        rw [silent] at no_nodes
        have childless : content.flatMap (Markup.nodes nsPrefix []) = [] :=
          (Option.some.inj no_nodes).symm
        rw [childless, List.singleton_append, Xml.build_emptyTag]
      · rw [List.append_assoc, List.cons_append, Xml.build_startTag,
          inner _ _ _ content fun _ member => member, List.singleton_append, List.nil_append,
          Xml.build_endTag]
  | empty => exact Xml.build_emptyTag
  | @text content =>
      rw [Markup.tokens, Markup.nodes]
      split
      · simp
      · exact Xml.build_text

/-- A key with a prefix is found in no legible piece, so only a binding can have it. -/
theorem Legible.lacks (h : Legible piece) {key : String} (qualified : ':' ∈ key.toList) :
    ∀ x ∈ piece.nodes nsPrefix [], x.Lacks key := by
  have other {attributes : List Attribute} (keys : ∀ a ∈ attributes, Local a.1) :
      ∀ a ∈ attributes, a.1 ≠ key := by
    rintro a member rfl
    exact (keys a member).2 qualified
  induction h with
  | element _ keys _ _ ih =>
      intro x member
      rw [nodes, List.mem_singleton] at member
      rw [member]
      refine .element (other keys) fun child inside => ?_
      rw [nodesAll_eq_flatMap] at inside
      obtain ⟨inner, listed, inside⟩ := List.mem_flatMap.mp inside
      exact ih inner listed child inside
  | empty _ keys =>
      intro x member
      rw [nodes, List.mem_singleton] at member
      rw [member]
      exact .element (other keys) (by simp)
  | text =>
      intro x member
      rw [nodes] at member
      split at member
      · cases member
      · rw [List.mem_singleton.mp member]
        exact .text

/-- On one line a legible piece is the text of its tokens. -/
theorem render_oneLine {o : OutputOptions} (valid : o.validate = .ok ()) (one_line : o.indent = 0)
    (undeclared : o.xmlDeclaration = false) (legible : Legible piece) :
    render o [piece] =
      .ok (String.join ((piece.tokens o.nsPrefix o.binding).map Token.markup)) := by
  have each : ∀ p ∈ [piece], Legible p := by
    intro p member
    rw [List.mem_singleton.mp member]
    exact legible
  have written := render_of_complete valid fun p member => (each p member).outcome_eq
  have tokens : tokensAll o.nsPrefix o.binding [piece] = piece.tokens o.nsPrefix o.binding := by
    rw [tokensAll_eq_flatMap each, List.flatMap_singleton]
  rw [written, tokens, OutputOptions.typeset, undeclared, one_line,
    Layout.placeAll_of_width_eq_zero rfl]
  simp

/-- A legible element on one line is read back as its tree. -/
theorem read_render {o : OutputOptions} (valid : o.validate = .ok ()) (one_line : o.indent = 0)
    (undeclared : o.xmlDeclaration = false) (legible_ns : Reader.LegibleName o.nsPrefix)
    (legible_key : Reader.LegibleName ("xmlns:" ++ o.nsPrefix)) (legible : Legible piece)
    (element : piece.isText = false) :
    ∃ text name attributes children, render o [piece] = .ok text ∧
      piece.nodes o.nsPrefix o.binding = [.element name attributes children] ∧
      Xml.read text = some (.element name attributes children) := by
  have legible_binding : ∀ a ∈ o.binding, Reader.LegibleName a.1 := by
    intro a member
    rw [List.mem_singleton.mp member]
    exact legible_key
  have written := render_oneLine valid one_line undeclared legible
  have tokenized := Reader.tokenize_markup (legible.tokens legible_ns legible_binding)
    (@Legible.isChain o.nsPrefix o.binding _ legible)
  have built := @Legible.build_tokens o.nsPrefix o.binding _ legible [] [] []
  rw [List.append_nil, List.nil_append] at built
  obtain ⟨name, attributes, children, root⟩ : ∃ name attributes children,
      piece.nodes o.nsPrefix o.binding = [.element name attributes children] := by
    cases legible with
    | element => exact ⟨_, _, _, rfl⟩
    | empty => exact ⟨_, _, _, rfl⟩
    | text => cases element
  refine ⟨_, name, attributes, children, written, root, ?_⟩
  rw [Xml.read, tokenized, Option.bind_some, built, root]
  rfl

end Markup

end Schematron
