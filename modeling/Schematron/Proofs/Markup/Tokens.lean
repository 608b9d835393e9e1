import Schematron.Markup.Basic

/-!
# The tokens of a document

The sink that writes XML holds a start tag back until it knows what follows.
Seen from outside it does something simpler: a piece of markup stands for a list
of tokens, which is given by recursion on the piece, and streaming the piece into
a sink whose buffer has no bound puts these tokens.

`write_eq` and `writeAll_eq` are this statement, and `render_of_valid` draws the
consequence for documents. A piece that stops with an error puts the tokens up to
there, and its open elements are closed.
-/

namespace Schematron

/-- A relation of lists that appending keeps relates lists that are put together from related
ones. -/
theorem related_flatMap {α β γ : Type} {R : List β → List γ → Prop} (nil : R [] [])
    (append : ∀ {s s' t t'}, R s s' → R t t' → R (s ++ t) (s' ++ t')) {f : α → List β}
    {g : α → List γ} {l : List α} (each : ∀ a ∈ l, R (f a) (g a)) :
    R (l.flatMap f) (l.flatMap g) := by
  induction l with
  | nil => exact nil
  | cons a rest ih =>
      obtain ⟨first, later⟩ := List.forall_mem_cons.mp each
      exact append first (ih later)

namespace Layout

/-- Several tokens with the blanks before them, and the layout behind the last. -/
def placeAll (l : Layout) : List Token → String × Layout
  | [] => ("", l)
  | token :: rest =>
    ((l.place token).1 ++ ((l.place token).2.placeAll rest).1,
      ((l.place token).2.placeAll rest).2)

theorem placeAll_append (l : Layout) (first second : List Token) :
    l.placeAll (first ++ second) =
      ((l.placeAll first).1 ++ ((l.placeAll first).2.placeAll second).1,
        ((l.placeAll first).2.placeAll second).2) := by
  induction first generalizing l with
  | nil => simp [placeAll]
  | cons token rest ih => simp [placeAll, ih, String.append_assoc]

theorem width_place (l : Layout) (token : Token) : (l.place token).2.width = l.width := by
  cases token <;> rfl

theorem width_placeAll (l : Layout) (tokens : List Token) :
    (l.placeAll tokens).2.width = l.width := by
  induction tokens generalizing l with
  | nil => rfl
  | cons token rest ih => rw [placeAll, ih, width_place]

/-- On one line tokens stand next to each other. -/
theorem placeAll_of_width_eq_zero {l : Layout} (one_line : l.width = 0) (tokens : List Token) :
    (l.placeAll tokens).1 = String.join (tokens.map Token.markup) := by
  induction tokens generalizing l with
  | nil => simp [placeAll]
  | cons token rest ih =>
      have lead : (l.place token).1 = token.markup := by
        cases token <;> simp [place, Layout.lead, isPretty, before, one_line]
      rw [placeAll, lead, ih ((width_place l token).trans one_line), List.map_cons,
        String.join_cons]

end Layout

namespace XmlSink

/-- The namespace declaration of the next element, which only an outermost one has. -/
def binding (s : XmlSink) : List Attribute :=
  if s.openNames.isEmpty then [("xmlns:" ++ s.nsPrefix, s.namespaceUri)] else []

/-- The start tag that is held back, as a token. -/
def held (s : XmlSink) : List Token := (s.pending.map Token.startTag).toList

/-- The sink with more tokens in its buffer. -/
def putAll (s : XmlSink) (tokens : List Token) : XmlSink :=
  { s with
    buffer := { s.buffer with text := s.buffer.text ++ (s.layout.placeAll tokens).1 }
    layout := (s.layout.placeAll tokens).2 }

/-- The sink without a start tag that is held back. -/
def settle (s : XmlSink) : XmlSink := { s with pending := none }

/-- The sink inside of a new element, whose start tag is held back. -/
def enter (s : XmlSink) (tag : Tag) : XmlSink :=
  { s with openNames := tag.name :: s.openNames, pending := some tag }

/-- The sink with more tokens behind the start tag that is held back. Nothing at all leaves the
start tag where it is. -/
def emit (s : XmlSink) (tokens : List Token) : XmlSink :=
  if tokens = [] then s else (s.putAll (s.held ++ tokens)).settle

variable {s : XmlSink} {tokens : List Token}

theorem putAll_append (s : XmlSink) (first second : List Token) :
    s.putAll (first ++ second) = (s.putAll first).putAll second := by
  simp [putAll, Layout.placeAll_append, String.append_assoc]

theorem put_eq (unbounded : s.buffer.room = none) (token : Token) :
    s.put token = (.ok (), s.putAll [token]) := by
  simp [put, putAll, Layout.placeAll, unbounded]

@[simp] theorem putAll_nil (s : XmlSink) : s.putAll [] = s := by
  simp [putAll, Layout.placeAll]

theorem settle_of_pending_eq_none (waits : s.pending = none) : s.settle = s := by
  rw [settle, ← waits]

theorem settle_putAll (s : XmlSink) (tokens : List Token) :
    s.settle.putAll tokens = (s.putAll tokens).settle := rfl

theorem put_settle (unbounded : s.buffer.room = none) (token : Token) :
    s.settle.put token = (.ok (), (s.putAll [token]).settle) :=
  put_eq (s := s.settle) unbounded token

theorem flush_eq (unbounded : s.buffer.room = none) :
    s.flush = (.ok (), (s.putAll s.held).settle) := by
  rw [flush]
  split
  · next waits =>
    have held : s.held = [] := by rw [held, waits]; rfl
    rw [held, putAll_nil, settle_of_pending_eq_none waits]
  · next tag waits =>
    have held : s.held = [.startTag tag] := by rw [held, waits]; rfl
    rw [held]
    exact put_settle unbounded _

theorem startElement_eq (unbounded : s.buffer.room = none) (name : String)
    (attributes : List Attribute) :
    startElement name attributes s = (.ok (), (s.putAll s.held).enter (s.tag name attributes)) := by
  rw [startElement, flush_eq unbounded]
  rfl

theorem put_flushed (unbounded : s.buffer.room = none) (token : Token) :
    (s.putAll s.held).settle.put token = (.ok (), (s.putAll (s.held ++ [token])).settle) := by
  rw [put_settle (s := s.putAll s.held) unbounded, putAll_append]

theorem emptyElement_eq (unbounded : s.buffer.room = none) (name : String)
    (attributes : List Attribute) : emptyElement name attributes s =
      (.ok (), (s.putAll (s.held ++ [.emptyTag (s.tag name attributes)])).settle) := by
  rw [emptyElement, flush_eq unbounded]
  exact put_flushed unbounded _

theorem text_eq (unbounded : s.buffer.room = none) {content : String} (some_text : content ≠ "") :
    text content s = (.ok (), (s.putAll (s.held ++ [.text content])).settle) := by
  rw [text, if_neg some_text, flush_eq unbounded]
  exact put_flushed unbounded _

theorem endElement_enter (s : XmlSink) (tag : Tag) :
    (s.enter tag).endElement = s.settle.put (.emptyTag tag) := rfl

theorem endElement_enter_putAll (s : XmlSink) (tag : Tag) (tokens : List Token) :
    ((s.enter tag).putAll tokens).settle.endElement =
      (s.putAll tokens).settle.put (.endTag tag.name) := rfl

@[simp] theorem emit_nil (s : XmlSink) : s.emit [] = s := rfl

theorem emit_of_ne_nil (some_put : tokens ≠ []) :
    s.emit tokens = (s.putAll (s.held ++ tokens)).settle :=
  if_neg some_put

/-- Tokens behind other tokens come behind all of them together. -/
theorem emit_append (s : XmlSink) (first second : List Token) :
    (s.emit first).emit second = s.emit (first ++ second) := by
  by_cases none_first : first = []
  · rw [none_first, emit_nil, List.nil_append]
  · by_cases none_second : second = []
    · rw [none_second, emit_nil, List.append_nil]
    · have nothing_held : (s.emit first).held = [] := by
        rw [emit_of_ne_nil none_first]
        rfl
      rw [emit_of_ne_nil none_second, nothing_held, List.nil_append, emit_of_ne_nil none_first,
        emit_of_ne_nil (by simp [none_first]), ← List.append_assoc,
        putAll_append s (s.held ++ first) second, settle_putAll]
      rfl

theorem emit_fields (s : XmlSink) (tokens : List Token) :
    (s.emit tokens).nsPrefix = s.nsPrefix ∧ (s.emit tokens).binding = s.binding ∧
      (s.emit tokens).openNames = s.openNames ∧ (s.emit tokens).buffer.room = s.buffer.room := by
  rw [emit]
  split <;> exact ⟨rfl, rfl, rfl, rfl⟩

/-- Outside of every element the document can end, with a line break if lines are broken. -/
theorem finish_emit (unbounded : s.buffer.room = none) (closed : s.openNames = [])
    (waits : s.pending = none) : (s.emit tokens).finish =
      (.ok (), { s.buffer with text := s.buffer.text ++ (s.layout.placeAll tokens).1 ++
        if s.layout.width ≠ 0 then "\n" else "" }) := by
  have put : s.emit tokens = s.putAll tokens := by
    have held : s.held = [] := by rw [held, waits]; rfl
    by_cases nothing : tokens = []
    · rw [nothing, emit_nil, putAll_nil]
    · rw [emit_of_ne_nil nothing, held, List.nil_append]
      exact settle_of_pending_eq_none waits
  have names : (s.putAll tokens).openNames = [] := closed
  have pretty : (s.layout.placeAll tokens).2.isPretty = decide (s.layout.width ≠ 0) := by
    rw [Layout.isPretty, Layout.width_placeAll]
  rw [put, finish, names]
  by_cases broken : s.layout.width ≠ 0
  · simp [pretty, broken, putAll, unbounded]
  · simp [pretty, broken, putAll]

end XmlSink

namespace Markup

mutual

/-- How the writing of a piece of markup ends: with the first error in it, if there is one. -/
def outcome : Markup → Outcome
  | .element _ _ content => outcomeAll content
  | .empty _ _ => .ok ()
  | .text _ => .ok ()
  | .fail error => .error error

def outcomeAll : List Markup → Outcome
  | [] => .ok ()
  | piece :: rest =>
    match piece.outcome with
    | .ok () => outcomeAll rest
    | .error error => .error error

end

/-- The tokens of an element around those of its content. Without any content it is one
empty-element tag. -/
def wrap (tag : Tag) (inner : List Token) : List Token :=
  if inner = [] then [.emptyTag tag] else .startTag tag :: inner ++ [.endTag tag.name]

mutual

/-- The tokens of a piece of markup. The binding stands before the attributes of the elements
that are not inside of others. -/
def tokens (nsPrefix : String) (binding : List Attribute) : Markup → List Token
  | .element name attributes content =>
    wrap ⟨nsPrefix ++ ":" ++ name, binding ++ attributes⟩ (tokensAll nsPrefix [] content)
  | .empty name attributes => [.emptyTag ⟨nsPrefix ++ ":" ++ name, binding ++ attributes⟩]
  | .text content => if content = "" then [] else [.text content]
  | .fail _ => []

/-- The tokens of several pieces, up to the first that stops with an error. -/
def tokensAll (nsPrefix : String) (binding : List Attribute) : List Markup → List Token
  | [] => []
  | piece :: rest =>
    match piece.outcome with
    | .ok () => piece.tokens nsPrefix binding ++ tokensAll nsPrefix binding rest
    | .error _ => piece.tokens nsPrefix binding

end

/-- Writing an element puts its tags around what its body puts. -/
theorem element_eq {s : XmlSink} (unbounded : s.buffer.room = none) {name : String}
    {attributes : List Attribute} {body : XmlSink → Outcome × XmlSink} {outcome : Outcome}
    {inner : List Token}
    (written : ∀ s' : XmlSink, s'.buffer.room = none → s'.nsPrefix = s.nsPrefix →
      s'.binding = [] → body s' = (outcome, s'.emit inner)) :
    Sink.element name attributes body s =
      (outcome, s.emit (wrap ⟨s.nsPrefix ++ ":" ++ name, s.binding ++ attributes⟩ inner)) := by
  have first : ∀ o : Outcome, Sink.firstError o (.ok ()) = o := by
    intro o
    cases o <;> rfl
  generalize holds : (⟨s.nsPrefix ++ ":" ++ name, s.binding ++ attributes⟩ : Tag) = tag
  have opened : Sink.startElement name attributes s = (.ok (),
      (s.putAll s.held).enter tag) :=
    holds ▸ XmlSink.startElement_eq unbounded name attributes
  have closed : Sink.endElement (((s.putAll s.held).enter tag).emit inner) =
      (.ok (), s.emit (wrap tag inner)) := by
    change XmlSink.endElement _ = _
    have room : (s.putAll s.held).buffer.room = none := unbounded
    by_cases leaf : inner = []
    · rw [leaf, XmlSink.emit_nil, wrap, if_pos rfl, XmlSink.emit_of_ne_nil (by simp),
        XmlSink.putAll_append, XmlSink.endElement_enter, XmlSink.put_settle room]
    · have start_held : ((s.putAll s.held).enter tag).held = [.startTag tag] := rfl
      rw [XmlSink.emit_of_ne_nil leaf, wrap, if_neg leaf, XmlSink.emit_of_ne_nil (by simp),
        ← List.append_assoc, XmlSink.putAll_append s, XmlSink.putAll_append s, start_held,
        XmlSink.endElement_enter_putAll, XmlSink.put_settle (by exact room)]
      rfl
  have body_eq : body ((s.putAll s.held).enter tag) =
      (outcome, ((s.putAll s.held).enter tag).emit inner) := written _ unbounded rfl rfl
  rw [Sink.element, opened]
  simp only [body_eq, closed, first]

mutual

/-- Streaming a piece of markup puts its tokens. -/
theorem write_eq (piece : Markup) {s : XmlSink} (unbounded : s.buffer.room = none) :
    piece.write s = (piece.outcome, s.emit (piece.tokens s.nsPrefix s.binding)) := by
  cases piece with
  | element name attributes content =>
      rw [write, outcome, tokens]
      refine element_eq unbounded ?_
      intro s' room nsPrefix binding
      rw [writeAll_eq content room, nsPrefix, binding]
  | empty name attributes =>
      rw [write, outcome, tokens, XmlSink.emit_of_ne_nil (by simp)]
      exact XmlSink.emptyElement_eq unbounded name attributes
  | text content =>
      rw [write, outcome, tokens]
      change XmlSink.text content s = _
      by_cases nothing : content = ""
      · rw [XmlSink.text, if_pos nothing, if_pos nothing, XmlSink.emit_nil]
      · rw [if_neg nothing, XmlSink.emit_of_ne_nil (by simp)]
        exact XmlSink.text_eq unbounded nothing
  | fail error => rw [write, outcome, tokens, XmlSink.emit_nil]

/-- Streaming several pieces puts the tokens of all of them. -/
theorem writeAll_eq (content : List Markup) {s : XmlSink} (unbounded : s.buffer.room = none) :
    writeAll content s = (outcomeAll content, s.emit (tokensAll s.nsPrefix s.binding content)) := by
  cases content with
  | nil => rw [writeAll, outcomeAll, tokensAll, XmlSink.emit_nil]
  | cons piece rest =>
      obtain ⟨nsPrefix, binding, -, room⟩ := s.emit_fields (piece.tokens s.nsPrefix s.binding)
      rw [writeAll, outcomeAll, tokensAll, Sink.andThen, write_eq piece unbounded]
      cases piece.outcome with
      | error error => rfl
      | ok done =>
          simp only
          rw [writeAll_eq rest (room.trans unbounded), nsPrefix, binding, XmlSink.emit_append]

end

theorem outcomeAll_eq_ok_iff {content : List Markup} :
    outcomeAll content = .ok () ↔ ∀ piece ∈ content, piece.outcome = .ok () := by
  induction content with
  | nil => simp [outcomeAll]
  | cons piece rest ih =>
      rw [outcomeAll, List.forall_mem_cons, ← ih]
      cases piece.outcome <;> simp

/-- If no piece stops, the tokens of several pieces are those of each of them. -/
theorem tokensAll_of_complete {nsPrefix : String} {binding : List Attribute}
    {content : List Markup} (complete : ∀ piece ∈ content, piece.outcome = .ok ()) :
    tokensAll nsPrefix binding content = content.flatMap (tokens nsPrefix binding) := by
  induction content with
  | nil => rfl
  | cons piece rest ih =>
      obtain ⟨first, later⟩ := List.forall_mem_cons.mp complete
      rw [tokensAll, first, List.flatMap_cons, ih later]

end Markup

namespace OutputOptions

/-- The namespace declaration of a document. -/
def binding (o : OutputOptions) : List Attribute := [("xmlns:" ++ o.nsPrefix, o.namespaceUri)]

/-- The text of a document of some tokens: the XML declaration if there is to be one, the tokens,
and a final line break if lines are broken. -/
def typeset (o : OutputOptions) (tokens : List Token) : String :=
  ((Layout.start o.indent o.indentChar).placeAll
    (if o.xmlDeclaration then .declaration :: tokens else tokens)).1 ++
    if o.indent ≠ 0 then "\n" else ""

end OutputOptions

namespace XmlSink

/-- The sink of a document with nothing in it. -/
def fresh (o : OutputOptions) (b : Buffer) : XmlSink :=
  ⟨b, .start o.indent o.indentChar, o.nsPrefix, o.namespaceUri, [], none⟩

/-- With options that can be used, a document starts with the declaration or with nothing. -/
theorem start_eq {o : OutputOptions} (valid : o.validate = .ok ()) {b : Buffer}
    (unbounded : b.room = none) :
    start o b = .ok ((fresh o b).putAll (if o.xmlDeclaration then [.declaration] else [])) := by
  have put := put_eq (s := fresh o b) unbounded .declaration
  by_cases declares : o.xmlDeclaration = true
  · simp only [start, valid, declares, if_true]
    change (do ((fresh o b).put .declaration).1; return ((fresh o b).put .declaration).2) = _
    rw [put]
    rfl
  · rw [if_neg declares, putAll_nil]
    simp only [start, valid, declares]
    rfl

end XmlSink

namespace Markup

/-- With options that can be used, a document is the text of its tokens, unless one of its pieces
stops with an error. -/
theorem render_of_valid {o : OutputOptions} (valid : o.validate = .ok ()) (content : List Markup) :
    render o content =
      (outcomeAll content).map fun _ => o.typeset (tokensAll o.nsPrefix o.binding content) := by
  let before := XmlSink.fresh o .unbounded
  let declared : List Token := if o.xmlDeclaration then [.declaration] else []
  have started : XmlSink.start o .unbounded = .ok (before.putAll declared) :=
    XmlSink.start_eq valid rfl
  have written : writeAll content (before.putAll declared) = (outcomeAll content,
      (before.putAll declared).emit (tokensAll o.nsPrefix o.binding content)) :=
    writeAll_eq content rfl
  have finished := @XmlSink.finish_emit (before.putAll declared)
    (tokensAll o.nsPrefix o.binding content) rfl rfl rfl
  have width : (before.putAll declared).layout.width = o.indent := Layout.width_placeAll _ _
  have text : (before.putAll declared).buffer.text ++
      ((before.putAll declared).layout.placeAll (tokensAll o.nsPrefix o.binding content)).1 =
      (before.layout.placeAll (if o.xmlDeclaration
        then .declaration :: tokensAll o.nsPrefix o.binding content
        else tokensAll o.nsPrefix o.binding content)).1 := by
    have joined : (if o.xmlDeclaration
        then .declaration :: tokensAll o.nsPrefix o.binding content
        else tokensAll o.nsPrefix o.binding content) =
        declared ++ tokensAll o.nsPrefix o.binding content := by
      by_cases declares : o.xmlDeclaration = true <;> simp [declared, declares]
    rw [joined, Layout.placeAll_append]
    simp [XmlSink.putAll, before, XmlSink.fresh, Buffer.unbounded]
  rw [render, writeTo, started]
  simp only [written]
  cases ended : outcomeAll content with
  | error error => rfl
  | ok done =>
      dsimp only
      rw [finished, width, text]
      rfl

/-- A document in which no piece stops is the text of its tokens. -/
theorem render_of_complete {o : OutputOptions} (valid : o.validate = .ok ())
    {content : List Markup} (complete : ∀ piece ∈ content, piece.outcome = .ok ()) :
    render o content = .ok (o.typeset (tokensAll o.nsPrefix o.binding content)) := by
  rw [render_of_valid valid, outcomeAll_eq_ok_iff.mpr complete]
  rfl

/-- Options that cannot be used are refused with their own error. -/
theorem render_of_invalid {o : OutputOptions} {error : OutputError}
    (invalid : o.validate = .error error) (content : List Markup) :
    render o content = .error error := by
  simp [render, writeTo, XmlSink.start, invalid, bind, Except.bind]

end Markup

end Schematron
