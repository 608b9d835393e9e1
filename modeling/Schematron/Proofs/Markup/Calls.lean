import Mathlib.Data.List.Forall2
import Mathlib.Data.List.Induction
import Schematron.Proofs.Markup.Nesting
import Schematron.Proofs.Markup.Tokens

/-!
# Any calls of a sink

A sink that writes XML may be called in any order, also wrongly: an element can be
closed where none is open, and a document can be ended inside of one. `Account` is
what can be said after any calls on a new sink whose buffer has no bound. It tells
the depth and the failures from the calls, and it says which tags were written.

The output lags behind the calls by one start tag. `Traced` is the invariant that
keeps the two together: the tags that are open in the output, followed by the one
that is held back, are the open elements. One call keeps it (`Traced.send`), so all
calls do (`traced_sendAll`), and `accounted` reads off the rest.
-/

namespace Schematron

namespace SinkCall

variable {σ : Type} [Sink σ]

/-- Makes calls one after the other, also behind those that fail, and keeps their outcomes. -/
def sendAll : List SinkCall → σ → List Outcome × σ
  | [], s => ([], s)
  | call :: rest, s =>
    let (outcome, s) := call.send s
    let (outcomes, s) := sendAll rest s
    (outcome :: outcomes, s)

/-- Whether the call opens an element that has to be closed. -/
def isStart : SinkCall → Bool
  | startElement _ _ => true
  | _ => false

/-- The number of calls that closed an element. -/
def closings (calls : List SinkCall) (outcomes : List Outcome) : Nat :=
  (calls.zip outcomes).countP fun made => made.1 = .endElement && made.2.isOk

theorem sendAll_concat (calls : List SinkCall) (call : SinkCall) (s : σ) :
    sendAll (calls ++ [call]) s =
      ((sendAll calls s).1 ++ [(call.send (sendAll calls s).2).1],
        (call.send (sendAll calls s).2).2) := by
  induction calls generalizing s with
  | nil => rfl
  | cons first rest ih => simp [sendAll, ih]

theorem length_sendAll (calls : List SinkCall) (s : σ) :
    (sendAll calls s).1.length = calls.length := by
  induction calls generalizing s with
  | nil => rfl
  | cons first rest ih => simp [sendAll, ih]

theorem closings_concat {calls : List SinkCall} {outcomes : List Outcome}
    (same : outcomes.length = calls.length) (call : SinkCall) (outcome : Outcome) :
    closings (calls ++ [call]) (outcomes ++ [outcome]) =
      closings calls outcomes + if call = .endElement && outcome.isOk then 1 else 0 := by
  rw [closings, List.zip_append same.symm, List.countP_append]
  simp [closings, List.countP_singleton]

structure Opening where
  tag : Tag
  /-- Whether the element may get content before it is closed. -/
  mayHold : Bool
  deriving DecidableEq, Repr

/-- The element that a call begins, with the tag it gets in this state of the sink. -/
def opening? (s : XmlSink) : SinkCall → Option Opening
  | startElement name attributes => some ⟨s.tag name attributes, true⟩
  | emptyElement name attributes => some ⟨s.tag name attributes, false⟩
  | _ => none

@[simp] theorem opening?_endElement (s : XmlSink) : endElement.opening? s = none := rfl

def openings : List SinkCall → XmlSink → List Opening
  | [], _ => []
  | call :: rest, s => (call.opening? s).toList ++ openings rest (call.send s).2

theorem openings_concat (calls : List SinkCall) (call : SinkCall) (s : XmlSink) :
    openings (calls ++ [call]) s =
      openings calls s ++ (call.opening? (sendAll calls s).2).toList := by
  induction calls generalizing s with
  | nil => simp [openings, sendAll]
  | cons first rest ih => simp [openings, sendAll, ih]

/-- The token by which an element begins: its empty-element tag, or its start tag if it may get
content. -/
def Opening.WrittenAs (opening : Opening) (token : Token) : Prop :=
  token = .emptyTag opening.tag ∨ opening.mayHold = true ∧ token = .startTag opening.tag

/-- The start tag that is held back may still become an empty-element tag. -/
theorem forall₂_writtenAs_emptyTag {openings : List Opening} {front : List Token} {tag : Tag}
    (written : List.Forall₂ Opening.WrittenAs openings (front ++ [.startTag tag])) :
    List.Forall₂ Opening.WrittenAs openings (front ++ [.emptyTag tag]) := by
  induction front generalizing openings with
  | nil =>
      obtain ⟨opening, none_more, as_start, rest, rfl⟩ := List.forall₂_cons_right_iff.mp written
      refine .cons ?_ rest
      rcases as_start with impossible | ⟨-, same⟩
      · cases impossible
      · cases same
        exact .inl rfl
  | cons token front ih =>
      obtain ⟨opening, openings, first, rest, rfl⟩ := List.forall₂_cons_right_iff.mp written
      exact .cons first (ih rest)

end SinkCall

def Token.isOpening : Token → Bool
  | .startTag _ => true
  | .emptyTag _ => true
  | _ => false

namespace XmlSink

variable {s : XmlSink}

theorem send_startElement (s : XmlSink) (name : String) (attributes : List Attribute) :
    (SinkCall.startElement name attributes).send s = startElement name attributes s := rfl

theorem send_endElement (s : XmlSink) : SinkCall.endElement.send s = s.endElement := rfl

theorem send_emptyElement (s : XmlSink) (name : String) (attributes : List Attribute) :
    (SinkCall.emptyElement name attributes).send s = emptyElement name attributes s := rfl

theorem send_text (s : XmlSink) (content : String) :
    (SinkCall.text content).send s = text content s := rfl

theorem endElement_of_pending_eq_some (unbounded : s.buffer.room = none) {name : String}
    {rest : List String} {tag : Tag} (names : s.openNames = name :: rest)
    (waits : s.pending = some tag) : s.endElement = (.ok (),
      ({ s with openNames := rest, pending := none } : XmlSink).putAll [.emptyTag tag]) := by
  simp only [endElement, names, waits]
  exact put_eq (s := { s with openNames := rest, pending := none }) unbounded _

theorem endElement_of_pending_eq_none (unbounded : s.buffer.room = none) {name : String}
    {rest : List String} (names : s.openNames = name :: rest) (waits : s.pending = none) :
    s.endElement = (.ok (), ({ s with openNames := rest } : XmlSink).putAll [.endTag name]) := by
  simp only [endElement, names, waits]
  have put := put_eq (s := { s with openNames := rest }) unbounded (.endTag name)
  rwa [waits] at put

open SinkCall

/-- A sink behind calls, with the tokens that the calls wrote and the start tags that are open in
these tokens, the innermost first. -/
structure Traced (opened : XmlSink) (calls : List SinkCall) (outcomes : List Outcome) (s : XmlSink)
    (tokens : List Token) (unclosed : List Tag) : Prop where
  run : sendAll calls opened = (outcomes, s)
  /-- The tokens are what the calls changed, apart from the open elements. -/
  sink_eq : s = { opened.putAll tokens with openNames := s.openNames, pending := s.pending }
  /-- Every end tag closes the innermost open start tag, which has its name. -/
  nested : Markup.unclosed [] tokens = some unclosed
  /-- The tag that is held back comes behind the open start tags. Together they are the open
  elements. -/
  names_eq : (s.pending.toList ++ unclosed).map Tag.name = s.openNames
  depth_add : s.depth + closings calls outcomes = calls.countP isStart
  /-- The elements that the calls began are the ones that begin in the tokens or are held back. -/
  begun : List.Forall₂ Opening.WrittenAs (openings calls opened)
    ((tokens ++ s.held).filter Token.isOpening)

namespace Traced

variable {opened s : XmlSink} {calls : List SinkCall} {outcomes : List Outcome}
variable {tokens : List Token} {unclosed : List Tag}

/-- Before the first call nothing is written and nothing is open. -/
theorem start (closed : opened.openNames = []) (waits : opened.pending = none) :
    Traced opened [] [] opened [] [] where
  run := rfl
  sink_eq := by rw [putAll_nil]
  nested := rfl
  names_eq := by simp [closed, waits]
  depth_add := by simp [depth, closed, closings]
  begun := by simp [openings, held, waits]

variable (h : Traced opened calls outcomes s tokens unclosed)

include h

theorem room_eq (unbounded : opened.buffer.room = none) : s.buffer.room = none := by
  rw [h.sink_eq]
  exact unbounded

/-- More tokens behind those that are there already. -/
theorem putAll_eq (more : List Token) : s.putAll more =
    { opened.putAll (tokens ++ more) with openNames := s.openNames, pending := s.pending } := by
  have same := congrArg (fun s => s.putAll more) h.sink_eq
  rw [putAll_append]
  exact same

/-- With the tag that is held back, the open start tags are the open elements. -/
theorem nested_held :
    Markup.unclosed [] (tokens ++ s.held) = some (s.pending.toList ++ unclosed) := by
  rw [Markup.unclosed_append, h.nested, Option.bind_some, held]
  cases s.pending <;> rfl

theorem length_outcomes : outcomes.length = calls.length := by
  have length := length_sendAll calls opened
  rwa [h.run] at length

theorem run_concat {call : SinkCall} {outcome : Outcome} {s' : XmlSink}
    (sent : call.send s = (outcome, s')) :
    sendAll (calls ++ [call]) opened = (outcomes ++ [outcome], s') := by
  rw [sendAll_concat, h.run, sent]

theorem openings_concat_eq (call : SinkCall) :
    openings (calls ++ [call]) opened = openings calls opened ++ (call.opening? s).toList := by
  rw [openings_concat, h.run]

/-- A new element is open, and its tag takes the place of the one that was held back. -/
theorem send_start (unbounded : opened.buffer.room = none) (name : String)
    (attributes : List Attribute) :
    Traced opened (calls ++ [.startElement name attributes]) (outcomes ++ [.ok ()])
      ((s.putAll s.held).enter (s.tag name attributes)) (tokens ++ s.held)
      (s.pending.toList ++ unclosed) where
  run := h.run_concat (startElement_eq (h.room_eq unbounded) name attributes)
  sink_eq := by
    rw [h.putAll_eq]
    rfl
  nested := h.nested_held
  names_eq := by
    rw [enter, Option.toList_some, List.singleton_append, List.map_cons, h.names_eq]
    rfl
  depth_add := by
    have depth : ((s.putAll s.held).enter (s.tag name attributes)).depth = s.depth + 1 := rfl
    rw [closings_concat h.length_outcomes, List.countP_append, ← h.depth_add, depth]
    simp [isStart]
    omega
  begun := by
    rw [h.openings_concat_eq, List.filter_append]
    exact List.rel_append h.begun (.cons (.inr ⟨rfl, rfl⟩) .nil)

/-- Anything else is written behind the tag that was held back, and leaves the elements open. -/
theorem send_token {call : SinkCall} {token : Token}
    (sent : call.send s = (.ok (), (s.putAll (s.held ++ [token])).settle))
    (passes : ∀ stack, token.nest stack = some stack)
    (ends : call ≠ .endElement) (starts : call.isStart = false)
    (began : List.Forall₂ Opening.WrittenAs (call.opening? s).toList
      ([token].filter Token.isOpening)) :
    Traced opened (calls ++ [call]) (outcomes ++ [.ok ()])
      (s.putAll (s.held ++ [token])).settle (tokens ++ (s.held ++ [token]))
      (s.pending.toList ++ unclosed) where
  run := h.run_concat sent
  sink_eq := by
    rw [h.putAll_eq]
    rfl
  nested := by
    rw [← List.append_assoc, Markup.unclosed_concat, h.nested_held, Option.bind_some, passes]
  names_eq := h.names_eq
  depth_add := by
    have depth : (s.putAll (s.held ++ [token])).settle.depth = s.depth := rfl
    rw [closings_concat h.length_outcomes, List.countP_append, ← h.depth_add, depth]
    simp [ends, starts]
  begun := by
    have held : (s.putAll (s.held ++ [token])).settle.held = [] := rfl
    rw [h.openings_concat_eq, held, List.append_nil, ← List.append_assoc, List.filter_append]
    exact List.rel_append h.begun began

theorem send_nothing {call : SinkCall} {outcome : Outcome} (sent : call.send s = (outcome, s))
    (starts : call.isStart = false) (ends : call ≠ .endElement ∨ outcome.isOk = false)
    (began : call.opening? s = none) :
    Traced opened (calls ++ [call]) (outcomes ++ [outcome]) s tokens unclosed where
  run := h.run_concat sent
  sink_eq := h.sink_eq
  nested := h.nested
  names_eq := h.names_eq
  depth_add := by
    rw [closings_concat h.length_outcomes, List.countP_append, ← h.depth_add]
    rcases ends with other | refused
    · simp [other, starts]
    · simp [refused, starts]
  begun := by
    rw [h.openings_concat_eq, began, Option.toList_none, List.append_nil]
    exact h.begun

/-- Closing an element takes back one call that opened one. -/
theorem depth_add_end {name : String} {rest : List String} (names : s.openNames = name :: rest) :
    rest.length + closings (calls ++ [.endElement]) (outcomes ++ [.ok ()]) =
      (calls ++ [SinkCall.endElement]).countP isStart := by
  have depth : s.depth = rest.length + 1 := by rw [XmlSink.depth, names, List.length_cons]
  rw [closings_concat h.length_outcomes, List.countP_append, ← h.depth_add, depth]
  simp [isStart, Except.isOk, Except.toBool]
  omega

/-- The element whose start tag is held back is closed as an empty one. -/
theorem send_end_of_pending_eq_some (unbounded : opened.buffer.room = none) {name : String}
    {rest : List String} {tag : Tag} (names : s.openNames = name :: rest)
    (waits : s.pending = some tag) :
    Traced opened (calls ++ [.endElement]) (outcomes ++ [.ok ()])
      (({ s with openNames := rest, pending := none } : XmlSink).putAll [.emptyTag tag])
      (tokens ++ [.emptyTag tag]) unclosed where
  run := h.run_concat (endElement_of_pending_eq_some (h.room_eq unbounded) names waits)
  sink_eq := congrArg (fun s : XmlSink => { s with openNames := rest, pending := none })
    (h.putAll_eq [.emptyTag tag])
  nested := by
    rw [Markup.unclosed_concat, h.nested]
    rfl
  names_eq := by
    have all := h.names_eq
    rw [waits, names, Option.toList_some, List.singleton_append, List.map_cons,
      List.cons.injEq] at all
    exact all.2
  depth_add := h.depth_add_end names
  begun := by
    -- The last of the tags that were begun changes from a start tag to an empty-element tag.
    have before := h.begun
    rw [held, waits, List.filter_append] at before
    rw [h.openings_concat_eq, opening?_endElement, Option.toList_none, List.append_nil,
      List.append_assoc, List.filter_append]
    exact forall₂_writtenAs_emptyTag before

/-- The innermost element is closed by an end tag. -/
theorem send_end_of_pending_eq_none (unbounded : opened.buffer.room = none) {name : String}
    {rest : List String} (names : s.openNames = name :: rest) (waits : s.pending = none) :
    Traced opened (calls ++ [.endElement]) (outcomes ++ [.ok ()])
      (({ s with openNames := rest } : XmlSink).putAll [.endTag name])
      (tokens ++ [.endTag name]) unclosed.tail where
  run := h.run_concat (endElement_of_pending_eq_none (h.room_eq unbounded) names waits)
  sink_eq := congrArg (fun s : XmlSink => { s with openNames := rest })
    (h.putAll_eq [.endTag name])
  nested := by
    have all := h.names_eq
    rw [waits, names, Option.toList_none, List.nil_append, List.map_eq_cons_iff] at all
    obtain ⟨tag, more, rfl, named, -⟩ := all
    rw [Markup.unclosed_concat, h.nested, Option.bind_some]
    exact Markup.nest_endTag_eq_some_iff.mpr ⟨tag, rfl, named⟩
  names_eq := by
    have all := congrArg List.tail h.names_eq
    rw [names, waits] at all
    rw [← List.map_tail] at all
    change (s.pending.toList ++ unclosed.tail).map Tag.name = rest
    rw [waits]
    exact all
  depth_add := h.depth_add_end names
  begun := by
    have before := h.begun
    rw [held, waits] at before
    have nothing : (({ s with openNames := rest } : XmlSink).putAll [.endTag name]).held = [] := by
      rw [held]
      change (s.pending.map Token.startTag).toList = []
      rw [waits]
      rfl
    rw [h.openings_concat_eq, opening?_endElement, Option.toList_none, List.append_nil, nothing,
      List.append_nil, List.filter_append]
    simpa [Token.isOpening] using before

theorem send (unbounded : opened.buffer.room = none) (call : SinkCall) :
    ∃ tokens' unclosed', Traced opened (calls ++ [call]) (outcomes ++ [(call.send s).1])
      (call.send s).2 tokens' unclosed' := by
  have room := h.room_eq unbounded
  cases call with
  | startElement name attributes =>
      rw [send_startElement, startElement_eq room]
      exact ⟨_, _, h.send_start unbounded name attributes⟩
  | endElement =>
      rw [send_endElement]
      cases names : s.openNames with
      | nil =>
          have refused := endElement_of_openNames_eq_nil names
          rw [refused]
          exact ⟨_, _, h.send_nothing refused rfl (.inr rfl) rfl⟩
      | cons name rest =>
          cases waits : s.pending with
          | none =>
              rw [endElement_of_pending_eq_none room names waits]
              exact ⟨_, _, h.send_end_of_pending_eq_none unbounded names waits⟩
          | some tag =>
              rw [endElement_of_pending_eq_some room names waits]
              exact ⟨_, _, h.send_end_of_pending_eq_some unbounded names waits⟩
  | emptyElement name attributes =>
      have sent := emptyElement_eq room name attributes
      rw [send_emptyElement, sent]
      exact ⟨_, _, h.send_token sent (fun _ => rfl) (by simp) rfl (.cons (.inl rfl) .nil)⟩
  | text content =>
      rw [send_text]
      by_cases nothing : content = ""
      · subst nothing
        exact ⟨_, _, h.send_nothing rfl rfl (.inl (by simp)) rfl⟩
      · have sent := text_eq room nothing
        rw [sent]
        exact ⟨_, _, h.send_token sent (fun _ => rfl) (by simp) rfl .nil⟩

end Traced

/-- Any calls keep the trace. -/
theorem traced_sendAll {opened : XmlSink} (unbounded : opened.buffer.room = none)
    (closed : opened.openNames = []) (waits : opened.pending = none) (calls : List SinkCall) :
    ∃ tokens unclosed, Traced opened calls (sendAll calls opened).1 (sendAll calls opened).2
      tokens unclosed := by
  induction calls using List.reverseRecOn with
  | nil => exact ⟨[], [], .start closed waits⟩
  | append_singleton calls call ih =>
      obtain ⟨tokens, unclosed, traced⟩ := ih
      rw [sendAll_concat]
      exact traced.send unbounded call

/-- What can be said about a sink behind any calls, the tokens that they wrote and the start tags
that are open in these. -/
structure Account (opened : XmlSink) (calls : List SinkCall) (outcomes : List Outcome) (s : XmlSink)
    (tokens : List Token) (unclosed : List Tag) : Prop
    extends Traced opened calls outcomes s tokens unclosed where
  /-- The text is that of the tokens, behind what the document began with. -/
  text_eq : s.buffer.text = opened.buffer.text ++ (opened.layout.placeAll tokens).1
  /-- An element can be closed unless none is open. -/
  end_fails_iff : ∀ e, s.endElement.1 = .error e ↔ s.depth = 0 ∧ e = .noOpenElement
  end_refused : s.depth = 0 → s.endElement.2 = s
  others_succeed : ∀ call : SinkCall, call ≠ .endElement → (call.send s).1 = .ok ()
  /-- The document can be ended unless an element is open, and then the innermost is named. -/
  finish_succeeds_iff : s.finish.1 = .ok () ↔ s.depth = 0
  finish_fails_iff : ∀ e, s.finish.1 = .error e ↔
    ∃ tag, (s.pending.toList ++ unclosed).head? = some tag ∧ e = .unclosedElement tag.name
  end_closes : ∀ j name, tokens[j]? = some (.endTag name) → ∃! i, Markup.Closes tokens i j
  /-- When the document can be ended, each element that was begun is in the tokens: as an
  empty-element tag, or as a start tag with exactly one end tag that closes it. -/
  complete : s.finish.1 = .ok () →
    List.Forall₂ Opening.WrittenAs (openings calls opened) (tokens.filter Token.isOpening) ∧
    ∀ i tag, tokens[i]? = some (.startTag tag) → ∃! j, Markup.Closes tokens i j

/-- An element can be closed exactly inside of an element. -/
theorem endElement_cases (unbounded : s.buffer.room = none) :
    (s.depth = 0 ∧ s.endElement = (.error .noOpenElement, s)) ∨
      s.depth ≠ 0 ∧ s.endElement.1 = .ok () := by
  cases names : s.openNames with
  | nil => exact .inl ⟨by simp [depth, names], endElement_of_openNames_eq_nil names⟩
  | cons name rest =>
      refine .inr ⟨by simp [depth, names], ?_⟩
      cases waits : s.pending with
      | none => rw [endElement_of_pending_eq_none unbounded names waits]
      | some tag => rw [endElement_of_pending_eq_some unbounded names waits]

/-- All other calls succeed. -/
theorem send_succeeds (unbounded : s.buffer.room = none) {call : SinkCall}
    (other : call ≠ .endElement) : (call.send s).1 = .ok () := by
  cases call with
  | startElement name attributes => rw [send_startElement, startElement_eq unbounded]
  | endElement => exact absurd rfl other
  | emptyElement name attributes => rw [send_emptyElement, emptyElement_eq unbounded]
  | text content =>
      rw [send_text]
      by_cases nothing : content = ""
      · rw [nothing, text_empty]
      · rw [text_eq unbounded nothing]

/-- The document can be ended exactly outside of every element. -/
theorem finish_cases (unbounded : s.buffer.room = none) :
    (s.openNames = [] ∧ s.finish.1 = .ok ()) ∨
      ∃ name rest, s.openNames = name :: rest ∧ s.finish.1 = .error (.unclosedElement name) := by
  unfold finish
  cases names : s.openNames with
  | nil =>
      left
      refine ⟨rfl, ?_⟩
      dsimp only
      split
      · rw [Buffer.append_of_room_eq_none unbounded]
      · rfl
  | cons name rest => exact .inr ⟨name, rest, rfl, rfl⟩

namespace Traced

variable {opened s : XmlSink} {calls : List SinkCall} {outcomes : List Outcome}
variable {tokens : List Token} {unclosed : List Tag}
variable (h : Traced opened calls outcomes s tokens unclosed)
include h

/-- Outside of every element no start tag is held back or open in the tokens. -/
theorem eq_nil_of_openNames_eq_nil (outside : s.openNames = []) :
    s.pending = none ∧ unclosed = [] := by
  have none_open : s.pending.toList ++ unclosed = [] := by
    rw [← List.map_eq_nil_iff, h.names_eq, outside]
  simpa using none_open

/-- The innermost open element is named by the last of the tags that are open or held back. -/
theorem head?_names_eq :
    (s.pending.toList ++ unclosed).head?.map Tag.name = s.openNames.head? := by
  rw [← List.head?_map, h.names_eq]

theorem account (unbounded : opened.buffer.room = none) :
    Account opened calls outcomes s tokens unclosed where
  toTraced := h
  text_eq := by
    rw [h.sink_eq]
    rfl
  end_fails_iff e := by
    rcases endElement_cases (h.room_eq unbounded) with ⟨outside, refused⟩ | ⟨inside, closed⟩
    · simp [outside, refused, eq_comm]
    · simp [inside, closed]
  end_refused outside := by
    rw [endElement_of_openNames_eq_nil (List.length_eq_zero_iff.mp outside)]
  others_succeed _ other := send_succeeds (h.room_eq unbounded) other
  finish_succeeds_iff := by
    rcases finish_cases (h.room_eq unbounded) with ⟨outside, ends⟩ | ⟨name, rest, names, fails⟩
    · simp [depth, outside, ends]
    · simp [depth, names, fails]
  finish_fails_iff e := by
    have innermost := h.head?_names_eq
    rcases finish_cases (h.room_eq unbounded) with ⟨outside, ends⟩ | ⟨name, rest, names, fails⟩
    · rw [outside, List.head?_nil, Option.map_eq_none_iff] at innermost
      simp [ends, innermost]
    · rw [names, List.head?_cons, Option.map_eq_some_iff] at innermost
      obtain ⟨tag, first, rfl⟩ := innermost
      simp [fails, first, eq_comm]
  end_closes j name ends := Markup.existsUnique_start h.nested ends
  complete ended := by
    rcases finish_cases (h.room_eq unbounded) with ⟨outside, -⟩ | ⟨name, rest, -, fails⟩
    · obtain ⟨waits, rfl⟩ := h.eq_nil_of_openNames_eq_nil outside
      have begun := h.begun
      rw [held, waits, Option.map_none, Option.toList_none, List.append_nil] at begun
      exact ⟨begun, fun i tag start => Markup.existsUnique_end h.nested start⟩
    · rw [fails] at ended
      cases ended

end Traced

/-- Under usable options a document starts, and any calls on its sink can be accounted for. -/
theorem accounted {o : OutputOptions} (valid : o.validate = .ok ()) {b : Buffer}
    (unbounded : b.room = none) (calls : List SinkCall) :
    ∃ opened, start o b = .ok opened ∧ opened.depth = 0 ∧ ∃ tokens unclosed,
      Account opened calls (sendAll calls opened).1 (sendAll calls opened).2 tokens unclosed := by
  refine ⟨_, start_eq valid unbounded, rfl, ?_⟩
  have room : ((fresh o b).putAll (if o.xmlDeclaration then [.declaration] else [])).buffer.room =
      none := unbounded
  obtain ⟨tokens, unclosed, traced⟩ := traced_sendAll room rfl rfl calls
  exact ⟨tokens, unclosed, traced.account room⟩

/-- Calls that close too much and leave an element open. -/
def misuse : List SinkCall :=
  [.endElement, .startElement "a" [], .startElement "b" [("k", "<")], .text "", .endElement,
    .text "x", .emptyElement "c" [], .endElement, .endElement, .startElement "d" []]

/-- Two of the four closing calls fail, so of the three elements one is open, and the document
cannot end in it. -/
theorem accounted_misuse :
    OutputOptions.standard.validate = .ok () ∧ Buffer.unbounded.room = none ∧
    ∃ opened, start .standard .unbounded = .ok opened ∧
      closings misuse (sendAll misuse opened).1 = 2 ∧
      (sendAll misuse opened).2.depth = 1 ∧ (sendAll misuse opened).2.finish.1 ≠ .ok () := by
  have valid : OutputOptions.standard.validate = .ok () := rfl
  obtain ⟨opened, started, -, tokens, unclosed, account⟩ :=
    accounted valid (b := .unbounded) rfl misuse
  have same : (fresh .standard .unbounded).putAll [.declaration] = opened :=
    Except.ok.inj ((start_eq valid rfl).symm.trans started)
  have closed : closings misuse (sendAll misuse opened).1 = 2 := by
    rw [← same]
    decide +kernel
  have depth : (sendAll misuse opened).2.depth = 1 := by
    have counted := account.depth_add
    rw [closed] at counted
    have starts : misuse.countP isStart = 3 := rfl
    omega
  refine ⟨valid, rfl, opened, started, closed, depth, fun ended => ?_⟩
  rw [account.finish_succeeds_iff, depth] at ended
  cases ended

end XmlSink

end Schematron
