import Schematron.Markup.Recorder
import Schematron.Proofs.Markup.Calls

/-!
# Elements that stop with an error

A piece of markup is a program: its elements, empty elements and texts are written
one after the other, and the writing of an element may stop with an error, in itself
or in one of its elements. `steps` lists everything such a program would do if
nothing stopped it, and `Step.carried` is what is done of it: the calls before the
first error, and then one closing call for every element that they left open.

`write_eq_sendAll` says so for every sink that refuses none of these calls. For the
sink that writes XML `element_unwinds` adds what comes out. Told without the start
tag that is held back, it is the tags and texts of the calls before the error, and
behind them the missing end tags, those of the inner elements first.
-/

namespace Schematron

/-- An element whose tags are accepted ends as its body does. -/
theorem Sink.element_of_ok {σ : Type} [Sink σ] {name : String} {attributes : List Attribute}
    {body : σ → Outcome × σ} {s inside left after : σ} {outcome : Outcome}
    (opened : startElement name attributes s = (.ok (), inside))
    (ran : body inside = (outcome, left)) (closed : endElement left = (.ok (), after)) :
    element name attributes body s = (outcome, after) := by
  rw [element, opened]
  simp only [ran, closed]
  cases outcome <;> rfl

namespace SinkCall

variable {σ : Type} [Sink σ]

theorem sendAll_append (first second : List SinkCall) (s : σ) :
    sendAll (first ++ second) s = ((sendAll first s).1 ++ (sendAll second (sendAll first s).2).1,
      (sendAll second (sendAll first s).2).2) := by
  induction first generalizing s with
  | nil => rfl
  | cons call rest ih => simp [sendAll, ih]

theorem sendAll_cons (call : SinkCall) (rest : List SinkCall) (s : σ) :
    sendAll (call :: rest) s = ((call.send s).1 :: (sendAll rest (call.send s).2).1,
      (sendAll rest (call.send s).2).2) := rfl

/-- The sink refuses none of the calls. -/
def Accepted (calls : List SinkCall) (s : σ) : Prop :=
  ∀ outcome ∈ (sendAll calls s).1, outcome = .ok ()

theorem accepted_append_iff {first second : List SinkCall} {s : σ} :
    Accepted (first ++ second) s ↔
      Accepted first s ∧ Accepted second (sendAll first s).2 := by
  simp [Accepted, sendAll_append, or_imp, forall_and]

theorem accepted_cons_iff {call : SinkCall} {calls : List SinkCall} {s : σ} :
    Accepted (call :: calls) s ↔
      (call.send s).1 = .ok () ∧ Accepted calls (call.send s).2 := by
  simp [Accepted, sendAll]

/-- The number of elements that calls open and do not close. -/
def leftOpen (calls : List SinkCall) : Nat := calls.countP isStart - calls.count .endElement

/-- Tags and texts as calls ask for them one by one, with the names of the elements that they have
opened so far, the innermost first. The binding stands in the outermost tags. -/
def asked (nsPrefix : String) (binding : List Attribute) :
    List String → List SinkCall → List Token
  | _, [] => []
  | names, .startElement name attributes :: rest =>
    .startTag ⟨nsPrefix ++ ":" ++ name, (if names = [] then binding else []) ++ attributes⟩ ::
      asked nsPrefix binding ((nsPrefix ++ ":" ++ name) :: names) rest
  | [], .endElement :: rest => asked nsPrefix binding [] rest
  | name :: names, .endElement :: rest => .endTag name :: asked nsPrefix binding names rest
  | names, .emptyElement name attributes :: rest =>
    .startTag ⟨nsPrefix ++ ":" ++ name, (if names = [] then binding else []) ++ attributes⟩ ::
      .endTag (nsPrefix ++ ":" ++ name) :: asked nsPrefix binding names rest
  | names, .text content :: rest =>
    (if content = "" then [] else [.text content]) ++ asked nsPrefix binding names rest

end SinkCall

/-- A token with an empty-element tag told as the two tags of its element. -/
def Token.spread : Token → List Token
  | .emptyTag tag => [.startTag tag, .endTag tag.name]
  | token => [token]

namespace Markup

open SinkCall

/-- A step of writing markup: a call of the sink, or a stop with an error. -/
inductive Step where
  | call (call : SinkCall)
  | stop (error : OutputError)
  deriving DecidableEq, Repr

namespace Step

/-- How steps end: with the first error among them, if there is one. -/
def ending : List Step → Outcome
  | [] => .ok ()
  | .call _ :: rest => ending rest
  | .stop error :: _ => .error error

/-- The calls before the first error. -/
def reached : List Step → List SinkCall
  | [] => []
  | .call made :: rest => made :: reached rest
  | .stop _ :: _ => []

/-- The calls before the first error, and those that close what was left open by them. -/
def carried (steps : List Step) : List SinkCall :=
  reached steps ++ List.replicate (leftOpen (reached steps)) .endElement

end Step

mutual

/-- All steps of writing a piece of markup in their order, those behind an error included. -/
def steps : Markup → List Step
  | .element name attributes content =>
    .call (.startElement name attributes) :: (stepsAll content ++ [.call .endElement])
  | .empty name attributes => [.call (.emptyElement name attributes)]
  | .text content => [.call (.text content)]
  | .fail error => [.stop error]

def stepsAll : List Markup → List Step
  | [] => []
  | piece :: rest => piece.steps ++ stepsAll rest

end

/-! ### What is carried out -/

namespace Step

variable {first second : List Step}

/-- Steps behind others count if these end without an error. -/
theorem ending_append (first second : List Step) :
    ending (first ++ second) =
      match ending first with
      | .ok () => ending second
      | .error error => .error error := by
  induction first with
  | nil => rfl
  | cons step rest ih =>
      cases step with
      | call made => exact ih
      | stop error => rfl

theorem reached_append_of_ok (complete : ending first = .ok ()) :
    reached (first ++ second) = reached first ++ reached second := by
  induction first with
  | nil => rfl
  | cons step rest ih =>
      cases step with
      | call made => exact congrArg (made :: ·) (ih complete)
      | stop error => cases complete

theorem reached_append_of_error {error : OutputError} (stops : ending first = .error error) :
    reached (first ++ second) = reached first := by
  induction first with
  | nil => cases stops
  | cons step rest ih =>
      cases step with
      | call made => exact congrArg (made :: ·) (ih stops)
      | stop error => rfl

end Step

open Step

mutual

/-- Writing ends as the steps do. -/
theorem ending_steps (piece : Markup) : ending piece.steps = piece.outcome := by
  cases piece with
  | element name attributes content =>
      rw [steps, ending, ending_append, ending_stepsAll, outcome]
      cases outcomeAll content <;> rfl
  | _ => rfl

theorem ending_stepsAll (content : List Markup) :
    ending (stepsAll content) = outcomeAll content := by
  cases content with
  | nil => rfl
  | cons piece rest =>
      have both := ending_append piece.steps (stepsAll rest)
      rw [ending_steps piece, ending_stepsAll rest] at both
      rw [stepsAll, outcomeAll]
      exact both

end

/-- Calls that open elements and close some of them: all, if they come to their end. -/
def Balances (calls : List SinkCall) (outcome : Outcome) : Prop :=
  calls.count .endElement ≤ calls.countP isStart ∧
    (outcome = .ok () → calls.count .endElement = calls.countP isStart)

mutual

/-- No more elements are closed than were opened, and without an error as many. -/
theorem balances_steps (piece : Markup) : Balances (reached piece.steps) piece.outcome := by
  cases piece with
  | element name attributes content =>
      obtain ⟨fewer, all⟩ := balances_stepsAll content
      have ended := ending_stepsAll content
      rw [steps, outcome, reached, Balances]
      cases inner : outcomeAll content with
      | ok done =>
          rw [inner] at ended all
          rw [reached_append_of_ok ended]
          simp [reached, isStart, List.countP_cons, all rfl]
      | error error =>
          rw [inner] at ended
          rw [reached_append_of_error ended]
          simp [isStart, List.countP_cons]
          omega
  | _ => simp [Balances, steps, reached, isStart]

theorem balances_stepsAll (content : List Markup) :
    Balances (reached (stepsAll content)) (outcomeAll content) := by
  cases content with
  | nil => simp [Balances, stepsAll, reached]
  | cons piece rest =>
      obtain ⟨fewer, all⟩ := balances_steps piece
      obtain ⟨fewer_rest, all_rest⟩ := balances_stepsAll rest
      have ended := ending_steps piece
      rw [stepsAll, outcomeAll, Balances]
      cases inner : piece.outcome with
      | ok done =>
          rw [inner] at ended all
          rw [reached_append_of_ok ended, List.count_append, List.countP_append, all rfl]
          exact ⟨by omega, fun complete => by rw [all_rest complete]⟩
      | error error =>
          rw [inner] at ended
          rw [reached_append_of_error ended]
          exact ⟨fewer, nofun⟩

end

/-- An element is opened, its content is written as far as it goes, and the element is closed. -/
theorem carried_element (name : String) (attributes : List Attribute) (content : List Markup) :
    carried (element name attributes content).steps =
      .startElement name attributes :: (carried (stepsAll content) ++ [.endElement]) := by
  obtain ⟨fewer, all⟩ := balances_stepsAll content
  have ended := ending_stepsAll content
  rw [steps, carried, carried, reached]
  cases inner : outcomeAll content with
  | ok done =>
      rw [inner] at ended all
      have closed : leftOpen (reached (stepsAll content)) = 0 := by simp [leftOpen, all rfl]
      rw [reached_append_of_ok ended, closed]
      simp [leftOpen, reached, isStart, List.countP_cons, all rfl]
  | error error =>
      rw [inner] at ended
      have one_more : leftOpen (.startElement name attributes :: reached (stepsAll content)) =
          leftOpen (reached (stepsAll content)) + 1 := by
        simp [leftOpen, isStart, List.countP_cons]
        omega
      rw [reached_append_of_error ended, one_more, List.replicate_succ']
      simp

/-- A piece that comes to its end leaves nothing open, and the pieces behind it follow. -/
theorem carried_stepsAll_of_ok {piece : Markup} (complete : piece.outcome = .ok ())
    (rest : List Markup) :
    carried (stepsAll (piece :: rest)) = carried piece.steps ++ carried (stepsAll rest) := by
  have all := (balances_steps piece).2 complete
  have closed : leftOpen (reached piece.steps) = 0 := by simp [leftOpen, all]
  have later : leftOpen (reached piece.steps ++ reached (stepsAll rest)) =
      leftOpen (reached (stepsAll rest)) := by
    rw [leftOpen, List.countP_append, List.count_append, all, Nat.add_sub_add_left, leftOpen]
  rw [stepsAll, carried, carried, carried, reached_append_of_ok (ending_steps piece ▸ complete),
    closed, later]
  simp

theorem carried_stepsAll_of_error {piece : Markup} {error : OutputError}
    (stops : piece.outcome = .error error) (rest : List Markup) :
    carried (stepsAll (piece :: rest)) = carried piece.steps := by
  rw [stepsAll, carried, carried, reached_append_of_error (ending_steps piece ▸ stops)]

section Sending

variable {σ : Type} [Sink σ]

mutual

/-- A sink that refuses no call receives the calls that are carried out, and the first error is
reported. -/
theorem write_eq_sendAll (piece : Markup) {s : σ} (accepted : Accepted (carried piece.steps) s) :
    piece.write s = (piece.outcome, (sendAll (carried piece.steps) s).2) := by
  cases piece with
  | element name attributes content =>
      rw [carried_element, accepted_cons_iff, accepted_append_iff, accepted_cons_iff] at accepted
      obtain ⟨opened, inside, closed, -⟩ := accepted
      have started : Sink.startElement name attributes s =
          (.ok (), ((SinkCall.startElement name attributes).send s).2) := Prod.ext opened rfl
      rw [write, outcome, carried_element, sendAll_cons, sendAll_append]
      exact Sink.element_of_ok started (writeAll_eq_sendAll content inside) (Prod.ext closed rfl)
  | empty name attributes => exact Prod.ext (accepted_cons_iff.mp accepted).1 rfl
  | text content => exact Prod.ext (accepted_cons_iff.mp accepted).1 rfl
  | fail error => rfl

theorem writeAll_eq_sendAll (content : List Markup) {s : σ}
    (accepted : Accepted (carried (stepsAll content)) s) :
    writeAll content s = (outcomeAll content, (sendAll (carried (stepsAll content)) s).2) := by
  cases content with
  | nil => rfl
  | cons piece rest =>
      rw [writeAll, Sink.andThen, outcomeAll]
      cases ended : piece.outcome with
      | ok done =>
          rw [carried_stepsAll_of_ok ended] at accepted ⊢
          rw [accepted_append_iff] at accepted
          rw [write_eq_sendAll piece accepted.1, ended, sendAll_append]
          exact writeAll_eq_sendAll rest accepted.2
      | error error =>
          rw [carried_stepsAll_of_error ended] at accepted ⊢
          rw [write_eq_sendAll piece accepted, ended]

end

end Sending

/-- A recorder that is told to fail nowhere keeps the calls. -/
theorem sendAll_recorder (calls : List SinkCall) {r : Recorder} (never : r.failing = []) :
    sendAll calls r =
      (calls.map fun _ => .ok (), { r with calls := r.calls ++ calls.toArray }) := by
  induction calls generalizing r with
  | nil => simp [sendAll]
  | cons call rest ih =>
      have kept : call.send r = (.ok (), { r with calls := r.calls.push call }) := by
        cases call <;> simp [send, Sink.startElement, Sink.endElement, Sink.emptyElement,
          Sink.text, Recorder.record, never]
      have later := ih (r := { r with calls := r.calls.push call }) never
      rw [sendAll_cons, kept, later]
      simp

mutual

/-- The sink that writes XML refuses none of the calls if its buffer has no bound. -/
theorem accepted_steps (piece : Markup) {s : XmlSink} (unbounded : s.buffer.room = none) :
    Accepted (carried piece.steps) s := by
  cases piece with
  | element name attributes content =>
      have opened := XmlSink.startElement_eq unbounded name attributes
      rw [carried_element, accepted_cons_iff, accepted_append_iff, accepted_cons_iff,
        XmlSink.send_startElement, opened]
      have room : ((s.putAll s.held).enter (s.tag name attributes)).buffer.room = none := unbounded
      have inside := accepted_stepsAll content room
      have written := (writeAll_eq_sendAll content inside).symm.trans (writeAll_eq content room)
      obtain ⟨-, -, names, unbounded_inside⟩ :=
        ((s.putAll s.held).enter (s.tag name attributes)).emit_fields (tokensAll
          ((s.putAll s.held).enter (s.tag name attributes)).nsPrefix
          ((s.putAll s.held).enter (s.tag name attributes)).binding content)
      refine ⟨rfl, inside, ?_, nofun⟩
      rw [(Prod.ext_iff.mp written).2]
      rcases XmlSink.endElement_cases (unbounded_inside.trans room) with ⟨outside, -⟩ | ⟨-, closed⟩
      · rw [XmlSink.depth, names] at outside
        cases outside
      · exact closed
  | empty name attributes =>
      exact accepted_cons_iff.mpr ⟨XmlSink.send_succeeds unbounded nofun, nofun⟩
  | text content =>
      exact accepted_cons_iff.mpr ⟨XmlSink.send_succeeds unbounded nofun, nofun⟩
  | fail error => exact nofun

theorem accepted_stepsAll (content : List Markup) {s : XmlSink}
    (unbounded : s.buffer.room = none) : Accepted (carried (stepsAll content)) s := by
  cases content with
  | nil => exact nofun
  | cons piece rest =>
      have first := accepted_steps piece unbounded
      cases ended : piece.outcome with
      | ok done =>
          have written := (write_eq_sendAll piece first).symm.trans (write_eq piece unbounded)
          have room := (s.emit_fields (piece.tokens s.nsPrefix s.binding)).2.2.2
          rw [carried_stepsAll_of_ok ended, accepted_append_iff, (Prod.ext_iff.mp written).2]
          exact ⟨first, accepted_stepsAll rest (room.trans unbounded)⟩
      | error error =>
          rw [carried_stepsAll_of_error ended]
          exact first

end

/-! ### What is written -/

variable {nsPrefix : String} {binding : List Attribute}

theorem unclosed_spread (stack : List Tag) (tokens : List Token) :
    unclosed stack (tokens.flatMap Token.spread) = unclosed stack tokens := by
  induction tokens generalizing stack with
  | nil => rfl
  | cons token rest ih =>
      rw [List.flatMap_cons, unclosed_append, unclosed]
      have same : unclosed stack token.spread = token.nest stack := by
        cases token <;> simp [Token.spread, unclosed, Token.nest]
      rw [same]
      exact congrArg _ (funext fun stack => ih stack)

theorem spread_wrap (tag : Tag) (inner : List Token) : (wrap tag inner).flatMap Token.spread =
    .startTag tag :: (inner.flatMap Token.spread ++ [.endTag tag.name]) := by
  by_cases leaf : inner = []
  · simp [wrap, leaf, Token.spread]
  · simp [wrap, leaf, Token.spread]

mutual

/-- Told one by one, the calls that are carried out are the tokens that are written. -/
theorem asked_carried (piece : Markup) (names : List String) (after : List SinkCall) :
    asked nsPrefix binding names (carried piece.steps ++ after) =
      (piece.tokens nsPrefix (if names = [] then binding else [])).flatMap Token.spread ++
        asked nsPrefix binding names after := by
  cases piece with
  | element name attributes content =>
      have inside := asked_carriedAll content ((nsPrefix ++ ":" ++ name) :: names)
        (.endElement :: after)
      rw [if_neg (List.cons_ne_nil _ _)] at inside
      rw [carried_element, tokens, spread_wrap, List.cons_append, List.append_assoc, asked,
        List.singleton_append, inside, asked]
      simp
  | empty name attributes => rfl
  | text content =>
      have calls : carried (text content).steps = [.text content] := rfl
      rw [calls, List.singleton_append, asked, tokens]
      split
      · rfl
      · rfl
  | fail error => rfl

theorem asked_carriedAll (content : List Markup) (names : List String) (after : List SinkCall) :
    asked nsPrefix binding names (carried (stepsAll content) ++ after) =
      (tokensAll nsPrefix (if names = [] then binding else []) content).flatMap Token.spread ++
        asked nsPrefix binding names after := by
  cases content with
  | nil => rfl
  | cons piece rest =>
      rw [tokensAll]
      cases ended : piece.outcome with
      | ok done =>
          rw [carried_stepsAll_of_ok ended, List.append_assoc, asked_carried piece,
            asked_carriedAll rest, List.flatMap_append, List.append_assoc]
      | error error =>
          rw [carried_stepsAll_of_error ended, asked_carried piece]

end

theorem unclosed_wrap {tag : Tag} {inner : List Token} (closed : unclosed [] inner = some []) :
    unclosed [] (wrap tag inner) = some [] := by
  by_cases leaf : inner = []
  · rw [wrap, if_pos leaf]
    rfl
  · rw [wrap, if_neg leaf, List.cons_append, unclosed, Token.nest, Option.bind_some,
      unclosed_append, unclosed_of_closed closed, Option.bind_some]
    simp [unclosed, Token.nest]

mutual

/-- Every element of a piece is closed, also if it stops with an error. -/
theorem unclosed_tokens (piece : Markup) (binding : List Attribute) :
    unclosed [] (piece.tokens nsPrefix binding) = some [] := by
  cases piece with
  | element name attributes content =>
      rw [tokens]
      exact unclosed_wrap (unclosed_tokensAll content [])
  | empty name attributes => rfl
  | text content =>
      rw [tokens]
      split <;> rfl
  | fail error => rfl

theorem unclosed_tokensAll (content : List Markup) (binding : List Attribute) :
    unclosed [] (tokensAll nsPrefix binding content) = some [] := by
  cases content with
  | nil => rfl
  | cons piece rest =>
      rw [tokensAll]
      cases piece.outcome with
      | ok done =>
          dsimp only
          rw [unclosed_append, unclosed_tokens piece, Option.bind_some, unclosed_tokensAll rest]
      | error error => exact unclosed_tokens piece binding

end

/-- What calls ask for never closes what is not open, and later calls go on from the names of the
elements that are left open. -/
theorem asked_append (stack : List Tag) (first second : List SinkCall) :
    ∃ left, unclosed stack (asked nsPrefix binding (stack.map Tag.name) first) = some left ∧
      asked nsPrefix binding (stack.map Tag.name) (first ++ second) =
        asked nsPrefix binding (stack.map Tag.name) first ++
          asked nsPrefix binding (left.map Tag.name) second := by
  induction first generalizing stack with
  | nil => exact ⟨stack, rfl, rfl⟩
  | cons call rest ih =>
      cases call with
      | startElement name attributes =>
          obtain ⟨left, nested, later⟩ := ih (⟨nsPrefix ++ ":" ++ name,
            (if stack.map Tag.name = [] then binding else []) ++ attributes⟩ :: stack)
          exact ⟨left, nested, congrArg _ later⟩
      | endElement =>
          cases stack with
          | nil => exact ih []
          | cons tag stack =>
              obtain ⟨left, nested, later⟩ := ih stack
              refine ⟨left, ?_, congrArg _ later⟩
              rw [List.map_cons, asked, unclosed, Token.nest, if_pos rfl]
              exact nested
      | emptyElement name attributes =>
          obtain ⟨left, nested, later⟩ := ih stack
          refine ⟨left, ?_, congrArg (_ :: _ :: ·) later⟩
          simp only [asked, unclosed, Token.nest, Option.bind_some, if_true]
          exact nested
      | text content =>
          obtain ⟨left, nested, later⟩ := ih stack
          refine ⟨left, ?_, ?_⟩
          · rw [asked]
            split
            · exact nested
            · exact nested
          · rw [List.cons_append, asked, asked, later, List.append_assoc]

/-- Closing calls close the innermost elements. -/
theorem asked_closing (stack : List Tag) (count : Nat) :
    asked nsPrefix binding (stack.map Tag.name) (List.replicate count .endElement) =
      (stack.take count).map fun tag => .endTag tag.name := by
  induction count generalizing stack with
  | zero => simp [asked]
  | succ count ih =>
      cases stack with
      | nil => simpa [asked, List.replicate_succ] using ih []
      | cons tag stack => exact congrArg _ (ih stack)

theorem unclosed_closing (stack : List Tag) (count : Nat) :
    unclosed stack ((stack.take count).map fun tag => .endTag tag.name) =
      some (stack.drop count) := by
  induction count generalizing stack with
  | zero => simp [unclosed]
  | succ count ih =>
      cases stack with
      | nil => rfl
      | cons tag stack =>
          rw [List.take_succ_cons, List.map_cons, unclosed, Token.nest, if_pos rfl,
            Option.bind_some, ih, List.drop_succ_cons]

/-- The tokens of a piece are the tags and texts that it asks for before the first error, and behind
them the end tags of the elements that are open there, those of the inner elements first. -/
theorem exists_left (piece : Markup) : ∃ left,
    unclosed [] (asked nsPrefix binding [] (reached piece.steps)) = some left ∧
      (piece.tokens nsPrefix binding).flatMap Token.spread =
        asked nsPrefix binding [] (reached piece.steps) ++
          left.map fun tag => .endTag tag.name := by
  obtain ⟨left, opened, later⟩ := @asked_append nsPrefix binding [] (reached piece.steps)
    (List.replicate (leftOpen (reached piece.steps)) .endElement)
  rw [asked_closing, List.map_nil] at later
  have all := @asked_carried nsPrefix binding piece [] []
  rw [List.append_nil, carried, later, if_pos rfl, asked, List.append_nil] at all
  have closed : unclosed left ((left.take (leftOpen (reached piece.steps))).map
      fun tag => .endTag tag.name) = some [] := by
    have balanced := @unclosed_tokens nsPrefix piece binding
    rw [← unclosed_spread, ← all, unclosed_append] at balanced
    rw [List.map_nil] at opened
    rwa [opened] at balanced
  -- Fewer closing calls would leave some of these elements open.
  rw [unclosed_closing, Option.some.injEq, List.drop_eq_nil_iff] at closed
  rw [List.take_of_length_le closed] at all
  exact ⟨left, opened, all.symm⟩

/-- What an element leaves of the steps in it: the sink behind it, the tokens that it wrote, and the
elements that were open inside of it at the first error. -/
structure Unwound (s : XmlSink) (steps : List Step) (after : XmlSink) (tokens : List Token)
    (left : List Tag) : Prop where
  /-- The sink is left by the calls before the first error and by one closing call for each element
  that these left open. None of them is refused, and no others are made. -/
  calls : sendAll (carried steps) s = ((carried steps).map fun _ => .ok (), after)
  depth_eq : after.depth = s.depth
  names_eq : after.openNames = s.openNames
  /-- The start tag that was held back comes first, and none is held back any more. -/
  written : after = (s.putAll (s.held ++ tokens)).settle
  balanced : unclosed [] tokens = some []
  /-- Each element is closed once. -/
  closed_once : ∀ i tag, tokens[i]? = some (.startTag tag) → ∃! j, Closes tokens i j
  open_there : unclosed [] (asked s.nsPrefix s.binding [] (reached steps)) = some left
  /-- Nothing but what was asked for before the error is written, and behind it the end tags of what
  was open there, innermost first. -/
  content : tokens.flatMap Token.spread = asked s.nsPrefix s.binding [] (reached steps) ++
    left.map fun tag => .endTag tag.name

/-- An element is closed on every way out of it. Whatever its body does and wherever it stops, the
first error is reported and no step behind it is taken; each element that was opened is closed, and
the sink is as deep as before. -/
theorem element_unwinds {s : XmlSink} (unbounded : s.buffer.room = none) (name : String)
    (attributes : List Attribute) (content : List Markup) : ∃ after tokens left,
    Sink.element name attributes (writeAll content) s =
      (ending (element name attributes content).steps, after) ∧
    Unwound s (element name attributes content).steps after tokens left ∧
    ∀ r : Recorder, r.failing = [] → Sink.element name attributes (writeAll content) r =
      (ending (element name attributes content).steps, { r with
        calls := r.calls ++ (carried (element name attributes content).steps).toArray }) := by
  have accepted := accepted_steps (element name attributes content) unbounded
  have sent := write_eq_sendAll (element name attributes content) accepted
  have wrote := write_eq (element name attributes content) unbounded
  obtain ⟨left, open_there, told⟩ := @exists_left s.nsPrefix s.binding
    (element name attributes content)
  have some_put : (element name attributes content).tokens s.nsPrefix s.binding ≠ [] := by
    rw [tokens, wrap]
    split <;> simp
  have balanced := @unclosed_tokens s.nsPrefix (element name attributes content) s.binding
  rw [ending_steps]
  refine ⟨_, _, left, wrote, ⟨?_, ?_, ?_, XmlSink.emit_of_ne_nil some_put, balanced,
    fun i tag start => existsUnique_end balanced start, open_there, told⟩, ?_⟩
  · refine Prod.ext ?_ (Prod.ext_iff.mp (sent.symm.trans wrote)).2
    rw [List.map_const', List.eq_replicate_iff]
    exact ⟨length_sendAll _ _, accepted⟩
  · rw [XmlSink.depth, (s.emit_fields _).2.2.1, XmlSink.depth]
  · exact (s.emit_fields _).2.2.1
  · intro r never
    have recorded := sendAll_recorder (carried (element name attributes content).steps) never
    have taken : Accepted (carried (element name attributes content).steps) r := by
      intro outcome member
      rw [recorded] at member
      exact List.eq_of_mem_map_const member
    have kept := write_eq_sendAll (element name attributes content) taken
    rw [recorded] at kept
    exact kept

/-- An element whose body stops in an element of an element, behind a text and an empty element. -/
def stopping : List Markup :=
  [.element "a" [("k", "<")] [.text "x", .element "b" [] [],
    .element "c" [] [.element "d" [] [.fail (.invalidConfig "stop"), .text "y"], .empty "e" []]],
    .text "z"]

/-- A sink inside of an element whose start tag is held back. -/
def within : XmlSink :=
  (XmlSink.startElement "schema" [] (XmlSink.fresh .compact .unbounded)).2

/-- The text of that element ends with the three end tags that were missing. -/
theorem element_unwinds_stopping : within.buffer.room = none ∧ within.pending.isSome = true ∧
    ∃ after, Sink.element "r" [] (writeAll stopping) within =
        (.error (.invalidConfig "stop"), after) ∧ after.depth = 1 ∧
      after.buffer.text = "<sch:schema xmlns:sch=\"http://purl.oclc.org/dsdl/schematron\">" ++
        "<sch:r><sch:a k=\"&lt;\">x<sch:b/><sch:c><sch:d/></sch:c></sch:a></sch:r>" := by
  have unbounded : within.buffer.room = none := rfl
  obtain ⟨after, tokens, left, ended, unwound, -⟩ := element_unwinds unbounded "r" [] stopping
  refine ⟨unbounded, rfl, after, ended, unwound.depth_eq, ?_⟩
  have text := congrArg (fun sent => sent.2.buffer.text) unwound.calls
  rw [← text]
  decide +kernel

end Markup

end Schematron
