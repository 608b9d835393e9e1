import Mathlib.Data.List.Basic
import Schematron.Markup.Token

/-!
# Nested tags

Reading tokens from left to right, a start tag opens an element and an end tag has
to close the element that was opened last, by its name. `unclosed` keeps the start
tags that are open, and fails at an end tag that closes nothing.

That every end tag belongs to a start tag is then a matter of places. `Closes` says
that two places hold a start tag and its end tag, with tokens between them that
close whatever they open. Every end tag closes exactly one start tag
(`existsUnique_start`), and if nothing is left open every start tag is closed by
exactly one end tag (`existsUnique_end`).
-/

namespace Schematron

/-- The start tags that are open after a token, the innermost first. -/
def Token.nest (stack : List Tag) : Token → Option (List Tag)
  | .startTag tag => some (tag :: stack)
  | .endTag name =>
    match stack with
    | tag :: rest => if tag.name = name then some rest else none
    | [] => none
  | _ => some stack

namespace Markup

/-- The start tags that are open after tokens, if every end tag closes the innermost one. -/
def unclosed (stack : List Tag) : List Token → Option (List Tag)
  | [] => some stack
  | token :: rest => (token.nest stack).bind fun stack => unclosed stack rest

/-- The end tag in place `j` closes the start tag in place `i`. -/
def Closes (tokens : List Token) (i j : Nat) : Prop :=
  ∃ before tag inner after,
    tokens = before ++ .startTag tag :: (inner ++ .endTag tag.name :: after) ∧
    unclosed [] inner = some [] ∧ i = before.length ∧ j = before.length + 1 + inner.length

variable {stack stack' top below : List Tag} {tag : Tag} {name : String}
variable {tokens before before' inner inner' after after' : List Token} {i j : Nat}

theorem unclosed_append (stack : List Tag) (first second : List Token) :
    unclosed stack (first ++ second) =
      (unclosed stack first).bind fun stack => unclosed stack second := by
  induction first generalizing stack with
  | nil => rfl
  | cons token rest ih =>
      rw [List.cons_append, unclosed, unclosed]
      cases token.nest stack with
      | none => rfl
      | some stack => exact ih stack

theorem unclosed_concat (stack : List Tag) (tokens : List Token) (token : Token) :
    unclosed stack (tokens ++ [token]) = (unclosed stack tokens).bind token.nest := by
  rw [unclosed_append]
  congr 1
  funext stack
  cases nested : token.nest stack <;> simp [unclosed, nested]

/-- An end tag closes the innermost start tag, which has its name. -/
theorem nest_endTag_eq_some_iff :
    (Token.endTag name).nest stack = some stack' ↔
      ∃ tag, stack = tag :: stack' ∧ tag.name = name := by
  cases stack with
  | nil => simp [Token.nest]
  | cons tag rest =>
      simp only [Token.nest, Option.ite_none_right_eq_some, Option.some.injEq, List.cons.injEq]
      constructor
      · rintro ⟨named, rfl⟩
        exact ⟨tag, ⟨rfl, rfl⟩, named⟩
      · rintro ⟨other, ⟨rfl, rfl⟩, named⟩
        exact ⟨named, rfl⟩

theorem nest_below {token : Token} (nested : token.nest stack = some stack') (below : List Tag) :
    token.nest (stack ++ below) = some (stack' ++ below) := by
  cases token with
  | endTag name =>
      obtain ⟨tag, rfl, named⟩ := nest_endTag_eq_some_iff.mp nested
      exact nest_endTag_eq_some_iff.mpr ⟨tag, rfl, named⟩
  | _ => cases nested; rfl

/-- Start tags further out stay open. -/
theorem unclosed_below (nested : unclosed stack tokens = some stack') (below : List Tag) :
    unclosed (stack ++ below) tokens = some (stack' ++ below) := by
  induction tokens generalizing stack with
  | nil =>
      cases nested
      rfl
  | cons token rest ih =>
      obtain ⟨middle, first, later⟩ := Option.bind_eq_some_iff.mp nested
      rw [unclosed, nest_below first below, Option.bind_some]
      exact ih later

/-- Tokens that close what they open leave the open start tags as they are. -/
theorem unclosed_of_closed (closed : unclosed [] tokens = some []) (stack : List Tag) :
    unclosed stack tokens = some stack :=
  unclosed_below closed stack

theorem exists_split {token : Token} (stands : tokens[i]? = some token) :
    ∃ before after, tokens = before ++ token :: after ∧ i = before.length := by
  obtain ⟨inside, rfl⟩ := List.getElem?_eq_some_iff.mp stands
  refine ⟨tokens.take i, tokens.drop (i + 1), ?_, ?_⟩
  · rw [List.getElem_cons_drop, List.take_append_drop]
  · exact (List.length_take_of_le (Nat.le_of_lt inside)).symm

/-! ### The end tag of a start tag -/

/-- A start tag that does not stay open is followed by its end tag. -/
theorem exists_end (nested : unclosed (top ++ tag :: below) tokens = some stack)
    (closed : stack.length ≤ below.length) :
    ∃ inner after, tokens = inner ++ .endTag tag.name :: after ∧ unclosed top inner = some [] := by
  -- The start tags in `top` were opened behind the one that is to be closed.
  induction tokens generalizing top with
  | nil =>
      cases nested
      simp at closed
      omega
  | cons token rest ih =>
      obtain ⟨middle, first, later⟩ := Option.bind_eq_some_iff.mp nested
      have behind {top' : List Tag} (step : token.nest top = some top')
          (reached : middle = top' ++ tag :: below) : ∃ inner after,
            token :: rest = inner ++ .endTag tag.name :: after ∧ unclosed top inner = some [] := by
        obtain ⟨inner, after, rfl, inside⟩ := ih (reached ▸ later)
        exact ⟨token :: inner, after, rfl, by rw [unclosed, step, Option.bind_some, inside]⟩
      cases token with
      | endTag name =>
          obtain ⟨innermost, opened, named⟩ := nest_endTag_eq_some_iff.mp first
          cases top with
          | nil =>
              cases opened
              exact ⟨[], rest, by rw [named]; rfl, rfl⟩
          | cons other top =>
              cases opened
              exact behind (nest_endTag_eq_some_iff.mpr ⟨_, rfl, named⟩) rfl
      | _ => cases first; exact behind rfl rfl

/-- Tokens that close what they open do not go on behind an end tag of something else. -/
theorem length_le_of_closed (closed : unclosed [] inner = some [])
    (closed' : unclosed [] inner' = some [])
    (same : inner ++ .endTag name :: after = inner' ++ after') : inner'.length ≤ inner.length := by
  rcases List.append_eq_append_iff.mp same with ⟨more, rfl, rest⟩ | ⟨more, rfl, -⟩
  · cases more with
    | nil => simp
    | cons token more =>
        cases rest
        rw [unclosed_append, closed, Option.bind_some] at closed'
        cases closed'
  · simp

/-- If nothing is left open, every start tag is closed by exactly one end tag. -/
theorem existsUnique_end (closed : unclosed [] tokens = some [])
    (start : tokens[i]? = some (.startTag tag)) : ∃! j, Closes tokens i j := by
  obtain ⟨before, rest, rfl, rfl⟩ := exists_split start
  rw [unclosed_append, Option.bind_eq_some_iff] at closed
  obtain ⟨stack, -, later⟩ := closed
  rw [unclosed, Token.nest, Option.bind_some] at later
  have opened : unclosed ([] ++ tag :: stack) rest = some [] := later
  obtain ⟨inner, after, rfl, closed⟩ := exists_end opened (Nat.zero_le _)
  refine ⟨before.length + 1 + inner.length, ⟨before, tag, inner, after, rfl, closed, rfl, rfl⟩, ?_⟩
  rintro j ⟨before', tag', inner', after', same, closed', length, rfl⟩
  have behind := (List.append_inj same length).2
  rw [List.cons.injEq] at behind
  have le := length_le_of_closed closed closed' behind.2
  have ge := length_le_of_closed closed' closed behind.2.symm
  omega

/-! ### The start tag of an end tag -/

/-- An open start tag stands somewhere, and everything that was opened behind it is closed. -/
theorem exists_start (nested : unclosed [] tokens = some (tag :: below)) :
    ∃ before inner, tokens = before ++ .startTag tag :: inner ∧
      unclosed [] before = some below ∧ unclosed [] inner = some [] := by
  -- The induction is on the length, since an end tag leads back past the whole element it closes.
  generalize bound : tokens.length = length
  induction length using Nat.strongRecOn generalizing tokens tag below with
  | ind length ih =>
      rcases List.eq_nil_or_concat tokens with rfl | ⟨earlier, token, rfl⟩
      · cases nested
      · rw [List.concat_eq_append, unclosed_concat, Option.bind_eq_some_iff] at nested
        rw [List.concat_eq_append, List.length_append, List.length_singleton] at bound
        obtain ⟨stack, nested, last⟩ := nested
        have behind (same : stack = tag :: below)
            (passes : ∀ stack, token.nest stack = some stack) : ∃ before inner,
              earlier.concat token = before ++ .startTag tag :: inner ∧
              unclosed [] before = some below ∧ unclosed [] inner = some [] := by
          obtain ⟨before, inner, rfl, outside, inside⟩ :=
            ih earlier.length (by omega) (same ▸ nested) rfl
          refine ⟨before, inner ++ [token], by simp, outside, ?_⟩
          rw [unclosed_concat, inside, Option.bind_some, passes]
        cases token with
        | startTag other =>
            cases last
            exact ⟨earlier, [], by simp, nested, rfl⟩
        | endTag name =>
            obtain ⟨other, rfl, named⟩ := nest_endTag_eq_some_iff.mp last
            obtain ⟨middle, inner', rfl, nested', inside'⟩ :=
              ih earlier.length (by omega) nested rfl
            rw [List.length_append, List.length_cons] at bound
            obtain ⟨before, inner, rfl, outside, inside⟩ :=
              ih middle.length (by omega) nested' rfl
            refine ⟨before, inner ++ .startTag other :: inner' ++ [.endTag name], by simp,
              outside, ?_⟩
            rw [unclosed_concat, unclosed_append, inside, Option.bind_some, unclosed, Token.nest,
              Option.bind_some, unclosed_of_closed inside', Option.bind_some]
            exact nest_endTag_eq_some_iff.mpr ⟨other, rfl, named⟩
        | _ => cases last; exact behind rfl fun _ => rfl

/-- Tokens that close what they open do not begin before a start tag of something else. -/
theorem length_le_of_started {tag' : Tag} (closed : unclosed [] inner = some [])
    (closed' : unclosed [] inner' = some [])
    (same : before ++ .startTag tag :: inner = before' ++ .startTag tag' :: inner') :
    before'.length ≤ before.length := by
  rcases List.append_eq_append_iff.mp same with ⟨more, rfl, rest⟩ | ⟨more, rfl, -⟩
  · cases more with
    | nil => simp
    | cons token more =>
        rw [List.cons_append, List.cons.injEq] at rest
        rw [rest.2, unclosed_append, Option.bind_eq_some_iff] at closed
        obtain ⟨stack, -, later⟩ := closed
        rw [unclosed, Token.nest, Option.bind_some, unclosed_of_closed closed'] at later
        cases later
  · simp

/-- Every end tag closes exactly one start tag. -/
theorem existsUnique_start (nested : unclosed [] tokens = some stack)
    (ends : tokens[j]? = some (.endTag name)) : ∃! i, Closes tokens i j := by
  obtain ⟨earlier, after, rfl, rfl⟩ := exists_split ends
  rw [unclosed_append, Option.bind_eq_some_iff] at nested
  obtain ⟨stack', nested, later⟩ := nested
  obtain ⟨_, last, -⟩ := Option.bind_eq_some_iff.mp later
  obtain ⟨tag, rfl, rfl⟩ := nest_endTag_eq_some_iff.mp last
  obtain ⟨before, inner, rfl, -, closed⟩ := exists_start nested
  refine ⟨before.length, ⟨before, tag, inner, after, by simp, closed, rfl, ?_⟩, ?_⟩
  · rw [List.length_append, List.length_cons]
    omega
  · rintro i ⟨before', tag', inner', after', same, closed', rfl, length⟩
    -- Both begin with what stands before the end tag.
    have front : before ++ .startTag tag :: inner = before' ++ .startTag tag' :: inner' := by
      have split : before' ++ .startTag tag' :: (inner' ++ .endTag tag'.name :: after') =
          (before' ++ .startTag tag' :: inner') ++ .endTag tag'.name :: after' := by
        simp
      rw [split] at same
      refine (List.append_inj same ?_).1
      rw [length, List.length_append, List.length_cons]
      omega
    have le := length_le_of_started closed closed' front
    have ge := length_le_of_started closed' closed front.symm
    omega

end Markup

end Schematron
