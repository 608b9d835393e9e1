import Mathlib.Data.List.Chain
import Mathlib.Data.List.Induction
import Schematron.Message

/-!
# The normal form of messages

A message can only be built by adding texts and values to the empty message.
However that is done, no text in it is empty and no two texts are adjacent, so
the parts of a message can be told apart in the text that is made of them.

`reduced` says what becomes of the parts that were given: the empty texts are left
out, and adjacent texts are joined. It goes by the parts alone, while a message looks
at its last part whenever one is added. `parts_ofParts` states that both come to the
same, and `calls_normal_form` what follows for messages.
-/

namespace Schematron

def MessagePart.isText : MessagePart → Bool
  | .text _ => true
  | .valueOf _ => false

namespace Message

/-- The message comes from some sequence of additions to the empty message. -/
def Built (m : Message) : Prop := ∃ calls, m = ofParts calls

/-- No text is empty, and no two texts are adjacent. -/
structure Normal (m : Message) : Prop where
  filled : .text "" ∉ m.parts
  apart : m.parts.IsChain fun a b => ¬ (a.isText = true ∧ b.isText = true)

variable {m : Message} {content : String} {parts : List MessagePart}

theorem appendText_concat_text (before : String) :
    appendText content (parts ++ [.text before]) = parts ++ [.text (before ++ content)] := by
  induction parts with
  | nil => rfl
  | cons part rest ih =>
      obtain ⟨next, more, joined⟩ := List.exists_cons_of_ne_nil
        (show rest ++ [.text before] ≠ [] by simp)
      rw [List.cons_append, joined, appendText, ← joined, ih, List.cons_append]
      intro text _ nothing_behind
      cases nothing_behind

theorem appendText_of_getLast? (last : ∀ part ∈ parts.getLast?, part.isText = false) :
    appendText content parts = parts ++ [.text content] := by
  induction parts with
  | nil => rfl
  | cons part rest ih =>
      cases rest with
      | nil =>
          have value := last part (by simp)
          cases part with
          | text before => cases value
          | valueOf select => rfl
      | cons next more =>
          rw [appendText, ih (by simpa using last)]
          · rfl
          · intro before _ nothing_behind
            cases nothing_behind

namespace Normal

theorem empty : Normal Message.empty where
  filled := by simp [Message.empty]
  apart := .nil

/-- A text is added without making a gap or a seam. -/
theorem text (h : m.Normal) (content : String) : (m.text content).Normal := by
  rw [Message.text]
  split
  · exact h
  · next some_text =>
    obtain ⟨parts⟩ := m
    rcases List.eq_nil_or_concat parts with rfl | ⟨before, last, rfl⟩
    · exact ⟨by simpa [appendText] using Ne.symm some_text, .singleton _⟩
    · rw [List.concat_eq_append] at *
      obtain ⟨filled, apart⟩ := h
      simp only at filled apart ⊢
      obtain ⟨front, -, seam⟩ := List.isChain_append.mp apart
      cases last with
      | text existing =>
          rw [appendText_concat_text]
          constructor
          · simp only [List.mem_append, List.mem_singleton, not_or] at filled ⊢
            refine ⟨filled.1, ?_⟩
            intro vanished
            have joined := MessagePart.text.inj vanished
            simp_all
          · refine List.isChain_append.mpr ⟨front, .singleton _, ?_⟩
            intro x hx y hy
            have apart_before := seam x hx (.text existing) (by simp)
            cases hy
            exact apart_before
      | valueOf select =>
          rw [appendText_of_getLast? (by simp [MessagePart.isText])]
          constructor
          · simp only [List.mem_append, List.mem_singleton, not_or] at filled ⊢
            exact ⟨filled, fun vanished => some_text (MessagePart.text.inj vanished).symm⟩
          · refine List.isChain_append.mpr ⟨apart, .singleton _, ?_⟩
            intro x hx y hy
            simp only [List.getLast?_append, List.getLast?_singleton, Option.mem_some_iff,
              Option.some_or] at hx
            subst hx
            simp [MessagePart.isText]

/-- A value is never a text. -/
theorem valueOf (h : m.Normal) (select : String) : (m.valueOf select).Normal where
  filled := by
    simp only [Message.valueOf, List.mem_append, List.mem_singleton, not_or]
    exact ⟨h.filled, fun same => by cases same⟩
  apart := by
    refine List.isChain_append.mpr ⟨h.apart, .singleton _, ?_⟩
    intro x _ y hy
    simp only [List.head?_cons, Option.mem_some_iff] at hy
    subst hy
    simp [MessagePart.isText]

theorem add (h : m.Normal) (part : MessagePart) : (m.add part).Normal := by
  cases part with
  | text content => exact h.text content
  | valueOf select => exact h.valueOf select

end Normal

theorem Built.empty : Message.empty.Built := ⟨[], rfl⟩

theorem Built.add (h : m.Built) (part : MessagePart) : (m.add part).Built := by
  obtain ⟨calls, rfl⟩ := h
  refine ⟨calls ++ [part], ?_⟩
  rw [ofParts, ofParts, List.foldl_append]
  rfl

/-- Every message that can be built is in normal form. -/
theorem Built.normal (h : m.Built) : m.Normal := by
  obtain ⟨calls, rfl⟩ := h
  have from_normal (m : Message) (h : m.Normal) : (calls.foldl Message.add m).Normal := by
    induction calls generalizing m with
    | nil => exact h
    | cons part rest ih => exact ih (m.add part) (h.add part)
  exact from_normal Message.empty .empty

/-! ### Sequences of additions -/

def prependText (content : String) : List MessagePart → List MessagePart
  | .text behind :: rest => .text (content ++ behind) :: rest
  | parts => .text content :: parts

/-- Adjacent texts as one text. -/
def joined : List MessagePart → List MessagePart
  | [] => []
  | .text content :: rest => prependText content (joined rest)
  | .valueOf select :: rest => .valueOf select :: joined rest

/-- Without the empty texts, and with adjacent texts as one. -/
def reduced (parts : List MessagePart) : List MessagePart :=
  joined (parts.filter (· ≠ .text ""))

/-- It does not matter at which end the parts grow first. -/
theorem appendText_prependText (content before : String) (parts : List MessagePart) :
    appendText content (prependText before parts) =
      prependText before (appendText content parts) := by
  cases parts with
  | nil => rfl
  | cons part rest =>
      cases part with
      | valueOf select => rfl
      | text behind =>
          cases rest with
          | nil => simp [prependText, appendText, String.append_assoc]
          | cons next more => rfl

theorem joined_concat_text (parts : List MessagePart) (content : String) :
    joined (parts ++ [.text content]) = appendText content (joined parts) := by
  induction parts with
  | nil => rfl
  | cons part rest ih =>
      cases part with
      | text before => rw [List.cons_append, joined, joined, ih, appendText_prependText]
      | valueOf select =>
          rw [List.cons_append, joined, joined, ih]
          rfl

theorem joined_concat_valueOf (parts : List MessagePart) (select : String) :
    joined (parts ++ [.valueOf select]) = joined parts ++ [.valueOf select] := by
  induction parts with
  | nil => rfl
  | cons part rest ih =>
      cases part with
      | valueOf other => simp [joined, ih]
      | text content =>
          rw [List.cons_append, joined, joined, ih]
          cases joined rest with
          | nil => rfl
          | cons next more => cases next <;> rfl

theorem reduced_concat (parts : List MessagePart) (part : MessagePart) :
    reduced (parts ++ [part]) = (Message.add ⟨reduced parts⟩ part).parts := by
  cases part with
  | valueOf select => simp [reduced, joined_concat_valueOf, Message.add, valueOf]
  | text content =>
      by_cases nothing : content = ""
      · simp [reduced, Message.add, text, nothing]
      · simp [reduced, joined_concat_text, Message.add, text, nothing]

theorem ofParts_concat (calls : List MessagePart) (part : MessagePart) :
    ofParts (calls ++ [part]) = (ofParts calls).add part := by
  rw [ofParts, List.foldl_append]
  rfl

/-- A message has the parts that it was given, reduced. -/
theorem parts_ofParts (calls : List MessagePart) : (ofParts calls).parts = reduced calls := by
  induction calls using List.reverseRecOn with
  | nil => rfl
  | append_singleton calls part ih => rw [reduced_concat, ← ih, ofParts_concat]

theorem ofParts_eq_iff {calls others : List MessagePart} :
    ofParts calls = ofParts others ↔ reduced calls = reduced others := by
  rw [← parts_ofParts, ← parts_ofParts]
  constructor
  · exact congrArg Message.parts
  · intro same
    exact congrArg Message.mk same

theorem empty_notMem_reduced (parts : List MessagePart) : .text "" ∉ reduced parts := by
  have built : (ofParts parts).Built := ⟨parts, rfl⟩
  rw [← parts_ofParts]
  exact built.normal.filled

/-- What stands behind a text can be told from the whole, unless it starts with an empty text. -/
theorem prependText_inj {others : List MessagePart} (filled : .text "" ∉ parts)
    (filled' : .text "" ∉ others) :
    prependText content parts = prependText content others ↔ parts = others := by
  -- Only an empty text could vanish in the one before it.
  have vanishes {behind : String} : content = content ++ behind ↔ behind = "" := by
    rw [eq_comm, String.append_eq_left_iff]
  refine ⟨fun same => ?_, congrArg _⟩
  cases parts with
  | nil =>
      cases others with
      | nil => rfl
      | cons part rest => cases part <;> simp_all [prependText]
  | cons part rest =>
      cases others with
      | nil => cases part <;> simp_all [prependText]
      | cons part' rest' => cases part <;> cases part' <;> simp_all [prependText]

theorem reduced_cons_text_inj (content : String) {parts others : List MessagePart} :
    reduced (.text content :: parts) = reduced (.text content :: others) ↔
      reduced parts = reduced others := by
  by_cases nothing : content = ""
  · simp [reduced, nothing]
  · have first (parts : List MessagePart) :
        reduced (.text content :: parts) = prependText content (reduced parts) := by
      simp [reduced, joined, nothing]
    rw [first, first]
    exact prependText_inj (empty_notMem_reduced parts) (empty_notMem_reduced others)

/-! ### What is displayed -/

theorem display_add (m : Message) (part : MessagePart) :
    (m.add part).display = m.display ++ part.display := by
  cases part with
  | text content => exact display_text m content
  | valueOf select => exact display_valueOf m select

theorem display_ofParts (calls : List MessagePart) :
    (ofParts calls).display = String.join (calls.map MessagePart.display) := by
  induction calls using List.reverseRecOn with
  | nil => rfl
  | append_singleton calls part ih =>
      rw [ofParts_concat, display_add, ih]
      simp

theorem valueOf_mem_reduced_iff {select : String} :
    .valueOf select ∈ reduced parts ↔ .valueOf select ∈ parts := by
  have in_front (content : String) (parts : List MessagePart) :
      .valueOf select ∈ prependText content parts ↔ .valueOf select ∈ parts := by
    cases parts with
    | nil => simp [prependText]
    | cons part rest => cases part <;> simp [prependText]
  have kept (parts : List MessagePart) :
      .valueOf select ∈ joined parts ↔ .valueOf select ∈ parts := by
    induction parts with
    | nil => rfl
    | cons part rest ih =>
        cases part with
        | text content => rw [joined, in_front, ih]; simp
        | valueOf other => rw [joined, List.mem_cons, List.mem_cons, ih]
  rw [reduced, kept]
  simp

theorem hasValueOf_iff : m.hasValueOf = true ↔ ∃ select, .valueOf select ∈ m.parts := by
  rw [hasValueOf, List.any_eq_true]
  constructor
  · rintro ⟨part, member, value⟩
    cases part with
    | text content => cases value
    | valueOf select => exact ⟨select, member⟩
  · rintro ⟨select, member⟩
    exact ⟨_, member, rfl⟩

/-! ### The normal form -/

/-- A message that starts with a text and is continued by texts and values is in normal form. All
of them are displayed, one behind the other and the values in braces, and it has a value exactly if
one was added, even one with an empty path. Two messages are the same exactly if their parts are,
once the empty texts are left out and adjacent texts are one; where both start with the same text
it is enough to look at what was added. -/
theorem calls_normal_form (start : String) (calls : List MessagePart) :
    (calls.foldl add (ofString start)).Normal ∧
      (calls.foldl add (ofString start)).display =
        start ++ String.join (calls.map fun
          | .text content => content
          | .valueOf select => "\x7b" ++ select ++ "\x7d") ∧
      ((calls.foldl add (ofString start)).hasValueOf = true ↔ ∃ select, .valueOf select ∈ calls) ∧
      (∀ start' calls', calls.foldl add (ofString start) = calls'.foldl add (ofString start') ↔
        reduced (.text start :: calls) = reduced (.text start' :: calls')) ∧
      ∀ calls', calls.foldl add (ofString start) = calls'.foldl add (ofString start) ↔
        reduced calls = reduced calls' := by
  have given (start : String) (calls : List MessagePart) :
      calls.foldl add (ofString start) = ofParts (.text start :: calls) := rfl
  refine ⟨?_, ?_, ?_, ?_, ?_⟩
  · exact Built.normal ⟨_, given start calls⟩
  · rw [given, display_ofParts, List.map_cons, String.join_cons]
    refine congrArg (start ++ String.join ·) (List.map_congr_left fun part _ => ?_)
    cases part <;> rfl
  · rw [given, hasValueOf_iff, parts_ofParts]
    simp only [valueOf_mem_reduced_iff, List.mem_cons, reduceCtorEq, false_or]
  · intro start' calls'
    rw [given, given, ofParts_eq_iff]
  · intro calls'
    rw [given, given, ofParts_eq_iff, reduced_cons_text_inj]

/-- An empty text adds nothing, but the value of an empty path does. -/
theorem calls_normal_form_empty :
    let m := [.text "", .text "b", .valueOf "", .text "", .valueOf "x", .text "c", .text "d"].foldl
      add (ofString "a")
    m.parts = [.text "ab", .valueOf "", .valueOf "x", .text "cd"] ∧
      m.display = "ab\x7b\x7d\x7bx\x7dcd" ∧ m.hasValueOf = true ∧
      m = [.valueOf "", .valueOf "x", .text "cd"].foldl add (ofString "ab") ∧
      m ≠ [.text "b", .valueOf "x", .text "cd"].foldl add (ofString "a") := by
  intro m
  obtain ⟨-, displayed, value, same_iff, same_start_iff⟩ := calls_normal_form "a"
    [.text "", .text "b", .valueOf "", .text "", .valueOf "x", .text "c", .text "d"]
  refine ⟨by decide, ?_, value.mpr ⟨"", by decide⟩, (same_iff _ _).mpr (by decide), ?_⟩
  · rw [displayed]
    decide
  · exact fun same => absurd ((same_start_iff _).mp same) (by decide)

end Message

end Schematron
