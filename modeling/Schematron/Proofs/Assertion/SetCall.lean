import Schematron.Proofs.Assertion.SetTest
import Schematron.Proofs.Markup.Grammar

/-!
# The tokens of set tests

`lexemes?` cuts a text into tokens as XPath 1.0 does. Each token is as long as it can
be, spaces stand between tokens only, and a literal ends at the next quote of the kind
that opens it. There is no way to write that quote in the literal: a backslash is a
character like any other.

The test of a set is meant to be a call of `contains` with one literal. It has the
tokens of such a call exactly if no value of the set holds a single quote, and then the
values stand in the literal as they are. A value with a quote ends the literal early.
`scan_test_iff` counts quotes to see that nothing behind that quote mends the call:
the tokens of the call have six of them, and the test has more.
-/

namespace Schematron

namespace XPath

open Grammar

inductive Lexeme where
  /-- A literal with what stands between its quotes. -/
  | literal (content : String)
  /-- Another token with its spelling. -/
  | other (spelling : String)
  deriving DecidableEq, Repr

/-- What has been read of a token. -/
inductive Begun where
  | nothing
  | literal (mark : Char) (content : List Char)
  | other (spelling : List Char)
  deriving DecidableEq, Repr

def isQuote (c : Char) : Bool := c = '\'' || c = '"'

/-- The tokens of two signs. -/
def doubled : List (List Char) := [['/', '/'], [':', ':'], ['!', '='], ['<', '='], ['>', '=']]

/-- Whether a token other than a literal goes on with a character. Names and numbers go on, and a
sign goes on if it is the first one of two. The parts of a name with a colon are told one by one. -/
def goesOn : List Char → Char → Bool
  | [], _ => false
  | first :: rest, c =>
    if isNameStart first then isNameChar c
    else if first.isDigit then c.isDigit || (c = '.' && !rest.contains '.')
    else if first = '.' then (c.isDigit && !rest.contains '.') || (c = '.' && rest.isEmpty)
    else doubled.contains (first :: (rest ++ [c]))

namespace Begun

/-- What a character begins. -/
def first (c : Char) : Begun :=
  if isSpace c then nothing else if isQuote c then literal c [] else other [c]

/-- The tokens of a text behind what has been read of the first one. An open literal has to be
closed. -/
def scan : Begun → List Char → Option (List Lexeme)
  | nothing, [] => some []
  | literal _ _, [] => none
  | other spelling, [] => some [.other (String.ofList spelling)]
  | nothing, c :: rest => scan (first c) rest
  | literal mark content, c :: rest =>
    if c = mark then (scan nothing rest).map (.literal (String.ofList content) :: ·)
    else scan (literal mark (content ++ [c])) rest
  | other spelling, c :: rest =>
    if goesOn spelling c then scan (other (spelling ++ [c])) rest
    else (scan (first c) rest).map (.other (String.ofList spelling) :: ·)

theorem scan_nothing_cons (c : Char) (rest : List Char) :
    nothing.scan (c :: rest) = (first c).scan rest := rfl

theorem scan_literal_cons (mark : Char) (content : List Char) (c : Char) (rest : List Char) :
    (literal mark content).scan (c :: rest) =
      if c = mark then (nothing.scan rest).map (.literal (String.ofList content) :: ·)
      else (literal mark (content ++ [c])).scan rest := rfl

theorem scan_other_cons (spelling : List Char) (c : Char) (rest : List Char) :
    (other spelling).scan (c :: rest) =
      if goesOn spelling c then (other (spelling ++ [c])).scan rest
      else ((first c).scan rest).map (.other (String.ofList spelling) :: ·) := rfl

end Begun

def lexemes? (text : String) : Option (List Lexeme) := Begun.nothing.scan text.toList

def Unquoted (text : List Char) : Prop := ∀ c ∈ text, isQuote c = false

instance : DecidablePred Unquoted := fun text => List.decidableBAll _ text

open Begun

variable {text first second : List Char} {ls ls' : List Lexeme} {begun : Begun}

/-! ### Reading a text in parts -/

theorem goesOn_eq_false {c : Char} (separate : c ∈ [',', '(', ')', '\'', '"'])
    (spelling : List Char) : goesOn spelling c = false := by
  have apart : isNameChar c = false ∧ c.isDigit = false ∧ c ≠ '.' ∧ c ≠ '/' ∧ c ≠ ':' ∧
      c ≠ '=' := by
    simp only [List.mem_cons, List.not_mem_nil, or_false] at separate
    rcases separate with rfl | rfl | rfl | rfl | rfl <;> decide
  obtain ⟨no_name, no_digit, no_dot, no_slash, no_colon, no_equal⟩ := apart
  cases spelling with
  | nil => rfl
  | cons first rest =>
      have second (d : Char) (differ : c ≠ d) : rest ++ [c] ≠ [d] := by
        intro same
        exact differ (by simpa using congrArg List.getLast? same)
      simp [goesOn, doubled, *]

theorem goesOn_single {c : Char} (alone : c ∈ [',', '(', ')']) (next : Char) :
    goesOn [c] next = false := by
  have apart : isNameStart c = false ∧ c.isDigit = false ∧ c ≠ '.' ∧ c ≠ '/' ∧ c ≠ ':' ∧ c ≠ '!' ∧
      c ≠ '<' ∧ c ≠ '>' := by
    simp only [List.mem_cons, List.not_mem_nil, or_false] at alone
    rcases alone with rfl | rfl | rfl <;> decide
  obtain ⟨no_name, no_digit, no_dot, no_slash, no_colon, no_mark, no_less, no_greater⟩ := apart
  simp [goesOn, doubled, *]

/-- A text without quotes has tokens, none of them a literal, and it is read alone if the character
behind it belongs to none of them. -/
theorem scan_unquoted {c : Char} (separate : c ∈ [',', '(', ')', '\'', '"'])
    (unquoted : Unquoted text) (outside : ∀ mark content, begun ≠ .literal mark content) :
    ∃ spellings : List String, begun.scan text = some (spellings.map .other) ∧
      ∀ rest, begun.scan (text ++ c :: rest) =
        (nothing.scan (c :: rest)).map (spellings.map .other ++ ·) := by
  induction text generalizing begun with
  | nil =>
      cases begun with
      | nothing => exact ⟨[], rfl, fun rest => by simp⟩
      | literal mark content => exact absurd rfl (outside mark content)
      | other spelling =>
          refine ⟨[String.ofList spelling], rfl, fun rest => ?_⟩
          rw [List.nil_append, scan_other_cons, goesOn_eq_false separate,
            if_neg Bool.false_ne_true]
          rfl
  | cons d text ih =>
      obtain ⟨plain, unquoted⟩ := List.forall_mem_cons.mp unquoted
      have outside_first : ∀ mark content, Begun.first d ≠ .literal mark content := by
        intro mark content
        rw [Begun.first, plain]
        split <;> simp
      cases begun with
      | nothing => exact ih unquoted outside_first
      | literal mark content => exact absurd rfl (outside mark content)
      | other spelling =>
          by_cases more : goesOn spelling d = true
          · simp only [List.cons_append, scan_other_cons, if_pos more]
            exact ih unquoted (by simp)
          · obtain ⟨spellings, read, apart⟩ := ih unquoted outside_first
            refine ⟨String.ofList spelling :: spellings, ?_, fun rest => ?_⟩
            · rw [scan_other_cons, if_neg more, read]
              rfl
            · rw [List.cons_append, scan_other_cons, if_neg more, apart, Option.map_map]
              rfl

/-- A literal goes up to its mark. -/
theorem scan_literal {mark : Char} (clean : mark ∉ text) (content rest : List Char) :
    (literal mark content).scan (text ++ mark :: rest) =
      (nothing.scan rest).map (.literal (String.ofList (content ++ text)) :: ·) := by
  induction text generalizing content with
  | nil => simp [scan]
  | cons c text ih =>
      obtain ⟨differ, clean⟩ : mark ≠ c ∧ mark ∉ text := by simpa using clean
      rw [List.cons_append, scan_literal_cons, if_neg (Ne.symm differ), ih clean]
      simp

/-- The mark of a literal is not in it. -/
theorem exists_of_scan_literal {mark : Char} {content : List Char} (clean : mark ∉ content)
    (read : (literal mark content).scan text = some ls) :
    ∃ inside rest, ls = .literal inside :: rest ∧ mark ∉ inside.toList := by
  induction text generalizing content with
  | nil => cases read
  | cons c text ih =>
      rw [scan_literal_cons] at read
      split at read
      · obtain ⟨rest, -, rfl⟩ := Option.map_eq_some_iff.mp read
        exact ⟨_, rest, rfl, by simpa using clean⟩
      · next differ => exact ih (by simp [clean, Ne.symm differ]) read

/-- The tokens of a text come first, whatever stands behind it. -/
def LexesAs (text : List Char) (ls : List Lexeme) : Prop :=
  ∀ rest, nothing.scan (text ++ rest) = (nothing.scan rest).map (ls ++ ·)

namespace LexesAs

theorem nil : LexesAs [] [] := fun rest => by simp

theorem append (reads : LexesAs first ls) (reads' : LexesAs second ls') :
    LexesAs (first ++ second) (ls ++ ls') := by
  intro rest
  rw [List.append_assoc, reads, reads', Option.map_map]
  simp [Function.comp_def]

theorem lexemes (reads : LexesAs text ls) : nothing.scan text = some ls := by
  simpa [scan] using reads []

theorem space : LexesAs [' '] [] := fun rest => by simp [scan, Begun.first, isSpace]

theorem literal (content : String) (clean : '\'' ∉ content.toList) :
    LexesAs ('\'' :: (content.toList ++ ['\''])) [.literal content] := by
  intro rest
  have opened : Begun.first '\'' = .literal '\'' [] := by decide
  rw [List.cons_append, scan_nothing_cons, opened, List.append_assoc, List.singleton_append,
    scan_literal clean]
  simp

/-- A parenthesis or a comma ends what stands before it. -/
theorem ended (text : List Char) {c : Char} (alone : c ∈ [',', '(', ')']) (unquoted : Unquoted text)
    (read : nothing.scan text = some ls) :
    LexesAs (text ++ [c]) (ls ++ [.other (String.ofList [c])]) := by
  have separate : c ∈ [',', '(', ')', '\'', '"'] := List.mem_append_left ['\'', '"'] alone
  have begins : Begun.first c = .other [c] := by
    simp only [List.mem_cons, List.not_mem_nil, or_false] at alone
    rcases alone with rfl | rfl | rfl <;> decide
  obtain ⟨spellings, same, apart⟩ := @scan_unquoted text nothing c separate unquoted (by simp)
  obtain rfl := Option.some.inj (read.symm.trans same)
  have single (rest : List Char) : (Begun.other [c]).scan rest =
      (nothing.scan rest).map (.other (String.ofList [c]) :: ·) := by
    cases rest with
    | nil => rfl
    | cons d rest =>
        rw [scan_other_cons, goesOn_single alone, if_neg Bool.false_ne_true, scan_nothing_cons]
  intro rest
  rw [List.append_assoc, List.singleton_append, apart, scan_nothing_cons,
    begins, single, Option.map_map]
  simp [Function.comp_def]

theorem sign {c : Char} (alone : c ∈ [',', '(', ')']) : LexesAs [c] [.other (String.ofList [c])] :=
  ended [] alone nofun rfl

end LexesAs

/-! ### Counting quotes -/

/-- The number of single quotes that a token can take from a text. -/
def Lexeme.quotes : Lexeme → Nat
  | .literal content => content.toList.count '\'' + 2
  | .other _ => 0

def quotesAll : List Lexeme → Nat
  | [] => 0
  | lexeme :: rest => lexeme.quotes + quotesAll rest

theorem quotesAll_append (first second : List Lexeme) :
    quotesAll (first ++ second) = quotesAll first + quotesAll second := by
  induction first with
  | nil => simp [quotesAll]
  | cons lexeme rest ih => simp [quotesAll, ih, Nat.add_assoc]

theorem quotesAll_others (spellings : List String) : quotesAll (spellings.map .other) = 0 := by
  induction spellings with
  | nil => rfl
  | cons spelling rest ih => simp [quotesAll, Lexeme.quotes, ih]

def Begun.quotes : Begun → Nat
  | .literal _ content => content.count '\'' + 1
  | _ => 0

/-- Every single quote of a text stands in a literal or at its ends. -/
theorem count_le_quotes (read : begun.scan text = some ls) :
    text.count '\'' + begun.quotes ≤ quotesAll ls := by
  have begins (c : Char) (rest : List Char) :
      (c :: rest).count '\'' ≤ rest.count '\'' + (Begun.first c).quotes := by
    by_cases quote : c = '\''
    · subst quote
      simp [Begun.first, isSpace, isQuote, Begun.quotes]
    · simp [quote]
  induction text generalizing begun ls with
  | nil =>
      cases begun with
      | nothing => simp [Begun.quotes]
      | literal mark content => cases read
      | other spelling => simp [Begun.quotes]
  | cons c text ih =>
      cases begun with
      | nothing => exact (begins c text).trans (ih read)
      | literal mark content =>
          rw [scan_literal_cons] at read
          split at read
          · obtain ⟨later, after, rfl⟩ := Option.map_eq_some_iff.mp read
            have behind := ih after
            have closing : (c :: text).count '\'' ≤ text.count '\'' + 1 := by
              rw [List.count_cons]
              split <;> omega
            simp only [Begun.quotes, quotesAll, Lexeme.quotes, String.toList_ofList] at behind ⊢
            omega
          · have behind := ih read
            simp only [Begun.quotes, List.count_append, List.count_singleton] at behind
            simp only [Begun.quotes, List.count_cons]
            omega
      | other spelling =>
          rw [scan_other_cons] at read
          split at read
          · next more =>
              have plain : c ≠ '\'' := by
                rintro rfl
                rw [goesOn_eq_false (by decide)] at more
                cases more
              have behind := ih read
              rw [List.count_cons_of_ne plain]
              exact behind
          · obtain ⟨later, after, rfl⟩ := Option.map_eq_some_iff.mp read
            have behind := (begins c text).trans (ih after)
            simpa [Begun.quotes, quotesAll, Lexeme.quotes] using behind

/-! ### The test of a set -/

/-- The tokens of a search for the value of a context in a literal. -/
def containment (literal : String) (inner : List Lexeme) : List Lexeme :=
  [.other "contains", .other "(", .literal literal, .other ",", .other "concat", .other "(",
    .literal "_", .other ","] ++ inner ++ [.other ",", .literal "_", .other ")", .other ")"]

def negation (ls : List Lexeme) : List Lexeme :=
  [.other "not", .other "("] ++ ls ++ [.other ")"]

end XPath

namespace ValueSet

variable {s : ValueSet}

/-- No value holds a single quote. -/
def Unmarked (s : ValueSet) : Prop := ∀ value ∈ s.values, '\'' ∉ value.toList

theorem mem_delimited_iff (value : String) :
    '\'' ∈ (delimited (backslashed '\'' value)).toList ↔ '\'' ∈ value.toList := by
  simp only [toList_delimited, backslashed, String.toList_ofList, List.mem_cons, List.mem_append,
    List.mem_flatMap]
  constructor
  · rintro (impossible | ⟨c, member, inside⟩ | impossible)
    · cases impossible
    · split at inside
      · next quote => exact quote ▸ member
      · rwa [List.mem_singleton.mp inside]
    · simp at impossible
  · intro member
    exact .inr (.inl ⟨_, member, by simp⟩)

theorem notMem_literal_iff : '\'' ∉ s.literal.toList ↔ s.Unmarked := by
  rw [Unmarked]
  obtain ⟨values⟩ := s
  induction values with
  | nil => simp [literal]
  | cons value rest ih =>
      cases rest with
      | nil => simp [literal, mem_delimited_iff]
      | cons next rest =>
          rw [literal_cons_cons, List.forall_mem_cons, ← ih]
          simp [mem_delimited_iff]

/-- A listed value without quotes stands between two delimiters in the literal. -/
theorem delimited_infix_literal {value : String} (listed : value ∈ s.values)
    (clean : '\'' ∉ value.toList) : (delimited value).toList <:+: s.literal.toList := by
  have same : backslashed '\'' value = value :=
    String.toList_inj.mp (toList_backslashed_of_notMem clean)
  obtain ⟨values⟩ := s
  induction values with
  | nil => cases listed
  | cons first rest ih =>
      cases rest with
      | nil =>
          obtain rfl := List.mem_singleton.mp listed
          simp [literal, same]
      | cons next rest =>
          rw [literal_cons_cons, String.toList_append, String.toList_append, List.append_assoc]
          rcases List.mem_cons.mp listed with rfl | later
          · rw [same]
            exact (List.prefix_append _ _).isInfix
          · exact (ih later).trans (((List.suffix_append _ _).trans
              (List.suffix_append _ _)).isInfix)

end ValueSet

namespace XPath

open ValueSet Begun

variable {s : ValueSet} {context : String} {inner before after : List Lexeme}

/-- The tokens of a text without quotes take no quotes. -/
theorem exists_lexemes (unquoted : Unquoted context.toList) :
    ∃ inner, lexemes? context = some inner ∧ quotesAll inner = 0 := by
  obtain ⟨spellings, read, -⟩ := @scan_unquoted _ .nothing ',' (by decide) unquoted (by simp)
  exact ⟨_, read, quotesAll_others spellings⟩

theorem reads_opening : LexesAs "contains(".toList [.other "contains", .other "("] :=
  LexesAs.ended "contains".toList (by decide) (by decide) rfl

/-- With a literal that its values do not end, the test of a set is a call. -/
theorem reads_test (unquoted : Unquoted context.toList) (read : lexemes? context = some inner)
    (unmarked : s.Unmarked) : LexesAs (s.test context).toList (containment s.literal inner) := by
  have comma : LexesAs [','] [.other ","] := LexesAs.sign (by decide)
  have closing : LexesAs [')'] [.other ")"] := LexesAs.sign (by decide)
  have pairing : LexesAs " concat(".toList [.other "concat", .other "("] :=
    LexesAs.ended " concat".toList (by decide) (by decide) rfl
  have delimiter : LexesAs "'_'".toList [.literal "_"] := LexesAs.literal "_" (by decide)
  have value : LexesAs (context.toList ++ [',']) (inner ++ [.other ","]) :=
    LexesAs.ended _ (by decide) unquoted read
  have content := LexesAs.literal _ (notMem_literal_iff.mpr unmarked)
  have all := reads_opening.append <| content.append <| comma.append <| pairing.append <|
    delimiter.append <| comma.append <| LexesAs.space.append <| value.append <|
    LexesAs.space.append <| delimiter.append <| closing.append closing
  simpa [test, containment] using all

/-- The test of a set in a text, between parts that hold no literals, has the tokens of a call
exactly if no value has a quote. -/
theorem scan_test_iff {front ending : List Char} (unquoted : Unquoted context.toList)
    (read : lexemes? context = some inner) (plain_inner : quotesAll inner = 0)
    (reads_front : LexesAs front before) (plain_before : quotesAll before = 0)
    (reads_ending : LexesAs ending after) (plain_after : quotesAll after = 0)
    (content : String) :
    nothing.scan (front ++ (s.test context).toList ++ ending) =
        some (before ++ containment content inner ++ after) ↔
      s.Unmarked ∧ content = s.literal := by
  have call (unmarked : s.Unmarked) :=
    ((reads_front.append (reads_test unquoted read unmarked)).append reads_ending).lexemes
  constructor
  · intro same
    -- The literal of the call is the one that the first quote opens, so it holds no quote.
    have clean : '\'' ∉ content.toList := by
      have opened : front ++ (s.test context).toList ++ ending = front ++ "contains(".toList ++
          '\'' :: (s.literal.toList ++
            ("', concat('_', " ++ context ++ ", '_'))").toList ++ ending) := by
        simp [test]
      rw [opened, reads_front.append reads_opening] at same
      obtain ⟨later, scanned, split⟩ := Option.map_eq_some_iff.mp same
      obtain ⟨inside, more, rfl, clean⟩ := exists_of_scan_literal (by simp) scanned
      have literals : inside = content := by
        simp only [containment, List.append_assoc, List.append_cancel_left_eq,
          List.cons_append, List.nil_append, List.cons.injEq, Lexeme.literal.injEq] at split
        exact split.2.2.1
      rwa [← literals]
    have unmarked : s.Unmarked := by
      have taken : quotesAll (before ++ containment content inner ++ after) = 6 := by
        simp [containment, quotesAll, quotesAll_append, Lexeme.quotes, plain_before, plain_inner,
          plain_after, List.count_eq_zero.mpr clean]
      have present : s.literal.toList.count '\'' + 6 ≤
          (front ++ (s.test context).toList ++ ending).count '\'' := by
        simp [test]
        omega
      have counted : (front ++ (s.test context).toList ++ ending).count '\'' ≤ 6 :=
        taken ▸ count_le_quotes same
      rw [← notMem_literal_iff, ← List.count_eq_zero]
      omega
    refine ⟨unmarked, ?_⟩
    have literals := Option.some.inj (same.symm.trans (call unmarked))
    simpa [containment] using literals
  · rintro ⟨unmarked, rfl⟩
    exact call unmarked

/-- The exact extent of the tests of a set. They have the tokens of a search in one literal, and of
its negation, exactly if no value holds a single quote, and the literal is that of the set. A value
without quotes stands in the literal as it is, whatever else is listed. With no other values each
of them is matched: the test that asks for a value of the set holds, and the test that forbids the
values does not. -/
theorem set_tests_are_calls_iff (unquoted : Unquoted context.toList) (s : ValueSet) :
    ∃ inner, lexemes? context = some inner ∧
    (∃ a, Assertion.ofKind? context (.setInclusion s) = some a ∧
      (∀ content, lexemes? a.test = some (containment content inner) ↔
        s.Unmarked ∧ content = s.literal) ∧
      (s.Unmarked → ∀ value ∈ s.values, SetTest.holds? context a.test value = some true)) ∧
    (∃ a, Assertion.ofKind? context (.setExclusion s) = some a ∧
      (∀ content, lexemes? a.test = some (negation (containment content inner)) ↔
        s.Unmarked ∧ content = s.literal) ∧
      (s.Unmarked → ∀ value ∈ s.values, SetTest.holds? context a.test value = some false)) ∧
    ∀ value ∈ s.values, '\'' ∉ value.toList →
      ∃ before behind, s.literal = before ++ delimited value ++ behind := by
  obtain ⟨inner, read, plain⟩ := exists_lexemes unquoted
  have refusing : LexesAs "not(".toList [.other "not", .other "("] :=
    LexesAs.ended "not".toList (by decide) (by decide) rfl
  have closing : LexesAs [')'] [.other ")"] := LexesAs.sign (by decide)
  have found (unmarked : s.Unmarked) (value : String) (listed : value ∈ s.values) :
      s.finds value = true :=
    occursIn_iff.mpr (delimited_infix_literal listed (unmarked value listed))
  refine ⟨inner, read, ⟨_, rfl, fun content => ?_, fun unmarked value listed => ?_⟩,
    ⟨_, rfl, fun content => ?_, fun unmarked value listed => ?_⟩, fun value listed clean => ?_⟩
  · have extent := scan_test_iff (s := s) unquoted read plain .nil rfl .nil rfl content
    simpa [lexemes?] using extent
  · have clean := notMem_literal_iff.mpr unmarked
    exact (SetTest.holds?_of_notMem clean context value).trans
      (congrArg some (found unmarked value listed))
  · have extent := scan_test_iff (s := s) unquoted read plain refusing rfl closing rfl content
    simpa [lexemes?, negation] using extent
  · have clean := notMem_literal_iff.mpr unmarked
    exact (SetTest.holds?_not_of_notMem clean context value).trans
      (congrArg (fun matched => some !matched) (found unmarked value listed))
  · exact exists_eq_append_iff.mpr (delimited_infix_literal listed clean)

/-- Values with a space, a backslash and a double quote, and a context of several tokens. -/
theorem set_tests_are_calls_iff_quoting : Unquoted "../@unit | p:b".toList ∧
    lexemes? "not(contains('_a b_ _\\_ _\"_', concat('_', ../@unit | p:b, '_')))" =
      some (negation (containment "_a b_ _\\_ _\"_" [.other "..", .other "/", .other "@",
        .other "unit", .other "|", .other "p", .other ":", .other "b"])) ∧
    SetTest.holds? "../@unit | p:b"
      "not(contains('_a b_ _\\_ _\"_', concat('_', ../@unit | p:b, '_')))" "\"" = some false := by
  have unquoted : Unquoted "../@unit | p:b".toList := by decide
  have unmarked : (ValueSet.mk ["a b", "\\", "\""]).Unmarked := by simp [Unmarked]
  obtain ⟨inner, read, -, ⟨a, asserted, extent, matched⟩, -⟩ :=
    set_tests_are_calls_iff unquoted ⟨["a b", "\\", "\""]⟩
  have tokens : inner = _ := Option.some.inj (read.symm.trans rfl)
  have test : a.test = _ := congrArg Assertion.test (Option.some.inj asserted.symm)
  have call := (extent "_a b_ _\\_ _\"_").mpr ⟨unmarked, by decide⟩
  have refused := matched unmarked "\"" (by simp)
  rw [test, tokens] at call
  rw [test] at refused
  exact ⟨unquoted, call, refused⟩

/-- A backslash does not keep a quote in the literal. The test of one value with an apostrophe has
no tokens at all, since its last quote opens a literal that nothing closes. -/
theorem not_all_tests_are_calls :
    ¬ ∀ (s : ValueSet) (context : String), Unquoted context.toList →
      ∃ a inner content, Assertion.ofKind? context (.setInclusion s) = some a ∧
        lexemes? context = some inner ∧
        lexemes? a.test = some (containment content inner) := by
  intro calls
  obtain ⟨a, inner, content, asserted, -, tokens⟩ := calls ⟨["it's"]⟩ "text()" (by decide)
  have nothing : a.test = "contains('_it\\'s_', concat('_', text(), '_'))" :=
    congrArg Assertion.test (Option.some.inj asserted.symm)
  have none_read : lexemes? "contains('_it\\'s_', concat('_', text(), '_'))" = none := by decide
  rw [nothing, none_read] at tokens
  cases tokens

end XPath

end Schematron
