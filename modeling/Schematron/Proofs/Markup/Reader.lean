import Mathlib.Data.List.Chain
import Schematron.Markup.Token

/-!
# Reading tokens back

A reader for the markup that is written here. It cuts the text at every `<` and
`>`, reads names, keys and quoted values between them, and decodes the five
references to characters. Blanks are kept as they are, and whatever does not fit
is refused.

`tokenize_markup` says that tokens are read back exactly, if texts are not empty
and not adjacent and if names and keys are legible. The values and the texts may be
any strings: what the reader cuts at does not occur in them once they are escaped.
-/

namespace Schematron

namespace Reader

/-- The characters that some written characters stand for. A `&` that begins none of the five
references is refused. -/
def unescape : List Char → Option (List Char)
  | '&' :: 'l' :: 't' :: ';' :: rest => (unescape rest).map ('<' :: ·)
  | '&' :: 'g' :: 't' :: ';' :: rest => (unescape rest).map ('>' :: ·)
  | '&' :: 'a' :: 'm' :: 'p' :: ';' :: rest => (unescape rest).map ('&' :: ·)
  | '&' :: 'a' :: 'p' :: 'o' :: 's' :: ';' :: rest => (unescape rest).map ('\'' :: ·)
  | '&' :: 'q' :: 'u' :: 'o' :: 't' :: ';' :: rest => (unescape rest).map ('"' :: ·)
  | '&' :: _ => none
  | c :: rest => (unescape rest).map (c :: ·)
  | [] => some []

/-- Where the reader stands among the attributes of a tag. -/
inductive Place where
  /-- Before the space of an attribute, or at the end. -/
  | between
  | inKey (before : List Char)
  /-- Behind the equals sign of a key. -/
  | atQuote (key : List Char)
  | inValue (key before : List Char)

/-- The attributes of a tag, from a place on. -/
def attributes? : Place → List Char → Option (List Attribute)
  | .between, [] => some []
  | .between, c :: rest => if c = ' ' then attributes? (.inKey []) rest else none
  | .inKey before, c :: rest =>
    if c = '=' then attributes? (.atQuote before) rest else attributes? (.inKey (before ++ [c])) rest
  | .atQuote key, c :: rest => if c = '"' then attributes? (.inValue key []) rest else none
  | .inValue key before, c :: rest =>
    if c = '"' then
      (unescape before).bind fun value =>
        (attributes? .between rest).map ((String.ofList key, String.ofList value) :: ·)
    else attributes? (.inValue key (before ++ [c])) rest
  | _, [] => none

/-- The tag that stands between its brackets. -/
def tag? (content : List Char) : Option Tag :=
  (attributes? .between (content.dropWhile (· ≠ ' '))).map fun attributes =>
    ⟨String.ofList (content.takeWhile (· ≠ ' ')), attributes⟩

/-- The token between two brackets, told apart by the slashes at its ends. -/
def bracketed? (content : List Char) : Option Token :=
  if content.head? = some '/' then some (.endTag (String.ofList content.tail))
  else if content.getLast? = some '/' then (tag? content.dropLast).map Token.emptyTag
  else (tag? content).map Token.startTag

/-- The text between two tags; nothing at all is no text. -/
def text? (content : List Char) : Option (List Token) :=
  if content = [] then some []
  else (unescape content).map fun text => [.text (String.ofList text)]

/-- The tokens of a text, from outside of all brackets on or from inside of a pair, with what was
read since the last bracket. -/
def scan : Bool → List Char → List Char → Option (List Token)
  | false, before, [] => text? before
  | true, _, [] => none
  | false, before, c :: rest =>
    if c = '<' then (text? before).bind fun token => (scan true [] rest).map (token ++ ·)
    else if c = '>' then none
    else scan false (before ++ [c]) rest
  | true, before, c :: rest =>
    if c = '>' then (bracketed? before).bind fun token => (scan false [] rest).map (token :: ·)
    else if c = '<' then none
    else scan true (before ++ [c]) rest

def tokenize (text : String) : Option (List Token) := scan false [] text.toList

/-! ### Characters -/

theorem unescape_escapeTextChar (c : Char) (rest : List Char) :
    unescape (Markup.escapeTextChar c ++ rest) = (unescape rest).map (c :: ·) := by
  rw [Markup.escapeTextChar]
  split
  · next same => rw [same]; rfl
  · split
    · next same => rw [same]; rfl
    · split
      · next same => rw [same]; rfl
      · next other =>
        rw [List.singleton_append]
        conv_lhs => unfold unescape
        split <;> simp_all

theorem unescape_escapeValueChar (c : Char) (rest : List Char) :
    unescape (Markup.escapeValueChar c ++ rest) = (unescape rest).map (c :: ·) := by
  rw [Markup.escapeValueChar]
  split
  · next same => rw [same]; rfl
  · split
    · next same => rw [same]; rfl
    · exact unescape_escapeTextChar c rest

/-- A text is decoded to what was escaped. -/
theorem unescape_escapeText (s : String) : unescape (Markup.escapeText s).toList = some s.toList := by
  rw [Markup.escapeText, String.toList_ofList]
  induction s.toList with
  | nil => rfl
  | cons c rest ih => rw [List.flatMap_cons, unescape_escapeTextChar, ih]; rfl

theorem unescape_escapeValue (s : String) :
    unescape (Markup.escapeValue s).toList = some s.toList := by
  rw [Markup.escapeValue, String.toList_ofList]
  induction s.toList with
  | nil => rfl
  | cons c rest ih => rw [List.flatMap_cons, unescape_escapeValueChar, ih]; rfl

/-- No bracket is left where a text is escaped. -/
theorem ne_bracket_of_mem_escapeTextChar {c original : Char}
    (member : c ∈ Markup.escapeTextChar original) : c ≠ '<' ∧ c ≠ '>' := by
  rw [Markup.escapeTextChar] at member
  split at member
  · simp only [List.mem_cons, List.not_mem_nil, or_false] at member
    rcases member with rfl | rfl | rfl | rfl <;> decide
  · next lt =>
    split at member
    · simp only [List.mem_cons, List.not_mem_nil, or_false] at member
      rcases member with rfl | rfl | rfl | rfl <;> decide
    · next gt =>
      split at member
      · simp only [List.mem_cons, List.not_mem_nil, or_false] at member
        rcases member with rfl | rfl | rfl | rfl | rfl <;> decide
      · rw [List.mem_singleton.mp member]
        exact ⟨lt, gt⟩

/-- Neither a bracket nor a double quote is left where a value is escaped. -/
theorem ne_quote_of_mem_escapeValueChar {c original : Char}
    (member : c ∈ Markup.escapeValueChar original) : (c ≠ '<' ∧ c ≠ '>') ∧ c ≠ '"' := by
  rw [Markup.escapeValueChar] at member
  split at member
  · simp only [List.mem_cons, List.not_mem_nil, or_false] at member
    rcases member with rfl | rfl | rfl | rfl | rfl | rfl <;> decide
  · split at member
    · simp only [List.mem_cons, List.not_mem_nil, or_false] at member
      rcases member with rfl | rfl | rfl | rfl | rfl | rfl <;> decide
    · next quote =>
      refine ⟨ne_bracket_of_mem_escapeTextChar member, ?_⟩
      rintro rfl
      rw [Markup.escapeTextChar] at member
      split at member
      · revert member
        decide
      · split at member
        · revert member
          decide
        · split at member
          · revert member
            decide
          · exact quote (List.mem_singleton.mp member).symm

theorem mem_escapeText {s : String} {c : Char} (member : c ∈ (Markup.escapeText s).toList) :
    c ≠ '<' ∧ c ≠ '>' := by
  rw [Markup.escapeText, String.toList_ofList] at member
  obtain ⟨original, -, inside⟩ := List.mem_flatMap.mp member
  exact ne_bracket_of_mem_escapeTextChar inside

theorem mem_escapeValue {s : String} {c : Char} (member : c ∈ (Markup.escapeValue s).toList) :
    (c ≠ '<' ∧ c ≠ '>') ∧ c ≠ '"' := by
  rw [Markup.escapeValue, String.toList_ofList] at member
  obtain ⟨original, -, inside⟩ := List.mem_flatMap.mp member
  exact ne_quote_of_mem_escapeValueChar inside

/-- An escaped text is empty only if the text is. -/
theorem escapeText_ne_nil {s : String} (some_text : s ≠ "") : (Markup.escapeText s).toList ≠ [] := by
  intro nothing
  have decoded := unescape_escapeText s
  rw [nothing] at decoded
  exact some_text (String.toList_eq_nil_iff.mp (Option.some.inj decoded).symm)

/-! ### Attributes and tags -/

/-- The characters of names and keys. -/
def isLegibleChar (c : Char) : Bool := c.isAlphanum || c = ':' || c = '-'

/-- A name or a key that is read as it is written. -/
def LegibleName (name : String) : Prop := name ≠ "" ∧ ∀ c ∈ name.toList, isLegibleChar c = true

instance (name : String) : Decidable (LegibleName name) :=
  decidable_of_iff (name ≠ "" ∧ name.toList.all isLegibleChar = true)
    (by rw [LegibleName, List.all_eq_true])

theorem LegibleName.ne {name : String} (named : LegibleName name) {c mark : Char}
    (member : c ∈ name.toList) (other : isLegibleChar mark = false) : c ≠ mark := by
  rintro rfl
  rw [named.2 c member] at other
  cases other

def LegibleTag (tag : Tag) : Prop := LegibleName tag.name ∧ ∀ a ∈ tag.attributes, LegibleName a.1

theorem inKey_run {word before rest : List Char} (clean : ∀ c ∈ word, c ≠ '=') :
    attributes? (.inKey before) (word ++ rest) = attributes? (.inKey (before ++ word)) rest := by
  induction word generalizing before with
  | nil => simp
  | cons c word ih =>
      obtain ⟨first, later⟩ := List.forall_mem_cons.mp clean
      rw [List.cons_append, attributes?, if_neg first, ih later, List.append_assoc,
        List.singleton_append]

theorem inValue_run {key word before rest : List Char} (clean : ∀ c ∈ word, c ≠ '"') :
    attributes? (.inValue key before) (word ++ rest) =
      attributes? (.inValue key (before ++ word)) rest := by
  induction word generalizing before with
  | nil => simp
  | cons c word ih =>
      obtain ⟨first, later⟩ := List.forall_mem_cons.mp clean
      rw [List.cons_append, attributes?, if_neg first, ih later, List.append_assoc,
        List.singleton_append]

theorem toList_attribute (a : Attribute) : a.markup.toList =
    ' ' :: (a.1.toList ++ '=' :: '"' :: ((Markup.escapeValue a.2).toList ++ ['"'])) := by
  simp [Attribute.markup]

theorem attributes?_cons {a : Attribute} (named : LegibleName a.1) (rest : List Char) :
    attributes? .between (a.markup.toList ++ rest) = (attributes? .between rest).map (a :: ·) := by
  have key_clean : ∀ c ∈ a.1.toList, c ≠ '=' := fun c member => named.ne member (by decide)
  have value_clean : ∀ c ∈ (Markup.escapeValue a.2).toList, c ≠ '"' :=
    fun c member => (mem_escapeValue member).2
  rw [toList_attribute, List.cons_append, List.append_assoc, attributes?, if_pos rfl,
    inKey_run key_clean, List.cons_append, attributes?, if_pos rfl, List.cons_append, attributes?,
    if_pos rfl, List.append_assoc, inValue_run value_clean, List.singleton_append, attributes?,
    if_pos rfl, List.nil_append, List.nil_append, unescape_escapeValue]
  simp

/-- The attributes of a tag are read in their order. -/
theorem attributes?_markup {attributes : List Attribute}
    (named : ∀ a ∈ attributes, LegibleName a.1) :
    attributes? .between (attributes.flatMap fun a => a.markup.toList) = some attributes := by
  induction attributes with
  | nil => rfl
  | cons a rest ih =>
      obtain ⟨first, later⟩ := List.forall_mem_cons.mp named
      rw [List.flatMap_cons, attributes?_cons first, ih later]
      rfl

theorem toList_tag (tag : Tag) :
    tag.markup.toList = tag.name.toList ++ tag.attributes.flatMap fun a => a.markup.toList := by
  simp [Tag.markup, String.toList_join, List.flatMap_map]

/-- A tag is read from what stands between its brackets. -/
theorem tag?_markup {tag : Tag} (legible : LegibleTag tag) : tag? tag.markup.toList = some tag := by
  obtain ⟨named, keys⟩ := legible
  have name_clean : ∀ c ∈ tag.name.toList, decide (c ≠ ' ') = true := by
    intro c member
    rw [decide_eq_true_iff]
    exact named.ne member (by decide)
  have starts : ∀ attributes : List Attribute,
      (attributes.flatMap fun a => a.markup.toList).takeWhile (· ≠ ' ') = [] ∧
        (attributes.flatMap fun a => a.markup.toList).dropWhile (· ≠ ' ') =
          attributes.flatMap fun a => a.markup.toList := by
    intro attributes
    cases attributes with
    | nil => exact ⟨rfl, rfl⟩
    | cons a rest =>
        rw [List.flatMap_cons, toList_attribute]
        simp
  obtain ⟨no_name, all⟩ := starts tag.attributes
  rw [tag?, toList_tag, List.takeWhile_append_of_pos name_clean,
    List.dropWhile_append_of_pos name_clean, no_name, all, attributes?_markup keys]
  simp

/-- No bracket stands inside of a tag. -/
theorem mem_tag {tag : Tag} (legible : LegibleTag tag) {c : Char} (member : c ∈ tag.markup.toList) :
    c ≠ '<' ∧ c ≠ '>' := by
  have brackets {name : String} (named : LegibleName name) {c : Char} (member : c ∈ name.toList) :
      c ≠ '<' ∧ c ≠ '>' := ⟨named.ne member (by decide), named.ne member (by decide)⟩
  obtain ⟨named, keys⟩ := legible
  rw [toList_tag, List.mem_append, List.mem_flatMap] at member
  rcases member with inside | ⟨a, listed, inside⟩
  · exact brackets named inside
  · rw [toList_attribute, List.mem_cons, List.mem_append, List.mem_cons, List.mem_cons,
      List.mem_append, List.mem_singleton] at inside
    rcases inside with rfl | key | rfl | rfl | value | rfl
    · decide
    · exact brackets (keys a listed) key
    · decide
    · decide
    · exact (mem_escapeValue value).1
    · decide

/-- The content of a tag neither starts nor ends with a slash. -/
theorem tag_no_slash {tag : Tag} (legible : LegibleTag tag) :
    tag.markup.toList.head? ≠ some '/' ∧ tag.markup.toList.getLast? ≠ some '/' := by
  obtain ⟨named, -⟩ := legible
  have name_some : tag.name.toList ≠ [] := mt String.toList_eq_nil_iff.mp named.1
  rw [toList_tag]
  constructor
  · rw [List.head?_append_of_ne_nil _ name_some]
    intro slash
    exact named.ne (List.mem_of_mem_head? slash) (by decide) rfl
  · rcases List.eq_nil_or_concat tag.attributes with none_set | ⟨before, a, last⟩
    · rw [none_set, List.flatMap_nil, List.append_nil]
      intro slash
      exact named.ne (List.mem_of_getLast? slash) (by decide) rfl
    · rw [last, List.concat_eq_append, List.flatMap_append, List.flatMap_singleton,
        toList_attribute]
      simp [List.getLast?_append, List.getLast?_cons]

/-! ### Tokens -/

/-- A token that can be told from its neighbours. -/
def Legible : Token → Prop
  | .declaration => False
  | .startTag tag => LegibleTag tag
  | .endTag name => LegibleName name
  | .emptyTag tag => LegibleTag tag
  | .text content => content ≠ ""

def isText : Token → Bool
  | .text _ => true
  | _ => false

def Apart (a b : Token) : Prop := ¬ (isText a = true ∧ isText b = true)

/-- A token that is no text stands between brackets, from which it is read. -/
theorem exists_content {token : Token} (legible : Legible token) (tagged : isText token = false) :
    ∃ content, token.markup.toList = '<' :: (content ++ ['>']) ∧
      (∀ c ∈ content, c ≠ '<' ∧ c ≠ '>') ∧ bracketed? content = some token := by
  cases token with
  | declaration => exact absurd legible id
  | startTag tag =>
      obtain ⟨head, last⟩ := tag_no_slash legible
      refine ⟨tag.markup.toList, by simp [Token.markup], fun c => mem_tag legible, ?_⟩
      rw [bracketed?, if_neg head, if_neg last, tag?_markup legible]
      rfl
  | endTag name =>
      refine ⟨'/' :: name.toList, by simp [Token.markup], ?_, ?_⟩
      · intro c member
        rcases List.mem_cons.mp member with rfl | inside
        · decide
        · exact ⟨LegibleName.ne legible inside (by decide),
            LegibleName.ne legible inside (by decide)⟩
      · rw [bracketed?, List.head?_cons, if_pos rfl, List.tail_cons, String.ofList_toList]
  | emptyTag tag =>
      obtain ⟨head, -⟩ := tag_no_slash legible
      refine ⟨tag.markup.toList ++ ['/'], by simp [Token.markup], ?_, ?_⟩
      · intro c member
        rcases List.mem_append.mp member with inside | slash
        · exact mem_tag legible inside
        · rw [List.mem_singleton.mp slash]
          decide
      · have some_name : tag.markup.toList ≠ [] := by
          rw [toList_tag]
          simp [mt String.toList_eq_nil_iff.mp legible.1.1]
        rw [bracketed?, List.head?_append_of_ne_nil _ some_name, if_neg head,
          List.getLast?_concat, if_pos rfl, List.dropLast_concat, tag?_markup legible]
        rfl
  | text content => cases tagged

/-- The reader runs over characters that are no brackets. -/
theorem scan_run {inside : Bool} {word before rest : List Char}
    (clean : ∀ c ∈ word, c ≠ '<' ∧ c ≠ '>') :
    scan inside before (word ++ rest) = scan inside (before ++ word) rest := by
  induction word generalizing before with
  | nil => simp
  | cons c word ih =>
      obtain ⟨⟨lt, gt⟩, later⟩ := List.forall_mem_cons.mp clean
      cases inside with
      | false =>
          rw [List.cons_append, scan, if_neg lt, if_neg gt, ih later, List.append_assoc,
            List.singleton_append]
      | true =>
          rw [List.cons_append, scan, if_neg gt, if_neg lt, ih later, List.append_assoc,
            List.singleton_append]

/-- A bracket ends the text before it. -/
theorem scan_open (before rest : List Char) :
    scan false before ('<' :: rest) =
      (text? before).bind fun token => (scan true [] rest).map (token ++ ·) := by
  rw [scan, if_pos rfl]

/-- A token between brackets is read from the front of a text. -/
theorem scan_bracketed {content rest : List Char} {token : Token}
    (clean : ∀ c ∈ content, c ≠ '<' ∧ c ≠ '>') (read : bracketed? content = some token) :
    scan true [] (content ++ '>' :: rest) = (scan false [] rest).map (token :: ·) := by
  rw [scan_run clean, List.nil_append, scan, if_pos rfl, read, Option.bind_some]

theorem text?_escapeText {content : String} (some_text : content ≠ "") :
    text? (Markup.escapeText content).toList = some [.text content] := by
  rw [text?, if_neg (escapeText_ne_nil some_text), unescape_escapeText]
  simp

/-- Tokens are read back from their text. -/
theorem tokenize_markup {tokens : List Token} (legible : ∀ token ∈ tokens, Legible token)
    (apart : tokens.IsChain Apart) :
    tokenize (String.join (tokens.map Token.markup)) = some tokens := by
  rw [tokenize, String.toList_join, List.flatMap_map]
  induction tokens with
  | nil => rfl
  | cons token rest ih =>
      obtain ⟨first, later⟩ := List.forall_mem_cons.mp legible
      have tail := ih later apart.tail
      cases tagged : isText token with
      | false =>
          obtain ⟨content, written, clean, read⟩ := exists_content first tagged
          rw [List.flatMap_cons, written, List.cons_append, List.append_assoc,
            List.singleton_append, scan_open, scan_bracketed clean read, tail]
          rfl
      | true =>
          cases token with
          | text content =>
              have clean : ∀ c ∈ (Markup.escapeText content).toList, c ≠ '<' ∧ c ≠ '>' :=
                fun c => mem_escapeText
              rw [List.flatMap_cons, Token.markup, scan_run clean, List.nil_append]
              cases rest with
              | nil =>
                  rw [List.flatMap_nil, scan]
                  exact text?_escapeText first
              | cons next more =>
                  -- The next token starts with a bracket, which ends the text.
                  have other : isText next = false := by
                    have seam := (List.isChain_cons_cons.mp apart).1
                    simpa [Apart, tagged] using seam
                  obtain ⟨content', written, -, -⟩ :=
                    exists_content (later next List.mem_cons_self) other
                  rw [List.flatMap_cons, written, List.cons_append, scan_open] at tail ⊢
                  rw [text?_escapeText first, Option.bind_some]
                  have empty_text : text? [] = some [] := rfl
                  rw [empty_text, Option.bind_some] at tail
                  obtain ⟨tokens, scanned, same⟩ := Option.map_eq_some_iff.mp tail
                  rw [scanned, ← same]
                  rfl
          | declaration => cases tagged
          | startTag tag => cases tagged
          | endTag name => cases tagged
          | emptyTag tag => cases tagged

end Reader

end Schematron
