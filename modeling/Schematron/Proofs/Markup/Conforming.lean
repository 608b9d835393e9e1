import Schematron.Proofs.Markup.Grammar
import Schematron.Proofs.Markup.Xml

/-!
# Reading as XML 1.0 prescribes

Before it looks at tags, a reader that conforms to XML 1.0 makes one line feed of
every end of a line. In an attribute value it then takes every blank for a space,
unless the blank is written as a reference to its character. `conform` is the text
after these steps, from which `Reader.tokenize` reads the tokens.

What is written here holds blanks as they are and no references to characters. So
`conform_markup` says what becomes of it: the names stay, the texts are those with
the ends of their lines replaced (`unbroken`), and the values have lost their line
feeds and tabs as well (`spaced`).
-/

namespace Schematron

namespace Reader

/-! ### The steps -/

/-- The text with one line feed for each end of a line. The flag tells that the character before was
a carriage return, which has already been replaced. -/
def lineEnds : Bool → List Char → List Char
  | _, [] => []
  | after, c :: rest =>
    if c = '\r' then '\n' :: lineEnds true rest
    else if c = '\n' ∧ after = true then lineEnds false rest
    else c :: lineEnds false rest

def toSpace (c : Char) : Char := if Grammar.isSpace c then ' ' else c

/-- Where a character stands. -/
inductive Region where
  | outside
  | tag
  | value (quote : Char)

/-- The text with a space for every blank in an attribute value. -/
def valueSpaces : Region → List Char → List Char
  | _, [] => []
  | .outside, c :: rest => c :: valueSpaces (if c = '<' then .tag else .outside) rest
  | .tag, c :: rest =>
    c :: valueSpaces
      (if c = '>' then .outside else if c = '"' ∨ c = '\'' then .value c else .tag) rest
  | .value quote, c :: rest =>
    if c = quote then c :: valueSpaces .tag rest else toSpace c :: valueSpaces (.value quote) rest

/-- The character of a code. A document cannot refer to others than it may hold. -/
def charOfCode? (base : Nat) (digits : List Char) : Option Char :=
  if digits ≠ [] ∧ Grammar.inRanges Grammar.charRanges (Grammar.numeral base digits) then
    some (Char.ofNat (Grammar.numeral base digits))
  else none

/-- The character that is meant by what stands between `&#` and the semicolon. -/
def referred? : List Char → Option Char
  | 'x' :: digits => if digits.all Grammar.isHexDigit then charOfCode? 16 digits else none
  | digits => if digits.all Char.isDigit then charOfCode? 10 digits else none

/-- The text without references to characters. A character that is markup otherwise is there under
its name, and what refers to nothing stays. The code is what was read since the last `&#`. -/
def references : Option (List Char) → List Char → List Char
  | none, [] => []
  | none, '&' :: '#' :: rest => references (some []) rest
  | none, c :: rest => c :: references none rest
  | some code, [] => '&' :: '#' :: code
  | some code, c :: rest =>
    if c = ';' then
      ((referred? code).elim ('&' :: '#' :: (code ++ [';'])) Markup.escapeValueChar) ++
        references none rest
    else references (some (code ++ [c])) rest

/-- The text in which tags and texts stand for what XML 1.0 takes them for. -/
def conform (text : String) : String :=
  String.ofList (references none (valueSpaces .outside (lineEnds false text.toList)))

/-- A tab is lost in an attribute value unless it is referred to. -/
example : conform "<a b=\"\t&#9;\r\n\">\t\r\n&#x3c;</a>" = "<a b=\" \t \">\t\n&lt;</a>" := by
  decide +kernel

/-! ### Ends of lines -/

/-- The string with one line feed for each end of a line. -/
def unbroken (s : String) : String := String.ofList (lineEnds false s.toList)

/-- A character other than the two that ends a line. -/
def Inner (c : Char) : Prop := c ≠ '\r' ∧ c ≠ '\n'

instance (c : Char) : Decidable (Inner c) := inferInstanceAs (Decidable (_ ∧ _))

section lineEnds

variable {after : Bool} {word text rest : List Char} {c : Char}

theorem lineEnds_cons_inner (inner : Inner c) :
    lineEnds after (c :: rest) = c :: lineEnds false rest := by
  rw [lineEnds, if_neg inner.1, if_neg fun line => inner.2 line.1]

/-- Words without ends of lines stay. -/
theorem lineEnds_run (inner : ∀ c ∈ word, Inner c) :
    lineEnds false (word ++ rest) = word ++ lineEnds false rest := by
  induction word with
  | nil => rfl
  | cons c word ih =>
      obtain ⟨first, later⟩ := List.forall_mem_cons.mp inner
      rw [List.cons_append, lineEnds_cons_inner first, ih later, List.cons_append]

/-- A text is replaced by itself where another character than an end of a line follows. -/
theorem lineEnds_append_cons (inner : Inner c) :
    lineEnds after (text ++ c :: rest) = lineEnds after text ++ c :: lineEnds false rest := by
  induction text generalizing after with
  | nil => exact lineEnds_cons_inner inner
  | cons d text ih =>
      rw [List.cons_append, lineEnds, lineEnds]
      split
      · rw [ih, List.cons_append]
      · split
        · exact ih
        · rw [ih, List.cons_append]

/-- A character is written as it is, or it ends no line and is written without ends of lines. -/
def KeepsLines (escape : Char → List Char) : Prop :=
  ∀ c, escape c = [c] ∨
    Inner c ∧ ∃ d word, escape c = d :: word ∧ ∀ e ∈ d :: word, Inner e

theorem keepsLines_escapeTextChar : KeepsLines Markup.escapeTextChar := by
  intro c
  rw [Markup.escapeTextChar]
  split
  · next same => exact .inr ⟨by rw [same]; decide, _, _, rfl, by simp [Inner]⟩
  · split
    · next same => exact .inr ⟨by rw [same]; decide, _, _, rfl, by simp [Inner]⟩
    · split
      · next same => exact .inr ⟨by rw [same]; decide, _, _, rfl, by simp [Inner]⟩
      · exact .inl rfl

theorem keepsLines_escapeValueChar : KeepsLines Markup.escapeValueChar := by
  intro c
  rw [Markup.escapeValueChar]
  split
  · next same => exact .inr ⟨by rw [same]; decide, _, _, rfl, by simp [Inner]⟩
  · split
    · next same => exact .inr ⟨by rw [same]; decide, _, _, rfl, by simp [Inner]⟩
    · exact keepsLines_escapeTextChar c

/-- To escape a text and to replace the ends of its lines can be done in any order. -/
theorem lineEnds_flatMap {escape : Char → List Char} (keeps : KeepsLines escape) :
    lineEnds after (text.flatMap escape) = (lineEnds after text).flatMap escape := by
  have feed : escape '\n' = ['\n'] := (keeps '\n').resolve_right fun other => other.1.2 rfl
  induction text generalizing after with
  | nil => rfl
  | cons c text ih =>
      rcases keeps c with same | ⟨inner, d, word, written, clean⟩
      · rw [List.flatMap_cons, same, List.singleton_append, lineEnds, lineEnds]
        split
        · rw [ih, List.flatMap_cons, feed, List.singleton_append]
        · split
          · exact ih
          · rw [ih, List.flatMap_cons, same, List.singleton_append]
      · obtain ⟨first, later⟩ := List.forall_mem_cons.mp clean
        rw [lineEnds_cons_inner inner, List.flatMap_cons, List.flatMap_cons, written,
          List.cons_append, lineEnds_cons_inner first, lineEnds_run later, ih, List.cons_append]

theorem notMem_lineEnds (after : Bool) (text : List Char) : '\r' ∉ lineEnds after text := by
  induction text generalizing after with
  | nil => simp [lineEnds]
  | cons c text ih =>
      rw [lineEnds]
      split
      · simp [ih]
      · next other =>
        split
        · exact ih false
        · simp [ih, Ne.symm other]

/-- Only a carriage return makes a difference. -/
theorem lineEnds_eq_self_iff : lineEnds false text = text ↔ '\r' ∉ text := by
  constructor
  · intro same
    rw [← same]
    exact notMem_lineEnds false text
  · intro clean
    induction text with
    | nil => rfl
    | cons c text ih =>
        obtain ⟨other, clean⟩ := not_or.mp (mt List.mem_cons.mpr clean)
        rw [lineEnds, if_neg (Ne.symm other), if_neg (by simp), ih clean]

/-- A text has a line feed at least wherever it was not empty. -/
theorem lineEnds_eq_nil_iff : lineEnds false text = [] ↔ text = [] := by
  cases text with
  | nil => simp [lineEnds]
  | cons c text =>
      rw [lineEnds]
      split
      · simp
      · simp

end lineEnds

/-! ### Blanks and references -/

/-- The string with a space for every blank. -/
def spaced (s : String) : String := String.ofList (s.toList.map toSpace)

section valueSpaces

variable {word rest : List Char}

theorem valueSpaces_outside_run (clean : ∀ c ∈ word, c ≠ '<') :
    valueSpaces .outside (word ++ rest) = word ++ valueSpaces .outside rest := by
  induction word with
  | nil => rfl
  | cons c word ih =>
      obtain ⟨first, later⟩ := List.forall_mem_cons.mp clean
      rw [List.cons_append, valueSpaces, if_neg first, ih later, List.cons_append]

theorem valueSpaces_value_run (clean : ∀ c ∈ word, c ≠ '"') :
    valueSpaces (.value '"') (word ++ rest) =
      word.map toSpace ++ valueSpaces (.value '"') rest := by
  induction word with
  | nil => rfl
  | cons c word ih =>
      obtain ⟨first, later⟩ := List.forall_mem_cons.mp clean
      rw [List.cons_append, valueSpaces, if_neg first, ih later, List.map_cons, List.cons_append]

/-- No blank is escaped, and no escaped character is a blank. -/
theorem map_toSpace_escapeValueChar (c : Char) :
    (Markup.escapeValueChar c).map toSpace = Markup.escapeValueChar (toSpace c) := by
  by_cases blank : Grammar.isSpace c = true
  · simp only [Grammar.isSpace, Bool.or_eq_true, decide_eq_true_eq] at blank
    rcases blank with ((rfl | rfl) | rfl) | rfl <;> decide
  · have same : toSpace c = c := if_neg blank
    rw [same, Markup.escapeValueChar, Markup.escapeTextChar]
    split
    · decide
    · split
      · decide
      · split
        · decide
        · split
          · decide
          · split
            · decide
            · rw [List.map_singleton, same]

theorem map_toSpace_escapeValue (s : String) :
    (Markup.escapeValue s).toList.map toSpace = (Markup.escapeValue (spaced s)).toList := by
  rw [Markup.escapeValue, Markup.escapeValue, spaced, String.toList_ofList, String.toList_ofList,
    String.toList_ofList, List.map_flatMap, List.flatMap_map]
  exact List.flatMap_congr fun c _ => map_toSpace_escapeValueChar c

end valueSpaces

section references

variable {word rest : List Char}

theorem references_run (clean : ∀ c ∈ word, c ≠ '&') :
    references none (word ++ rest) = word ++ references none rest := by
  induction word with
  | nil => rfl
  | cons c word ih =>
      obtain ⟨first, later⟩ := List.forall_mem_cons.mp clean
      rw [List.cons_append, references, ih later, List.cons_append]
      intro more same
      exact absurd same first

/-- What is written for a character is no reference by its code. -/
theorem references_escapeTextChar (c : Char) (rest : List Char) :
    references none (Markup.escapeTextChar c ++ rest) =
      Markup.escapeTextChar c ++ references none rest := by
  rw [Markup.escapeTextChar]
  split
  · simp [references]
  · split
    · simp [references]
    · split
      · simp [references]
      · next plain => exact references_run (by simpa using plain)

theorem references_escapeValueChar (c : Char) (rest : List Char) :
    references none (Markup.escapeValueChar c ++ rest) =
      Markup.escapeValueChar c ++ references none rest := by
  rw [Markup.escapeValueChar]
  split
  · simp [references]
  · split
    · simp [references]
    · exact references_escapeTextChar c rest

theorem references_flatMap {escape : Char → List Char}
    (each : ∀ c rest, references none (escape c ++ rest) = escape c ++ references none rest)
    (text rest : List Char) : references none (text.flatMap escape ++ rest) =
      text.flatMap escape ++ references none rest := by
  induction text with
  | nil => rfl
  | cons c text ih =>
      rw [List.flatMap_cons, List.append_assoc, each, ih, List.append_assoc]

end references

end Reader

/-! ### Tokens -/

def Tag.mapValues (onValue : String → String) (tag : Tag) : Tag :=
  { tag with attributes := tag.attributes.map fun a => (a.1, onValue a.2) }

def Token.mapStrings (onText onValue : String → String) : Token → Token
  | .startTag tag => .startTag (tag.mapValues onValue)
  | .emptyTag tag => .emptyTag (tag.mapValues onValue)
  | .text content => .text (onText content)
  | token => token

namespace Reader

/-- A step of reading, from outside of all tags on and from inside of one. It goes over the markup
itself and only changes what the texts and the values in it are. -/
structure Pass (outside inside : List Char → List Char) (onText onValue : String → String) :
    Prop where
  done : outside [] = []
  opened : ∀ rest, outside ('<' :: rest) = '<' :: inside rest
  closed : ∀ rest, inside ('>' :: rest) = '>' :: outside rest
  name : ∀ c rest, isLegibleChar c = true ∨ c = ' ' ∨ c = '/' →
    inside (c :: rest) = c :: inside rest
  value : ∀ s rest, inside ('=' :: '"' :: ((Markup.escapeValue s).toList ++ '"' :: rest)) =
    '=' :: '"' :: ((Markup.escapeValue (onValue s)).toList ++ '"' :: inside rest)
  text : ∀ s rest, (rest = [] ∨ ∃ more, rest = '<' :: more) →
    outside ((Markup.escapeText s).toList ++ rest) =
      (Markup.escapeText (onText s)).toList ++ outside rest

namespace Pass

variable {outside inside : List Char → List Char} {onText onValue : String → String}
  {tokens : List Token}

theorem name_run (h : Pass outside inside onText onValue) {name : String} (named : LegibleName name)
    (rest : List Char) : inside (name.toList ++ rest) = name.toList ++ inside rest := by
  have each := named.2
  generalize name.toList = word at each
  induction word with
  | nil => rfl
  | cons c word ih =>
      obtain ⟨first, later⟩ := List.forall_mem_cons.mp each
      rw [List.cons_append, h.name c _ (.inl first), ih later, List.cons_append]

theorem attributes (h : Pass outside inside onText onValue) {attributes : List Attribute}
    (named : ∀ a ∈ attributes, LegibleName a.1) (rest : List Char) :
    inside ((attributes.flatMap fun a => a.markup.toList) ++ rest) =
      ((attributes.map fun a => (a.1, onValue a.2)).flatMap fun a : Attribute => a.markup.toList) ++
        inside rest := by
  induction attributes with
  | nil => rfl
  | cons a more ih =>
      obtain ⟨first, later⟩ := List.forall_mem_cons.mp named
      have space (rest : List Char) := h.name ' ' rest (.inr (.inl rfl))
      have key := h.name_run first
      have value := h.value a.2
      rw [List.flatMap_cons, List.map_cons, List.flatMap_cons, toList_attribute, toList_attribute]
      simp only [List.cons_append, List.append_assoc, List.nil_append, space, key, value,
        ih later]

theorem tag (h : Pass outside inside onText onValue) {tag : Tag} (legible : LegibleTag tag)
    (rest : List Char) : inside (tag.markup.toList ++ rest) =
      (tag.mapValues onValue).markup.toList ++ inside rest := by
  rw [toList_tag, toList_tag, List.append_assoc, h.name_run legible.1,
    h.attributes legible.2, List.append_assoc]
  rfl

/-- The step goes over a token that is no text. -/
theorem tagged (h : Pass outside inside onText onValue) {token : Token} (legible : Legible token)
    (tagged : isText token = false) (rest : List Char) :
    outside (token.markup.toList ++ rest) =
      (token.mapStrings onText onValue).markup.toList ++ outside rest := by
  have slash (rest : List Char) := h.name '/' rest (.inr (.inr rfl))
  cases token with
  | declaration => exact absurd legible id
  | startTag tag =>
      have inner := h.tag legible
      simp [Token.markup, Token.mapStrings, h.opened, h.closed, inner]
  | endTag name =>
      have inner := h.name_run (show LegibleName name from legible)
      simp [Token.markup, Token.mapStrings, h.opened, h.closed, slash, inner]
  | emptyTag tag =>
      have inner := h.tag legible
      simp [Token.markup, Token.mapStrings, h.opened, h.closed, slash, inner]
  | text content => cases tagged

/-- A step of reading changes the strings in the tokens of a text and nothing else. -/
theorem markup (h : Pass outside inside onText onValue)
    (legible : ∀ token ∈ tokens, Legible token) (apart : tokens.IsChain Apart) :
    outside (String.join (tokens.map Token.markup)).toList =
      (String.join ((tokens.map (Token.mapStrings onText onValue)).map Token.markup)).toList := by
  rw [String.toList_join, String.toList_join, List.flatMap_map, List.flatMap_map, List.flatMap_map]
  induction tokens with
  | nil => exact h.done
  | cons token rest ih =>
      obtain ⟨first, later⟩ := List.forall_mem_cons.mp legible
      rw [List.flatMap_cons, List.flatMap_cons, ← ih later apart.tail]
      cases shown : isText token with
      | false => exact h.tagged first shown _
      | true =>
          cases token with
          | text content =>
              refine h.text content _ ?_
              cases rest with
              | nil => exact .inl rfl
              | cons next more =>
                  -- Behind a text there is a bracket, because no two texts are adjacent.
                  have other : isText next = false := by
                    have seam := (List.isChain_cons_cons.mp apart).1
                    simpa [Apart, shown] using seam
                  obtain ⟨inner, written, -, -⟩ :=
                    exists_content (later next List.mem_cons_self) other
                  exact .inr ⟨_, by rw [List.flatMap_cons, written, List.cons_append]⟩
          | _ => cases shown

end Pass

theorem ne_of_isLegibleChar {c mark : Char} (named : isLegibleChar c = true ∨ c = ' ' ∨ c = '/')
    (other : isLegibleChar mark = false ∧ mark ≠ ' ' ∧ mark ≠ '/') : c ≠ mark := by
  rintro rfl
  rcases named with letter | space | slash
  · rw [other.1] at letter
    cases letter
  · exact other.2.1 space
  · exact other.2.2 slash

theorem pass_lineEnds : Pass (lineEnds false) (lineEnds false) unbroken unbroken where
  done := rfl
  opened _ := rfl
  closed _ := rfl
  name c rest named := lineEnds_cons_inner
    ⟨ne_of_isLegibleChar named (by decide), ne_of_isLegibleChar named (by decide)⟩
  value s rest := by
    rw [lineEnds_cons_inner (by decide), lineEnds_cons_inner (by decide),
      lineEnds_append_cons (by decide), Markup.escapeValue, Markup.escapeValue, unbroken,
      String.toList_ofList, String.toList_ofList, String.toList_ofList,
      lineEnds_flatMap keepsLines_escapeValueChar]
  text s rest behind := by
    have escaped : lineEnds false (Markup.escapeText s).toList =
        (Markup.escapeText (unbroken s)).toList := by
      rw [Markup.escapeText, Markup.escapeText, unbroken, String.toList_ofList,
        String.toList_ofList, String.toList_ofList, lineEnds_flatMap keepsLines_escapeTextChar]
    rcases behind with rfl | ⟨more, rfl⟩
    · rw [List.append_nil, escaped, lineEnds, List.append_nil]
    · rw [lineEnds_append_cons (by decide), escaped, lineEnds_cons_inner (by decide)]

theorem pass_valueSpaces : Pass (valueSpaces .outside) (valueSpaces .tag) id spaced where
  done := rfl
  opened _ := rfl
  closed _ := rfl
  name c rest named := by
    rw [valueSpaces, if_neg (ne_of_isLegibleChar named (by decide)), if_neg]
    exact not_or.mpr ⟨ne_of_isLegibleChar named (by decide), ne_of_isLegibleChar named (by decide)⟩
  value s rest := by
    change '=' :: '"' :: valueSpaces (.value '"') _ = _
    rw [valueSpaces_value_run fun c member => (mem_escapeValue member).2, valueSpaces, if_pos rfl,
      map_toSpace_escapeValue]
  text s rest _ := valueSpaces_outside_run fun c member => (mem_escapeText member).1

theorem pass_references : Pass (references none) (references none) id id where
  done := rfl
  opened _ := rfl
  closed _ := rfl
  name c rest named := by
    have other : ∀ d ∈ [c], d ≠ '&' := by simpa using ne_of_isLegibleChar named (by decide)
    exact references_run other
  value s rest := by
    change '=' :: '"' :: references none _ = _
    rw [id_eq, Markup.escapeValue, String.toList_ofList,
      references_flatMap references_escapeValueChar]
    rfl
  text s rest _ := by
    rw [id_eq, Markup.escapeText, String.toList_ofList,
      references_flatMap references_escapeTextChar]

/-! ### The whole reading -/

theorem Legible.mapStrings {token : Token} (legible : Legible token) {onText : String → String}
    (onValue : String → String) (filled : ∀ s, s ≠ "" → onText s ≠ "") :
    Legible (token.mapStrings onText onValue) := by
  have tag {t : Tag} (h : LegibleTag t) : LegibleTag (t.mapValues onValue) := by
    refine ⟨h.1, fun a member => ?_⟩
    obtain ⟨before, listed, rfl⟩ := List.mem_map.mp member
    exact h.2 before listed
  cases token with
  | declaration => exact legible
  | startTag t => exact tag legible
  | endTag name => exact legible
  | emptyTag t => exact tag legible
  | text content => exact filled content legible

theorem isText_mapStrings (token : Token) (onText onValue : String → String) :
    isText (token.mapStrings onText onValue) = isText token := by
  cases token <;> rfl

theorem isChain_mapStrings {tokens : List Token} (apart : tokens.IsChain Apart)
    (onText onValue : String → String) :
    (tokens.map (Token.mapStrings onText onValue)).IsChain Apart := by
  refine List.isChain_map_of_isChain _ (fun a b seam => ?_) apart
  rw [Apart, isText_mapStrings, isText_mapStrings]
  exact seam

theorem unbroken_ne_empty (s : String) (filled : s ≠ "") : unbroken s ≠ "" := by
  intro nothing
  have empty : lineEnds false s.toList = [] := by
    rw [← String.toList_ofList (l := lineEnds false s.toList), ← unbroken, nothing]
    rfl
  exact filled (String.toList_eq_nil_iff.mp (lineEnds_eq_nil_iff.mp empty))

/-- To a reader that conforms to XML 1.0, what is written is the text of the same tokens with other
strings: without carriage returns in the texts, and without any other blank than the space in the
values. -/
theorem conform_markup {tokens : List Token} (legible : ∀ token ∈ tokens, Legible token)
    (apart : tokens.IsChain Apart) :
    conform (String.join (tokens.map Token.markup)) =
      String.join ((tokens.map (Token.mapStrings unbroken (spaced ∘ unbroken))).map
        Token.markup) := by
  have legible' : ∀ token ∈ tokens.map (Token.mapStrings unbroken unbroken), Legible token := by
    intro token member
    obtain ⟨before, listed, rfl⟩ := List.mem_map.mp member
    exact (legible before listed).mapStrings unbroken unbroken_ne_empty
  have apart' := isChain_mapStrings apart unbroken unbroken
  have both (token : Token) : (token.mapStrings unbroken unbroken).mapStrings id spaced =
      token.mapStrings unbroken (spaced ∘ unbroken) := by
    cases token <;> simp [Token.mapStrings, Tag.mapValues]
  have none_more (token : Token) : token.mapStrings id id = token := by
    cases token <;> simp [Token.mapStrings, Tag.mapValues]
  have spaced_tokens : (tokens.map (Token.mapStrings unbroken unbroken)).map
      (Token.mapStrings id spaced) =
        tokens.map (Token.mapStrings unbroken (spaced ∘ unbroken)) := by
    rw [List.map_map]
    exact List.map_congr_left fun token _ => both token
  have legible'' : ∀ token ∈ tokens.map (Token.mapStrings unbroken (spaced ∘ unbroken)),
      Legible token := by
    intro token member
    obtain ⟨before, listed, rfl⟩ := List.mem_map.mp member
    exact (legible before listed).mapStrings _ unbroken_ne_empty
  have apart'' := isChain_mapStrings apart unbroken (spaced ∘ unbroken)
  have unchanged : (tokens.map (Token.mapStrings unbroken (spaced ∘ unbroken))).map
      (Token.mapStrings id id) = tokens.map (Token.mapStrings unbroken (spaced ∘ unbroken)) := by
    rw [List.map_congr_left fun token _ => none_more token, List.map_id']
  rw [conform, pass_lineEnds.markup legible apart, pass_valueSpaces.markup legible' apart',
    spaced_tokens, pass_references.markup legible'' apart'', unchanged, String.ofList_toList]

end Reader

/-- The root element that a reader finds which conforms to XML 1.0. -/
def Xml.readConforming (text : String) : Option Xml := read (Reader.conform text)

end Schematron
