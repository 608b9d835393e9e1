import Mathlib.Data.List.Infix

/-!
# The grammar of XML 1.0

What a well-formed document is, production by production, for documents without a
document type declaration. `WellFormed names text` says that a text is a document
and that `names` are the names of its elements in the order of their start tags; an
end tag has the name of its start tag.

A name may hold colons. The names of a namespaced document hold one, between a
prefix and a local name that have none (`QName`).
-/

namespace Schematron

namespace Grammar

/-! ### Characters and names -/

def inRanges (ranges : List (Nat × Nat)) (code : Nat) : Bool :=
  ranges.any fun range => range.1 ≤ code && code ≤ range.2

/-- The code points that a document may hold. -/
def charRanges : List (Nat × Nat) :=
  [(0x9, 0xA), (0xD, 0xD), (0x20, 0xD7FF), (0xE000, 0xFFFD), (0x10000, 0x10FFFF)]

/-- The code points with which a name without colons may start. -/
def nameStartRanges : List (Nat × Nat) :=
  [(0x41, 0x5A), (0x5F, 0x5F), (0x61, 0x7A), (0xC0, 0xD6), (0xD8, 0xF6), (0xF8, 0x2FF),
    (0x370, 0x37D), (0x37F, 0x1FFF), (0x200C, 0x200D), (0x2070, 0x218F), (0x2C00, 0x2FEF),
    (0x3001, 0xD7FF), (0xF900, 0xFDCF), (0xFDF0, 0xFFFD), (0x10000, 0xEFFFF)]

/-- The code points that a name may hold in other places only. -/
def nameRestRanges : List (Nat × Nat) :=
  [(0x2D, 0x2E), (0x30, 0x39), (0xB7, 0xB7), (0x300, 0x36F), (0x203F, 0x2040)]

def isChar (c : Char) : Bool := inRanges charRanges c.toNat

def isSpace (c : Char) : Bool := c = ' ' || c = '\t' || c = '\r' || c = '\n'

def isNameStart (c : Char) : Bool := inRanges nameStartRanges c.toNat

def isNameChar (c : Char) : Bool := isNameStart c || inRanges nameRestRanges c.toNat

/-- A name. Colons may stand anywhere in it. -/
def isName : List Char → Bool
  | [] => false
  | first :: rest => (first = ':' || isNameStart first) && rest.all fun c => c = ':' || isNameChar c

def isNCName : List Char → Bool
  | [] => false
  | first :: rest => isNameStart first && rest.all isNameChar

/-- The name is the prefix and the local name with one colon between them. -/
def QName (nsPrefix localName name : List Char) : Prop :=
  isNCName nsPrefix = true ∧ isNCName localName = true ∧ name = nsPrefix ++ ':' :: localName

/-! ### Space, references and attributes -/

/-- Optional white space. -/
def Blank (s : List Char) : Prop := ∀ c ∈ s, isSpace c = true

def Space (s : List Char) : Prop := s ≠ [] ∧ Blank s

def hexValue (c : Char) : Nat :=
  if c.isDigit then c.toNat - 0x30 else if c.isUpper then c.toNat - 0x37 else c.toNat - 0x57

def isHexDigit (c : Char) : Bool :=
  c.isDigit || 'a' ≤ c && c ≤ 'f' || 'A' ≤ c && c ≤ 'F'

def numeral (base : Nat) (digits : List Char) : Nat :=
  digits.foldl (fun n c => base * n + hexValue c) 0

/-- The entities that need no declaration. -/
def entityNames : List (List Char) :=
  [['l', 't'], ['g', 't'], ['a', 'm', 'p'], ['a', 'p', 'o', 's'], ['q', 'u', 'o', 't']]

/-- A reference to an entity or to a character. -/
inductive Reference : List Char → Prop where
  | entity {name : List Char} : name ∈ entityNames → Reference ('&' :: name ++ [';'])
  | decimal {digits : List Char} : digits ≠ [] → digits.all Char.isDigit = true →
    inRanges charRanges (numeral 10 digits) = true → Reference ('&' :: '#' :: digits ++ [';'])
  | hexadecimal {digits : List Char} : digits ≠ [] → digits.all isHexDigit = true →
    inRanges charRanges (numeral 16 digits) = true →
    Reference ('&' :: '#' :: 'x' :: digits ++ [';'])

/-- What stands between the quotes of an attribute value. -/
inductive Value (quote : Char) : List Char → Prop where
  | nil : Value quote []
  | char {c : Char} {rest : List Char} : c ≠ '<' → c ≠ '&' → c ≠ quote → Value quote rest →
    Value quote (c :: rest)
  | reference {r rest : List Char} : Reference r → Value quote rest → Value quote (r ++ rest)

/-- A key with a quoted value behind an equals sign. -/
inductive Setting (value : Char → List Char → Prop) (key : List Char) : List Char → Prop where
  | mk {before behind inner : List Char} {quote : Char} : Blank before → Blank behind →
    quote = '"' ∨ quote = '\'' → value quote inner →
    Setting value key (key ++ before ++ '=' :: behind ++ quote :: inner ++ [quote])

/-- The attributes of a tag, each behind white space. No key is given twice. -/
inductive Attributes : List (List Char) → List Char → Prop where
  | nil {s : List Char} : Blank s → Attributes [] s
  | cons {s key setting rest : List Char} {keys : List (List Char)} : Space s →
    isName key = true → Setting Value key setting → key ∉ keys → Attributes keys rest →
    Attributes (key :: keys) (s ++ setting ++ rest)

/-! ### Content -/

/-- Text that stands for itself. -/
def CharData (s : List Char) : Prop :=
  (∀ c ∈ s, c ≠ '<' ∧ c ≠ '&') ∧ ¬ [']', ']', '>'] <:+: s

inductive Comment : List Char → Prop where
  | mk {inner : List Char} : ¬ ['-', '-'] <:+: inner ++ ['-'] →
    Comment (['<', '!', '-', '-'] ++ inner ++ ['-', '-', '>'])

/-- A processing instruction, which is not called `xml`. -/
inductive Instruction : List Char → Prop where
  | bare {target : List Char} : isName target = true → target.map Char.toLower ≠ ['x', 'm', 'l'] →
    Instruction (['<', '?'] ++ target ++ ['?', '>'])
  | full {target s inner : List Char} : isName target = true →
    target.map Char.toLower ≠ ['x', 'm', 'l'] → Space s → ¬ ['?', '>'] <:+: inner →
    Instruction (['<', '?'] ++ target ++ s ++ inner ++ ['?', '>'])

/-- A stretch of character data that is marked as such. -/
inductive CData : List Char → Prop where
  | mk {inner : List Char} : ¬ [']', ']', '>'] <:+: inner →
    CData (['<', '!', '[', 'C', 'D', 'A', 'T', 'A', '['] ++ inner ++ [']', ']', '>'])

/-- What may stand between texts and elements. -/
inductive Item : List Char → Prop where
  | reference {s : List Char} : Reference s → Item s
  | comment {s : List Char} : Comment s → Item s
  | instruction {s : List Char} : Instruction s → Item s
  | cdata {s : List Char} : CData s → Item s

mutual

/-- An element with the names of the elements in it. -/
inductive Element : List (List Char) → List Char → Prop where
  | empty {name attributes : List Char} {keys : List (List Char)} : isName name = true →
    Attributes keys attributes → Element [name] ('<' :: name ++ attributes ++ ['/', '>'])
  | full {name attributes content s : List Char} {keys names : List (List Char)} :
    isName name = true → Attributes keys attributes → Content names content → Blank s →
    Element (name :: names)
      ('<' :: name ++ attributes ++ '>' :: content ++ '<' :: '/' :: name ++ s ++ ['>'])

inductive Content : List (List Char) → List Char → Prop where
  | text {s : List Char} : CharData s → Content [] s
  | item {s item rest : List Char} {names : List (List Char)} : CharData s → Item item →
    Content names rest → Content names (s ++ item ++ rest)
  | element {s element rest : List Char} {names more : List (List Char)} : CharData s →
    Element names element → Content more rest → Content (names ++ more) (s ++ element ++ rest)

end

/-! ### Documents -/

/-- What may stand before and behind the root element. -/
inductive Misc : List Char → Prop where
  | nil : Misc []
  | space {c : Char} {rest : List Char} : isSpace c = true → Misc rest → Misc (c :: rest)
  | comment {s rest : List Char} : Comment s → Misc rest → Misc (s ++ rest)
  | instruction {s rest : List Char} : Instruction s → Misc rest → Misc (s ++ rest)

def isVersion (s : List Char) : Bool :=
  ['1', '.'].isPrefixOf s && 2 < s.length && (s.drop 2).all Char.isDigit

def isEncoding : List Char → Bool
  | [] => false
  | first :: rest => first.isAlpha &&
    rest.all fun c => c.isAlphanum || c = '.' || c = '_' || c = '-'

/-- An optional part of the declaration, behind white space. -/
inductive Optionally (value : List Char → Bool) (key : List Char) : List Char → Prop where
  | absent : Optionally value key []
  | present {s setting : List Char} : Space s →
    Setting (fun _ inner => value inner = true) key setting → Optionally value key (s ++ setting)

inductive Declaration : List Char → Prop where
  | mk {s version encoding standalone t : List Char} : Space s →
    Setting (fun _ inner => isVersion inner = true) "version".toList version →
    Optionally isEncoding "encoding".toList encoding →
    Optionally (fun inner => inner = "yes".toList || inner = "no".toList) "standalone".toList
      standalone →
    Blank t →
    Declaration ("<?xml".toList ++ s ++ version ++ encoding ++ standalone ++ t ++ ['?', '>'])

/-- The text is a well-formed document of elements with the given names. -/
structure WellFormed (names : List (List Char)) (text : List Char) : Prop where
  chars : ∀ c ∈ text, isChar c = true
  parts : ∃ declaration before root behind,
    text = declaration ++ before ++ root ++ behind ∧
      (declaration = [] ∨ Declaration declaration) ∧ Misc before ∧ Element names root ∧ Misc behind

/-- The first angle bracket of a document opens a name or a mark. -/
theorem WellFormed.opening {names : List (List Char)} {c : Char} {rest : List Char}
    (h : WellFormed names ('<' :: c :: rest)) : c = '!' ∨ c = '?' ∨ isName [c] = true := by
  obtain ⟨declaration, before, root, behind, split, declared, front, written, -⟩ := h.parts
  have next {d : Char} {more : List Char} (same : '<' :: c :: rest = '<' :: d :: more) : c = d :=
    (List.cons.inj (List.cons.inj same).2).1
  have named {name more : List Char} (valid : isName name = true)
      (same : '<' :: c :: rest = '<' :: name ++ more) : isName [c] = true := by
    cases name with
    | nil => cases valid
    | cons first _ =>
        rw [isName, Bool.and_eq_true] at valid
        rw [next same, isName, valid.1]
        rfl
  rcases declared with rfl | declared
  · cases front with
    | nil =>
        right; right
        cases written with
        | empty valid _ => exact named valid (by simpa using split)
        | full valid _ _ _ => exact named valid (by simpa using split)
    | space blank _ =>
        obtain ⟨rfl, -⟩ := List.cons.inj split
        cases blank
    | comment written _ =>
        cases written
        exact .inl (next split)
    | instruction written _ =>
        cases written with
        | bare _ _ => exact .inr (.inl (next split))
        | full _ _ _ _ => exact .inr (.inl (next split))
  · cases declared
    exact .inr (.inl (next split))

/-! ### Names -/

theorem isName_of_isNCName {s : List Char} (h : isNCName s = true) : isName s = true := by
  cases s with
  | nil => cases h
  | cons first rest =>
      simp only [isNCName, Bool.and_eq_true, List.all_eq_true] at h
      simp only [isName, Bool.and_eq_true, Bool.or_eq_true, List.all_eq_true]
      exact ⟨.inr h.1, fun c member => .inr (h.2 c member)⟩

theorem isName_append {s t : List Char} (h : isNCName s = true) (h' : isNCName t = true) :
    isName (s ++ ':' :: t) = true := by
  cases s with
  | nil => cases h
  | cons first rest =>
      cases t with
      | nil => cases h'
      | cons next more =>
          simp only [isNCName, Bool.and_eq_true, List.all_eq_true] at h h'
          simp only [isName, List.cons_append, Bool.and_eq_true, Bool.or_eq_true, List.all_eq_true]
          refine ⟨.inr h.1, fun c member => ?_⟩
          simp only [List.mem_append, List.mem_cons] at member
          rcases member with inside | rfl | rfl | inside
          · exact .inr (h.2 c inside)
          · exact .inl (by decide)
          · exact .inr (by rw [isNameChar, h'.1, Bool.true_or])
          · exact .inr (h'.2 c inside)

theorem not_mem_of_isNCName {s : List Char} (h : isNCName s = true) : ':' ∉ s := by
  cases s with
  | nil => cases h
  | cons first rest =>
      simp only [isNCName, Bool.and_eq_true, List.all_eq_true] at h
      intro member
      rcases List.mem_cons.mp member with rfl | inside
      · exact absurd h.1 (by decide)
      · exact absurd (h.2 ':' inside) (by decide)

theorem isChar_of_isNameChar {c : Char} (h : isNameChar c = true) : isChar c = true := by
  simp only [isNameChar, isNameStart, isChar, inRanges, nameStartRanges, nameRestRanges, charRanges,
    List.any_cons, List.any_nil, Bool.or_eq_true, Bool.and_eq_true, decide_eq_true_eq,
    Bool.or_false] at h ⊢
  omega

theorem isChar_of_mem_of_isNCName {s : List Char} (h : isNCName s = true) :
    ∀ c ∈ s, isChar c = true := by
  cases s with
  | nil => cases h
  | cons first rest =>
      simp only [isNCName, Bool.and_eq_true, List.all_eq_true] at h
      intro c member
      rcases List.mem_cons.mp member with rfl | inside
      · exact isChar_of_isNameChar (by rw [isNameChar, h.1, Bool.true_or])
      · exact isChar_of_isNameChar (h.2 c inside)

end Grammar

end Schematron
