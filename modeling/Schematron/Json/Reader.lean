import Schematron.Json.Basic

/-!
# Reading JSON texts

The strict grammar: blanks only between tokens, no trailing commas, no control
characters inside strings, and nothing but blanks after the value. Each scanner
takes the remaining characters and returns what it read with the characters
after it. The recursion over nested values is bounded by the length of the text,
which every nesting shortens.
-/

namespace Schematron

namespace Json

/-- The four characters that may stand between tokens. -/
def isBlank (c : Char) : Bool := c = ' ' || c = '\t' || c = '\n' || c = '\r'

/-- The text after its leading blanks. -/
def skipBlanks (cs : List Char) : List Char := cs.dropWhile isBlank

def hexDigit? (c : Char) : Option Nat :=
  if '0' ≤ c && c ≤ '9' then some (c.toNat - '0'.toNat)
  else if 'a' ≤ c && c ≤ 'f' then some (c.toNat - 'a'.toNat + 10)
  else if 'A' ≤ c && c ≤ 'F' then some (c.toNat - 'A'.toNat + 10)
  else none

/-- The number that four hexadecimal digits denote. -/
def hexCode? (a b c d : Char) : Option Nat := do
  let a ← hexDigit? a
  let b ← hexDigit? b
  let c ← hexDigit? c
  let d ← hexDigit? d
  return ((a * 16 + b) * 16 + c) * 16 + d

/-- The character that a one-letter escape stands for. -/
def escapedChar? : Char → Option Char
  | '"' => some '"'
  | '\\' => some '\\'
  | '/' => some '/'
  | 'b' => some '\x08'
  | 'f' => some '\x0c'
  | 'n' => some '\n'
  | 'r' => some '\r'
  | 't' => some '\t'
  | _ => none

/-- One item of a string: a character, or half of a surrogate pair. -/
inductive Piece where
  | char (c : Char)
  | half (code : Nat)

/-- The piece with the given code. -/
def Piece.ofCode (code : Nat) : Piece :=
  if 0xD800 ≤ code && code ≤ 0xDFFF then .half code else .char (Char.ofNat code)

/-- The pieces of a string after its opening quote, and the text after its closing quote. -/
def scanString : List Char → Option (List Piece × List Char)
  | [] => none
  | '"' :: rest => some ([], rest)
  | '\\' :: 'u' :: a :: b :: c :: d :: rest => do
    let code ← hexCode? a b c d
    let (pieces, rest) ← scanString rest
    return (Piece.ofCode code :: pieces, rest)
  | '\\' :: e :: rest => do
    let c ← escapedChar? e
    let (pieces, rest) ← scanString rest
    return (.char c :: pieces, rest)
  | c :: rest =>
    if c < ' ' || c = '\\' then none
    else do
      let (pieces, rest) ← scanString rest
      return (.char c :: pieces, rest)

/-- The characters of a string: a leading half joins the trailing half behind it, and any
other half has no meaning. -/
def joinPieces : List Piece → Option (List Char)
  | [] => some []
  | .char c :: rest => (joinPieces rest).map (c :: ·)
  | .half high :: .half low :: rest =>
    if high < 0xDC00 && 0xDC00 ≤ low then
      (joinPieces rest).map
        (Char.ofNat (0x10000 + (high - 0xD800) * 0x400 + (low - 0xDC00)) :: ·)
    else none
  | .half _ :: _ => none

/-- A string after its opening quote. -/
def readString (cs : List Char) : Option (Option String × List Char) := do
  let (pieces, rest) ← scanString cs
  return ((joinPieces pieces).map String.ofList, rest)

/-- The digits that a text starts with, at least one, and the text after them. -/
def readDigits (cs : List Char) : Option (List Char × List Char) :=
  match cs.takeWhile Char.isDigit with
  | [] => none
  | ds => some (ds, cs.dropWhile Char.isDigit)

/-- The digits before the point: a zero stands alone. -/
def readWhole : List Char → Option (List Char × List Char)
  | '0' :: rest => some (['0'], rest)
  | cs => readDigits cs

/-- The digits after the point, if there is a point. -/
def readFraction : List Char → Option (Option (List Char) × List Char)
  | '.' :: rest => (readDigits rest).map fun (ds, rest) => (some ds, rest)
  | cs => some (none, cs)

/-- The digits of an exponent behind its sign. -/
def readExponentDigits : List Char → Option (Int × List Char)
  | '-' :: rest => (readDigits rest).map fun (ds, rest) => (-(Decimal.ofDigits ds : Int), rest)
  | '+' :: rest => (readDigits rest).map fun (ds, rest) => ((Decimal.ofDigits ds : Int), rest)
  | cs => (readDigits cs).map fun (ds, rest) => ((Decimal.ofDigits ds : Int), rest)

/-- The exponent, if there is one. -/
def readExponent : List Char → Option (Option Int × List Char)
  | 'e' :: rest => (readExponentDigits rest).map fun (e, rest) => (some e, rest)
  | 'E' :: rest => (readExponentDigits rest).map fun (e, rest) => (some e, rest)
  | cs => some (none, cs)

/-- The value of a number from its parts. -/
def ofNumberParts (negative : Bool) (whole : List Char) (fraction : Option (List Char))
    (exponent : Option Int) : Json :=
  let n := Decimal.ofDigits whole
  match fraction, exponent with
  | none, none =>
    if negative then (if n = 0 then .decimal ⟨true, 0, 0⟩ else .integer (-(n : Int)))
    else .integer n
  | _, _ =>
    let places := fraction.getD []
    .decimal ⟨negative, Decimal.ofDigits (whole ++ places), exponent.getD 0 - places.length⟩

/-- A number after its sign. -/
def readUnsigned (negative : Bool) (cs : List Char) : Option (Json × List Char) := do
  let (whole, cs) ← readWhole cs
  let (fraction, cs) ← readFraction cs
  let (exponent, cs) ← readExponent cs
  return (ofNumberParts negative whole fraction exponent, cs)

def readNumber : List Char → Option (Json × List Char)
  | '-' :: rest => readUnsigned true rest
  | cs => readUnsigned false cs

mutual

/-- A value, for a text that starts with it and nests at most `depth` values. -/
def readValue : Nat → List Char → Option (Json × List Char)
  | 0, _ => none
  | depth + 1, cs =>
    match cs with
    | 'n' :: 'u' :: 'l' :: 'l' :: rest => some (.null, rest)
    | 't' :: 'r' :: 'u' :: 'e' :: rest => some (.bool true, rest)
    | 'f' :: 'a' :: 'l' :: 's' :: 'e' :: rest => some (.bool false, rest)
    | '"' :: rest => (readString rest).map fun (s, rest) => (.string s, rest)
    | '[' :: rest =>
      match skipBlanks rest with
      | ']' :: rest => some (.array [], rest)
      | rest => (readItems depth rest).map fun (items, rest) => (.array items, rest)
    | '{' :: rest =>
      match skipBlanks rest with
      | '}' :: rest => some (.object [], rest)
      | rest => (readMembers depth rest).map fun (members, rest) => (.object members, rest)
    | cs => readNumber cs

/-- The items of an array from the first one to the closing bracket. -/
def readItems : Nat → List Char → Option (List Json × List Char)
  | 0, _ => none
  | depth + 1, cs => do
    let (item, rest) ← readValue depth cs
    match skipBlanks rest with
    | ',' :: rest =>
      let (items, rest) ← readItems depth (skipBlanks rest)
      return (item :: items, rest)
    | ']' :: rest => return ([item], rest)
    | _ => none

/-- The members of an object from the first one to the closing brace. -/
def readMembers : Nat → List Char → Option (List (Option String × Json) × List Char)
  | 0, _ => none
  | depth + 1, cs => do
    let (name, rest) ← match cs with
      | '"' :: rest => readString rest
      | _ => none
    match skipBlanks rest with
    | ':' :: rest =>
      let (value, rest) ← readValue depth (skipBlanks rest)
      match skipBlanks rest with
      | ',' :: rest =>
        let (members, rest) ← readMembers depth (skipBlanks rest)
        return ((name, value) :: members, rest)
      | '}' :: rest => return ([(name, value)], rest)
      | _ => none
    | _ => none

end

/-- The value that the characters of a text denote. -/
def parseChars (cs : List Char) : Option Json :=
  match readValue (cs.length + 1) (skipBlanks cs) with
  | some (value, rest) => if (skipBlanks rest).isEmpty then some value else none
  | none => none

/-- The value that a text denotes, if it is a JSON text. -/
def parse (text : String) : Option Json := parseChars text.toList

end Json

end Schematron
