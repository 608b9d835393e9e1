/-!
# File paths

A path is a text whose names are separated by slashes. A name that is empty or a
single dot leads nowhere, so it does not count behind other names; only a dot in
front is a name of its own.
-/

namespace Schematron

namespace FilePath

/-- The parts of a text between its slashes. -/
def splitChars : List Char → List (List Char)
  | [] => [[]]
  | c :: rest =>
    match splitChars rest with
    | [] => [[c]]
    | part :: parts => if c = '/' then [] :: part :: parts else (c :: part) :: parts

def names (path : String) : List String := (splitChars path.toList).map String.ofList

/-- Whether a name leads nowhere. -/
def isIdle (name : String) : Bool := name = "" || name = "."

/-- The names without those at the end that lead nowhere, a dot in front excepted. -/
def trim : List String → List String
  | [] => []
  | first :: rest =>
    let kept := (rest.reverse.dropWhile isIdle).reverse
    if kept.isEmpty && first = "" then [] else first :: kept

/-- The path of the directory that a path's last name stands in; a path without names has
none. -/
def parent? (path : String) : Option String :=
  match trim (names path) with
  | [] => none
  | names => some ("/".intercalate (trim names.dropLast))

/-- A path followed by the paths of the directories around it, the outermost last. The path
gets shorter at each step. -/
def ancestors (path : String) : List String := go path.length path
where
  /-- At most so many paths. -/
  go : Nat → String → List String
    | 0, _ => []
    | bound + 1, path =>
      if path = "" then []
      else
        match parent? path with
        | none => []
        | some parent => path :: go bound parent

end FilePath

end Schematron
