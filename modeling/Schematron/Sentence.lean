/-!
# Sentences

Fragments of text joined into one sentence, as in `a, b, or c`. Which words
stand between the fragments depends only on how many fragments there are.
-/

namespace Schematron

/-- The texts between the fragments of a sentence. -/
structure Connectors where
  /-- Between the fragments of a list of three or more, the last two excepted. -/
  words : String
  /-- Between two fragments that are the whole list. -/
  twoWords : String
  /-- Before the last fragment of a list of three or more. -/
  lastWord : String
  deriving DecidableEq, Repr

namespace Connectors

/-- `a, b, and c` -/
def and : Connectors := ⟨", ", " and ", ", and "⟩

/-- `a, b, or c` -/
def or : Connectors := ⟨", ", " or ", ", or "⟩

end Connectors

/-- The fragments behind the first one of a list of three or more. -/
def sentenceTail (c : Connectors) : List String → String
  | [] => ""
  | [last] => c.lastWord ++ last
  | item :: rest => c.words ++ item ++ sentenceTail c rest

def sentence (c : Connectors) : List String → String
  | [] => ""
  | [only] => only
  | [first, second] => first ++ c.twoWords ++ second
  | first :: rest => first ++ sentenceTail c rest

theorem sentenceTail_concat (c : Connectors) (middle : List String) (last : String) :
    sentenceTail c (middle ++ [last]) =
      String.join (middle.map (c.words ++ ·)) ++ c.lastWord ++ last := by
  induction middle with
  | nil => simp [sentenceTail]
  | cons item rest ih =>
      rw [List.cons_append, sentenceTail, ih, List.map_cons, String.join_cons]
      · simp only [String.append_assoc]
      · simp

/-- Of three fragments or more, the last one has a text of its own before it. -/
theorem sentence_concat (c : Connectors) {first last : String} {middle : List String}
    (three : middle ≠ []) : sentence c (first :: (middle ++ [last])) =
      first ++ String.join (middle.map (c.words ++ ·)) ++ c.lastWord ++ last := by
  rw [sentence, sentenceTail_concat]
  · simp only [String.append_assoc]
  · simp
  · intro second alone
    cases middle with
    | nil => exact three rfl
    | cons item rest => simp at alone

end Schematron
