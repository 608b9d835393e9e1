import Mathlib.Data.List.Infix
import Schematron.Decimal.Basic
import Schematron.Proofs.Markup.Grammar

/-!
# Arithmetic in XPath

The part of XPath 1.0 in which the tests of numeric constraints are written:
comparisons of the value of one field with integers, joined by `and`. Integers are
exact, and `mod` is the remainder of the division that truncates, so it takes the
sign of the dividend.

`read?` reads a text from left to right. What waits for an operand is kept on a
stack, from which an operator takes everything that binds no looser than itself, so
operators of one level are applied from left to right. Where an operand has been
read an operator has to follow, and a name is an operator in such a place only. The
text of a location path is one operand, however it goes on behind its beginning.

`Reads` is what the reader makes of a text in parentheses, whatever stands around
them, and `read?_conjunction` puts such texts together.
-/

namespace Schematron

namespace XPath

open Grammar

inductive Operator where
  | and
  | equal
  | notEqual
  | less
  | lessOrEqual
  | greater
  | greaterOrEqual
  | mod
  deriving DecidableEq, Repr

namespace Operator

/-- Every operator, behind those that go on where it ends. -/
def all : List Operator :=
  [and, mod, notEqual, lessOrEqual, greaterOrEqual, equal, less, greater]

def spelling : Operator → List Char
  | and => ['a', 'n', 'd']
  | equal => ['=']
  | notEqual => ['!', '=']
  | less => ['<']
  | lessOrEqual => ['<', '=']
  | greater => ['>']
  | greaterOrEqual => ['>', '=']
  | mod => ['m', 'o', 'd']

/-- Whether an operator is spelled as a name, which has to end where it ends. -/
def isNamed : Operator → Bool
  | and => true
  | mod => true
  | _ => false

/-- How tightly an operator binds. -/
def level : Operator → Nat
  | and => 0
  | equal => 1
  | notEqual => 1
  | less => 2
  | lessOrEqual => 2
  | greater => 2
  | greaterOrEqual => 2
  | mod => 3

end Operator

/-! ### Evaluation -/

/-- An expression about the value of a field. -/
inductive Expr where
  | field
  | literal (n : Nat)
  | negative (e : Expr)
  /-- A call of `number`. -/
  | number (e : Expr)
  | binary (o : Operator) (l r : Expr)
  deriving DecidableEq, Repr

inductive Value where
  | number (n : Int)
  | boolean (b : Bool)
  deriving DecidableEq, Repr

namespace Value

def number? : Value → Option Int
  | number n => some n
  | boolean _ => none

def boolean? : Value → Option Bool
  | number _ => none
  | boolean b => some b

end Value

/-- What an operator makes of two values. Comparisons are between numbers and `and` is between
truth values here, and a remainder has to exist. -/
def Operator.apply : Operator → Value → Value → Option Value
  | and, .boolean a, .boolean b => some (.boolean (a && b))
  | equal, .number a, .number b => some (.boolean (a = b))
  | notEqual, .number a, .number b => some (.boolean (a ≠ b))
  | less, .number a, .number b => some (.boolean (a < b))
  | lessOrEqual, .number a, .number b => some (.boolean (a ≤ b))
  | greater, .number a, .number b => some (.boolean (b < a))
  | greaterOrEqual, .number a, .number b => some (.boolean (b ≤ a))
  | mod, .number a, .number b => if b = 0 then none else some (.number (a.tmod b))
  | _, _, _ => none

/-- The value of an expression for an integer in the field. The field is compared as the number
that it holds. -/
def eval (n : Int) : Expr → Option Value
  | .field => some (.number n)
  | .literal m => some (.number m)
  | .negative e => ((eval n e).bind Value.number?).map fun m => .number (-m)
  | .number e => ((eval n e).bind Value.number?).map .number
  | .binary o l r => (eval n l).bind fun a => (eval n r).bind fun b => o.apply a b

/-! ### Reading -/

inductive Token where
  | opening
  | closing
  /-- The name `number` with the parenthesis behind it. -/
  | call
  | minus
  | field
  | literal (n : Nat)
  | operator (o : Operator)
  deriving DecidableEq, Repr

/-- What has begun and waits for an operand. -/
inductive Waiting where
  | minus
  | left (l : Expr) (o : Operator)
  | parenthesis
  | call
  deriving DecidableEq, Repr

/-- How far a text has been read. -/
structure Reader where
  /-- What waits for an operand, the last one first. -/
  waiting : List Waiting
  /-- The operand that was read last, if no operator has come behind it. -/
  operand : Option Expr
  deriving DecidableEq, Repr

/-- An operand with the minus signs before it, which bind tighter than all operators. -/
def settle : List Waiting → Expr → Reader
  | .minus :: waiting, e => settle waiting (.negative e)
  | waiting, e => ⟨waiting, some e⟩

/-- The operators that wait for an operand take it, down to a level. -/
def gather (level : Nat) : List Waiting → Expr → List Waiting × Expr
  | .left l o :: waiting, e =>
    if level ≤ o.level then gather level waiting (.binary o l e) else (.left l o :: waiting, e)
  | waiting, e => (waiting, e)

namespace Reader

/-- The reader behind a token, if the token is in its place. -/
def step (r : Reader) : Token → Option Reader
  | .opening => if r.operand.isNone then some ⟨.parenthesis :: r.waiting, none⟩ else none
  | .call => if r.operand.isNone then some ⟨.call :: r.waiting, none⟩ else none
  | .minus => if r.operand.isNone then some ⟨.minus :: r.waiting, none⟩ else none
  | .field => if r.operand.isNone then some (settle r.waiting .field) else none
  | .literal n => if r.operand.isNone then some (settle r.waiting (.literal n)) else none
  | .operator o => r.operand.map fun e =>
    let (waiting, e) := gather o.level r.waiting e
    ⟨.left e o :: waiting, none⟩
  | .closing => r.operand.bind fun e =>
    match gather 0 r.waiting e with
    | (.parenthesis :: waiting, e) => some (settle waiting e)
    | (.call :: waiting, e) => some (settle waiting (.number e))
    | _ => none

/-- The expression that was read, if nothing waits any more. -/
def expr? (r : Reader) : Option Expr :=
  r.operand.bind fun e =>
    match gather 0 r.waiting e with
    | ([], e) => some e
    | _ => none

end Reader

def callSpelling : List Char := ['n', 'u', 'm', 'b', 'e', 'r', '(']

/-- The token at the beginning of a text where an operand has to stand, and its length. A field
ends where a name ends. -/
def operandAt (context text : List Char) : Option (Token × Nat) :=
  if callSpelling <+: text then some (.call, callSpelling.length)
  else if context <+: text then
    if (text.drop context.length).head?.any isNameChar then none else some (.field, context.length)
  else if text.head? = some '(' then some (.opening, 1)
  else if text.head? = some '-' then some (.minus, 1)
  else
    let ds := text.takeWhile Char.isDigit
    if ds = [] then none else some (.literal (Decimal.ofDigits ds), ds.length)

/-- The token at the beginning of a text behind an operand, and its length. -/
def operatorAt (text : List Char) : Option (Token × Nat) :=
  if text.head? = some ')' then some (.closing, 1)
  else
    (Operator.all.find? fun o => o.spelling <+: text ∧
        ¬ (o.isNamed ∧ (text.drop o.spelling.length).head?.any isNameChar)).map
      fun o => (.operator o, o.spelling.length)

/-- The next token and its length, where an operand has to stand or behind one. -/
def Reader.tokenAt (r : Reader) (context text : List Char) : Option (Token × Nat) :=
  match r.operand with
  | none => operandAt context text
  | some _ => operatorAt text

/-- The reader behind a text of which some characters are read already. -/
def readFrom (context : List Char) : Reader → Nat → List Char → Option Reader
  | r, _, [] => some r
  | r, done + 1, _ :: rest => readFrom context r done rest
  | r, 0, c :: rest =>
    if isSpace c then readFrom context r 0 rest
    else
      (r.tokenAt context (c :: rest)).bind fun found =>
        (r.step found.1).bind fun r => readFrom context r (found.2 - 1) rest

/-- The expression that a text spells, in which the context is the field. -/
def read? (context text : String) : Option Expr :=
  (readFrom context.toList ⟨[], none⟩ 0 text.toList).bind Reader.expr?

/-- Whether a test holds of an integer in the field, if it is a test of this sort. -/
def holds? (context test : String) (n : Int) : Option Bool :=
  ((read? context test).bind (eval n)).bind Value.boolean?

variable {context text rest : List Char} {r r' : Reader} {waiting before : List Waiting}
variable {e acc : Expr} {n : Int}

/-! ### What is read token by token -/

theorem readFrom_skip (r : Reader) (read rest : List Char) :
    readFrom context r read.length (read ++ rest) = readFrom context r 0 rest := by
  induction read with
  | nil => rfl
  | cons c read ih => exact ih

theorem readFrom_space : readFrom context r 0 (' ' :: rest) = readFrom context r 0 rest := by
  rw [readFrom, if_pos (by decide)]

theorem readFrom_token (spelling : List Char) {token : Token}
    (begun : ∃ c ∈ spelling.head?, isSpace c = false)
    (found : r.tokenAt context (spelling ++ rest) = some (token, spelling.length))
    (stepped : r.step token = some r') :
    readFrom context r 0 (spelling ++ rest) = readFrom context r' 0 rest := by
  obtain ⟨first, here, visible⟩ := begun
  cases spelling with
  | nil => cases here
  | cons c more =>
      cases here
      rw [List.cons_append] at found ⊢
      rw [readFrom, if_neg (by simp [visible]), found, Option.bind_some, stepped,
        Option.bind_some]
      exact readFrom_skip r' more rest

theorem operandAt_call : operandAt context (callSpelling ++ rest) =
    some (.call, callSpelling.length) := by
  unfold operandAt
  rw [if_pos (List.prefix_append _ _)]

/-- A text that begins as a location path does: with none of the characters that begin another
operand, and with no call of `number`. -/
structure BeginsPath (context : List Char) : Prop where
  first : ∃ c ∈ context.head?, isSpace c = false ∧ c.isDigit = false ∧ c ≠ '(' ∧ c ≠ '-'
  uncalled : ¬ callSpelling <+: context

namespace BeginsPath

theorem begun (begins : BeginsPath context) : ∃ c ∈ context.head?, isSpace c = false := by
  obtain ⟨first, here, visible, -⟩ := begins.first
  exact ⟨first, here, visible⟩

/-- A location path does not begin where another operand does. -/
theorem not_prefix (begins : BeginsPath context) {c : Char}
    (other : c.isDigit = true ∨ c = '(' ∨ c = '-') : ¬ context <+: c :: rest := by
  obtain ⟨first, here, -, no_digit, no_parenthesis, no_minus⟩ := begins.first
  cases context with
  | nil => cases here
  | cons d more =>
      cases here
      rw [List.cons_prefix_cons]
      rintro ⟨rfl, -⟩
      rcases other with digit | same | same
      · rw [digit] at no_digit
        cases no_digit
      · exact no_parenthesis same
      · exact no_minus same

/-- A location path does not turn into a call by the parenthesis behind it. -/
theorem not_call_prefix (begins : BeginsPath context) :
    ¬ callSpelling <+: context ++ ')' :: rest := by
  have unclosed : ')' ∉ callSpelling := by decide
  have closed : context ++ [')'] <+: context ++ ')' :: rest := ⟨rest, by simp⟩
  intro called
  -- The call ends before the parenthesis behind the path, or else it would hold that parenthesis.
  rcases List.prefix_or_prefix_of_prefix called closed with shorter | longer
  · rcases List.prefix_concat_iff.mp shorter with same | shorter
    · exact unclosed (same ▸ by simp)
    · exact begins.uncalled shorter
  · exact unclosed (longer.subset (by simp))

theorem operandAt_opening (begins : BeginsPath context) :
    operandAt context ('(' :: rest) = some (.opening, 1) := by
  unfold operandAt
  rw [if_neg (by simp [callSpelling, List.cons_prefix_cons]),
    if_neg (begins.not_prefix (.inr (.inl rfl))), if_pos List.head?_cons]

theorem operandAt_minus (begins : BeginsPath context) :
    operandAt context ('-' :: rest) = some (.minus, 1) := by
  unfold operandAt
  rw [if_neg (by simp [callSpelling, List.cons_prefix_cons]),
    if_neg (begins.not_prefix (.inr (.inr rfl))), if_neg (by simp), if_pos List.head?_cons]

theorem operandAt_field (begins : BeginsPath context) :
    operandAt context (context ++ ')' :: rest) = some (.field, context.length) := by
  have ends : isNameChar ')' = false := by decide
  unfold operandAt
  rw [if_neg begins.not_call_prefix, if_pos (List.prefix_append _ _), List.drop_left]
  simp [ends]

theorem operandAt_literal (begins : BeginsPath context) (m : Nat)
    (stops : ∀ c ∈ rest.head?, c.isDigit = false) :
    operandAt context (Decimal.digits m ++ rest) =
      some (.literal m, (Decimal.digits m).length) := by
  have all_digits : ∀ c ∈ Decimal.digits m, c.isDigit = true :=
    fun c member => Decimal.isDigit_of_mem_digits member
  have whole : (Decimal.digits m ++ rest).takeWhile Char.isDigit = Decimal.digits m := by
    rw [List.takeWhile_append_of_pos all_digits]
    cases rest with
    | nil => simp
    | cons c more => simp [stops c rfl]
  obtain ⟨d, ds, same⟩ := List.exists_cons_of_ne_nil (Decimal.digits_ne_nil m)
  have digit : d.isDigit = true := all_digits d (same ▸ List.mem_cons_self)
  have head_ne {c : Char} (other : c.isDigit = false) :
      (Decimal.digits m ++ rest).head? ≠ some c := by
    rw [same, List.cons_append, List.head?_cons]
    rintro ⟨rfl⟩
    rw [digit] at other
    cases other
  have uncalled : ¬ callSpelling <+: Decimal.digits m ++ rest := by
    intro called
    obtain ⟨more, text⟩ := called
    exact head_ne (c := 'n') (by decide) (by rw [← text]; rfl)
  have other : ¬ context <+: Decimal.digits m ++ rest := by
    rw [same]
    exact begins.not_prefix (.inl digit)
  unfold operandAt
  rw [if_neg uncalled, if_neg other, if_neg (head_ne (by decide)), if_neg (head_ne (by decide)),
    whole]
  simp only [Decimal.ofDigits_digits, Decimal.digits_ne_nil, if_false]

end BeginsPath

theorem operatorAt_closing : operatorAt (')' :: rest) = some (.closing, 1) := rfl

/-- An operator is found if a space stands behind it. -/
theorem operatorAt_spelling (o : Operator) : operatorAt (o.spelling ++ ' ' :: rest) =
    some (.operator o, o.spelling.length) := by
  have ends : isNameChar ' ' = false := by decide
  unfold operatorAt
  cases o <;> simp [Operator.all, Operator.spelling, Operator.isNamed, List.cons_prefix_cons, ends]

/-! ### Parts of a test -/

theorem isSpace_of_isDigit {c : Char} (digit : c.isDigit = true) : isSpace c = false := by
  refine Bool.eq_false_iff.mpr fun space => ?_
  simp only [isSpace, Bool.or_eq_true, decide_eq_true_eq] at space
  rcases space with ((rfl | rfl) | rfl) | rfl <;> cases digit

theorem gather_parenthesis (level : Nat) :
    gather level (.parenthesis :: waiting) e = (.parenthesis :: waiting, e) := rfl

theorem gather_left {level : Nat} {l : Expr} {o : Operator} (tighter : level ≤ o.level) :
    gather level (.left l o :: waiting) e = gather level waiting (.binary o l e) := by
  rw [gather, if_pos tighter]

/-- An operator with spaces around it takes what waits for an operand and binds no looser. -/
theorem readFrom_operator (o : Operator) {l : Expr}
    (gathered : gather o.level waiting e = (before, l)) :
    readFrom context ⟨waiting, some e⟩ 0 (' ' :: (o.spelling ++ ' ' :: rest)) =
      readFrom context ⟨.left l o :: before, none⟩ 0 rest := by
  have begun : ∃ c ∈ o.spelling.head?, isSpace c = false := by
    cases o <;> exact ⟨_, rfl, by decide⟩
  have found : Reader.tokenAt ⟨waiting, some e⟩ context (o.spelling ++ ' ' :: rest) =
      some (.operator o, o.spelling.length) := operatorAt_spelling o
  have stepped : Reader.step ⟨waiting, some e⟩ (.operator o) =
      some ⟨.left l o :: before, none⟩ := by
    simp [Reader.step, gathered]
  rw [readFrom_space, readFrom_token o.spelling begun found stepped, readFrom_space]

/-- A closing parenthesis ends what was opened. -/
theorem readFrom_closing (gathered : gather 0 waiting e = (.parenthesis :: before, acc)) :
    readFrom context ⟨waiting, some e⟩ 0 (')' :: rest) =
      readFrom context (settle before acc) 0 rest :=
  readFrom_token [')'] ⟨')', rfl, by decide⟩ operatorAt_closing
    (by simp [Reader.step, gathered])

/-- A text is read as an operand behind an operator. -/
def ReadsOperand (context text : List Char) (e : Expr) : Prop :=
  ∀ l o before rest, readFrom context ⟨.left l o :: before, none⟩ 0 (text ++ ')' :: rest) =
    readFrom context ⟨.left l o :: before, some e⟩ 0 (')' :: rest)

/-- A text in parentheses is read as an operand, whatever stands around it. -/
def Reads (context text : List Char) (e : Expr) : Prop :=
  ∀ waiting rest, readFrom context ⟨waiting, none⟩ 0 ('(' :: (text ++ ')' :: rest)) =
    readFrom context (settle waiting e) 0 rest

namespace BeginsPath

theorem readsOperand_field (begins : BeginsPath context) :
    ReadsOperand context context .field := by
  intro l o before rest
  exact readFrom_token context begins.begun begins.operandAt_field rfl

theorem readFrom_literal (begins : BeginsPath context) (m : Nat)
    (stops : ∀ c ∈ rest.head?, c.isDigit = false) :
    readFrom context ⟨waiting, none⟩ 0 (Decimal.digits m ++ rest) =
      readFrom context (settle waiting (.literal m)) 0 rest := by
  have begun : ∃ c ∈ (Decimal.digits m).head?, isSpace c = false := by
    obtain ⟨d, ds, same⟩ := List.exists_cons_of_ne_nil (Decimal.digits_ne_nil m)
    have digit : d.isDigit = true := Decimal.isDigit_of_mem_digits (same ▸ List.mem_cons_self)
    exact ⟨d, by rw [same]; rfl, isSpace_of_isDigit digit⟩
  exact readFrom_token (Decimal.digits m) begun (begins.operandAt_literal m stops) rfl

/-- An integer is written with a minus sign before its digits if it is negative. -/
theorem readsOperand_integer (begins : BeginsPath context) (negative : Bool) (m : Nat) :
    ReadsOperand context (if negative then '-' :: Decimal.digits m else Decimal.digits m)
      (if negative then .negative (.literal m) else .literal m) := by
  intro l o before rest
  have stops : ∀ c ∈ (')' :: rest).head?, c.isDigit = false := by
    rintro c ⟨rfl⟩
    decide
  cases negative with
  | false => exact begins.readFrom_literal m stops
  | true =>
      -- The sign is put on the digits before the operator can take them.
      have signed : readFrom context ⟨.left l o :: before, none⟩ 0
          ('-' :: (Decimal.digits m ++ ')' :: rest)) =
          readFrom context ⟨.minus :: .left l o :: before, none⟩ 0
            (Decimal.digits m ++ ')' :: rest) :=
        readFrom_token ['-'] ⟨'-', rfl, by decide⟩ begins.operandAt_minus rfl
      exact signed.trans (begins.readFrom_literal m stops)

end BeginsPath

/-- The field as a number, with which every condition starts. -/
def numberOf (context : List Char) : List Char := callSpelling ++ context ++ [')']

namespace BeginsPath

theorem readFrom_numberOf (begins : BeginsPath context) :
    readFrom context ⟨waiting, none⟩ 0 ('(' :: (numberOf context ++ rest)) =
      readFrom context ⟨.parenthesis :: waiting, some (.number .field)⟩ 0 rest := by
  have text : numberOf context ++ rest = callSpelling ++ (context ++ ')' :: rest) := by
    simp [numberOf]
  rw [text]
  calc readFrom context ⟨waiting, none⟩ 0 ('(' :: (callSpelling ++ (context ++ ')' :: rest)))
      = readFrom context ⟨.parenthesis :: waiting, none⟩ 0
          (callSpelling ++ (context ++ ')' :: rest)) :=
        readFrom_token ['('] ⟨'(', rfl, by decide⟩ begins.operandAt_opening rfl
    _ = readFrom context ⟨.call :: .parenthesis :: waiting, none⟩ 0 (context ++ ')' :: rest) :=
        readFrom_token callSpelling ⟨'n', rfl, by decide⟩ operandAt_call rfl
    _ = readFrom context ⟨.call :: .parenthesis :: waiting, some .field⟩ 0 (')' :: rest) :=
        readFrom_token context begins.begun begins.operandAt_field rfl
    _ = readFrom context ⟨.parenthesis :: waiting, some (.number .field)⟩ 0 rest :=
        readFrom_token [')'] ⟨')', rfl, by decide⟩ operatorAt_closing rfl

/-- The comparison of the field as a number with another operand. -/
theorem reads_comparison (begins : BeginsPath context) (o : Operator)
    (operand : ReadsOperand context text e) :
    Reads context (numberOf context ++ ' ' :: (o.spelling ++ ' ' :: text))
      (.binary o (.number .field) e) := by
  intro waiting rest
  have tail : numberOf context ++ ' ' :: (o.spelling ++ ' ' :: text) ++ ')' :: rest =
      numberOf context ++ ' ' :: (o.spelling ++ ' ' :: (text ++ ')' :: rest)) := by
    simp
  rw [tail, begins.readFrom_numberOf, readFrom_operator o (gather_parenthesis o.level), operand,
    readFrom_closing ((gather_left (Nat.zero_le _)).trans (gather_parenthesis 0))]

/-- The comparison of its remainder with another operand. -/
theorem reads_remainder (begins : BeginsPath context) (m : Nat) {o : Operator}
    (looser : o.level ≤ Operator.mod.level) (operand : ReadsOperand context text e) :
    Reads context (numberOf context ++ ' ' :: (Operator.mod.spelling ++
        ' ' :: (Decimal.digits m ++ ' ' :: (o.spelling ++ ' ' :: text))))
      (.binary o (.binary .mod (.number .field) (.literal m)) e) := by
  intro waiting rest
  have tail : numberOf context ++ ' ' :: (Operator.mod.spelling ++
        ' ' :: (Decimal.digits m ++ ' ' :: (o.spelling ++ ' ' :: text))) ++ ')' :: rest =
      numberOf context ++ ' ' :: (Operator.mod.spelling ++
        ' ' :: (Decimal.digits m ++ ' ' :: (o.spelling ++ ' ' :: (text ++ ')' :: rest)))) := by
    simp
  have stops : ∀ c ∈ (' ' :: (o.spelling ++ ' ' :: (text ++ ')' :: rest))).head?,
      c.isDigit = false := by
    rintro c ⟨rfl⟩
    decide
  rw [tail, begins.readFrom_numberOf, readFrom_operator .mod (gather_parenthesis _),
    begins.readFrom_literal m stops]
  change readFrom context ⟨_, some (.literal m)⟩ 0 _ = _
  rw [readFrom_operator o ((gather_left looser).trans (gather_parenthesis _)), operand,
    readFrom_closing ((gather_left (Nat.zero_le _)).trans (gather_parenthesis 0))]

end BeginsPath

/-! ### Conjunctions -/

/-- Conditions behind a first one, each in parentheses. -/
def conjuncts (texts : List (List Char)) : List Char :=
  texts.flatMap fun text => ' ' :: (Operator.and.spelling ++ ' ' :: '(' :: (text ++ [')']))

section Conjunction

variable {α : Type} {spelled : α → List Char} {part : α → Expr} {parts : List α}

/-- Behind an operand that gathers all that waits, the reader goes on through the conditions that
follow. -/
theorem expr?_conjuncts (reads : ∀ d ∈ parts, Reads context (spelled d) (part d))
    (gathered : gather 0 waiting e = ([], acc)) :
    (readFrom context ⟨waiting, some e⟩ 0 (conjuncts (parts.map spelled))).bind Reader.expr? =
      some ((parts.map part).foldl (.binary .and) acc) := by
  induction parts generalizing waiting e acc with
  | nil => simp [conjuncts, readFrom, Reader.expr?, gathered]
  | cons d parts ih =>
      obtain ⟨here, later⟩ := List.forall_mem_cons.mp reads
      have unfolded : conjuncts ((d :: parts).map spelled) = ' ' :: (Operator.and.spelling ++
          ' ' :: ('(' :: (spelled d ++ ')' :: conjuncts (parts.map spelled)))) := by
        simp [conjuncts]
      rw [unfolded, readFrom_operator .and gathered, here]
      -- What was joined so far waits to the left of this condition, for the next gathering.
      exact ih later (gather_left (Nat.zero_le _))

/-- Conditions in parentheses that are joined by `and`. -/
theorem read?_conjunction {context test : String} {text : List Char}
    (same : test.toList = '(' :: (text ++ ')' :: conjuncts (parts.map spelled)))
    (first : Reads context.toList text e)
    (more : ∀ d ∈ parts, Reads context.toList (spelled d) (part d)) :
    read? context test = some ((parts.map part).foldl (.binary .and) e) := by
  rw [read?, same, first]
  exact expr?_conjuncts more rfl

/-- A conjunction holds if all of its parts do. -/
theorem eval_conjunction {holds : α → Bool} {b : Bool}
    (first : eval n acc = some (.boolean b))
    (each : ∀ d ∈ parts, eval n (part d) = some (.boolean (holds d))) :
    eval n ((parts.map part).foldl (.binary .and) acc) =
      some (.boolean (b && parts.all holds)) := by
  induction parts generalizing acc b with
  | nil => simpa using first
  | cons d parts ih =>
      obtain ⟨here, later⟩ := List.forall_mem_cons.mp each
      have both : eval n (.binary .and acc (part d)) = some (.boolean (b && holds d)) := by
        rw [eval, first, here]
        rfl
      rw [List.map_cons, List.foldl_cons, ih both later, List.all_cons, Bool.and_assoc]

end Conjunction

end XPath

end Schematron
