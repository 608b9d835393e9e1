import Schematron.Proofs.Json.Numbers

/-!
# JSON texts read back

`Reads v v'` says that the characters of `v` are read as `v'`, whatever follows that
does not continue a number. It holds of a value if it holds of its parts, so the value
that a text is read as is known from the values that its numbers are read as. Strings
are read back as they are, with all their characters.
-/

namespace Schematron

namespace Json

variable {rest : List Char}

/-! ### Strings -/

/-- Two hexadecimal digits are enough for a control character. -/
theorem hexCode?_hexChar {n : ℕ} (small : n < 32) :
    hexCode? '0' '0' (hexChar (n / 16)) (hexChar (n % 16)) = some n := by
  interval_cases n <;> rfl

theorem ofCode_toNat {c : Char} (control : c.toNat < 32) : Piece.ofCode c.toNat = .char c := by
  rw [Piece.ofCode, if_neg (by simp; omega), Char.ofNat_toNat]

/-- The string behind a character, with the character in front. -/
def push (c : Char) (read : List Piece × List Char) : List Piece × List Char :=
  (.char c :: read.1, read.2)

/-- An escape of one letter stands for its character. -/
theorem scanString_letter {e c : Char} (named : escapedChar? e = some c) (other : e ≠ 'u')
    (rest : List Char) : scanString ('\\' :: e :: rest) = (scanString rest).map (push c) := by
  rw [scanString, named]
  · cases scanString rest <;> rfl
  · intro a b c d later same
    exact absurd same other

theorem scanString_code {c : Char} (control : c.toNat < 32) (rest : List Char) :
    scanString ('\\' :: 'u' :: '0' :: '0' ::
      hexChar (c.toNat / 16) :: hexChar (c.toNat % 16) :: rest) =
        (scanString rest).map (push c) := by
  rw [scanString, hexCode?_hexChar control, Option.bind_eq_bind, Option.bind_some,
    ofCode_toNat control]
  cases scanString rest <;> rfl

theorem scanString_plain {c : Char} (quote : c ≠ '"') (slash : c ≠ '\\') (plain : ¬ c < ' ')
    (rest : List Char) : scanString (c :: rest) = (scanString rest).map (push c) := by
  rw [scanString]
  · rw [if_neg (by simp [plain, slash])]
    cases scanString rest <;> rfl
  · exact quote
  · intro a b c d later same
    exact absurd same slash
  · intro e later same
    exact absurd same slash

/-- Each character is read back from what is written for it. -/
theorem scanString_escapeChar (c : Char) (rest : List Char) :
    scanString (escapeChar c ++ rest) = (scanString rest).map (push c) := by
  rw [escapeChar]
  split_ifs with quote slash backspace feed line carriage tab control
  · rw [quote]; exact scanString_letter rfl (by decide) rest
  · rw [slash]; exact scanString_letter rfl (by decide) rest
  · rw [backspace]; exact scanString_letter rfl (by decide) rest
  · rw [feed]; exact scanString_letter rfl (by decide) rest
  · rw [line]; exact scanString_letter rfl (by decide) rest
  · rw [carriage]; exact scanString_letter rfl (by decide) rest
  · rw [tab]; exact scanString_letter rfl (by decide) rest
  · exact scanString_code control rest
  · exact scanString_plain quote slash control rest

theorem scanString_flatMap (cs rest : List Char) :
    scanString (cs.flatMap escapeChar ++ '"' :: rest) = some (cs.map Piece.char, rest) := by
  induction cs with
  | nil => rfl
  | cons c cs ih =>
      rw [List.flatMap_cons, List.append_assoc, scanString_escapeChar, ih]
      rfl

theorem joinPieces_map_char (cs : List Char) : joinPieces (cs.map Piece.char) = some cs := by
  induction cs with
  | nil => rfl
  | cons c cs ih =>
      rw [List.map_cons, joinPieces, ih]
      rfl

/-- A string is read back behind its opening quote. -/
theorem readString_flatMap (s : String) (rest : List Char) :
    readString (s.toList.flatMap escapeChar ++ '"' :: rest) = some (some s, rest) := by
  rw [readString, scanString_flatMap, Option.bind_eq_bind, Option.bind_some]
  dsimp only
  rw [joinPieces_map_char, Option.map_some, String.ofList_toList]
  rfl

/-! ### Values -/

/-- The character can begin a value, and is neither a blank nor a closing bracket. -/
def Begins (c : Char) : Prop := isBlank c = false ∧ c ≠ ']' ∧ c ≠ '\x7d'

instance (c : Char) : Decidable (Begins c) := inferInstanceAs (Decidable (_ ∧ _))

theorem begins_of_isDigit {c : Char} (digit : c.isDigit = true) : Begins c := by
  refine ⟨?_, ne_of_isDigit digit (by decide), ne_of_isDigit digit (by decide)⟩
  by_contra blank
  simp only [isBlank, Bool.not_eq_false, Bool.or_eq_true, decide_eq_true_eq] at blank
  rcases blank with ((same | same) | same) | same
  all_goals exact ne_of_isDigit digit (by decide) same

theorem exists_begins_of_readValue {depth : ℕ} {cs : List Char} {v : Json × List Char}
    (read : readValue depth cs = some v) : ∃ c more, cs = c :: more ∧ Begins c := by
  cases depth with
  | zero => cases read
  | succ depth =>
      rw [readValue.eq_def] at read
      dsimp only at read
      split at read
      · exact ⟨_, _, rfl, by decide⟩
      · exact ⟨_, _, rfl, by decide⟩
      · exact ⟨_, _, rfl, by decide⟩
      · exact ⟨_, _, rfl, by decide⟩
      · exact ⟨_, _, rfl, by decide⟩
      · exact ⟨_, _, rfl, by decide⟩
      · rw [readNumber.eq_def] at read
        split at read
        · exact ⟨_, _, rfl, by decide⟩
        · obtain ⟨c, more, rfl, digit⟩ := exists_digit_of_readUnsigned read
          exact ⟨c, more, rfl, begins_of_isDigit digit⟩

theorem skipBlanks_cons {c : Char} (begins : Begins c) (rest : List Char) :
    skipBlanks (c :: rest) = c :: rest :=
  List.dropWhile_cons_of_neg (by rw [begins.1]; decide)

/-- The characters of the first value are read as the second one, whatever follows. -/
def Reads (v v' : Json) : Prop := ∀ depth rest, v.chars.length ≤ depth + 1 → Stops rest →
  readValue (depth + 1) (v.chars ++ rest) = some (v', rest)

theorem Stops.nil : Stops [] := nofun

theorem Stops.cons {c : Char} (ends : c.isDigit = false ∧ c ≠ '.' ∧ c ≠ 'e' ∧ c ≠ 'E') :
    Stops (c :: rest) := by
  intro d first
  rw [← Option.some.inj first]
  exact ends

namespace Reads

variable {v v' : Json}

theorem exists_begins (h : Reads v v') : ∃ c more, v.chars = c :: more ∧ Begins c := by
  have read := h v.chars.length [] (Nat.le_succ _) .nil
  rw [List.append_nil] at read
  exact exists_begins_of_readValue read

theorem skipBlanks_chars (h : Reads v v') (rest : List Char) :
    skipBlanks (v.chars ++ rest) = v.chars ++ rest := by
  obtain ⟨c, more, written, begins⟩ := h.exists_begins
  rw [written, List.cons_append, skipBlanks_cons begins]

/-- The text of a value is read as the value that its characters are read as. -/
theorem parse_print (h : Reads v v') : parse v.print = some v' := by
  have skipped := h.skipBlanks_chars []
  rw [List.append_nil] at skipped
  have read := h v.chars.length [] (Nat.le_succ _) .nil
  rw [List.append_nil] at read
  rw [parse, print, String.toList_ofList, parseChars, skipped, read]
  rfl

theorem null : Reads .null .null := fun _ _ _ _ => rfl

theorem bool (b : Bool) : Reads (.bool b) (.bool b) := by
  intro depth rest _ _
  cases b with
  | true => rfl
  | false => rfl

theorem integer (n : ℤ) : Reads (.integer n) (.integer n) :=
  fun depth _ _ stops => readValue_integer n depth stops

theorem decimal {d : Decimal} (shown : d.coefficient = 0 → d.exponent ≤ 0) :
    Reads (.decimal d) (.decimal d.retold) :=
  fun depth _ _ stops => readValue_decimal shown depth stops

theorem string (s : String) : Reads (.ofString s) (.ofString s) := by
  intro depth rest _ _
  have written : (ofString s).chars ++ rest =
      '"' :: (s.toList.flatMap escapeChar ++ '"' :: rest) := by
    simp [ofString, chars, stringChars, quoted]
  rw [written, readValue, readString_flatMap]
  rfl

/-! ### Arrays and objects -/

theorem chars_pos (h : Reads v v') : 0 < v.chars.length := by
  obtain ⟨c, more, written, -⟩ := h.exists_begins
  rw [written]
  exact Nat.succ_pos _

/-- A value in front of a comma or a closing bracket. -/
theorem before {mark : Char} (h : Reads v v')
    (ends : mark.isDigit = false ∧ mark ≠ '.' ∧ mark ≠ 'e' ∧ mark ≠ 'E') {depth : ℕ}
    (enough : v.chars.length ≤ depth) (rest : List Char) :
    readValue depth (v.chars ++ mark :: rest) = some (v', mark :: rest) := by
  obtain ⟨depth, rfl⟩ := Nat.exists_eq_add_one.mpr (h.chars_pos.trans_le enough)
  exact h depth (mark :: rest) enough (.cons ends)

variable {items items' : List Json} {members members' : List (String × Json)}

theorem skipBlanks_itemsChars (first : Reads v v') (items : List Json) (rest : List Char) :
    skipBlanks (itemsChars (v :: items) ++ rest) = itemsChars (v :: items) ++ rest := by
  rw [itemsChars, List.append_assoc]
  exact first.skipBlanks_chars _

/-- Items that are read on their own are read one after the other. -/
theorem readItems_itemsChars (first : Reads v v') (later : List.Forall₂ Reads items items')
    {depth : ℕ} (enough : (itemsChars (v :: items)).length ≤ depth) (rest : List Char) :
    readItems (depth + 1) (itemsChars (v :: items) ++ ']' :: rest) =
      some (v' :: items', rest) := by
  induction later generalizing v v' depth with
  | nil =>
      rw [itemsChars, moreItemsChars, List.append_nil] at enough ⊢
      rw [readItems, first.before (by decide) enough]
      rfl
  | @cons next next' more more' second later ih =>
      have written : itemsChars (v :: next :: more) = v.chars ++ ',' :: itemsChars (next :: more) :=
        rfl
      rw [written, List.length_append, List.length_cons] at enough
      obtain ⟨depth, rfl⟩ := Nat.exists_eq_add_one.mpr
        (first.chars_pos.trans_le (show v.chars.length ≤ depth by omega))
      have others := @ih next next' second depth (by omega)
      have comma : skipBlanks (',' :: (itemsChars (next :: more) ++ ']' :: rest)) =
          ',' :: (itemsChars (next :: more) ++ ']' :: rest) := rfl
      rw [written, List.append_assoc, List.cons_append, readItems,
        first.before (by decide) (by omega)]
      simp only [Option.bind_eq_bind, Option.bind_some, comma, second.skipBlanks_itemsChars, others]
      rfl

theorem array (each : List.Forall₂ Reads items items') : Reads (.array items) (.array items') := by
  intro depth rest enough _
  cases each with
  | nil => rfl
  | @cons v v' more more' first later =>
      have written : (array (v :: more)).chars ++ rest =
          '[' :: (itemsChars (v :: more) ++ ']' :: rest) := by
        simp [chars]
      have short : (itemsChars (v :: more)).length + 2 ≤ depth + 1 := by
        simpa [chars] using enough
      obtain ⟨depth, rfl⟩ := Nat.exists_eq_add_one.mpr (show 0 < depth by omega)
      have read := readItems_itemsChars first later (show _ ≤ depth by omega) rest
      obtain ⟨c, tail, starts, begins⟩ := first.exists_begins
      have no_end : ∀ later, itemsChars (v :: more) ++ ']' :: rest ≠ ']' :: later := by
        intro later same
        rw [itemsChars, starts] at same
        exact begins.2.1 (List.cons.inj same).1
      rw [written, readValue, first.skipBlanks_itemsChars]
      split
      · next same => exact absurd same (no_end _)
      · rw [read]
        rfl

/-- A member in front of a comma or the closing brace. What follows is read behind it. -/
theorem readMembers_memberChars {mark : Char} (name : String) (h : Reads v v')
    (ends : mark.isDigit = false ∧ mark ≠ '.' ∧ mark ≠ 'e' ∧ mark ≠ 'E') {depth : ℕ}
    (enough : v.chars.length ≤ depth) (rest : List Char) :
    readMembers (depth + 1) (memberChars (some name, v) ++ mark :: rest) =
      match skipBlanks (mark :: rest) with
      | ',' :: rest => do
        let (members, rest) ← readMembers depth (skipBlanks rest)
        return ((some name, v') :: members, rest)
      | '\x7d' :: rest => return ([(some name, v')], rest)
      | _ => none := by
  have written : memberChars (some name, v) ++ mark :: rest =
      '"' :: (name.toList.flatMap escapeChar ++ '"' :: ':' :: (v.chars ++ mark :: rest)) := by
    simp [memberChars, stringChars, quoted]
  have colon : skipBlanks (':' :: (v.chars ++ mark :: rest)) =
      ':' :: (v.chars ++ mark :: rest) := rfl
  rw [written, readMembers, readString_flatMap]
  simp only [Option.bind_eq_bind, Option.bind_some, colon, h.skipBlanks_chars]
  rw [h.before ends enough]
  rfl

variable {members members' : List (String × Json)}

/-- The members of an object with readable names. -/
def named (members : List (String × Json)) : List (Option String × Json) :=
  members.map fun m => (some m.1, m.2)

/-- The first member is read as the second one. -/
def Member (m m' : String × Json) : Prop := m.1 = m'.1 ∧ Reads m.2 m'.2

theorem membersChars_named_cons_cons (m next : String × Json) (more : List (String × Json)) :
    membersChars (named (m :: next :: more)) =
      memberChars (some m.1, m.2) ++ ',' :: membersChars (named (next :: more)) := rfl

theorem length_le_membersChars (m : String × Json) (members : List (String × Json)) :
    m.2.chars.length ≤ (membersChars (named (m :: members))).length := by
  simp only [named, membersChars, memberChars, List.map_cons, List.length_append, List.length_cons]
  omega

/-- Members that are read on their own are read one after the other. -/
theorem readMembers_membersChars {m m' : String × Json} (first : Member m m')
    (later : List.Forall₂ Member members members') {depth : ℕ}
    (enough : (membersChars (named (m :: members))).length ≤ depth) (rest : List Char) :
    readMembers (depth + 1) (membersChars (named (m :: members)) ++ '\x7d' :: rest) =
      some (named (m' :: members'), rest) := by
  induction later generalizing m m' depth with
  | nil =>
      obtain ⟨same, value⟩ := first
      have short := (length_le_membersChars m []).trans enough
      have written : membersChars (named [m]) = memberChars (some m.1, m.2) := by
        simp [named, membersChars, moreMembersChars]
      rw [written, readMembers_memberChars m.1 value (by decide) short, same]
      rfl
  | @cons next next' more more' second later ih =>
      obtain ⟨same, value⟩ := first
      have short := (length_le_membersChars m (next :: more)).trans enough
      rw [membersChars_named_cons_cons, List.length_append, List.length_cons] at enough
      obtain ⟨depth, rfl⟩ := Nat.exists_eq_add_one.mpr (value.chars_pos.trans_le short)
      have others := @ih next next' second depth (by omega)
      have comma : skipBlanks (',' :: (membersChars (named (next :: more)) ++ '\x7d' :: rest)) =
          ',' :: (membersChars (named (next :: more)) ++ '\x7d' :: rest) := rfl
      have quote : skipBlanks (membersChars (named (next :: more)) ++ '\x7d' :: rest) =
          membersChars (named (next :: more)) ++ '\x7d' :: rest := rfl
      rw [membersChars_named_cons_cons, List.append_assoc, List.cons_append,
        readMembers_memberChars m.1 value (by decide) short, same]
      simp only [comma, quote, others]
      rfl

/-- An object is read as the object of the values that its members are read as. -/
theorem ofMembers (each : List.Forall₂ Member members members') :
    Reads (.ofMembers members) (.ofMembers members') := by
  intro depth rest enough _
  cases each with
  | nil => rfl
  | @cons m m' more more' first later =>
      have written : (Json.ofMembers (m :: more)).chars ++ rest =
          '\x7b' :: (membersChars (named (m :: more)) ++ '\x7d' :: rest) := by
        simp [Json.ofMembers, chars, named]
      have short : (membersChars (named (m :: more))).length + 2 ≤ depth + 1 := by
        simpa [Json.ofMembers, chars, named] using enough
      obtain ⟨depth, rfl⟩ := Nat.exists_eq_add_one.mpr (show 0 < depth by omega)
      have read := readMembers_membersChars first later (show _ ≤ depth by omega) rest
      have quote : skipBlanks (membersChars (named (m :: more)) ++ '\x7d' :: rest) =
          membersChars (named (m :: more)) ++ '\x7d' :: rest := rfl
      rw [written, readValue, quote]
      split
      · next later same => exact absurd (List.cons.inj same).1 (by decide)
      · rw [read]
        rfl

end Reads

end Json

end Schematron
