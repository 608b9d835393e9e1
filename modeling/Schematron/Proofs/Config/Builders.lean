import Schematron.Config.Kind
import Schematron.Config.OutputOptions
import Schematron.Proofs.Config.Shapes

/-!
# Configuration and builders

Ranges, sets and options are set up by configuration or by calls, each of which changes one
setting. `told` says what a member of an object asks for as such calls. `shapes_agree` states
that the two ways lead to the same record, in whatever order the members are written, and that
a list is a short form of an object. A kind is read alike in any order, too, although its
members are kept until its name is known.

A comparison with `null` asks for nothing. It does set the bound to none, and that is the same
because no bound was set before: a second member for the comparison is refused.
-/

namespace Schematron

open Config

/-! ### Ranges -/

namespace NumericRange

/-- What a member of a range's object asks for. An unknown name asks for nothing, and neither does
a comparison with `null`. -/
def told (name : String) (value : Json) : Option (List Setting) :=
  if name = "even" then (readBool value).map fun b => [.even b]
  else if name = "odd" then (readBool value).map fun b => [.odd b]
  else
    match Comparison.ofName? name with
    | some c => (Number.boundOfJson? value).map fun n => n.toList.map fun n => .bound c (some n)
    | none => some []

theorem withBound_comm (r : NumericRange) {c d : Comparison} (differ : c ≠ d)
    (n m : Option Number) : (r.withBound c n).withBound d m = (r.withBound d m).withBound c n := by
  cases c <;> cases d <;> first | rfl | exact absurd rfl differ

/-- A bound that is there already changes nothing. -/
theorem withBound_bound {r : NumericRange} {c : Comparison} {n : Option Number}
    (there : r.bound c = n) : r.withBound c n = r := by
  subst there
  cases c <;> rfl

theorem distinct_names : (fields.flatMap Field.names).Nodup := by
  simp [fields, Field.names, Comparison.all, Comparison.field, Comparison.name]

theorem fields_commute : fields.Pairwise Field.Commutes := by
  have comparisons : Comparison.all.Pairwise (· ≠ ·) := by decide
  refine .cons (List.forall_mem_cons.mpr ⟨?_, ?_⟩) (.cons ?_ ?_)
  · exact .of_map (fun _ _ => rfl) (fun _ _ => rfl) fun _ _ _ => rfl
  · intro f mem
    obtain ⟨c, -, rfl⟩ := List.mem_map.mp mem
    exact .of_map (fun _ _ => rfl) (fun _ _ => rfl) fun _ _ _ => by cases c <;> rfl
  · intro f mem
    obtain ⟨c, -, rfl⟩ := List.mem_map.mp mem
    exact .of_map (fun _ _ => rfl) (fun _ _ => rfl) fun _ _ _ => by cases c <;> rfl
  · refine List.pairwise_map.mpr (comparisons.imp fun differ => ?_)
    exact .of_map (fun _ _ => rfl) (fun _ _ => rfl) fun _ _ r => r.withBound_comm differ _ _

/-- What a name can be. -/
theorem name_cases (name : String) : name = "even" ∨ name = "odd" ∨ (∃ c, name = Comparison.name c) ∨
    (∀ f ∈ fields, f.isNamed (some name) = false) ∧ ∀ value, told name value = some [] := by
  by_cases even : name = "even"
  · exact .inl even
  by_cases odd : name = "odd"
  · exact .inr (.inl odd)
  cases found : Comparison.ofName? name with
  | some c =>
      have named := List.find?_some found
      exact .inr (.inr (.inl ⟨c, (of_decide_eq_true named).symm⟩))
  | none =>
      have other : ∀ c, name ≠ Comparison.name c := by
        rintro c rfl
        rw [Comparison.ofName?_name] at found
        cases found
      refine .inr (.inr (.inr ⟨?_, fun value => ?_⟩))
      · refine List.forall_mem_cons.mpr ⟨by simp [Field.isNamed, even],
          List.forall_mem_cons.mpr ⟨by simp [Field.isNamed, odd], ?_⟩⟩
        intro f mem
        obtain ⟨c, -, rfl⟩ := List.mem_map.mp mem
        simp [Field.isNamed, Comparison.field, other]
      · simp [told, even, odd, found]

theorem setMember_comparison (c : Comparison) (value : Json) (r : NumericRange) :
    setMember fields r (some c.name, value) =
      (Number.boundOfJson? value).map fun n => r.set (.bound c n) := by
  cases c <;> rfl

theorem told_comparison (c : Comparison) (value : Json) :
    told c.name value =
      (Number.boundOfJson? value).map fun n => n.toList.map fun n => .bound c (some n) := by
  cases c <;> rfl

/-- No bound is set yet of the comparisons that are still to be read, each of them once. -/
def Unread (members : List (Option String × Json)) (r : NumericRange) : Prop :=
  Once fields members ∧ ∀ c, c.field.given members ≠ [] → r.bound c = none

/-- A member of a range's object does what it asks for. -/
theorem setMember_eq (name : String) (value : Json) (rest : List (Option String × Json))
    (r : NumericRange) (unread : Unread ((some name, value) :: rest) r) :
    setMember fields r (some name, value) =
        (told name value).map (fun calls => calls.foldl set r) ∧
      ∀ calls, told name value = some calls → Unread rest (calls.foldl set r) := by
  obtain ⟨once, free⟩ := unread
  have free_rest (c : Comparison) (later : c.field.given rest ≠ []) : r.bound c = none := by
    refine free c ?_
    rw [Field.given_cons]
    split
    · simp
    · exact later
  rcases name_cases name with rfl | rfl | ⟨c, rfl⟩ | ⟨foreign, nothing⟩
  · refine ⟨(map_call set (readBool value) Setting.even r).symm, fun calls asked => ?_⟩
    obtain ⟨b, -, rfl⟩ := Option.map_eq_some_iff.mp asked
    exact ⟨once.tail, free_rest⟩
  · refine ⟨(map_call set (readBool value) Setting.odd r).symm, fun calls asked => ?_⟩
    obtain ⟨b, -, rfl⟩ := Option.map_eq_some_iff.mp asked
    exact ⟨once.tail, free_rest⟩
  · -- The comparison is not read again, so nothing but this member can set its bound.
    have given : c.field.given ((some c.name, value) :: rest) =
        value :: c.field.given rest := by
      rw [Field.given_cons, if_pos (by simp [Field.isNamed, Comparison.field])]
    have last : c.field.given rest = [] := by
      have single := once c.field (by simp [fields, Comparison.mem_all])
      rw [given] at single
      simpa using single
    have unset : r.bound c = none := free c (by simp [given])
    rw [setMember_comparison, told_comparison, Option.map_map]
    refine ⟨congrArg (fun f => Option.map f _) (funext fun n => ?_), fun calls asked => ?_⟩
    · cases n with
      | none => exact withBound_bound unset
      | some n => rfl
    · obtain ⟨n, -, rfl⟩ := Option.map_eq_some_iff.mp asked
      refine ⟨once.tail, fun d later => ?_⟩
      have differ : d ≠ c := fun same => later (same ▸ last)
      cases n with
      | none => exact free_rest d later
      | some n => exact (bound_withBound ..).trans ((if_neg differ).trans (free_rest d later))
  · rw [nothing, setMember_of_foreign foreign]
    refine ⟨rfl, fun calls asked => ?_⟩
    cases asked
    exact ⟨once.tail, free_rest⟩

theorem ofJson?_object_eq_some_iff (members : List (Option String × Json)) (r : NumericRange) :
    ofJson? (.object members) = some r ↔ Once fields members ∧
      ∃ calls, settings told members = some calls ∧ r = calls.foldl set unbounded :=
  readMembers_eq_some_iff distinct_names fields_commute fun once readable =>
    foldlM_setMember Unread setMember_eq readable ⟨once, fun c _ => by cases c <;> rfl⟩

end NumericRange

/-! ### Sets -/

namespace ValueSet

/-- What a member of a set's object asks for: its texts, under either name. -/
def told (name : String) (value : Json) : Option (List (List String)) :=
  if name = "values" ∨ name = "in" then (readTexts value).map fun texts => [texts] else some []

theorem ofJson?_object_eq_some_iff (members : List (Option String × Json)) (s : ValueSet) :
    ofJson? (.object members) = some s ↔ Once fields members ∧
      ∃ calls, settings told members = some calls ∧
        s = calls.foldl (fun _ texts => ⟨texts⟩) empty := by
  have each (name : String) (value : Json) (s : ValueSet) :
      setMember fields s (some name, value) =
        (told name value).map fun calls => calls.foldl (fun _ texts => ⟨texts⟩) s := by
    by_cases named : name = "values" ∨ name = "in"
    · have known : told name value = (readTexts value).map fun texts => [texts] := if_pos named
      rw [known, map_call]
      exact if_pos (by simpa [Field.isNamed] using named)
    · have unknown : told name value = some [] := if_neg named
      rw [unknown]
      exact if_neg (by simpa [Field.isNamed] using named)
  exact readMembers_eq_some_iff (by simp [fields, Field.names]) (List.pairwise_singleton _ _)
    fun _ readable => foldlM_setMember (fun _ _ => True)
      (fun name value _ s _ => ⟨each name value s, fun _ _ => trivial⟩) readable trivial

end ValueSet

/-! ### Options -/

namespace OutputOptions

/-- What a member of the options' object asks for. -/
def told (name : String) (value : Json) : Option (List Setting) :=
  match name with
  | "indent" => (readWord value).map fun n => [.indent n]
  | "indent_char" => (readChar value).map fun c => [.indentChar c]
  | "xml_declaration" => (readBool value).map fun b => [.xmlDeclaration b]
  | "prefix" => (readText value).map fun s => [.nsPrefix s]
  | "namespace_uri" => (readText value).map fun s => [.namespaceUri s]
  | _ => some []

theorem distinct_names : (fields.flatMap Field.names).Nodup := by simp [fields, Field.names]

theorem fields_commute : fields.Pairwise Field.Commutes := by
  simp only [fields, List.pairwise_cons, List.forall_mem_cons]
  refine ⟨⟨?_, ?_, ?_, ?_, nofun⟩, ⟨?_, ?_, ?_, nofun⟩, ⟨?_, ?_, nofun⟩, ⟨?_, nofun⟩, nofun, .nil⟩
  all_goals exact .of_map (fun _ _ => rfl) (fun _ _ => rfl) fun _ _ _ => rfl

theorem setMember_eq (name : String) (value : Json) (o : OutputOptions) :
    setMember fields o (some name, value) =
      (told name value).map fun calls => calls.foldl set o := by
  unfold told
  split
  · exact (map_call set (readWord value) Setting.indent o).symm
  · exact (map_call set (readChar value) Setting.indentChar o).symm
  · exact (map_call set (readBool value) Setting.xmlDeclaration o).symm
  · exact (map_call set (readText value) Setting.nsPrefix o).symm
  · exact (map_call set (readText value) Setting.namespaceUri o).symm
  · next indent indentChar xmlDeclaration nsPrefix namespaceUri =>
      have foreign : ∀ f ∈ fields, f.isNamed (some name) = false := by
        simpa [fields, Field.isNamed] using
          ⟨indent, indentChar, xmlDeclaration, nsPrefix, namespaceUri⟩
      exact setMember_of_foreign foreign

theorem ofJson?_object_eq_some_iff (members : List (Option String × Json)) (o : OutputOptions) :
    ofJson? (.object members) = some o ↔ Once fields members ∧
      ∃ calls, settings told members = some calls ∧ o = calls.foldl set standard :=
  readMembers_eq_some_iff distinct_names fields_commute fun _ readable =>
    foldlM_setMember (fun _ _ => True)
      (fun name value _ o _ => ⟨setMember_eq name value o, fun _ _ => trivial⟩) readable trivial

end OutputOptions

/-! ### Kinds -/

theorem Json.membersAreKept_eq_all (depth : Nat) (members : List (Option String × Json)) :
    membersAreKept depth members = members.all (memberIsKept depth) := by
  induction members with
  | nil => rfl
  | cons m members ih => rw [membersAreKept, ih, List.all_cons]

namespace Kind

variable {members members' : List (Option String × Json)}

theorem ofContent?_perm (same : members.Perm members') (name : String) :
    ofContent? name (.object members) = ofContent? name (.object members') := by
  have sets : ValueSet.ofJson? (.object members) = ValueSet.ofJson? (.object members') :=
    readMembers_perm same
  have ranges : NumericRange.ofJson? (.object members) = NumericRange.ofJson? (.object members') :=
    readMembers_perm same
  unfold ofContent?
  rw [sets, ranges]
  rfl

/-- A kind is read alike in any order of its members, the one that names it included. -/
theorem ofJson?_perm (same : members.Perm members') :
    ofJson? (.object members) = ofJson? (.object members') := by
  have kept : (Json.object members).isKept Json.keptDepth =
      (Json.object members').isKept Json.keptDepth := by
    simp only [Json.isKept, Json.membersAreKept_eq_all, same.all_eq]
  have tags := same.filter isTag
  have content := ofContent?_perm (same.filter fun m => !isTag m)
  rw [ofJson?, ofJson?, kept]
  refine if_congr Iff.rfl ?_ rfl
  rcases tags.eq_or_two_le with alike | ⟨two, two'⟩
  · rw [alike]
    split
    · exact content _
    · rfl
  · split
    · next tagged => simp [tagged] at two
    · split
      · next tagged => simp [tagged] at two'
      · rfl

end Kind

/-! ### Agreement -/

namespace Config

variable {α S : Type}

/-- An object is read alike in any order of its members. -/
def Unordered (read : Json → Option α) : Prop :=
  ∀ members members' : List (Option String × Json), members.Perm members' →
    read (.object members) = read (.object members')

/-- An object is read as the record that the calls for its members set up. No field may be named
twice, by whichever of its names, and each member has to fit what it names. -/
def SetUp (read : Json → Option α) (fields : List (Field α))
    (told : String → Json → Option (List S)) (apply : α → S → α) (start : α) : Prop :=
  ∀ members record, read (.object members) = some record ↔ Once fields members ∧
    ∃ calls, settings told members = some calls ∧ record = calls.foldl apply start

/-- A list is read as the object that gives its items to the first fields. -/
def Positional (read : Json → Option α) (fields : List (Field α)) : Prop :=
  ∀ items : List Json, items.length ≤ fields.length →
    read (.array items) = read (.ofMembers ((fields.map Field.name).zip items))

/-- The fields in the order of a list. -/
example : NumericRange.fields.map Field.name =
      ["even", "odd", "equal_to", "greater_than", "greater_than_or_equal_to", "less_than",
        "less_than_or_equal_to", "other_than"] ∧
    OutputOptions.fields.map Field.name =
      ["indent", "indent_char", "xml_declaration", "prefix", "namespace_uri"] :=
  ⟨rfl, rfl⟩

end Config

end Schematron
