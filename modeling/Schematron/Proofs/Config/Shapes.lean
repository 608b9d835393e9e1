import Mathlib.Data.List.Perm.Basic
import Schematron.Proofs.Config.Record

/-!
# The shapes of a record

A record is configured by an object or by a list. An object is read field by field, but
the order of its members does not matter, and `foldlM_setFrom` says that they may
as well be taken one by one: each sets the field that it names, in the order in which they
are written. That needs fields that can be set in either order, and no field that is named
twice; with such a field nothing is read. A list is read as the object that names its
items after the first fields.

What the members ask for can be told without the table of fields, as the calls that set up
the same record from the default one. `settings` collects them, and `readMembers_eq_some_iff`
compares the record that is read with the record that is set up.
-/

namespace List

/-- Only lists of two items or more can be in different orders. -/
theorem Perm.eq_or_two_le {α : Type} {l l' : List α} (same : l.Perm l') :
    l = l' ∨ 2 ≤ l.length ∧ 2 ≤ l'.length := by
  cases l with
  | nil => exact .inl same.nil_eq
  | cons a more =>
      cases more with
      | nil => exact .inl (singleton_perm.mp same)
      | cons b more => exact .inr ⟨by simp, by simp [← same.length_eq]⟩

end List

namespace Schematron

namespace Config

variable {α S : Type} {fields : List (Field α)} {start record : α}
variable {members members' : List (Option String × Json)}

/-! ### Any order -/

/-- Two values are too many. -/
theorem Field.setFrom_of_two {f : Field α} (two : 2 ≤ (f.given members).length) (record : α) :
    f.setFrom members record = none := by
  rw [setFrom]
  split
  · next nothing => simp [nothing] at two
  · next one => simp [one] at two
  · rfl

/-- What a field is set to does not depend on the order of the members. -/
theorem Field.setFrom_perm (same : members.Perm members') (record : α) (f : Field α) :
    f.setFrom members record = f.setFrom members' record := by
  have given : (f.given members).Perm (f.given members') := same.filterMap _
  rcases given.eq_or_two_le with alike | ⟨two, two'⟩
  · rw [setFrom, setFrom, alike]
  · rw [setFrom_of_two two, setFrom_of_two two']

/-- An object is read alike in any order of its members. -/
theorem readMembers_perm (same : members.Perm members') :
    readMembers fields start members = readMembers fields start members' := by
  have step : Field.setFrom (α := α) members = Field.setFrom members' :=
    funext fun record => funext fun f => f.setFrom_perm same record
  rw [readMembers, readMembers, same.all_eq, step]

/-! ### One member after the other -/

/-- No field is named twice, whichever of its names is used. -/
def Once (fields : List (Field α)) (members : List (Option String × Json)) : Prop :=
  ∀ f ∈ fields, (f.given members).length ≤ 1

instance : Decidable (Once fields members) :=
  inferInstanceAs (Decidable (∀ f ∈ fields, (f.given members).length ≤ 1))

/-- The record after one member of an object. A member that names no field changes nothing. -/
def setMember : List (Field α) → α → Option String × Json → Option α
  | [], record, _ => some record
  | f :: fields, record, member =>
    if f.isNamed member.1 then f.set member.2 record else setMember fields record member

theorem setMember_of_foreign {m : Option String × Json}
    (foreign : ∀ f ∈ fields, f.isNamed m.1 = false) : setMember fields record m = some record := by
  induction fields with
  | nil => rfl
  | cons f fields ih =>
      obtain ⟨here, later⟩ := List.forall_mem_cons.mp foreign
      rw [setMember, here, if_neg Bool.false_ne_true]
      exact ih later

/-- Two fields can be set in either order. -/
def Field.Commutes (f g : Field α) : Prop :=
  ∀ v w record, (f.set v record).bind (g.set w) = (g.set w record).bind (f.set v)

/-- Fields can be set in either order if changing one leaves the other as it is. -/
theorem Field.Commutes.of_map {β γ : Type} {f g : Field α} {first : Json → Option β}
    {second : Json → Option γ} {a : β → α → α} {b : γ → α → α}
    (sets : ∀ v record, f.set v record = (first v).map fun x => a x record)
    (sets' : ∀ v record, g.set v record = (second v).map fun y => b y record)
    (swap : ∀ x y record, b y (a x record) = a x (b y record)) : f.Commutes g := by
  intro v w record
  rw [sets, sets', funext (sets v), funext (sets' w)]
  cases first v <;> cases second w <;> simp [swap]

/-- Fields to which nothing is given are left alone. -/
theorem foldlM_setFrom_of_nil (nothing : ∀ f ∈ fields, f.given members = []) :
    fields.foldlM (Field.setFrom members) start = some start := by
  induction fields with
  | nil => rfl
  | cons f fields ih =>
      obtain ⟨here, later⟩ := List.forall_mem_cons.mp nothing
      rw [List.foldlM_cons, Field.setFrom, here]
      exact ih later

/-- Members can be left out that name none of the fields. -/
theorem foldlM_setFrom_cons_of_foreign {m : Option String × Json}
    (foreign : ∀ f ∈ fields, f.isNamed m.1 = false) :
    fields.foldlM (Field.setFrom (m :: members)) start =
      fields.foldlM (Field.setFrom members) start := by
  induction fields generalizing start with
  | nil => rfl
  | cons f fields ih =>
      obtain ⟨here, later⟩ := List.forall_mem_cons.mp foreign
      rw [List.foldlM_cons, List.foldlM_cons, Field.setFrom, Field.setFrom, Field.given_cons, here]
      exact congrArg _ (funext fun record => ih later)

/-- A field can be set from the members before or after one that names another field. -/
theorem setFrom_comm {f : Field α} (commute : ∀ g ∈ fields, f.Commutes g)
    (m : Option String × Json) (record : α) :
    (f.setFrom members record).bind (fun record => setMember fields record m) =
      (setMember fields record m).bind fun record => f.setFrom members record := by
  induction fields with
  | nil => simp [setMember]
  | cons g fields ih =>
      obtain ⟨swap, commute⟩ := List.forall_mem_cons.mp commute
      by_cases named : g.isNamed m.1
      · simp only [Field.setFrom, setMember, if_pos named]
        rcases f.given members with _ | ⟨v, _ | ⟨w, more⟩⟩
        · simp
        · exact swap v m.2 record
        · simp
      · simp only [setMember, if_neg named]
        exact ih commute

/-- The first member can be taken before the others. -/
theorem foldlM_setFrom_cons {m : Option String × Json}
    (distinct : fields.Pairwise fun f g => ¬ (f.isNamed m.1 ∧ g.isNamed m.1))
    (commute : fields.Pairwise Field.Commutes) (once : Once fields (m :: members)) :
    fields.foldlM (Field.setFrom (m :: members)) start =
      (setMember fields start m).bind fun record =>
        fields.foldlM (Field.setFrom members) record := by
  induction fields generalizing start with
  | nil => rfl
  | cons f fields ih =>
      obtain ⟨apart, distinct⟩ := List.pairwise_cons.mp distinct
      obtain ⟨swaps, commute⟩ := List.pairwise_cons.mp commute
      obtain ⟨single, once⟩ := List.forall_mem_cons.mp once
      rw [Field.given_cons] at single
      by_cases named : f.isNamed m.1
      · -- The field is the one that is named, and the others do not see the member.
        have alone : f.given members = [] := by simpa [named] using single
        have foreign : ∀ g ∈ fields, g.isNamed m.1 = false := by
          intro g mem
          simpa [named] using apart g mem
        rw [setMember, if_pos named, List.foldlM_cons, Field.setFrom, Field.given_cons,
          if_pos named, alone]
        refine congrArg _ (funext fun record => ?_)
        rw [foldlM_setFrom_cons_of_foreign foreign, List.foldlM_cons, Field.setFrom, alone]
        rfl
      · have skipped : setMember (f :: fields) start m = setMember fields start m := if_neg named
        have same : f.setFrom (m :: members) start = f.setFrom members start := by
          rw [Field.setFrom, Field.given_cons, if_neg named, Field.setFrom]
        have later (record : α) := @ih record distinct commute once
        have swapped : (f.setFrom members start).bind (fun record => setMember fields record m) =
            (setMember fields start m).bind fun record => f.setFrom members record :=
          setFrom_comm swaps m start
        rw [List.foldlM_cons, same, skipped]
        simp only [Option.bind_eq_bind, List.foldlM_cons, later]
        rw [← Option.bind_assoc, swapped, Option.bind_assoc]

theorem Once.tail {m : Option String × Json} (once : Once fields (m :: members)) :
    Once fields members := by
  intro f mem
  have single := once f mem
  rw [Field.given_cons] at single
  split at single
  · simp only [List.length_cons] at single
    omega
  · exact single

theorem pairwise_isNamed (distinct : (fields.flatMap Field.names).Nodup) (name : Option String) :
    fields.Pairwise fun f g => ¬ (f.isNamed name ∧ g.isNamed name) := by
  refine (List.nodup_flatMap.mp distinct).2.imp fun {f g} disjoint both => ?_
  cases name with
  | none => cases both.1
  | some name =>
      rw [Field.isNamed_eq, Field.isNamed_eq, decide_eq_true_iff, decide_eq_true_iff] at both
      exact disjoint both.1 both.2

/-- The fields can be set in the order in which the members name them. -/
theorem foldlM_setFrom (distinct : (fields.flatMap Field.names).Nodup)
    (commute : fields.Pairwise Field.Commutes) (once : Once fields members) :
    fields.foldlM (Field.setFrom members) start = members.foldlM (setMember fields) start := by
  induction members generalizing start with
  | nil => exact foldlM_setFrom_of_nil fun _ _ => rfl
  | cons m members ih =>
      rw [foldlM_setFrom_cons (pairwise_isNamed distinct m.1) commute once, List.foldlM_cons]
      exact congrArg _ (funext fun record => ih once.tail)

/-- Nothing is read if a field is named twice. -/
theorem foldlM_setFrom_of_twice {f : Field α} (mem : f ∈ fields)
    (twice : 2 ≤ (f.given members).length) :
    fields.foldlM (Field.setFrom members) start = none := by
  induction fields generalizing start with
  | nil => cases mem
  | cons g fields ih =>
      rw [List.foldlM_cons]
      rcases List.mem_cons.mp mem with rfl | mem
      · rw [Field.setFrom_of_two twice]
        rfl
      · have later (record : α) := @ih record mem
        simp [later]

/-! ### The calls that set up a record -/

/-- What the members of an object ask for, in their order. A name has to be readable, and each
member has to fit what it names. -/
def settings (told : String → Json → Option (List S)) :
    List (Option String × Json) → Option (List S)
  | [] => some []
  | (name, value) :: rest => do
    let calls ← told (← name) value
    return calls ++ (← settings told rest)

variable {told : String → Json → Option (List S)} {apply : α → S → α} {calls : List S}

theorem readable_of_settings (asked : settings told members = some calls) :
    ∀ m ∈ members, m.1.isSome = true := by
  induction members generalizing calls with
  | nil => nofun
  | cons m rest ih =>
      obtain ⟨name, value⟩ := m
      cases name with
      | none => cases asked
      | some name =>
          obtain ⟨first, -, later⟩ := Option.bind_eq_some_iff.mp asked
          obtain ⟨others, asked, -⟩ := Option.bind_eq_some_iff.mp later
          exact List.forall_mem_cons.mpr ⟨rfl, ih asked⟩

theorem map_call {β : Type} (apply : α → S → α) (x : Option β) (call : β → S) (record : α) :
    (x.map fun b => [call b]).map (fun calls => calls.foldl apply record) =
      x.map fun b => apply record (call b) :=
  Option.map_map ..

/-- All members do what they ask for if each does so. That may depend on what was set before, which
`Fits` compares with the members that follow. -/
theorem foldlM_setMember (Fits : List (Option String × Json) → α → Prop)
    (step : ∀ name value rest record, Fits ((some name, value) :: rest) record →
      setMember fields record (some name, value) =
          (told name value).map (fun calls => calls.foldl apply record) ∧
        ∀ calls, told name value = some calls → Fits rest (calls.foldl apply record))
    (readable : ∀ m ∈ members, m.1.isSome = true) (fits : Fits members start) :
    members.foldlM (setMember fields) start =
      (settings told members).map fun calls => calls.foldl apply start := by
  induction members generalizing start with
  | nil => rfl
  | cons m rest ih =>
      obtain ⟨named, readable_rest⟩ := List.forall_mem_cons.mp readable
      obtain ⟨name, value⟩ := m
      obtain ⟨name, rfl⟩ := Option.isSome_iff_exists.mp named
      obtain ⟨set, fits⟩ := step name value rest start fits
      rw [List.foldlM_cons, set, settings]
      cases first : told name value with
      | none => simp [first]
      | some calls =>
          have later := ih readable_rest (fits calls first)
          simp only [first, Option.map_some, Option.bind_eq_bind, Option.bind_some, later]
          cases settings told rest <;> simp

/-- An object is read exactly if no field is named twice and each member fits, and then it gives the
record that the calls set up. -/
theorem readMembers_eq_some_iff (distinct : (fields.flatMap Field.names).Nodup)
    (commute : fields.Pairwise Field.Commutes)
    (each : Once fields members → (∀ m ∈ members, m.1.isSome = true) →
      members.foldlM (setMember fields) start =
        (settings told members).map fun calls => calls.foldl apply start) :
    readMembers fields start members = some record ↔ Once fields members ∧
      ∃ calls, settings told members = some calls ∧ record = calls.foldl apply start := by
  have refused (twice : ¬ Once fields members) :
      fields.foldlM (Field.setFrom members) start = none := by
    obtain ⟨f, mem, many⟩ : ∃ f ∈ fields, 1 < (f.given members).length := by
      simpa [Once] using twice
    exact foldlM_setFrom_of_twice mem many
  have taken (once : Once fields members) (readable : ∀ m ∈ members, m.1.isSome = true) :=
    (foldlM_setFrom distinct commute once).trans (each once readable)
  rw [readMembers]
  constructor
  · intro read
    split at read
    · next readable =>
        have once : Once fields members := by
          by_contra twice
          rw [refused twice] at read
          cases read
        rw [taken once (List.all_eq_true.mp readable)] at read
        obtain ⟨calls, asked, rfl⟩ := Option.map_eq_some_iff.mp read
        exact ⟨once, calls, asked, rfl⟩
    · cases read
  · rintro ⟨once, calls, asked, rfl⟩
    have readable := readable_of_settings asked
    rw [if_pos (List.all_eq_true.mpr readable), taken once readable, asked]
    rfl

/-! ### Lists -/

theorem readItems_append_eq_foldlM {more : List (Field α)} {items : List Json}
    (same : items.length = fields.length) : readItems (fields ++ more) start items =
      (fields.zip items).foldlM (fun record e => e.1.set e.2 record) start := by
  induction fields generalizing start items with
  | nil =>
      rw [List.eq_nil_of_length_eq_zero same]
      simp [readItems]
  | cons f fields ih =>
      cases items with
      | nil => cases same
      | cons item items =>
          rw [List.cons_append, readItems, List.zip_cons_cons, List.foldlM_cons]
          exact congrArg _ (funext fun record => ih (Nat.succ.inj same))

/-- Fields can be left out to which nothing is given. -/
theorem readMembers_append_of_nil {more : List (Field α)}
    (nothing : ∀ f ∈ more, f.given members = []) :
    readMembers (fields ++ more) start members = readMembers fields start members := by
  have alone (record : α) : more.foldlM (Field.setFrom members) record = some record :=
    foldlM_setFrom_of_nil nothing
  rw [readMembers, readMembers, List.foldlM_append]
  simp only [alone, Option.bind_eq_bind, Option.bind_fun_some]

/-- A list that is not too long is read as the object that gives its items to the first fields. -/
theorem readRecord_array (distinct : (fields.flatMap Field.names).Nodup)
    {items : List Json} (few : items.length ≤ fields.length) :
    readRecord fields start (.array items) =
      readRecord fields start (.ofMembers ((fields.map Field.name).zip items)) := by
  obtain ⟨first, more, rfl, same⟩ : ∃ first more, fields = first ++ more ∧
      items.length = first.length :=
    ⟨fields.take items.length, fields.drop items.length, (List.take_append_drop _ _).symm, by
      simp [Nat.min_eq_left few]⟩
  rw [List.flatMap_append, List.nodup_append'] at distinct
  obtain ⟨distinct, -, apart⟩ := distinct
  have told : (first.zip items).map Prod.fst = first := List.map_fst_zip same.ge
  have entries : ((first ++ more).map Field.name).zip items =
      (first.zip items).map Entry.member := by
    have short : (first.map Field.name ++ more.map Field.name).zip (items ++ []) =
        (first.map Field.name).zip items ++ (more.map Field.name).zip [] :=
      List.zip_append (by simp [same])
    rw [List.append_nil, List.zip_nil_right, List.append_nil] at short
    rw [List.map_append, short, List.zip_map_left]
    rfl
  have nothing : ∀ f ∈ more,
      f.given (Json.Reads.named ((first.zip items).map Entry.member)) = [] := by
    intro f mem
    refine Field.given_named_eq_nil fun m among named => ?_
    obtain ⟨e, inside, rfl⟩ := List.mem_map.mp among
    exact apart (List.mem_flatMap.mpr ⟨e.1, (List.of_mem_zip inside).1, e.name_mem_names⟩)
      (List.mem_flatMap.mpr ⟨f, mem, named⟩)
  have own := @readRecord_members α (first.zip items) start
    (by rwa [← List.flatMap_map, told])
  rw [told] at own
  calc readRecord (first ++ more) start (.array items)
      = (first.zip items).foldlM (fun record e => e.1.set e.2 record) start :=
        readItems_append_eq_foldlM same
    _ = readRecord first start (.ofMembers ((first.zip items).map Entry.member)) := own.symm
    _ = readRecord (first ++ more) start (.ofMembers ((first.zip items).map Entry.member)) :=
        (readMembers_append_of_nil nothing).symm
    _ = readRecord (first ++ more) start
          (.ofMembers (((first ++ more).map Field.name).zip items)) := by rw [entries]

end Config

end Schematron
