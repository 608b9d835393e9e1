import Schematron.Config.Record
import Schematron.Proofs.Json.Printing

/-!
# Records read back

An entry is a field of a record with the value that its text is read as. When no two
fields share a name, an object with one member for each entry gives every field the value
of its entry and no other. So reading the object that a record is written as sets each field
from its own entry, one after the other in the order of the table.
-/

namespace Schematron

namespace Config

open Json (Reads)

/-- The names that a field is read under. -/
def Field.names {α : Type} (f : Field α) : List String := f.name :: f.aliases

/-- A field with the value that its text is read as. -/
abbrev Entry (α : Type) := Field α × Json

variable {α : Type} {entries : List (Entry α)} {start : α}

/-- The member of an object under the name of the field. -/
def Entry.member (e : Entry α) : String × Json := (e.1.name, e.2)

theorem Field.isNamed_eq (f : Field α) (name : String) :
    f.isNamed (some name) = decide (name ∈ f.names) := by
  simp [isNamed, names]

/-- What the members give to the field, one by one. -/
theorem Field.given_cons (f : Field α) (m : Option String × Json)
    (members : List (Option String × Json)) :
    f.given (m :: members) = if f.isNamed m.1 then m.2 :: f.given members else f.given members := by
  rw [given, List.filterMap_cons]
  by_cases named : f.isNamed m.1
  · simp only [named, if_true]
    rfl
  · simp only [named]
    rfl

theorem Field.given_named_cons (f : Field α) (m : String × Json) (members : List (String × Json)) :
    f.given (Reads.named (m :: members)) =
      if m.1 ∈ f.names then m.2 :: f.given (Reads.named members)
      else f.given (Reads.named members) := by
  rw [Reads.named, List.map_cons, given_cons, isNamed_eq]
  simp only [decide_eq_true_eq, Reads.named]

/-- Nothing is given to a field that no member names. -/
theorem Field.given_named_eq_nil {f : Field α} {members : List (String × Json)}
    (other : ∀ m ∈ members, m.1 ∉ f.names) : f.given (Reads.named members) = [] := by
  induction members with
  | nil => rfl
  | cons m later ih =>
      rw [given_named_cons, if_neg (other m List.mem_cons_self)]
      exact ih fun m mem => other m (List.mem_cons_of_mem _ mem)

theorem Entry.name_mem_names (e : Entry α) : e.member.1 ∈ e.1.names := List.mem_cons_self

/-- Each field is given the value of its own entry. -/
theorem given_member (distinct : (entries.flatMap fun e => e.1.names).Nodup) {e : Entry α}
    (mem : e ∈ entries) : e.1.given (Reads.named (entries.map Entry.member)) = [e.2] := by
  induction entries with
  | nil => cases mem
  | cons first later ih =>
      rw [List.flatMap_cons, List.nodup_append'] at distinct
      obtain ⟨-, rest, apart⟩ := distinct
      rw [List.map_cons, Field.given_named_cons]
      rcases List.mem_cons.mp mem with rfl | mem
      · have nothing : e.1.given (Reads.named (later.map Entry.member)) = [] := by
          apply Field.given_named_eq_nil
          intro m mem named
          obtain ⟨e', mem', rfl⟩ := List.mem_map.mp mem
          exact apart named (List.mem_flatMap.mpr ⟨e', mem', e'.name_mem_names⟩)
        rw [if_pos e.name_mem_names, nothing]
        rfl
      · have foreign : first.member.1 ∉ e.1.names := fun named =>
          apart first.name_mem_names (List.mem_flatMap.mpr ⟨e, mem, named⟩)
        rw [if_neg foreign]
        exact ih rest mem

/-- A record is written with one member for each entry, which is read as the entry. -/
theorem reads_writeRecord {record : α}
    (each : ∀ e ∈ entries, Reads (e.1.get record) e.2) : List.Forall₂ Reads.Member
      (writeRecord (entries.map Prod.fst) record) (entries.map Entry.member) := by
  rw [writeRecord, List.map_map, List.forall₂_map_left_iff, List.forall₂_map_right_iff,
    List.forall₂_same]
  exact fun e mem => ⟨rfl, each e mem⟩

/-- The members of the entries set each field from its own entry. -/
theorem readRecord_members (distinct : (entries.flatMap fun e => e.1.names).Nodup) :
    readRecord (entries.map Prod.fst) start (.ofMembers (entries.map Entry.member)) =
      entries.foldlM (fun record e => e.1.set e.2 record) start := by
  have readable : (Reads.named (entries.map Entry.member)).all (fun m => m.1.isSome) = true := by
    simp [Reads.named]
  have given := @given_member α entries distinct
  show readMembers _ _ (Reads.named (entries.map Entry.member)) = _
  rw [readMembers, if_pos readable, List.foldlM_map]
  -- The members stay what they are while the fields are set one after the other.
  generalize Reads.named (entries.map Entry.member) = members at given
  clear distinct readable
  induction entries generalizing start with
  | nil => rfl
  | cons e later ih =>
      rw [List.foldlM_cons, List.foldlM_cons, Field.setFrom, given List.mem_cons_self]
      congr 1
      funext record
      exact ih fun mem => given (List.mem_cons_of_mem e mem)

end Config

end Schematron
