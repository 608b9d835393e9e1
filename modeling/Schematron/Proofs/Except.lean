/-!
# Computations that may fail

Facts about `Except` that the operations on trees and documents share: where the
result of a step comes from, and that a list of successful steps succeeds.
-/

namespace Except

variable {ε α β : Type}

theorem map_eq_ok_iff {f : α → β} {x : Except ε α} {b : β} :
    x.map f = .ok b ↔ ∃ a, x = .ok a ∧ f a = b := by
  cases x <;> simp [Except.map]

theorem mapM_of_forall_ok {f : α → Except ε β} {g : α → β} {l : List α}
    (succeeds : ∀ a ∈ l, f a = .ok (g a)) : l.mapM f = .ok (l.map g) := by
  induction l with
  | nil => rfl
  | cons a rest ih =>
      rw [List.mapM_cons, succeeds a (.head rest), ih fun b member => succeeds b (.tail a member)]
      rfl

theorem toOption_eq_some_iff {x : Except ε α} {a : α} : x.toOption = some a ↔ x = .ok a := by
  cases x <;> simp [Except.toOption]

theorem bind_eq_ok_iff {x : Except ε α} {f : α → Except ε β} {b : β} :
    x >>= f = .ok b ↔ ∃ a, x = .ok a ∧ f a = .ok b := by
  cases x <;> simp [bind, Except.bind]

/-- Each result of a list of steps is the result of one of them. -/
theorem exists_of_mem_mapM {f : α → Except ε β} {l : List α} {results : List β}
    (mapped : l.mapM f = .ok results) : ∀ b ∈ results, ∃ a ∈ l, f a = .ok b := by
  induction l generalizing results with
  | nil =>
      cases mapped
      simp
  | cons a rest ih =>
      rw [List.mapM_cons] at mapped
      obtain ⟨first, done, mapped⟩ := bind_eq_ok_iff.mp mapped
      obtain ⟨later, dones, mapped⟩ := bind_eq_ok_iff.mp mapped
      cases mapped
      intro b member
      rcases List.mem_cons.mp member with rfl | inside
      · exact ⟨a, .head rest, done⟩
      · obtain ⟨x, listed, same⟩ := ih dones b inside
        exact ⟨x, .tail a listed, same⟩

end Except
