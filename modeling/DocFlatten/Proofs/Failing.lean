import DocFlatten.FileTree

/-! # Computations that can fail

A result of several steps is taken apart into the results of the steps, and what is done with a
result does not change why there is none.
-/

namespace Except

variable {ε ε' α β : Type}

@[simp] theorem map_ok_eq (f : α → β) (a : α) : (Except.ok a : Except ε α).map f = .ok (f a) := rfl

@[simp] theorem map_error_eq (f : α → β) (e : ε) :
    (Except.error e : Except ε α).map f = .error e := rfl

theorem mapError_ok_eq (f : ε → ε') (a : α) :
    (Except.ok a : Except ε α).mapError f = .ok a := rfl

/-- Steps that all succeed do so one after the other. -/
theorem bind_eq_ok_iff {x : Except ε α} {f : α → Except ε β} {b : β} :
    (x >>= f) = .ok b ↔ ∃ a, x = .ok a ∧ f a = .ok b := by
  cases x with
  | error e => exact iff_of_false nofun fun ⟨_, hx, _⟩ => nomatch hx
  | ok a =>
    refine ⟨fun h => ⟨a, rfl, h⟩, fun ⟨a', hx, h⟩ => ?_⟩
    cases hx
    exact h

/-- A computation fails exactly if one of its two parts does. -/
theorem bind_eq_error_iff {x : Except ε α} {f : α → Except ε β} {e : ε} :
    (x >>= f) = .error e ↔ x = .error e ∨ ∃ a, x = .ok a ∧ f a = .error e := by
  cases x <;> simp [bind, Except.bind]

/-- A step that is taken for each item fails because it fails for one of them. -/
theorem exists_of_mapM_eq_error {items : List α} {f : α → Except ε β} {e : ε}
    (h : items.mapM f = .error e) : ∃ item ∈ items, f item = .error e := by
  induction items with
  | nil => cases h
  | cons item rest ih =>
    rw [List.mapM_cons] at h
    rcases bind_eq_error_iff.mp h with hitem | ⟨_, -, hrest⟩
    · exact ⟨item, List.mem_cons_self, hitem⟩
    · rcases bind_eq_error_iff.mp hrest with hrest | ⟨_, -, hpure⟩
      · obtain ⟨other, hmem, hother⟩ := ih hrest
        exact ⟨other, List.mem_cons_of_mem _ hmem, hother⟩
      · cases hpure

theorem map_eq_ok_iff {x : Except ε α} {f : α → β} {b : β} :
    x.map f = .ok b ↔ ∃ a, x = .ok a ∧ f a = b := by
  cases x <;> simp

/-- Changing results does not change errors. -/
theorem map_eq_error_iff {x : Except ε α} {f : α → β} {e : ε} :
    x.map f = .error e ↔ x = .error e := by
  cases x <;> simp

/-- Changing errors does not change results. -/
theorem mapError_eq_ok_iff {x : Except ε α} {f : ε → ε'} {a : α} :
    x.mapError f = .ok a ↔ x = .ok a := by
  cases x with
  | ok b => rw [mapError_ok_eq, Except.ok.injEq, Except.ok.injEq]
  | error e => exact iff_of_false nofun nofun

end Except

namespace DocFlatten.FileTree

/-- What cannot be looked up is refused whatever is asked of it. -/
theorem stat_of_isFile_error {files : FileTree} {path : String} {e : FileError}
    (h : files.isFile path = .error e) : files.stat path = .error e :=
  Except.map_eq_error_iff.mp h

end DocFlatten.FileTree
