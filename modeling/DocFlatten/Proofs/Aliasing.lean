import DocFlatten.Config.Override
import DocFlatten.Proofs.Failing

/-! # Assigning beside shared mappings

What is assigned below a mapping that stands at several places shows at all of them. If there is none
around the place that an assignment leads to (`Sharing.Clear`), then the assignment changes the
configuration at this place and nowhere else: it is the one of a plain tree (`assign?_of_clear`). And a
place that is clear stays so, since assigning only ends what is shared (`Sharing.Clear.without`).
-/

namespace DocFlatten

namespace Value

/-- Putting what is at a place there again changes nothing, and neither does it if there is no such
place. -/
theorem putAt_at? (v w : Value) (place : Place) : putAt ((v.at? place).getD w) v place = v := by
  induction place generalizing v with
  | nil => cases v <;> rfl
  | cons step place ih =>
    cases step with
    | key name =>
      cases v with
      | mapping entries =>
        unfold putAt at?
        cases hget : Mapping.get? entries name with
        | none => rfl
        | some inner => simp only [Option.bind_some, ih, Mapping.insert_of_get? hget]
      | null | bool _ | int _ | float _ | text _ | list _ => rfl
    | item index =>
      cases v with
      | list items =>
        unfold putAt at?
        cases hget : items[index]? with
        | none => rfl
        | some inner =>
          obtain ⟨hindex, rfl⟩ := List.getElem?_eq_some_iff.mp hget
          simp only [Option.bind_some, ih, List.set_getElem_self]
      | null | bool _ | int _ | float _ | text _ | mapping _ => rfl

end Value

namespace Config

open Value

namespace Sharing

variable {shared : Sharing} {place : Place}

/-- Whether no mapping that stands at several places is around a place. -/
def Clear (shared : Sharing) (place : Place) : Prop :=
  ∀ places ∈ shared, 1 < places.length → ∀ p ∈ places, p <+: place → p = place

instance (shared : Sharing) (place : Place) : Decidable (shared.Clear place) :=
  inferInstanceAs (Decidable (∀ _ ∈ _, _))

theorem clear_nil (place : Place) : Clear [] place := nofun

/-- What is no longer shared is in nobody's way. -/
theorem Clear.without (h : shared.Clear place) (replaced : List Place) :
    (shared.without replaced).Clear place := by
  intro places hplaces hseveral p hp hprefix
  obtain ⟨before, hbefore, rfl⟩ := List.mem_map.mp hplaces
  have hmore : 1 < before.length := Nat.lt_of_lt_of_le hseveral (List.length_filter_le _ _)
  exact h before hbefore hmore p (List.mem_filter.mp hp).1 hprefix

/-- The innermost shared mapping around a place. -/
theorem around?_eq_some {places : List Place} {n : Nat} (h : shared.around? place = some (places, n)) :
    n < place.length ∧ places ∈ shared ∧ place.take n ∈ places := by
  obtain ⟨k, hk, hfound⟩ := List.exists_of_findSome?_eq_some h
  obtain ⟨found, hfind, heq⟩ := Option.map_eq_some_iff.mp hfound
  cases heq
  refine ⟨by simpa using hk, List.mem_of_find?_eq_some hfind, ?_⟩
  simpa using List.find?_some hfind

/-- A change at a clear place shows nowhere else. -/
theorem spread_of_clear (h : shared.Clear place) (m : Mapping Value) :
    shared.spread m place = (m, shared.without [place]) := by
  unfold spread
  split
  · rfl
  · rename_i places n haround
    obtain ⟨hn, hplaces, hmem⟩ := around?_eq_some haround
    -- the mapping around the place stands there only, so it is put back where it is
    have hsingle : places = [place.take n] := by
      have hlength : ¬ 1 < places.length := by
        intro hseveral
        have heq := congrArg List.length (h places hplaces hseveral _ hmem (List.take_prefix n place))
        rw [List.length_take] at heq
        omega
      obtain ⟨first, rest, rfl⟩ := List.exists_cons_of_ne_nil (List.ne_nil_of_mem hmem)
      obtain rfl : rest = [] := by simpa using hlength
      rw [List.mem_singleton.mp hmem]
    subst hsingle
    simp only [List.foldl_cons, List.foldl_nil, putAt_at?, List.map_cons, List.map_nil,
      List.take_append_drop]

end Sharing

section

variable {shared shared' : Sharing} {m m' : Mapping Value} {path keys : List String} {v : Value}

/-- An assignment succeeds exactly if its path leads to a place that can be written. -/
theorem assign_eq_ok_iff : assign m path v = .ok (keys, m') ↔ assign? m path v = some (keys, m') := by
  unfold assign
  cases assign? m path v <;> simp

/-- An assignment that leads to a clear place is the one of a plain tree. -/
theorem assign?_of_clear (h : assignShared shared m path v = .ok (keys, m', shared'))
    (hclear : shared.Clear (keys.map .key)) :
    assign? m path v = some (keys, m') ∧ shared' = shared.without [keys.map .key] := by
  obtain ⟨⟨keys', m₁⟩, hassign, hresult⟩ := Except.bind_eq_ok_iff.mp h
  obtain ⟨rfl, hspread⟩ := Prod.mk.inj (Except.ok.inj hresult)
  rw [Sharing.spread_of_clear hclear] at hspread
  cases hspread
  exact ⟨assign_eq_ok_iff.mp hassign, rfl⟩

end

end Config

end DocFlatten
