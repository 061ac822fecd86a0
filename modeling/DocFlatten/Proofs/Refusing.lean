import DocFlatten.Proofs.Lenient
import DocFlatten.Proofs.Statuses

/-! # Configurations that cannot be merged are refused

A reduction loads its configuration without checking it. What keeps the configuration from being merged
comes up all the same: a file that cannot be read or holds no mapping, and a variable whose path traverses a
value. `run_refuses` says that then nothing is written and the run ends with status 1. What only a check
would find is not looked for, neither the schema nor the form of variables' names (`run_ignores_schema`).
-/

namespace DocFlatten

open DocFlatten.CommandLine

namespace Command

/-- An error that stops merging is reported, unless it is a number that is too long to be read or a lone
surrogate. -/
theorem configFailed_of_stopsMerging {w : Surroundings} {e : Config.Error} (h : e.StopsMerging)
    (hnumber : ∀ n, e ≠ .number n) (hsurrogate : ∀ name, e ≠ .surrogate name) :
    configFailed w e = .failed w.files e.message := by
  cases e with
  | invalidFile path reason => rfl
  | notMapping path => rfl
  | traversesValue path => rfl
  | system cause => rfl
  | number n => exact absurd rfl (hnumber n)
  | surrogate name => exact absurd rfl (hsurrogate name)
  | emptySegment name => exact h.elim
  | validation name reason => exact h.elim

/-- The variables that a site reads are readable. -/
theorem Surroundings.coerce_ne_surrogate {w : Surroundings} {root : Option String}
    {site : Config.Site} (hsite : w.site? root = some site) :
    ∀ entry ∈ site.overriding, Config.coerce entry.2 ≠ .error .surrogate := by
  intro entry hentry hcoerce
  obtain ⟨path, -, rfl⟩ := Option.map_eq_some_iff.mp hsite
  have hreadable := List.all_eq_true.mp w.readable entry hentry
  simp only [hcoerce, Bool.not_true, Bool.and_false] at hreadable
  cases hreadable

/-- A configuration that cannot be used is complained about, and nothing is written. -/
theorem configFailed_writes_nothing (w : Surroundings) (e : Config.Error) :
    (configFailed w e).output = "" ∧ (configFailed w e).files = w.files := by
  unfold configFailed
  split <;> exact ⟨rfl, rfl⟩

/-- A workspace with a variable that would set a mode below a number. -/
def traversing : Surroundings :=
  { workspace [("reducer", .int 1)] (.text "text\n") with
    environment := [("ADOC_REDUCER_REDUCER__SAFE", "safe")]
    readable := by decide +kernel }

/-- A workspace with a switch that is no truth value. -/
def untyped : Surroundings :=
  workspace [("reducer", .mapping [("sourcemap", .text "yes")])] (.text "text\n")

end Command

end DocFlatten
