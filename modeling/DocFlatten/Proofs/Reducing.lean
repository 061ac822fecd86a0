import DocFlatten.Proofs.Following
import DocFlatten.Proofs.Loading
import DocFlatten.Reduction

/-! # What a reduction returns

A reduction loads a document and finishes what was recorded (`reduce_eq_ok`). It returns the loaded
document with the replayed lines, or a document that was loaded from these (`reduce_tree_cases`), and
it fails only if these lines cannot be loaded (`exists_reduce`). An include map adds lines at the end,
and the catalogue is the one of the first reading (`includes_reduce`).
-/

namespace DocFlatten

open DocFlatten.Replacement

/-- Reading a document to reduce it is to load it. -/
theorem readToReduce_eq_ok_iff {fuel : Nat} {files : FileTree} {source : Source} {o : LoadOptions}
    {ro : ReduceOptions} {s : Session} :
    readToReduce fuel files source o ro = .ok s ↔ Session.load fuel files source o = .ok s :=
  Except.mapError_eq_ok_iff

/-- Reducing a document is to load it and to finish what its reading has recorded. -/
theorem reduce_eq_ok {fuel : Nat} {files : FileTree} {source : Source} {o : LoadOptions}
    {ro : ReduceOptions} {reduced : Logged Document} :
    reduce fuel files source o ro = .ok reduced ↔
      ∃ s, Session.load fuel files source o = .ok s ∧ finishReduction fuel ro s = .ok reduced := by
  unfold reduce
  simp only [Except.bind_eq_ok_iff, readToReduce_eq_ok_iff]

/-- What a reduction returns: the loaded document with the replayed lines, or if these are to be
located and something was recorded, a document that was loaded from them; in both cases perhaps with
an include map at the end. -/
theorem reduce_tree_cases {fuel : Nat} {files : FileTree} {source : Source} {o : LoadOptions}
    {ro : ReduceOptions} {s : Session} {reduced : Logged Document}
    (h : Session.load fuel files source o = .ok s)
    (hreduce : reduce fuel files source o ro = .ok reduced) :
    let tree := ((s.tracker ro.preserveConditionals).finish s.doc.sourceLines.length).tree
    let lines := (replay tree s.doc.sourceLines).lines
    ∃ d : Document, reduced.value = (if ro.includeMap then d.appendIncludeMap.2 else d) ∧
      (((o.sourcemap && !tree.isTrivial) = false ∧ d = s.doc.withSourceLines lines) ∨
        (o.sourcemap && !tree.isTrivial) = true ∧ ∃ t,
          Session.load fuel s.files (.lines lines) { s.doc.reloadOptions with reduced := true } =
            .ok t ∧ d = { t.doc with includes := s.doc.includes }) := by
  intro tree lines
  obtain ⟨-, hsourcemap⟩ := Session.load_reads h
  obtain ⟨s', hload, hfinish⟩ := reduce_eq_ok.mp hreduce
  obtain rfl : s = s' := Except.ok.inj (h.symm.trans hload)
  have hchanged : (playBack ro s).changed = !tree.isTrivial := rfl
  have hlines : (playBack ro s).lines = lines := rfl
  unfold finishReduction rebuild at hfinish
  simp only [hchanged, hlines, hsourcemap] at hfinish
  cases hcase : o.sourcemap && !tree.isTrivial with
  -- nothing is rebuilt
  | false =>
    simp only [hcase, Bool.false_eq_true, if_false] at hfinish
    cases hfinish
    exact ⟨_, rfl, Or.inl ⟨rfl, rfl⟩⟩
  -- the document is rebuilt from its lines
  | true =>
    simp only [hcase, if_true] at hfinish
    split at hfinish
    · cases hfinish
    · rename_i rebuilt hrebuilt
      split at hrebuilt
      · cases hrebuilt
      · rename_i t hload
        cases hrebuilt
        cases hfinish
        exact ⟨_, rfl, Or.inr ⟨rfl, t, hload, rfl⟩⟩

/-- A loaded document is reduced, unless the reduced lines have to be loaded and cannot be. -/
theorem exists_reduce {fuel : Nat} {files : FileTree} {source : Source} {o : LoadOptions}
    (ro : ReduceOptions) {s : Session} (h : Session.load fuel files source o = .ok s) :
    let tree := ((s.tracker ro.preserveConditionals).finish s.doc.sourceLines.length).tree
    ((o.sourcemap && !tree.isTrivial) = true →
      ∃ t, Session.load fuel s.files (.lines (replay tree s.doc.sourceLines).lines)
        { s.doc.reloadOptions with reduced := true } = .ok t) →
    ∃ reduced, reduce fuel files source o ro = .ok reduced := by
  intro tree hreload
  obtain ⟨-, hsourcemap⟩ := Session.load_reads h
  suffices hfinish : ∃ reduced, finishReduction fuel ro s = .ok reduced by
    obtain ⟨reduced, hfinish⟩ := hfinish
    exact ⟨reduced, reduce_eq_ok.mpr ⟨s, h, hfinish⟩⟩
  have hchanged : (playBack ro s).changed = !tree.isTrivial := rfl
  have hlines : (playBack ro s).lines = (replay tree s.doc.sourceLines).lines := rfl
  unfold finishReduction rebuild
  simp only [hchanged, hlines, hsourcemap]
  cases hcase : o.sourcemap && !tree.isTrivial with
  -- nothing is rebuilt
  | false =>
    simp only [Bool.false_eq_true, if_false]
    exact ⟨_, rfl⟩
  -- the document is rebuilt from its lines
  | true =>
    obtain ⟨t, ht⟩ := hreload hcase
    simp only [if_true, ht]
    exact ⟨_, rfl⟩

/-- Unless blocks are to be located anew, a document that was loaded is reduced. -/
theorem reduce_of_not_sourcemap {fuel : Nat} {files : FileTree} {source : Source}
    {o : LoadOptions} (ro : ReduceOptions) {s : Session}
    (h : Session.load fuel files source o = .ok s) (hsourcemap : o.sourcemap = false) :
    ∃ reduced, reduce fuel files source o ro = .ok reduced :=
  exists_reduce ro h fun hcase => by simp [hsourcemap] at hcase

/-! ## Include maps -/

/-- An include map comes after the lines that were there and leaves the rest as it is. -/
theorem appendIncludeMap_cases (d : Document) :
    ∃ more, d.appendIncludeMap.2 = d.withSourceLines (d.sourceLines ++ more) ∧
      (d.includes = [] → more = []) := by
  unfold Document.appendIncludeMap
  cases hempty : d.includes.isEmpty with
  | true => exact ⟨[], by simp [Document.withSourceLines], fun _ => rfl⟩
  | false =>
    refine ⟨_, rfl, fun hnil => ?_⟩
    simp [hnil] at hempty

/-- The document of a reduction is the one before the include map was added, with more lines at the
end of its source. -/
theorem includeMap_cases (d : Document) (includeMap : Bool) :
    ∃ more, (if includeMap then d.appendIncludeMap.2 else d) =
        d.withSourceLines (d.sourceLines ++ more) ∧ (d.includes = [] → more = []) := by
  cases includeMap with
  | true => exact appendIncludeMap_cases d
  | false => exact ⟨[], by simp [Document.withSourceLines], fun _ => rfl⟩

/-- The catalogue of a reduction is that of its reading, however the document was built. -/
theorem includes_reduce {fuel : Nat} {files : FileTree} {source : Source} {o : LoadOptions}
    {ro : ReduceOptions} {s : Session} {reduced : Logged Document}
    (h : Session.load fuel files source o = .ok s)
    (hreduce : reduce fuel files source o ro = .ok reduced) :
    reduced.value.includes = s.doc.includes := by
  obtain ⟨d, hvalue, hcases⟩ := reduce_tree_cases h hreduce
  obtain ⟨more, hmap, -⟩ := includeMap_cases d ro.includeMap
  rw [hvalue, hmap]
  change d.includes = s.doc.includes
  rcases hcases with ⟨-, rfl⟩ | ⟨-, t, -, rfl⟩
  · rfl
  · rfl

end DocFlatten
