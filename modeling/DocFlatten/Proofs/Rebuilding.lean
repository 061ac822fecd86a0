import DocFlatten.Proofs.PlainReading

/-! # Rebuilt documents

If the blocks of a reduced document are to record where they start, the reduced lines are loaded
anew. As long as no live directive is left among them, every block is then a run of these lines and
is located at the first one (`rebuilt_blocks_located`). An include that the limit of nested includes
kept is entered in the rebuild, where it is less deep, and its blocks lie in another file
(`kept_include_located_elsewhere`).
-/

namespace DocFlatten

open DocFlatten.Replacement

namespace Session

/-- A document starts out in its own file. -/
theorem file_openSource {files : FileTree} {source : Source} {o : LoadOptions} {s : Session}
    (h : openSource files source o = .ok s) : s.reader.cursor.file = s.doc.options.docfile := by
  obtain ⟨mode, -, rfl⟩ := openSource_eq_ok.mp h
  rfl

end Session

/-- A run of lines is one of a longer source too. -/
theorem take_drop_append {α : Type} {l more : List α} {n k : Nat} (h : n + k ≤ l.length) :
    ((l ++ more).drop n).take k = (l.drop n).take k := by
  rw [List.drop_append_of_le_length (by omega), List.take_append_of_le_length (by simp; omega)]

/-- If positions of blocks are asked for and something was recorded, every block of a reduced
document without live directives is a run of its lines: it is located in the file of the document,
at its first line. Its lines are those of the source, without the backslash of an escaped
directive. -/
theorem rebuilt_blocks_located {fuel : Nat} {files : FileTree} {source : Source} {o : LoadOptions}
    {ro : ReduceOptions} {s : Session} {reduced : Logged Document}
    (h : Session.load fuel files source o = .ok s)
    (hreduce : reduce fuel files source o ro = .ok reduced)
    (hpreserve : ro.preserveConditionals = false) (hsourcemap : o.sourcemap = true)
    (htracked : s.finishedTree.isTrivial = false)
    (hinert : ∀ line ∈ reduced.value.sourceLines, isInert line = true) :
    ∀ b ∈ reduced.value.blocks, ∃ (cursor : Cursor) (n k : Nat), b.location = some cursor ∧
      cursor.file = reduced.value.options.docfile ∧ cursor.lineno = n + 1 ∧ 0 < k ∧
      n + k ≤ reduced.value.sourceLines.length ∧
      b.lines = ((reduced.value.sourceLines.drop n).take k).map contentOf := by
  obtain ⟨d, hvalue, hcases⟩ := reduce_cases h hpreserve hreduce
  have hasked : (o.sourcemap && !s.finishedTree.isTrivial) = true := by
    simp [hsourcemap, htracked]
  rcases hcases with ⟨hnot, -⟩ | ⟨-, t, hload, rfl⟩
  · -- the document was tracked, so it has been rebuilt
    rw [hasked] at hnot
    cases hnot
  · obtain ⟨more, hmore, -⟩ :=
      includeMap_cases { t.doc with includes := s.doc.includes } ro.includeMap
    rw [hmore] at hvalue
    have hlines : reduced.value.sourceLines = t.doc.sourceLines ++ more := by
      rw [hvalue]
      rfl
    have hblocks : reduced.value.blocks = t.doc.blocks := by
      rw [hvalue]
      rfl
    have hdocfile : reduced.value.options.docfile = t.doc.options.docfile := by
      rw [hvalue]
      rfl
    obtain ⟨hsource, -⟩ := Session.load_reads hload
    obtain ⟨t₀, hopen, -⟩ := Session.load_eq_ok.mp hload
    have hasked' : s.doc.options.sourcemap = true := by
      rw [(Session.load_reads h).2, hsourcemap]
    have hinert' : ∀ line ∈ t.doc.sourceLines, isInert line = true := fun line hline =>
      hinert line (by rw [hlines]; exact List.mem_append_left _ hline)
    rw [hsource] at hinert'
    obtain ⟨-, -, -, hstands⟩ := (Session.load_plain hopen hinert' fuel).2 t hload
    intro b hb
    rw [hblocks] at hb
    obtain ⟨n, k, hpos, hend, hrun, hlocation⟩ := hstands hasked' b hb
    rw [← hsource] at hend hrun
    refine ⟨_, n, k, hlocation, ?_, rfl, hpos, ?_, ?_⟩
    · rw [hdocfile, (Session.reads_load hload hopen).2]
      exact Session.file_openSource hopen
    · rw [hlines, List.length_append]
      omega
    · rw [hlines, take_drop_append hend]
      exact hrun

/-- A document that includes a paragraph, with an escaped directive behind it. -/
def escapingSource : Source :=
  .lines ["include::a.adoc[]", "", "\\include::b.adoc[]"]

/-- Of the directive, the line that is in the block has no backslash. -/
theorem rebuilt_blocks_located_included :
    ∃ s reduced,
      Session.load 20 (.ofTexts [("a.adoc", "one\n")]) escapingSource { sourcemap := true } = .ok s ∧
      reduce 20 (.ofTexts [("a.adoc", "one\n")]) escapingSource { sourcemap := true } {} =
          .ok reduced ∧
      reduced.value.blocks.map (·.lines) = [["one"], ["include::b.adoc[]"]] ∧
      ∀ b ∈ reduced.value.blocks, ∃ (cursor : Cursor) (n k : Nat), b.location = some cursor ∧
        cursor.file = reduced.value.options.docfile ∧ cursor.lineno = n + 1 ∧ 0 < k ∧
        n + k ≤ reduced.value.sourceLines.length ∧
        b.lines = ((reduced.value.sourceLines.drop n).take k).map contentOf := by
  have hload : ∃ s ∈ (Session.load 20 (.ofTexts [("a.adoc", "one\n")]) escapingSource
      { sourcemap := true }).toOption, s.finishedTree.isTrivial = false := by
    decide +kernel
  have hreduce : ∃ reduced ∈ (reduce 20 (.ofTexts [("a.adoc", "one\n")]) escapingSource
        { sourcemap := true } {}).toOption,
      reduced.value.blocks.map (·.lines) = [["one"], ["include::b.adoc[]"]] ∧
      ∀ line ∈ reduced.value.sourceLines, isInert line = true := by
    decide +kernel
  obtain ⟨s, hs, htracked⟩ := hload
  obtain ⟨reduced, hr, hblocks, hinert⟩ := hreduce
  have hs' := eq_ok_of_mem_toOption hs
  have hr' := eq_ok_of_mem_toOption hr
  exact ⟨s, reduced, hs', hr', hblocks,
    rebuilt_blocks_located hs' hr' rfl rfl htracked hinert⟩

/-- An include that the limit of nested includes kept is entered in the rebuild: its block lies in
the included file and holds a line that the reduced document does not have. -/
theorem kept_include_located_elsewhere :
    ∃ reduced ∈ (reduce 20 (.ofTexts [("a.adoc", "include::b.adoc[]\n"), ("b.adoc", "b\n")])
        (.lines ["include::a.adoc[]"])
        { attributes := .words "max-include-depth=1", sourcemap := true } {}).toOption,
      reduced.value.sourceLines = ["include::b.adoc[]"] ∧
      reduced.value.options.docfile = none ∧
      reduced.value.blocks.map (fun b => (b.lines, b.location.map (·.file))) =
        [(["b"], some (some "/w/b.adoc"))] := by
  decide +kernel

end DocFlatten
