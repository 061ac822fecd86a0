import DocFlatten.Proofs.Rebuilding

/-! # Reducing again

A reduced document has no live directive, except where one was kept on purpose: an include beyond
the limit of nested includes, or a single-line conditional whose text is a conditional. Without
these, reducing it again records nothing and returns its lines (`reduce_again`). A text that is a
conditional is not acted on in the first reduction, but it is in the second one
(`kept_conditional_reduced_later`).
-/

namespace DocFlatten

open DocFlatten.Replacement DocFlatten.Text

/-- No include was kept as a line of content by the limit of nested includes. -/
def NoneKept (es : List Event) : Prop :=
  ∀ line depth, .includeResolved (.replaced line depth) ∈ es →
    ∀ i, LineKind.ofLine line ≠ .directive i

/-- No text of a single-line conditional that was kept is a conditional itself. -/
def NoneNested (es : List Event) : Prop :=
  ∀ e, .conditional e ∈ es → e.retained = true → ∀ text, e.directive.text = some text →
    ∀ c, LineKind.ofLine (stripEnd text) ≠ .conditional c

instance (es : List Event) : Decidable (NoneKept es) :=
  decidable_of_iff
    (es.all (fun
      | .includeResolved (.replaced line _) =>
        match LineKind.ofLine line with
        | .directive _ => false
        | _ => true
      | _ => true) = true)
    (by
      rw [List.all_eq_true]
      refine ⟨fun h line depth he i hi => ?_, fun h e he => ?_⟩
      · simpa [hi] using h _ he
      · split
        · rename_i line depth
          split
          · rename_i i hi
            exact absurd hi (h line depth he i)
          · rfl
        · rfl)

instance (es : List Event) : Decidable (NoneNested es) :=
  decidable_of_iff
    (es.all (fun
      | .conditional e => !e.retained || e.directive.text.all fun text =>
        match LineKind.ofLine (stripEnd text) with
        | .conditional _ => false
        | _ => true
      | _ => true) = true)
    (by
      rw [List.all_eq_true]
      refine ⟨fun h e he hretained text htext c hc => ?_, fun h e he => ?_⟩
      · simpa [hretained, htext, hc] using h _ he
      · split
        · rename_i e
          cases hretained : e.retained with
          | false => rfl
          | true =>
            cases htext : e.directive.text with
            | none => rfl
            | some text =>
              have hnot := h e he hretained text htext
              simp
        · rfl)

/-! ## Nothing is left -/

/-- A line that is no directive is inert. -/
theorem isInert_of_ne {line : String} (hdirective : ∀ i, LineKind.ofLine line ≠ .directive i)
    (hconditional : ∀ c, LineKind.ofLine line ≠ .conditional c) : isInert line = true := by
  unfold isInert
  split
  · rename_i c hc
    exact absurd hc (hconditional c)
  · rename_i i hi
    exact absurd hi (hdirective i)
  · rfl

/-- A line with a certain letter in front is content, with or without blanks at its end. -/
theorem isInert_of_head {line : String} {c : Char} (hhead : line.toList.head? = some c)
    (hblank : isBlank c = false) (hc : c ∉ ['\\', 'i', 'e']) :
    isInert line = true ∧ isInert (stripEnd line) = true := by
  have hplain : ∀ rest text, text.toList = c :: rest → isInert text = true := by
    intro rest text htext
    have hkind := LineKind.plain_of_toList htext hc
    simp [isInert, hkind]
  cases hline : line.toList with
  | nil => simp [hline] at hhead
  | cons first rest =>
    rw [hline] at hhead
    obtain rfl : first = c := Option.some.inj hhead
    refine ⟨hplain rest line hline, ?_⟩
    refine hplain (dropEndWhile isBlank rest) _ ?_
    unfold stripEnd
    rw [String.toList_ofList, hline, dropEndWhile_cons hblank]

namespace Session

/-- Without kept includes and nested conditionals no delivered line is a live directive, nor is it
without blanks at its end. -/
theorem isInert_delivered {fuel : Nat} {files : FileTree} {source : Source} {o : LoadOptions}
    {s : Session} (h : load fuel files source o = .ok s) (hprocessors : o.processors = [])
    (hkept : NoneKept s.journal.events) (hnested : NoneNested s.journal.events) :
    ∀ line ∈ s.delivered, isInert line = true ∧ isInert (stripEnd line) = true := by
  intro line hline
  obtain ⟨hneat, shown, hresidual⟩ := residual_delivered h hprocessors line hline
  rcases hneat with hstrip | ⟨value, rfl⟩
  · have hinert : isInert line = true := by
      refine isInert_of_ne (fun i hi => ?_) fun c hc => ?_
      · obtain ⟨depth, hdepth⟩ := hresidual.directive i hi
        exact hkept line depth hdepth i hi
      · obtain ⟨text, hkept, rfl⟩ := hresidual.conditional c hc
        obtain ⟨e, he, hretained, htext⟩ := mem_keptTexts.mp hkept
        exact hnested e he hretained text htext c hc
    rw [hstrip]
    exact ⟨hinert, hinert⟩
  · refine isInert_of_head (c := ':') ?_ (by decide) (by decide)
    rw [String.toList_append]
    rfl

/-- So none of the replayed lines is one. -/
theorem isInert_replay {fuel : Nat} {files : FileTree} {source : Source} {o : LoadOptions}
    {s : Session} (h : load fuel files source o = .ok s) (hprocessors : o.processors = [])
    (htrimmed : TextsTrimmed s.journal.events) (hkept : NoneKept s.journal.events)
    (hnested : NoneNested s.journal.events) :
    ∀ line ∈ (replay s.finishedTree s.doc.sourceLines).lines,
      isInert line = true ∧ isInert (stripEnd line) = true := by
  intro line hline
  obtain ⟨hlines, -⟩ := replay_finishedTree h (by simp [hprocessors]) htrimmed
  refine isInert_delivered h hprocessors hkept hnested line ?_
  rw [hlines] at hline
  split at hline
  · exact hline
  · exact (List.rdropWhile_prefix _ _).mem hline

/-- Whether a document can be opened depends on the options alone. -/
theorem openSource_congr {files : FileTree} {source : Source} {o : LoadOptions} {s : Session}
    (h : openSource files source o = .ok s) (source' : Source) :
    ∃ s', openSource files source' o = .ok s' := by
  obtain ⟨mode, hmode, -⟩ := openSource_eq_ok.mp h
  exact ⟨_, openSource_of_mode hmode files source'⟩

/-- A reading without events records nothing. -/
theorem isTrivial_of_quiet {s : Session} (h : s.journal.events = []) :
    s.finishedTree.isTrivial = true := by
  unfold finishedTree
  rw [tracker_eq, h]
  rfl

end Session

/-- The lines of an include map are content. -/
theorem isInert_appendIncludeMap {d : Document}
    (h : ∀ line ∈ d.sourceLines, isInert line = true ∧ isInert (stripEnd line) = true)
    (includeMap : Bool) :
    ∀ line ∈ (if includeMap then d.appendIncludeMap.2 else d).sourceLines,
      isInert line = true ∧ isInert (stripEnd line) = true := by
  cases includeMap with
  -- no include map is asked for
  | false => exact h
  | true =>
    simp only [if_true]
    unfold Document.appendIncludeMap
    split
    · -- there is nothing to list
      exact h
    · -- two lines are added, of which neither is a directive
      intro line hline
      simp only [Document.withSourceLines, List.mem_append, List.mem_cons, List.not_mem_nil,
        or_false] at hline
      rcases hline with hold | rfl | rfl
      · exact h line hold
      · exact ⟨rfl, rfl⟩
      · refine isInert_of_head (c := '/') ?_ (by decide) (by decide)
        unfold IncludeMap.format
        rw [String.toList_append]
        rfl

/-- If nothing was recorded and nothing was included, the lines of the source are returned. -/
theorem reduce_of_isTrivial {fuel : Nat} {files : FileTree} {source : Source} {o : LoadOptions}
    {ro : ReduceOptions} {s : Session} (h : Session.load fuel files source o = .ok s)
    (hpreserve : ro.preserveConditionals = false) (htrivial : s.finishedTree.isTrivial = true)
    (hincludes : s.doc.includes = []) :
    ∃ reduced, reduce fuel files source o ro = .ok reduced ∧
      reduced.value.sourceLines = s.doc.sourceLines := by
  have hlines : (replay s.finishedTree s.doc.sourceLines).lines = s.doc.sourceLines := by
    simp [replay, htrivial]
  have hnothing : (o.sourcemap && !s.finishedTree.isTrivial) = false := by simp [htrivial]
  obtain ⟨reduced, hreduce⟩ := exists_reduce ro h fun hcase => by
    rw [hpreserve] at hcase
    cases hcase.symm.trans hnothing
  refine ⟨reduced, hreduce, ?_⟩
  obtain ⟨d, hvalue, ⟨-, rfl⟩ | ⟨hcase, -⟩⟩ := reduce_cases h hpreserve hreduce
  · obtain ⟨more, hmore, hnone⟩ := includeMap_cases
      (s.doc.withSourceLines (replay s.finishedTree s.doc.sourceLines).lines) ro.includeMap
    rw [hvalue, hmore, hnone hincludes, hlines]
    exact List.append_nil _
  · cases hcase.symm.trans hnothing

/-- Reduction leaves no live directive, and reducing its lines again under the same options records
nothing and returns them, less blanks at their ends. Includes that the limit of nested includes
kept are left out, and so are kept texts that end in white space or are conditionals themselves. -/
theorem reduce_again {fuel : Nat} {files : FileTree} {source : Source} {o : LoadOptions}
    {ro : ReduceOptions} {s : Session} {first : Logged Document}
    (h : Session.load fuel files source o = .ok s)
    (hreduce : reduce fuel files source o ro = .ok first)
    (hpreserve : ro.preserveConditionals = false) (hprocessors : o.processors = [])
    (htrimmed : TextsTrimmed s.journal.events) (hkept : NoneKept s.journal.events)
    (hnested : NoneNested s.journal.events) :
    (∀ line ∈ first.value.sourceLines, isInert line = true) ∧
      ∀ fuel', first.value.sourceLines.length < fuel' → ∃ t second,
        Session.load fuel' files (.lines first.value.sourceLines) o = .ok t ∧
        t.finishedTree.isTrivial = true ∧
        reduce fuel' files (.lines first.value.sourceLines) o ro = .ok second ∧
        second.value.sourceLines = first.value.sourceLines.map stripEnd := by
  have hreplayed := Session.isInert_replay h hprocessors htrimmed hkept hnested
  obtain ⟨d, hvalue, hcases⟩ := reduce_cases h hpreserve hreduce
  have hd : ∀ line ∈ d.sourceLines, isInert line = true ∧ isInert (stripEnd line) = true := by
    rcases hcases with ⟨-, rfl⟩ | ⟨-, t, hload, rfl⟩
    · exact hreplayed
    · intro line hline
      simp only [(Session.load_reads hload).1, Source.prepare, List.mem_map] at hline
      obtain ⟨line', hline', rfl⟩ := hline
      rw [stripEnd_stripEnd]
      exact ⟨(hreplayed line' hline').2, (hreplayed line' hline').2⟩
  have hfirst := isInert_appendIncludeMap hd ro.includeMap
  rw [← hvalue] at hfirst
  refine ⟨fun line hline => (hfirst line hline).1, fun fuel' hfuel => ?_⟩
  -- the lines are prepared once more, which takes blanks from their ends
  have hinert : ∀ line ∈ (Source.lines first.value.sourceLines).prepare,
      isInert line = true := by
    intro line hline
    obtain ⟨line', hline', rfl⟩ := List.mem_map.mp hline
    exact (hfirst line' hline').2
  obtain ⟨s₀, hopen, -⟩ := Session.load_eq_ok.mp h
  obtain ⟨t₀, hopen'⟩ := Session.openSource_congr hopen (.lines first.value.sourceLines)
  obtain ⟨hloads, hplain⟩ := Session.load_plain hopen' hinert fuel'
  obtain ⟨t, hload⟩ := hloads (by simpa [Source.prepare] using hfuel)
  obtain ⟨hquiet, hincludes, -⟩ := hplain t hload
  have htrivial := Session.isTrivial_of_quiet hquiet
  obtain ⟨second, hsecond, hlines⟩ := reduce_of_isTrivial hload hpreserve htrivial hincludes
  refine ⟨t, second, hload, htrivial, hsecond, ?_⟩
  rw [hlines, (Session.load_reads hload).1]
  rfl

/-- A file with an escaped directive. -/
def escapingFiles : FileTree :=
  .ofTexts [("a.adoc", "\\include::b.adoc[]\n")]

/-- A document that includes it by the text of a conditional. -/
def conditionalSource : Source :=
  .lines ["ifndef::x[include::a.adoc[]]", "last"]

/-- A document with an include in a single-line conditional, an escaped directive in the included
file and an include map. -/
theorem reduce_again_included :
    ∃ s first,
      Session.load 20 escapingFiles conditionalSource {} = .ok s ∧
      reduce 20 escapingFiles conditionalSource {} { includeMap := true } = .ok first ∧
      TextsTrimmed s.journal.events ∧ NoneKept s.journal.events ∧ NoneNested s.journal.events ∧
      first.value.sourceLines = ["\\include::b.adoc[]", "last", "", "//# includes=a"] ∧
      ∃ t second, Session.load 20 escapingFiles (.lines first.value.sourceLines) {} = .ok t ∧
        t.finishedTree.isTrivial = true ∧
        reduce 20 escapingFiles (.lines first.value.sourceLines) {} { includeMap := true } = .ok second ∧
        second.value.sourceLines = first.value.sourceLines.map stripEnd := by
  have hload : ∃ s ∈ (Session.load 20 escapingFiles conditionalSource {}).toOption,
      TextsTrimmed s.journal.events ∧ NoneKept s.journal.events ∧
        NoneNested s.journal.events := by
    decide +kernel
  have hreduce : ∃ first ∈ (reduce 20 escapingFiles conditionalSource {} { includeMap := true }).toOption,
      first.value.sourceLines = ["\\include::b.adoc[]", "last", "", "//# includes=a"] := by
    decide +kernel
  obtain ⟨s, hs, htrimmed, hkept, hnested⟩ := hload
  obtain ⟨first, hfirst, hlines⟩ := hreduce
  have hs' := eq_ok_of_mem_toOption hs
  have hfirst' := eq_ok_of_mem_toOption hfirst
  exact ⟨s, first, hs', hfirst', htrimmed, hkept, hnested, hlines,
    (reduce_again hs' hfirst' rfl rfl htrimmed hkept hnested).2 20 (by rw [hlines]; decide)⟩

/-- A text that is a conditional is left as a line of content, and the next reduction acts on it. -/
theorem kept_conditional_reduced_later :
    ∃ first ∈ (reduce 20 (.ofTexts []) (.lines ["ifdef::a[ifdef::b[x]]"])
        { attributes := .words "a" } {}).toOption,
      first.value.sourceLines = ["ifdef::b[x]"] ∧
      ∃ t ∈ (Session.load 20 (.ofTexts []) (.lines first.value.sourceLines)
          { attributes := .words "a" }).toOption,
        t.finishedTree.isTrivial = false ∧
        ∃ second ∈ (reduce 20 (.ofTexts []) (.lines first.value.sourceLines)
            { attributes := .words "a" } {}).toOption,
          second.value.sourceLines = [] := by
  decide +kernel

end DocFlatten
