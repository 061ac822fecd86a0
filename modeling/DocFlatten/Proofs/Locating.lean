import DocFlatten.Proofs.Bounding
import DocFlatten.Proofs.Concluding
import DocFlatten.Proofs.Outlining
import DocFlatten.Proofs.Recasting
import DocFlatten.Proofs.Reopening
import DocFlatten.Proofs.Repeating

/-! # Locating blocks

If the blocks of a reduced document are to be located, they are made from the reduced lines;
otherwise they are those of the first reading. Both documents are the same but for the positions, if
every line that was taken means the same when it is read again (`sourcemap_positions_only`). Lines
that were taken inside of a false conditional are not among the reduced lines, so they must not be
seen in the outline of the document. What is lost even then are empty lines at the end of a last
block without an end. A text that a single-line conditional kept may mean something else in the
second reading, and so may settings (`sourcemap_changes_content`).
-/

namespace DocFlatten

open DocFlatten.Replacement DocFlatten.Text

/-- No text of a single-line conditional that was kept is a directive behind a backslash. -/
def NoneEscaped (es : List Event) : Prop :=
  ∀ text ∈ keptTexts es, isEscaped (stripEnd text) = false

instance (es : List Event) : Decidable (NoneEscaped es) :=
  inferInstanceAs (Decidable (∀ text ∈ keptTexts es, _))

/-! ## Lines without those at the end -/

/-- If what is left out is not wanted at the end, it can be left out before or afterwards. -/
theorem rdropWhile_filter {α : Type} {p q : α → Bool} {l : List α}
    (h : ∀ x ∈ l, p x = false → q x = true) :
    (l.filter p).rdropWhile q = (l.rdropWhile q).filter p := by
  induction l using List.reverseRecOn with
  | nil => rfl
  | append_singleton l x ih =>
    have ih := ih fun y hy => h y (List.mem_append_left _ hy)
    rw [List.filter_append, List.rdropWhile_concat]
    cases hq : q x with
    | true =>
      rw [if_pos rfl, ← ih]
      cases hp : p x with
      | true => rw [List.filter_cons_of_pos hp, List.filter_nil, List.rdropWhile_concat, if_pos hq]
      | false => rw [List.filter_cons_of_neg (by simp [hp]), List.filter_nil, List.append_nil]
    | false =>
      have hp : p x = true := by
        by_contra hnot
        have := h x (List.mem_append_right _ List.mem_cons_self) (by simpa using hnot)
        simp [hq] at this
      rw [if_neg (by simp), List.filter_append, List.filter_cons_of_pos hp, List.filter_nil,
        List.rdropWhile_concat, if_neg (by simp [hq])]

/-- Taking off at the end and mapping can be done in either order. -/
theorem rdropWhile_map {α β : Type} (f : α → β) (p : β → Bool) (l : List α) :
    (l.map f).rdropWhile p = (l.rdropWhile fun x => p (f x)).map f := by
  unfold List.rdropWhile
  rw [← List.map_reverse, List.dropWhile_map, List.map_reverse]
  rfl

/-- Inside of false conditionals only empty lines sift through. -/
theorem Stage.blank_of_sifts {stage : Stage} {lines : List Taken} (h : stage.sifts lines = true) :
    ∀ t ∈ lines, t.skipping = true → t.spelled = "" := by
  induction lines generalizing stage with
  | nil =>
    intro t ht
    cases ht
  | cons u rest ih =>
    unfold Stage.sifts at h
    obtain ⟨hline, hrest⟩ := Bool.and_eq_true_iff.mp h
    intro t ht hskip
    rcases List.mem_cons.mp ht with rfl | ht
    · simp only [hskip, Bool.not_true, Bool.false_or, Bool.and_eq_true, beq_iff_eq] at hline
      exact hline.1
    · exact ih hrest t ht hskip

namespace Session

/-- The lines that were taken, up to the last one that is not empty. -/
def trimmedTaken (s : Session) : List Taken :=
  s.journal.taken.rdropWhile (·.spelled == "")

/-- A reading whose lines mean the same when they are read again. -/
structure Rereadable (s : Session) : Prop where
  /-- The lines that were taken inside of false conditionals are empty, and fall where they change
  nothing. -/
  sifts : Stage.opening.sifts s.trimmedTaken = true
  /-- No line ends in white space. -/
  neat : ∀ t ∈ s.journal.taken, stripEnd t.spelled = t.spelled
  trimmed : TextsTrimmed s.journal.events
  kept : NoneKept s.journal.events
  nested : NoneNested s.journal.events
  escaped : NoneEscaped s.journal.events

instance (s : Session) : Decidable s.Rereadable :=
  decidable_of_iff (Stage.opening.sifts s.trimmedTaken = true ∧
      (∀ t ∈ s.journal.taken, stripEnd t.spelled = t.spelled) ∧ TextsTrimmed s.journal.events ∧
      NoneKept s.journal.events ∧ NoneNested s.journal.events ∧ NoneEscaped s.journal.events)
    ⟨fun ⟨h₁, h₂, h₃, h₄, h₅, h₆⟩ => ⟨h₁, h₂, h₃, h₄, h₅, h₆⟩,
      fun h => ⟨h.sifts, h.neat, h.trimmed, h.kept, h.nested, h.escaped⟩⟩

/-- Sessions in step are rereadable together. -/
theorem Rereadable.inStep {s t : Session} (h : Rereadable s) (hstep : InStep s t) :
    Rereadable t := by
  obtain ⟨hsifts, hneat, htrimmed, hkept, hnested, hescaped⟩ := h
  unfold trimmedTaken at hsifts
  rw [← hstep.taken] at hsifts hneat
  rw [← hstep.events] at htrimmed hkept hnested hescaped
  exact ⟨hsifts, hneat, htrimmed, hkept, hnested, hescaped⟩

section

variable {fuel : Nat} {files : FileTree} {source : Source} {o : LoadOptions} {s : Session}

/-- The lines that were taken are the trimmed ones and empty ones. -/
theorem taken_eq_append (s : Session) :
    ∃ blanks, s.journal.taken = s.trimmedTaken ++ blanks ∧ ∀ t ∈ blanks, t.spelled = "" := by
  refine ⟨s.journal.taken.rtakeWhile (·.spelled == ""), List.rdropWhile_append_rtakeWhile.symm, ?_⟩
  intro t ht
  simpa using List.mem_rtakeWhile_imp ht

/-- Every line was shown as it will be when it is read again. -/
theorem Rereadable.shown (hs : Rereadable s) (h : load fuel files source o = .ok s)
    (hprocessors : o.processors = []) : ∀ t ∈ s.journal.taken, t.shown = contentOf t.spelled := by
  intro t ht
  obtain ⟨-, hresidual⟩ := load_residual h hprocessors t ht
  rcases hresidual.content with hshown | ⟨hshown, text, htext, hline⟩
  · exact hshown
  · rw [hshown, contentOf_of_not_isEscaped]
    rw [hline]
    exact hs.escaped text htext

/-- If anything was recorded, the replayed lines are the trimmed ones outside of false
conditionals. -/
theorem Rereadable.replay_lines (hs : Rereadable s) (h : load fuel files source o = .ok s)
    (hprocessors : o.processors = []) (hchanged : s.finishedTree.isTrivial = false) :
    (replay s.finishedTree s.doc.sourceLines).lines =
      (s.trimmedTaken.filter fun t => !t.skipping).map (·.spelled) := by
  obtain ⟨hlines, -⟩ := replay_finishedTree h (by simp [hprocessors]) hs.trimmed
  have hblank : ∀ t ∈ s.journal.taken, (!t.skipping) = false → (t.spelled == "") = true := by
    obtain ⟨blanks, htaken, hblanks⟩ := taken_eq_append s
    intro t ht hskip
    rw [beq_iff_eq]
    rw [htaken] at ht
    rcases List.mem_append.mp ht with ht | ht
    · exact Stage.blank_of_sifts hs.sifts t ht (by simpa using hskip)
    · exact hblanks t ht
  rw [hlines, hchanged, if_neg Bool.false_ne_true]
  unfold trimmedTaken
  rw [← rdropWhile_filter hblank]
  exact rdropWhile_map _ _ _

/-- Reading the replayed lines takes nothing from their ends. -/
theorem Rereadable.prepare_replay (hs : Rereadable s) (h : load fuel files source o = .ok s)
    (hprocessors : o.processors = []) (hchanged : s.finishedTree.isTrivial = false) :
    (Source.lines (replay s.finishedTree s.doc.sourceLines).lines).prepare =
      (replay s.finishedTree s.doc.sourceLines).lines := by
  rw [hs.replay_lines h hprocessors hchanged]
  refine (List.map_congr_left fun line hline => ?_).trans (List.map_id _)
  obtain ⟨t, ht, rfl⟩ := List.mem_map.mp hline
  exact hs.neat t ((List.rdropWhile_prefix _ _).mem (List.mem_filter.mp ht).1)

/-- Sessions in step have the same replacement tree. -/
theorem InStep.finishedTree {s t : Session} (h : InStep s t) : t.finishedTree = s.finishedTree := by
  unfold Session.finishedTree
  rw [tracker_eq, tracker_eq, h.events, h.sourceLines]

/-- A document that starts out with the same attributes and has the replayed lines is loaded, and
has the same content but for where blocks start and empty lines at the end. -/
theorem Rereadable.load_lines {s₀ t₀ : Session} {files' : FileTree} {o' : LoadOptions}
    (hs : Rereadable s) (h : load fuel files source o = .ok s) (hprocessors : o.processors = [])
    (hchanged : s.finishedTree.isTrivial = false) (hopen : openSource files source o = .ok s₀)
    (hopen' : openSource files' (.lines (replay s.finishedTree s.doc.sourceLines).lines) o' = .ok t₀)
    (hprocessors' : o'.processors = []) (hresembles : s₀.doc.Resembles t₀.doc) {fuel' : Nat}
    (hfuel : s.journal.taken.length < fuel') :
    ∃ t, load fuel' files' (.lines (replay s.finishedTree s.doc.sourceLines).lines) o' = .ok t ∧
      s.doc.AlikeButEnd (fun _ _ => True) t.doc := by
  have hlines := hs.replay_lines h hprocessors hchanged
  obtain ⟨blanks, htaken, hblanks⟩ := taken_eq_append s
  have hmem : ∀ t ∈ s.trimmedTaken, t ∈ s.journal.taken := fun t ht =>
    htaken ▸ List.mem_append_left blanks ht
  have hshown : ∀ t ∈ s.journal.taken, t.spelled = "" → t.shown = "" := by
    intro t ht hblank
    rw [hs.shown h hprocessors t ht, hblank]
    rfl
  have hprepare := hs.prepare_replay h hprocessors hchanged
  have hinert : ∀ line ∈
      (Source.lines (replay s.finishedTree s.doc.sourceLines).lines).prepare,
      isInert line = true := by
    intro line hline
    rw [hprepare] at hline
    exact (isInert_replay h hprocessors hs.trimmed hs.kept hs.nested line hline).1
  obtain ⟨hloads, hplain⟩ := load_plain hopen' hinert fuel'
  have hlength : (Source.lines (replay s.finishedTree s.doc.sourceLines).lines).prepare.length <
      fuel' := by
    rw [hprepare, hlines, List.length_map]
    have hfilter := List.length_filter_le (fun t : Taken => !t.skipping) s.trimmedTaken
    have hall := congrArg List.length htaken
    rw [List.length_append] at hall
    omega
  obtain ⟨t, ht⟩ := hloads hlength
  obtain ⟨-, -, hagain, -⟩ := hplain t ht
  refine ⟨t, ht, ?_⟩
  -- both documents are outlines, of lines that differ in empty ones
  have hfirst := load_outline hopen hprocessors h (Document.resembles_self s₀.doc)
  have hsecond := load_outline hopen' hprocessors' ht hresembles
  have hcontents : t.journal.taken.map (·.shown) =
      (s.trimmedTaken.filter fun t => !t.skipping).map (·.shown) := by
    rw [hagain, hprepare, hlines, List.map_map]
    refine List.map_congr_left fun u hu => ?_
    exact (hs.shown h hprocessors u (hmem u (List.mem_filter.mp hu).1)).symm
  rw [hcontents, ← Stage.outline_sifted hs.sifts fun u hu => hshown u (hmem u hu)] at hsecond
  rw [htaken, List.map_append] at hfirst
  have hproper : Stage.opening.Proper := trivial
  refine (Stage.outline_append_blank hproper fun line hline => ?_).butEnd_congr hfirst hsecond
  obtain ⟨u, hu, rfl⟩ := List.mem_map.mp hline
  exact hshown u (htaken ▸ List.mem_append_right _ hu) (hblanks u hu)

/-- What is made of the replayed lines of a rereadable document, with blocks to be located, is that
document but for the positions of its blocks. -/
theorem Rereadable.load_replay {t : Session} (hs : Rereadable s)
    (h : load fuel files source o = .ok s)
    (h' : load fuel files source { o with sourcemap := true } = .ok t)
    (hplace : ∀ part ∈ files.workingDir, Path.IsComponent part) (hprocessors : o.processors = [])
    (hstable : o.attributes.Stable) (hchanged : s.finishedTree.isTrivial = false) {fuel' : Nat}
    (hfuel : s.journal.taken.length < fuel') :
    ∃ u, load fuel' t.files (.lines (replay s.finishedTree s.doc.sourceLines).lines)
        { t.doc.reloadOptions with reduced := true } = .ok u ∧
      s.doc.AlikeButEnd (fun _ _ => True) u.doc := by
  obtain ⟨s₀, hopen, -⟩ := load_eq_ok.mp h
  obtain ⟨t₀, hopen', -⟩ := load_eq_ok.mp h'
  have hoptions := (reads_load h' hopen').2
  obtain ⟨mode, hmode, rfl⟩ := openSource_eq_ok.mp hopen
  obtain ⟨mode', hmode', rfl⟩ := openSource_eq_ok.mp hopen'
  obtain rfl : mode = mode' := Except.ok.inj (hmode.symm.trans hmode')
  let o' : LoadOptions := { (Document.initial files.workingDir source
    { o with sourcemap := true } mode).reloadOptions with reduced := true }
  have hreload : { t.doc.reloadOptions with reduced := true } = o' := by
    unfold Document.reloadOptions
    rw [hoptions]
    rfl
  rw [hreload, files_load h']
  obtain ⟨hattributes, hlocked⟩ := Document.initial_reload hplace
    (o := { o with sourcemap := true }) hstable mode source
    (.lines (replay s.finishedTree s.doc.sourceLines).lines)
  have hmode'' : SafeMode.ofValue o'.safe = .ok mode := SafeMode.ofValue_level mode
  have hagain := openSource_of_mode hmode'' files
    (.lines (replay s.finishedTree s.doc.sourceLines).lines)
  refine hs.load_lines h hprocessors hchanged hopen hagain hprocessors ?_ hfuel
  exact ⟨hattributes, hlocked, rfl, rfl, rfl, .nil⟩

end

end Session

/-- Documents that differ at most in the positions of blocks and in empty lines at the end of the
last one. -/
structure Document.SameButPositions (d d' : Document) : Prop where
  sourceLines : d'.sourceLines = d.sourceLines
  includes : d'.includes = d.includes
  content : d.AlikeButEnd (fun _ _ => True) d'

/-- They get the same include map. -/
theorem Document.SameButPositions.includeMap {d d' : Document} (h : d.SameButPositions d')
    (includeMap : Bool) :
    (if includeMap then d.appendIncludeMap.2 else d).SameButPositions
      (if includeMap then d'.appendIncludeMap.2 else d') := by
  cases includeMap with
  | false => exact h
  | true =>
    simp only [if_true]
    unfold Document.appendIncludeMap
    rw [h.includes]
    split
    · exact h
    · refine ⟨?_, h.includes, ⟨h.content.attributes, h.content.locked, h.content.parsed,
        h.content.title, h.content.headerAttributes, h.content.blocks⟩⟩
      simp only [Document.withSourceLines, h.sourceLines]

/-! ## Larger bounds -/

/-- A rebuild that ends within a bound ends within a larger one. -/
theorem rebuild_eq_ok_of_le {n m : Nat} {files : FileTree} {d : Document} {lines : List String}
    {changed : Bool} {r : Logged Document} (hle : n ≤ m)
    (h : rebuild n files d lines changed = .ok r) : rebuild m files d lines changed = .ok r := by
  unfold rebuild at h ⊢
  split at h
  · rename_i hcase
    rw [if_pos hcase]
    split at h
    · cases h
    · rename_i s hload
      rw [Session.load_eq_ok_of_le hle hload]
      exact h
  · rename_i hcase
    rw [if_neg hcase]
    exact h

/-- A document that is reduced within a bound is reduced to the same within a larger one. -/
theorem reduce_eq_ok_of_le {n m : Nat} {files : FileTree} {source : Source} {o : LoadOptions}
    {ro : ReduceOptions} {r : Logged Document} (hle : n ≤ m)
    (h : reduce n files source o ro = .ok r) : reduce m files source o ro = .ok r := by
  obtain ⟨s, hload, hfinish⟩ := reduce_eq_ok.mp h
  refine reduce_eq_ok.mpr ⟨s, Session.load_eq_ok_of_le hle hload, ?_⟩
  unfold finishReduction at hfinish ⊢
  dsimp only at hfinish ⊢
  split at hfinish
  · cases hfinish
  · rename_i rebuilt hrebuilt
    rw [rebuild_eq_ok_of_le hle hrebuilt]
    exact hfinish

/-! ## Both documents -/

/-- The documents with and without located blocks, once there is fuel for every line. -/
theorem Session.Rereadable.reduces {fuel : Nat} {files : FileTree} {source : Source}
    {o : LoadOptions} {ro : ReduceOptions} {s : Session} (hs : s.Rereadable)
    (h : Session.load fuel files source o = .ok s)
    (hplace : ∀ part ∈ files.workingDir, Path.IsComponent part)
    (hpreserve : ro.preserveConditionals = false) (hprocessors : o.processors = [])
    (hstable : o.attributes.Stable) (hfuel : s.journal.taken.length < fuel) :
    ∃ plain located,
      reduce fuel files source { o with sourcemap := false } ro = .ok plain ∧
      reduce fuel files source { o with sourcemap := true } ro = .ok located ∧
      plain.value.SameButPositions located.value := by
  obtain ⟨s₀, h₀, hstep₀, -⟩ := Session.load_flagged h false
  obtain ⟨s₁, h₁, hstep₁, halike⟩ := Session.load_flagged h₀ true
  have hs₀ := hs.inStep hstep₀
  -- reading goes the same way whether blocks are located or not, and so the same was recorded
  have htree := hstep₁.finishedTree
  have hlines : (replay s₁.finishedTree s₁.doc.sourceLines).lines =
      (replay s₀.finishedTree s₀.doc.sourceLines).lines := by
    rw [htree, hstep₁.sourceLines]
  have hreload : s₁.finishedTree.isTrivial = false → ∃ t,
      Session.load fuel s₁.files (.lines (replay s₁.finishedTree s₁.doc.sourceLines).lines)
        { s₁.doc.reloadOptions with reduced := true } = .ok t ∧
      s₀.doc.AlikeButEnd (fun _ _ => True) t.doc := by
    intro hchanged
    rw [hlines]
    rw [htree] at hchanged
    exact hs₀.load_replay h₀ h₁ hplace hprocessors hstable hchanged (by rw [hstep₀.taken]; exact hfuel)
  obtain ⟨plain, hplain⟩ := reduce_of_not_sourcemap ro h₀ rfl
  obtain ⟨located, hlocated⟩ := exists_reduce ro h₁ fun hcase => by
    rw [hpreserve] at hcase ⊢
    have hchanged := (Bool.and_eq_true_iff.mp hcase).2
    obtain ⟨t, ht, -⟩ := hreload ((Bool.not_eq_true' _).mp hchanged)
    exact ⟨t, ht⟩
  refine ⟨plain, located, hplain, hlocated, ?_⟩
  obtain ⟨d, hd, hcases⟩ := reduce_cases h₀ hpreserve hplain
  obtain ⟨d', hd', hcases'⟩ := reduce_cases h₁ hpreserve hlocated
  rw [hd, hd']
  refine Document.SameButPositions.includeMap ?_ ro.includeMap
  obtain rfl : d = s₀.doc.withSourceLines (replay s₀.finishedTree s₀.doc.sourceLines).lines := by
    rcases hcases with ⟨-, hd⟩ | ⟨hcase, -⟩
    · exact hd
    · simp at hcase
  rcases hcases' with ⟨-, rfl⟩ | ⟨hcase, t, ht, rfl⟩
  · -- nothing was recorded
    refine ⟨hlines, hstep₁.includes, ?_⟩
    have hcontent := halike.butEnd
    exact ⟨hcontent.attributes, hcontent.locked, hcontent.parsed, hcontent.title,
      hcontent.headerAttributes, hcontent.blocks⟩
  · -- the document was made from the reduced lines
    have hchanged : s₁.finishedTree.isTrivial = false := by simpa using hcase
    obtain ⟨t', ht', hsame⟩ := hreload hchanged
    obtain rfl : t = t' := Except.ok.inj (ht.symm.trans ht')
    refine ⟨?_, hstep₁.includes, ⟨hsame.attributes, hsame.locked, hsame.parsed, hsame.title,
      hsame.headerAttributes, hsame.blocks⟩⟩
    have hsource := (Session.load_reads ht).1
    rw [htree] at hchanged
    rw [hlines, hs₀.prepare_replay h₀ hprocessors hchanged] at hsource
    exact hsource

/-- Whether blocks are located changes nothing but their positions, if every line that was taken
means the same when it is read again and the settings do when they are given anew; a last block
without an end may lose empty lines at its end. Loading ends with a document, unless the system
refuses to look up a file. -/
theorem sourcemap_positions_only (files : FileTree) (source : Source) {o : LoadOptions}
    {ro : ReduceOptions} {mode : SafeMode} (hmode : SafeMode.ofValue o.safe = .ok mode)
    (hplace : ∀ part ∈ files.workingDir, Path.IsComponent part)
    (hpreserve : ro.preserveConditionals = false) (hprocessors : o.processors = [])
    (hstable : o.attributes.Stable) :
    ∃ enough loaded, (∀ fuel, enough ≤ fuel → Session.load fuel files source o = loaded) ∧
      (∀ e, loaded = .error e → e.IsRefusal) ∧
      ∀ s, loaded = .ok s → s.Rereadable → ∃ plain located,
        (∀ fuel, enough ≤ fuel →
          reduce fuel files source { o with sourcemap := false } ro = .ok plain ∧
          reduce fuel files source { o with sourcemap := true } ro = .ok located) ∧
        plain.value.SameButPositions located.value := by
  obtain ⟨enough, loaded, hload, -, hrefusal⟩ :=
    Session.load_ends files source hmode hprocessors
  cases loaded with
  | error e =>
    refine ⟨enough, .error e, hload, hrefusal, fun s hs => ?_⟩
    cases hs
  | ok s =>
    -- the second reading takes no more lines than the first one took
    refine ⟨max enough (s.journal.taken.length + 1), .ok s, ?_, hrefusal, ?_⟩
    · exact fun fuel hfuel => hload fuel (Nat.le_trans (Nat.le_max_left _ _) hfuel)
    · rintro _ ⟨⟩ hs
      obtain ⟨plain, located, hplain, hlocated, hsame⟩ := hs.reduces
        (hload _ (Nat.le_max_left _ _)) hplace hpreserve hprocessors hstable
        (Nat.lt_of_succ_le (Nat.le_max_right _ _))
      exact ⟨plain, located, fun fuel hfuel => ⟨reduce_eq_ok_of_le hfuel hplain,
        reduce_eq_ok_of_le hfuel hlocated⟩, hsame⟩

/-- A file with a section title. -/
def titledFiles : FileTree :=
  .ofTexts [("a", "== one\n")]

/-- A document with an included title, a false conditional around an empty line, and a block without
an end. -/
def openEnded : Source :=
  .lines ["include::a[leveloffset=+1]", "ifdef::x[]", "", "endif::[]", "", "----", "two", ""]

/-- The lines of the blocks that are located are those of the reduced lines, loaded anew. -/
theorem exists_located {fuel : Nat} {files : FileTree} {source : Source} {o : LoadOptions}
    {s t : Session} (h : Session.load fuel files source { o with sourcemap := true } = .ok s)
    (hprocessors : o.processors = []) (htrimmed : TextsTrimmed s.journal.events)
    (hchanged : s.finishedTree.isTrivial = false)
    (hagain : Session.load fuel s.files (.lines (trimEmptyEnd s.delivered))
      { s.doc.reloadOptions with reduced := true } = .ok t) :
    ∃ located, reduce fuel files source { o with sourcemap := true } {} = .ok located ∧
      located.value.blocks = t.doc.blocks := by
  obtain ⟨hlines, -⟩ := Session.replay_finishedTree h (by simp [hprocessors]) htrimmed
  rw [hchanged, if_neg Bool.false_ne_true] at hlines
  rw [← hlines] at hagain
  obtain ⟨located, hlocated⟩ := exists_reduce {} h fun _ => ⟨t, hagain⟩
  refine ⟨located, hlocated, ?_⟩
  obtain ⟨d, hd, ⟨hcase, -⟩ | ⟨-, u, hu, rfl⟩⟩ := reduce_cases h rfl hlocated
  · simp [hchanged] at hcase
  · obtain rfl : t = u := Except.ok.inj (hagain.symm.trans hu)
    rw [hd]
    rfl

/-- The empty line in the conditional is taken and not seen, and of the block without an end an empty
line is lost. -/
theorem sourcemap_positions_only_unterminated :
    SafeMode.ofValue ({} : LoadOptions).safe = .ok .safe ∧
    (∀ part ∈ titledFiles.workingDir, Path.IsComponent part) ∧
    ({} : LoadOptions).attributes.Stable ∧
    ∃ s plain located enough, Session.load 20 titledFiles openEnded {} = .ok s ∧ s.Rereadable ∧
      (∃ t ∈ s.journal.taken, t.skipping = true) ∧
      (∀ fuel, enough ≤ fuel →
        reduce fuel titledFiles openEnded { sourcemap := false } {} = .ok plain ∧
        reduce fuel titledFiles openEnded { sourcemap := true } {} = .ok located) ∧
      plain.value.SameButPositions located.value ∧
      plain.value.blocks.map (·.lines) = [["== one"], ["----", "two", ""]] := by
  have hload : ∃ s ∈ (Session.load 20 titledFiles openEnded {}).toOption,
      s.Rereadable ∧ ∃ t ∈ s.journal.taken, t.skipping = true := by decide +kernel
  have hplain : ∃ plain ∈ (reduce 20 titledFiles openEnded { sourcemap := false } {}).toOption,
      plain.value.blocks.map (·.lines) = [["== one"], ["----", "two", ""]] := by decide +kernel
  obtain ⟨s, hs, hreread, hskipping⟩ := hload
  obtain ⟨plain, hplain, hlines⟩ := hplain
  have hmode : SafeMode.ofValue ({} : LoadOptions).safe = .ok .safe := rfl
  have hplace : ∀ part ∈ titledFiles.workingDir, Path.IsComponent part := by decide
  have hstable : ({} : LoadOptions).attributes.Stable := by decide
  have hpreserve : ({} : ReduceOptions).preserveConditionals = false := rfl
  obtain ⟨enough, loaded, hloads, -, hreduces⟩ :=
    sourcemap_positions_only titledFiles openEnded hmode hplace hpreserve rfl hstable
  -- within a larger bound everything is as within the bound of the runs
  have hloaded : loaded = .ok s := by
    rw [← hloads _ (Nat.le_max_left enough 20)]
    exact Session.load_eq_ok_of_le (Nat.le_max_right enough 20) (eq_ok_of_mem_toOption hs)
  obtain ⟨plain', located, hall, hsame⟩ := hreduces s hloaded hreread
  have hlarger := reduce_eq_ok_of_le (Nat.le_max_right enough 20) (eq_ok_of_mem_toOption hplain)
  cases (hall _ (Nat.le_max_left enough 20)).1.symm.trans hlarger
  exact ⟨hmode, hplace, hstable, s, plain, located, enough, eq_ok_of_mem_toOption hs, hreread,
    hskipping, hall, hsame, hlines⟩

/-- The lines of the blocks of a reduced document, as a scan finds them first and as they are if they
are located. -/
def blockLines (lines : List String) (settings : String) (sourcemap : Bool) :
    Option (List (List String)) :=
  (reduce 20 (.ofTexts []) (.lines lines) { attributes := .words settings, sourcemap }
    {}).toOption.map fun reduced => reduced.value.blocks.map (·.lines)

/-- The blocks are those of a document loaded from the lines that were delivered. -/
theorem blockLines_located {lines : List String} {settings : String} {blocks : List (List String)}
    (h : ∃ s ∈ (Session.load 20 (.ofTexts []) (.lines lines)
        { attributes := .words settings, sourcemap := true }).toOption,
      TextsTrimmed s.journal.events ∧ s.finishedTree.isTrivial = false ∧
      ∃ t ∈ (Session.load 20 s.files (.lines (trimEmptyEnd s.delivered))
          { s.doc.reloadOptions with reduced := true }).toOption,
        t.doc.blocks.map (·.lines) = blocks) : blockLines lines settings true = some blocks := by
  obtain ⟨s, hs, htrimmed, hchanged, t, ht, hblocks⟩ := h
  obtain ⟨located, hlocated, hsame⟩ := exists_located (o := { attributes := .words settings })
    (eq_ok_of_mem_toOption hs) rfl htrimmed hchanged (eq_ok_of_mem_toOption ht)
  unfold blockLines
  rw [hlocated]
  exact congrArg some ((congrArg (List.map _) hsame).trans hblocks)

/-- If blocks are located, an empty line in a false conditional no longer ends the paragraph or the
header around it, nor is it a line of a block. A last block without an end loses empty lines. A kept
text that is a conditional is acted on, and one behind a backslash loses it. A setting with two marks
is given anew with one, for another attribute. -/
theorem sourcemap_changes_content :
    (blockLines ["one", "ifdef::x[]", "", "endif::[]", "two"] "" false = some [["one"], ["two"]] ∧
      blockLines ["one", "ifdef::x[]", "", "endif::[]", "two"] "" true = some [["one", "two"]]) ∧
    (blockLines ["= T", "ifdef::x[]", "", "endif::[]", "two"] "" false = some [["two"]] ∧
      blockLines ["= T", "ifdef::x[]", "", "endif::[]", "two"] "" true = some []) ∧
    (blockLines ["----", "ifdef::x[]", "", "endif::[]", "----"] "" false =
        some [["----", "", "----"]] ∧
      blockLines ["----", "ifdef::x[]", "", "endif::[]", "----"] "" true =
        some [["----", "----"]]) ∧
    (blockLines ["ifdef::x[gone]", "----", "code", ""] "" false = some [["----", "code", ""]] ∧
      blockLines ["ifdef::x[gone]", "----", "code", ""] "" true = some [["----", "code"]]) ∧
    (blockLines ["ifdef::a[ifdef::b[x]]"] "a" false = some [["ifdef::b[x]"]] ∧
      blockLines ["ifdef::a[ifdef::b[x]]"] "a" true = some []) ∧
    (blockLines ["ifdef::a[\\include::b.adoc[]]"] "a" false =
        some [["\\include::b.adoc[]"]] ∧
      blockLines ["ifdef::a[\\include::b.adoc[]]"] "a" true = some [["include::b.adoc[]"]]) ∧
    ∃ plain ∈ (reduce 20 (.ofTexts []) (.lines ["ifdef::x[gone]", ":a: 1"])
        { attributes := .words "a!!" } {}).toOption,
      ∃ located ∈ (reduce 20 (.ofTexts []) (.lines ["ifdef::x[gone]", ":a: 1"])
          { attributes := .words "a!!", sourcemap := true } {}).toOption,
        Mapping.get? plain.value.attributes "a" = some "1" ∧
        Mapping.get? located.value.attributes "a" = none := by
  refine ⟨⟨by decide +kernel, blockLines_located (by decide +kernel)⟩,
    ⟨by decide +kernel, blockLines_located (by decide +kernel)⟩,
    ⟨by decide +kernel, blockLines_located (by decide +kernel)⟩, ?_⟩
  decide +kernel

end DocFlatten
