import DocFlatten.Proofs.Accounting
import DocFlatten.Proofs.Reducing

/-! # Reduced lines are the delivered lines

Reading a document and replaying what was recorded meanwhile come to the same lines, up to empty
ones at the end (`replay_delivers`). Processors may push content, as long as no directive gets two
contents that are not empty (`reduce_delivers_pushed`): of two, only the innermost has a node, and
the lines of the other are lost (`reduce_loses_pushed`).
-/

namespace DocFlatten

open DocFlatten.Replacement

/-- The texts of single-line conditionals that were kept do not end in white space. -/
def TextsTrimmed (es : List Event) : Prop :=
  ∀ e, .conditional e ∈ es → e.retained = true →
    ∀ text, e.directive.text = some text → Text.stripEnd text = text

instance (es : List Event) : Decidable (TextsTrimmed es) :=
  decidable_of_iff
    (es.all (fun
      | .conditional e => !e.retained || e.directive.text.all fun text => Text.stripEnd text == text
      | _ => true) = true)
    (by
      rw [List.all_eq_true]
      refine ⟨fun h e he hretained text htext => ?_, fun h e he => ?_⟩
      · simpa [hretained, htext] using h _ he
      · cases e with
        | conditional e =>
          have := h e he
          cases hretained : e.retained <;> cases htext : e.directive.text <;> simp_all
        | includeFound | includeResolved | scopeEnd => rfl)

/-- The texts of earlier events are among those of all. -/
theorem TextsTrimmed.of_append {es es' : List Event} (h : TextsTrimmed (es ++ es')) :
    TextsTrimmed es ∧ TextsTrimmed es' :=
  ⟨fun e he => h e (List.mem_append_left _ he), fun e he => h e (List.mem_append_right _ he)⟩

/-! ## Processors that push content -/

/-- The content of an action that enters one. -/
def Action.content? : Action → Option Source
  | .enter content .. => some content
  | _ => none

/-- Whether an action enters content that is not empty. -/
def Action.entersLines (a : Action) : Bool :=
  match a.content? with
  | some content => !content.prepare.isEmpty
  | none => false

/-- A processor that does nothing but push content. -/
def Processor.PushesOnly (p : Processor) : Prop :=
  ∀ target attributes, ∀ a ∈ p.actions target attributes, a.content?.isSome = true

/-- A processor that pushes for each directive at most one content that is not empty. -/
def Processor.PushesOnce (p : Processor) : Prop :=
  ∀ target attributes, ((p.actions target attributes).filter Action.entersLines).length ≤ 1

namespace Session

theorem Pushed.acts {s t t' : Session} {i : Include} {entered : Bool}
    (h : Pushed s i entered t) (hlook : s.reader.lookAhead = 0) {actions : List Action}
    (honly : ∀ a ∈ actions, a.content?.isSome = true)
    (hone : (if entered then 1 else 0) + (actions.filter Action.entersLines).length ≤ 1)
    {readLine : Session → Except Halt Session} (hacts : actions.foldlM (act readLine) t = .ok t') :
    ∃ entered', Pushed s i entered' t' := by
  induction actions generalizing t entered with
  | nil =>
    cases hacts
    exact ⟨entered, h⟩
  | cons a actions ih =>
    rw [List.foldlM_cons] at hacts
    obtain ⟨u, hu, hrest⟩ := Except.bind_eq_ok_iff.mp hacts
    have honly' : ∀ a ∈ actions, a.content?.isSome = true := fun a ha =>
      honly a (List.mem_cons_of_mem _ ha)
    have ha := honly a List.mem_cons_self
    cases a with
    | enter content file path lineno attributes =>
      cases hu
      rw [List.filter_cons] at hone
      cases hempty : content.prepare.isEmpty with
      | true =>
        have hentered := h.enter hlook content file path lineno attributes
          (Or.inl (List.isEmpty_iff.mp hempty))
        rw [hempty] at hentered
        refine ih hentered honly' ?_ hrest
        simpa [Action.entersLines, Action.content?, hempty] using hone
      | false =>
        have hlines : Action.entersLines (.enter content file path lineno attributes) = true := by
          simp [Action.entersLines, Action.content?, hempty]
        -- only one entry may have lines, so nothing was entered before
        rw [if_pos hlines, List.length_cons] at hone
        obtain rfl : entered = false := by
          cases entered with
          | true =>
            simp only [if_true] at hone
            omega
          | false => rfl
        have hentered := h.enter hlook content file path lineno attributes (Or.inr rfl)
        rw [hempty] at hentered
        refine ih hentered honly' ?_ hrest
        simp only [Bool.false_eq_true, if_false] at hone
        simp only [Bool.not_false, Bool.or_true, if_true]
        omega
    | leave | setAttribute | readLine => cases ha

/-! ## The account of a session -/

/-- The lines that were delivered: those taken outside of skipped regions, as their scopes spell
them. -/
def delivered (s : Session) : List String :=
  (s.journal.taken.filter fun t => !t.skipping).map (·.spelled)

/-- The account of a session, as long as the texts that were kept do not end in white space. -/
def InAccount (s : Session) : Prop :=
  (∀ p ∈ s.doc.options.processors, p.PushesOnly ∧ p.PushesOnce) ∧
    (TextsTrimmed s.journal.events → ∃ out i e,
      Accounted s.doc.sourceLines (s.tracker false) s.reader s.delivered out i e)

/-- A turn keeps the account if it keeps it of its reader and its events. -/
theorem InAccount.turn {s s' : Session} {r : Reader} {es : List Event} (h : InAccount s)
    (hturns : Turns s r es s')
    (hstep : TextsTrimmed es → ∀ out i e,
      Accounted s.doc.sourceLines (s.tracker false) s.reader s.delivered out i e →
      ∃ out' i' e', Accounted s.doc.sourceLines ((s.tracker false).observeAll es) r s.delivered
        out' i' e') : InAccount s' := by
  have hoptions : s'.doc.options = s.doc.options := by rw [hturns.doc]
  have hlines : s'.doc.sourceLines = s.doc.sourceLines := by rw [hturns.doc]
  have hdelivered : s'.delivered = s.delivered := by
    unfold delivered
    rw [hturns.taken]
  refine ⟨by rw [hoptions]; exact h.1, fun htrimmed => ?_⟩
  rw [hturns.events] at htrimmed
  obtain ⟨hbefore, hnew⟩ := htrimmed.of_append
  obtain ⟨out, i, e, haccount⟩ := h.2 hbefore
  rw [hlines, hdelivered, hturns.reader, hturns.tracker]
  exact hstep hnew out i e haccount

/-- A line that is met is not delivered yet. -/
theorem InAccount.meet {s : Session} (h : InAccount s) (line : String) :
    InAccount (s.meet line) := by
  have hdelivered : (s.meet line).delivered = s.delivered := by
    unfold delivered
    rw [taken_meet]
  refine ⟨h.1, fun htrimmed => ?_⟩
  rw [events_meet] at htrimmed
  rw [tracker_meet, hdelivered]
  exact h.2 htrimmed

/-- A look at a line keeps the account, whatever becomes of the line. -/
theorem InAccount.look {s : Session} {line : String} {rest : List String} {g : Glance}
    (h : InAccount s) (hidle : s.reader.Idle) (hfront : s.reader.scope.lines = line :: rest)
    (hlook : Look s line g) : Ends InAccount g := by
  cases hlook with
  | plain s' hturns =>
    refine h.turn hturns fun _ out i e haccount => ⟨out, i, e, ?_⟩
    have hheld := haccount.hold hidle hfront s.reader.unescape
    exact hheld
  | escaped s' hturns =>
    exact h.turn hturns fun _ out i e haccount => ⟨out, i, e, haccount.hold hidle hfront true⟩
  | passed s' hskip _ hturns =>
    exact h.turn hturns fun _ out i e haccount =>
      ⟨out, i + 1, e, haccount.pass hidle hfront hskip⟩
  | conditional c consumed r s' hkind _ hruled hturns =>
    refine h.turn hturns fun htrimmed out i e haccount => ⟨out, ?_⟩
    refine haccount.conditional hidle hfront hkind hruled fun hkept text htext => ?_
    exact htrimmed _ List.mem_cons_self (by simp [hkept]) text htext
  | kept d s' hkind hskip _ hturns =>
    refine h.turn hturns fun _ out i e haccount => ?_
    have hline := LineKind.line_of_directive hkind
    exact haccount.follow hidle hskip (by rw [hline]; exact hfront) .kept
  | followed d es r s' hkind hskip hfollowed hturns =>
    refine h.turn hturns fun _ out i e haccount => ?_
    have hline := LineKind.line_of_directive hkind
    exact haccount.follow hidle hskip (by rw [hline]; exact hfront) hfollowed
  | handed d processor target attributes s' hkind hskip hresolve hturns =>
    intro readLine _ t hacts
    obtain ⟨honly, hone⟩ := h.1 processor (mem_of_resolve_handed hresolve)
    -- what a processor pushes is recorded like an include of a file
    have hpushed : Pushed s d false s' :=
      .outside s' s.reader.shifted.frame [] (fun e he => by cases he) hturns
    obtain ⟨entered, hpushed'⟩ := hpushed.acts hidle.lookAhead (honly target attributes)
      (by simpa using hone target attributes) hacts
    obtain ⟨es, r, hfollowed, hturns'⟩ := hpushed'.followed
    refine h.turn hturns' fun _ out i e haccount => ?_
    have hline := LineKind.line_of_directive hkind
    exact haccount.follow hidle hskip (by rw [hline]; exact hfront) hfollowed
  | refused => exact trivial

/-- Taking a line keeps the account. -/
theorem InAccount.take {s : Session} (h : InAccount s) (hsteady : s.reader.Steady)
    (hlook : 0 < s.reader.lookAhead) : InAccount s.takeFront.2 := by
  refine ⟨?_, fun htrimmed => ?_⟩
  · rw [doc_takeFront]
    exact h.1
  · obtain ⟨line, rest, hlines⟩ := hsteady.exists_front hlook
    rw [events_takeFront] at htrimmed
    obtain ⟨out, i, e, haccount⟩ := h.2 htrimmed
    have hsource : s.takeFront.2.doc.sourceLines = s.doc.sourceLines := by rw [doc_takeFront]
    have hdelivered : s.takeFront.2.delivered =
        s.delivered ++ if s.reader.skipping then [] else [line] := by
      unfold delivered
      rw [journal_takeFront hlines, Journal.taken_push_taken]
      cases s.reader.skipping <;> simp
    rw [hsource, tracker_takeFront, reader_takeFront, hdelivered]
    exact ⟨out, _, _, haccount.take hlook hlines⟩

/-- Reading and scanning keep the account. -/
theorem harmless_inAccount : Scan.Harmless InAccount where
  reading :=
    { leave := fun s h hidle hlines houter => by
        cases hs : s.reader.outer with
        | nil => exact absurd hs houter
        | cons scope outer =>
          refine h.turn (turns_leave hs) fun _ out i e haccount => ?_
          exact haccount.leave hidle hlines hs
      meet := fun s line h => h.meet line
      look := fun s line rest g h hidle hfront _ hlook => h.look hidle hfront hlook
      take := fun s h hsteady hlook => h.take hsteady hlook }
  edit s d h hedit := by
    have hr : ({ s with doc := d } : Session).reader = s.reader := hedit.reader
    refine ⟨?_, fun htrimmed => ?_⟩
    · simp only [hedit.options]
      exact h.1
    · rw [hr]
      simp only [hedit.sourceLines]
      exact h.2 htrimmed
  log s record h := by
    refine ⟨h.1, fun htrimmed => ?_⟩
    rw [events_log] at htrimmed
    have hdelivered : (s.log record).delivered = s.delivered := by
      unfold delivered
      rw [taken_log]
    rw [tracker_log, hdelivered]
    exact h.2 htrimmed

/-! ## Loaded documents -/

/-- Before anything is read, nothing is delivered. -/
theorem inAccount_openSource {files : FileTree} {source : Source} {o : LoadOptions} {s : Session}
    (h : openSource files source o = .ok s)
    (hprocessors : ∀ p ∈ o.processors, p.PushesOnly ∧ p.PushesOnce) : InAccount s := by
  obtain ⟨mode, -, rfl⟩ := openSource_eq_ok.mp h
  obtain ⟨hrecorded, hclear⟩ := recorded_empty source.prepare fun _ => []
  refine ⟨hprocessors, fun _ => ⟨fun _ => [], 0, 0, ?_⟩⟩
  exact
      { preserve := rfl
        pending := rfl
        recorded := hrecorded
        stands := fun scope hscope => by cases hscope
        lineno := rfl
        front := .raw ⟨rfl, rfl⟩ rfl hclear
        le := Nat.le_refl _
        reading := fun _ => ⟨rfl, rfl, fun c hc => by cases hc⟩
        skips := fun hread => by cases hread
        delivered := by
          unfold Tree.yieldedTo
          rw [Tree.yieldsBelow_zero]
          rfl }

/-- The replacement tree of a reading with its conditionals resolved, once it has ended. -/
def finishedTree (s : Session) : Tree :=
  ((s.tracker false).finish s.doc.sourceLines.length).tree

/-- Replaying what was recorded gives the delivered lines: as they are if nothing was recorded,
otherwise without empty ones at the end. -/
theorem replay_finishedTree {fuel : Nat} {files : FileTree} {source : Source} {o : LoadOptions}
    {s : Session} (h : load fuel files source o = .ok s)
    (hprocessors : ∀ p ∈ o.processors, p.PushesOnly ∧ p.PushesOnce)
    (htrimmed : TextsTrimmed s.journal.events) :
    (replay s.finishedTree s.doc.sourceLines).lines =
        (if s.finishedTree.isTrivial then s.delivered else trimEmptyEnd s.delivered) ∧
      (s.finishedTree.isTrivial = true → s.delivered = s.doc.sourceLines) := by
  obtain ⟨haccount, hend⟩ := load_keeps harmless_inAccount h fun s₀ hopen =>
    inAccount_openSource hopen hprocessors
  obtain ⟨out, i, e, haccount⟩ := haccount.2 htrimmed
  obtain ⟨hrecorded, hyields⟩ := haccount.finish hend.idle hend.lines hend.outer
  have hlines := hrecorded.replay_lines
  rwa [hyields] at hlines

end Session

/-! ## The lines of a reduction -/

/-- Reading agrees with reduction: replaying what a reading without processors has recorded gives
the lines that were delivered, without empty ones at the end if anything was recorded. Otherwise
these are the lines of the source. -/
theorem replay_delivers {fuel : Nat} {files : FileTree} {source : Source} {o : LoadOptions}
    {s : Session} (h : Session.load fuel files source o = .ok s) (hprocessors : o.processors = [])
    (htrimmed : TextsTrimmed s.journal.events) :
    let tracker := ((Tracker.start false).follow s.journal).1.finish s.doc.sourceLines.length
    let lines := (replay tracker.tree s.doc.sourceLines).lines
    (tracker.tree.isTrivial = false → lines = s.delivered.rdropWhile (· == "")) ∧
      (tracker.tree.isTrivial = true → lines = s.delivered ∧ lines = s.doc.sourceLines) := by
  intro tracker lines
  obtain ⟨hlines, htrivial⟩ := Session.replay_finishedTree h (by simp [hprocessors]) htrimmed
  have hlines' : lines =
      if tracker.tree.isTrivial then s.delivered else trimEmptyEnd s.delivered := hlines
  constructor
  · intro hcase
    rw [hlines', hcase]
    rfl
  · intro hcase
    rw [hlines', hcase]
    exact ⟨rfl, htrivial hcase⟩

/-- A file with a false conditional that ends with an empty line. -/
def conditionalEnd : FileTree :=
  .ofTexts [("a", "one\nifdef::x[two]\n\n")]

/-- A document that includes it ends without the empty lines that were delivered. -/
theorem replay_delivers_included :
    ∃ s, Session.load 20 conditionalEnd (.lines ["\\include::b[]", "include::a[]", ""]) {} = .ok s ∧
      TextsTrimmed s.journal.events ∧ s.delivered = ["\\include::b[]", "one", "", ""] ∧
      (replay s.finishedTree s.doc.sourceLines).lines = ["\\include::b[]", "one"] := by
  have hload : ∃ s ∈ (Session.load 20 conditionalEnd
      (.lines ["\\include::b[]", "include::a[]", ""]) {}).toOption,
      TextsTrimmed s.journal.events ∧ s.delivered = ["\\include::b[]", "one", "", ""] ∧
      s.finishedTree.isTrivial = false := by
    decide +kernel
  obtain ⟨s, hs, htrimmed, hdelivered, htracked⟩ := hload
  have hs' := eq_ok_of_mem_toOption hs
  have hlines := (replay_delivers hs' rfl htrimmed).1 htracked
  rw [hdelivered] at hlines
  exact ⟨s, hs', htrimmed, hdelivered, hlines⟩

/-! ## Pushed content -/

/-- What is left out at the end is empty. -/
theorem trimEmptyEnd_append (lines : List String) :
    ∃ blanks, trimEmptyEnd lines ++ blanks = lines ∧ ∀ line ∈ blanks, line = "" := by
  refine ⟨lines.rtakeWhile (· == ""), List.rdropWhile_append_rtakeWhile, ?_⟩
  intro line hline
  simpa using List.mem_rtakeWhile_imp hline

/-- Leaving empty lines out twice is leaving them out once. -/
theorem trimEmptyEnd_idempotent (lines : List String) :
    trimEmptyEnd (trimEmptyEnd lines) = trimEmptyEnd lines :=
  List.rdropWhile_idempotent _ _

/-- Empty lines at the end make no difference to what is left after blanks were removed. -/
theorem trimEmptyEnd_map_stripEnd (lines : List String) :
    trimEmptyEnd ((trimEmptyEnd lines).map Text.stripEnd) =
      trimEmptyEnd (lines.map Text.stripEnd) := by
  induction lines using List.reverseRecOn with
  | nil => rfl
  | append_singleton lines line ih =>
    by_cases hempty : line = ""
    · subst hempty
      have hleft : trimEmptyEnd (lines ++ [""]) = trimEmptyEnd lines :=
        List.rdropWhile_concat_pos _ _ _ rfl
      have hright : trimEmptyEnd (lines.map Text.stripEnd ++ [""]) =
          trimEmptyEnd (lines.map Text.stripEnd) := List.rdropWhile_concat_pos _ _ _ rfl
      rw [hleft, ih, List.map_append]
      exact hright.symm
    · have hleft : trimEmptyEnd (lines ++ [line]) = lines ++ [line] :=
        List.rdropWhile_concat_neg _ _ _ (by simpa using hempty)
      rw [hleft]

/-- What a reduction with its conditionals resolved returns. -/
theorem reduce_cases {fuel : Nat} {files : FileTree} {source : Source} {o : LoadOptions}
    {ro : ReduceOptions} {s : Session} {reduced : Logged Document}
    (h : Session.load fuel files source o = .ok s) (hpreserve : ro.preserveConditionals = false)
    (hreduce : reduce fuel files source o ro = .ok reduced) :
    let lines := (replay s.finishedTree s.doc.sourceLines).lines
    ∃ d : Document, reduced.value = (if ro.includeMap then d.appendIncludeMap.2 else d) ∧
      (((o.sourcemap && !s.finishedTree.isTrivial) = false ∧ d = s.doc.withSourceLines lines) ∨
        (o.sourcemap && !s.finishedTree.isTrivial) = true ∧ ∃ t,
          Session.load fuel s.files (.lines lines) { s.doc.reloadOptions with reduced := true } =
            .ok t ∧ d = { t.doc with includes := s.doc.includes }) := by
  have hcases := reduce_tree_cases h hreduce
  rw [hpreserve] at hcases
  exact hcases

/-- The lines of a reduced document are those of the replay; without blanks at their ends if the
document was loaded anew to locate its blocks. -/
theorem sourceLines_reduce {fuel : Nat} {files : FileTree} {source : Source} {o : LoadOptions}
    {s : Session} (h : Session.load fuel files source o = .ok s) :
    let lines := (replay s.finishedTree s.doc.sourceLines).lines
    (o.sourcemap = false →
      ∃ reduced, reduce fuel files source o {} = .ok reduced ∧ reduced.value.sourceLines = lines) ∧
    ∀ reduced, o.sourcemap = true → reduce fuel files source o {} = .ok reduced →
      reduced.value.sourceLines =
        if s.finishedTree.isTrivial then lines else lines.map Text.stripEnd := by
  intro lines
  have hmap : ∀ d : Document, (if ({} : ReduceOptions).includeMap then d.appendIncludeMap.2 else d) =
      d := fun d => rfl
  constructor
  · -- without locating blocks the lines are those that were played back
    intro hplain
    obtain ⟨reduced, hreduce⟩ := reduce_of_not_sourcemap {} h hplain
    obtain ⟨d, hvalue, hcases⟩ := reduce_cases h rfl hreduce
    refine ⟨reduced, hreduce, ?_⟩
    rw [hvalue, hmap]
    rcases hcases with ⟨-, rfl⟩ | ⟨hcase, -⟩
    · rfl
    · simp [hplain] at hcase
  · intro reduced hlocated hreduce
    obtain ⟨d, hvalue, hcases⟩ := reduce_cases h rfl hreduce
    rw [hvalue, hmap]
    cases htrivial : s.finishedTree.isTrivial with
    -- nothing was recorded, so nothing is loaded again
    | true =>
      rcases hcases with ⟨-, rfl⟩ | ⟨hcase, -⟩
      · rfl
      · simp [htrivial] at hcase
    -- the lines are loaded again, which takes off what ends them in blanks
    | false =>
      rcases hcases with ⟨hcase, -⟩ | ⟨-, t, hload, rfl⟩
      · simp [hlocated, htrivial] at hcase
      · exact (Session.load_reads hload).1

/-- Content that processors push is not lost, as long as they push for each directive at most one
content that is not empty: the reduced lines are the delivered ones, up to empty ones at the end.
If the reduced document is loaded anew, its lines lose blanks at their ends. -/
theorem reduce_delivers_pushed {fuel : Nat} {files : FileTree} {source : Source}
    {o : LoadOptions} {s : Session} (h : Session.load fuel files source o = .ok s)
    (hprocessors : ∀ p ∈ o.processors, p.PushesOnly ∧ p.PushesOnce)
    (htrimmed : TextsTrimmed s.journal.events) :
    (o.sourcemap = false → ∃ reduced, reduce fuel files source o {} = .ok reduced ∧
      trimEmptyEnd reduced.value.sourceLines = trimEmptyEnd s.delivered) ∧
    ∀ reduced, o.sourcemap = true → reduce fuel files source o {} = .ok reduced →
      trimEmptyEnd reduced.value.sourceLines =
        trimEmptyEnd (s.delivered.map Text.stripEnd) := by
  obtain ⟨hlines, htrivial⟩ := Session.replay_finishedTree h hprocessors htrimmed
  obtain ⟨hplain, hlocated⟩ := sourceLines_reduce h
  have hsource := (Session.load_reads h).1
  constructor
  · intro hsourcemap
    obtain ⟨reduced, hrun, hreduced⟩ := hplain hsourcemap
    refine ⟨reduced, hrun, ?_⟩
    rw [hreduced, hlines]
    split
    · rfl
    · exact trimEmptyEnd_idempotent _
  · intro reduced hsourcemap hrun
    rw [hlocated reduced hsourcemap hrun, hlines]
    cases hcase : s.finishedTree.isTrivial with
    -- the source is what was delivered, prepared as it was
    | true =>
      simp only [if_true]
      rw [htrivial hcase, hsource, map_stripEnd_prepare]
    | false =>
      simp only [Bool.false_eq_true, if_false]
      exact trimEmptyEnd_map_stripEnd _

/-- A processor that pushes the same contents for every directive. -/
def Processor.pushing (contents : List (List String)) : Processor :=
  { handles := fun _ => true
    actions := fun _ _ => contents.map fun lines => .enter (.lines lines) none none 1 [] }

theorem Processor.pushing_pushesOnly (contents : List (List String)) :
    (pushing contents).PushesOnly := by
  intro target attributes a ha
  obtain ⟨lines, -, rfl⟩ := List.mem_map.mp ha
  rfl

/-- A push that is not empty, between two that are. -/
theorem reduce_delivers_pushed_one :
    ∃ s reduced,
      Session.load 20 (.ofTexts []) (.lines ["include::x[]", "last"])
        { processors := [.pushing [[], ["first"], []]] } = .ok s ∧
      (Processor.pushing [[], ["first"], []]).PushesOnce ∧ TextsTrimmed s.journal.events ∧
      reduce 20 (.ofTexts []) (.lines ["include::x[]", "last"])
        { processors := [.pushing [[], ["first"], []]] } {} = .ok reduced ∧
      s.delivered = ["first", "last"] ∧
      trimEmptyEnd reduced.value.sourceLines = trimEmptyEnd s.delivered := by
  have hload : ∃ s ∈ (Session.load 20 (.ofTexts []) (.lines ["include::x[]", "last"])
        { processors := [.pushing [[], ["first"], []]] }).toOption,
      TextsTrimmed s.journal.events ∧ s.delivered = ["first", "last"] := by
    decide +kernel
  obtain ⟨s, hs, htrimmed, hdelivered⟩ := hload
  have hs' := eq_ok_of_mem_toOption hs
  have honce : (Processor.pushing [[], ["first"], []]).PushesOnce := fun _ _ =>
    Nat.le_refl 1
  obtain ⟨reduced, hrun, hreduced⟩ := (reduce_delivers_pushed hs' (fun p hp => by
    obtain rfl := List.mem_singleton.mp hp
    exact ⟨Processor.pushing_pushesOnly _, honce⟩) htrimmed).1 rfl
  exact ⟨s, reduced, hs', honce, htrimmed, hrun, hdelivered, hreduced⟩

/-- Of two contents that are pushed for one directive, the first one is lost: its lines are read,
but they are not in the reduced document. -/
theorem reduce_loses_pushed :
    (Processor.pushing [["first"], ["second"]]).PushesOnly ∧
    ∃ s ∈ (Session.load 20 (.ofTexts []) (.lines ["include::x[]"])
        { processors := [.pushing [["first"], ["second"]]] }).toOption,
      TextsTrimmed s.journal.events ∧ s.delivered = ["second", "first"] ∧
      ∃ reduced ∈ (reduce 20 (.ofTexts []) (.lines ["include::x[]"])
          { processors := [.pushing [["first"], ["second"]]] } {}).toOption,
        reduced.value.sourceLines = ["second"] ∧
        trimEmptyEnd reduced.value.sourceLines ≠ trimEmptyEnd s.delivered := by
  refine ⟨Processor.pushing_pushesOnly _, ?_⟩
  decide +kernel

end DocFlatten
