import DocFlatten.Proofs.Absorbing
import DocFlatten.Proofs.Reloading

/-! # What a catalogue tells of a reduction

The catalogue of a reduced document lists exactly the files that its directives have led to, and of
these a replay puts exactly those in the place of their directives whose directive is a line of its
own (`catalogue_of_reduction`). With conditionals resolved that is all of them. A reduction that
leaves conditionals as they are keeps the line of a conditional, so a file that its text leads to is
listed but has no place (`listed_without_place`).

* `View.Recalls`: the text of a conditional is in front exactly if that conditional came last;
* `Absorbed.Settled`: an absorbed file stands in its place unless its directive was such a text;
* `Session.Heeds`: so it is with all that a session has absorbed.
-/

namespace DocFlatten

open DocFlatten.Replacement DocFlatten.Text

/-! ## Texts of conditionals -/

/-- How a text that the last conditional has left stands to a view of the line in front: it is that
line if a text is in front, and otherwise no directive, since that would have been followed. -/
def Replacement.View.Recalls (r : Reader) (left : Option String) : View → Prop
  | .text => left = r.scope.lines.head?
  | _ => ∀ text d, left = some text → LineKind.ofLine text ≠ .directive d

/-- Only a text in front is what a conditional left. -/
theorem Replacement.View.Recalls.of_none {r : Reader} {v : View} (h : v ≠ .text) :
    v.Recalls r none := by
  cases v with
  | text => exact absurd rfl h
  | raw | held | live =>
    intro text d hleft
    cases hleft

/-- A directive in front is the text of a conditional exactly if it is seen as such. -/
theorem Replacement.View.Recalls.eq_line_iff {r : Reader} {left : Option String} {v : View}
    (h : v.Recalls r left) {line : String} {rest : List String}
    (hfront : r.scope.lines = line :: rest) {d : Include}
    (hkind : LineKind.ofLine line = .directive d) : left = some line ↔ v = .text := by
  cases v with
  | text =>
    refine iff_of_true ?_ rfl
    rw [h, hfront]
    rfl
  | raw | held | live => exact iff_of_false (fun hleft => h line d hleft hkind) (by simp)

/-- A line in front that is no directive is recalled as such once it waits. -/
theorem Replacement.View.Recalls.hold {r r' : Reader} {left : Option String} {v : View}
    (h : v.Recalls r left) {line : String} {rest : List String}
    (hfront : r.scope.lines = line :: rest) (hkind : ∀ d, LineKind.ofLine line ≠ .directive d) :
    View.held.Recalls r' left := by
  intro text d hleft
  cases v with
  | text =>
    rw [h, hfront, List.head?_cons] at hleft
    exact Option.some.inj hleft ▸ hkind d
  | raw | held | live => exact h text d hleft

/-! ## Files that stand in their places -/

/-- An absorbed file whose place is settled: it has one unless its directive was the text of a
conditional. -/
def Absorbed.Settled (i : Absorbed) (t : Tree) (source : List String) : Prop :=
  ∃ site, t.siteOf? i.node = some site ∧ site.parent < i.node ∧
    (Stands t source i.node ↔ i.held = false)

/-- The nodes of a tree that grows stay settled. -/
theorem Absorbed.Settled.grows {i : Absorbed} {t t' : Tree} {source : List String}
    (h : i.Settled t source) (hgrows : Grows t t' source) : i.Settled t' source := by
  obtain ⟨site, hsite, hlt, hstands⟩ := h
  refine ⟨site, (hgrows.site _ (Tree.siteOf?_lt hsite)).trans hsite, hlt, ?_⟩
  rw [hgrows.stands_iff hsite hlt]
  exact hstands

namespace Session

theorem leftText?_of_events {s s' : Session} (h : s'.journal.events = s.journal.events) :
    s'.leftText? = s.leftText? := by
  unfold leftText?
  rw [h]

/-- After a turn, the text that its last event leaves is in front. -/
theorem Turns.leftText? {s s' : Session} {r : Reader} {es : List Event} (h : Turns s r es s')
    {e : Event} (hlast : es.getLast? = some e) :
    s'.leftText? = e.leftText? := by
  unfold Session.leftText?
  rw [h.events, List.getLast?_append, hlast]
  rfl

/-- The last event of a directive that is followed is its outcome. -/
theorem Turns.leftText?_followed {s s' : Session} {r : Reader} {d : Include} {es : List Event}
    (h : Turns s r es s') (hfollowed : Followed s.reader d es r) : s'.leftText? = none := by
  cases hfollowed with
  | kept => exact h.leftText? rfl
  | gone ends frame hends => exact h.leftText? (by rw [List.getLast?_concat])
  | replaced text => exact h.leftText? rfl
  | entered lines cursor frame ends hlines hends =>
    exact h.leftText? (by rw [List.getLast?_concat])

/-- A session without processors that leaves conditionals as they are: it is known where reading is,
and whether what was absorbed has a place. -/
structure Heeds (s : Session) (is : List Absorbed) : Prop where
  processors : s.doc.options.processors = []
  tracked : ∃ out i v, Tracked s.doc.sourceLines (s.tracker true) s.reader out i v ∧
    v.Recalls s.reader s.leftText?
  settled : ∀ i ∈ is, i.Settled (s.tracker true).tree s.doc.sourceLines

namespace Heeds

variable {s s' : Session} {is : List Absorbed} {line : String} {rest : List String}

/-- Only the processors, the source, the reader and the events matter. -/
theorem of_eq (h : s.Heeds is) (hprocessors : s'.doc.options.processors = [])
    (hsource : s'.doc.sourceLines = s.doc.sourceLines) (hreader : s'.reader = s.reader)
    (hevents : s'.journal.events = s.journal.events) : s'.Heeds is := by
  refine ⟨hprocessors, ?_, ?_⟩
  · rw [hsource, hreader, leftText?_of_events hevents, tracker_of_events hevents]
    exact h.tracked
  · rw [hsource, tracker_of_events hevents]
    exact h.settled

/-- What was absorbed stays settled while reading goes on. -/
theorem turn (h : s.Heeds is) {r : Reader} {es : List Event} (hturns : Turns s r es s')
    {out : Nat → List String} {i : Nat} {v : View}
    (htracked : Tracked s.doc.sourceLines ((s.tracker true).observeAll es) r out i v)
    (hrecalls : v.Recalls r s'.leftText?) : s'.Heeds is := by
  have hsource : s'.doc.sourceLines = s.doc.sourceLines := by rw [hturns.doc]
  refine ⟨by rw [hturns.doc]; exact h.processors, ?_, ?_⟩
  · rw [hsource, hturns.reader, hturns.tracker]
    exact ⟨out, i, v, htracked, hrecalls⟩
  · rw [hsource, hturns.tracker]
    intro i hi
    exact (h.settled i hi).grows
      (Tracker.grows_observeAll s.preserve_tracker es s.doc.sourceLines).2

/-- Leaving a scope changes no node that is settled. -/
theorem leave (h : s.Heeds is) (hidle : s.reader.Idle) {scope : Scope} {outer : List Scope}
    (houter : s.reader.outer = scope :: outer) : s.leave.Heeds is := by
  obtain ⟨out, i, v, htracked, -⟩ := h.tracked
  obtain ⟨p, j, directive, scopes, hscopes, hsite, -⟩ := htracked.innermost houter
  have hturns := turns_leave houter
  refine h.turn hturns (htracked.leave hidle houter hscopes hsite) ?_
  rw [hturns.leftText? rfl]
  exact .of_none (by simp)

/-- Taking a line changes no node that is settled. -/
theorem take (h : s.Heeds is) (hlook : 0 < s.reader.lookAhead) :
    s.takeFront.2.Heeds is := by
  obtain ⟨out, i, v, htracked, hrecalls⟩ := h.tracked
  obtain rfl : v = .held := by
    cases htracked.facing with
    | raw hidle | text _ _ _ hidle =>
      have := hidle.lookAhead
      omega
    | held => rfl
  obtain ⟨line, rest, hfront⟩ : ∃ line rest, s.reader.scope.lines = line :: rest := by
    cases htracked.facing with
    | held _ text _ _ hlines => exact ⟨_, _, hlines⟩
  refine ⟨by rw [doc_takeFront]; exact h.processors, ⟨out, i + 1, .raw, ?_, ?_⟩, ?_⟩
  · rw [doc_takeFront, tracker_takeFront, reader_takeFront]
    exact htracked.take hfront
  · rw [leftText?_of_events (events_takeFront s)]
    exact hrecalls
  · rw [doc_takeFront, tracker_takeFront]
    exact h.settled

section Look

variable (h : s.Heeds is) (hidle : s.reader.Idle) (hfront : s.reader.scope.lines = line :: rest)

include h hidle hfront

/-- A line that is content waits to be taken. -/
theorem hold {unescape : Bool} (hkind : ∀ d, LineKind.ofLine line ≠ .directive d)
    (hturns : Turns s { s.reader.hold with unescape } [] s') : s'.Heeds is := by
  obtain ⟨out, i, v, htracked, hrecalls⟩ := h.tracked
  have hleft : s'.leftText? = s.leftText? :=
    leftText?_of_events (by rw [hturns.events, List.append_nil])
  refine h.turn hturns (htracked.hold hidle hfront unescape) ?_
  rw [hleft]
  exact hrecalls.hold hfront hkind

/-- A line of a skipped region is passed over. -/
theorem pass (hskip : s.reader.skipping = true) (hturns : Turns s s.reader.shifted [] s') :
    s'.Heeds is := by
  obtain ⟨out, i, v, htracked, hrecalls⟩ := h.tracked
  obtain rfl := htracked.raw_of_ne hidle hfront (Or.inl hskip)
  have hleft : s'.leftText? = s.leftText? :=
    leftText?_of_events (by rw [hturns.events, List.append_nil])
  refine h.turn hturns (htracked.pass hidle hfront s.reader.conditionals s.reader.skipping) ?_
  rw [hleft]
  exact hrecalls

/-- A conditional is passed, or leaves its text. -/
theorem conditional {c : Conditional} {consumed : Bool} {r : Reader}
    (hkind : LineKind.ofLine line = .conditional c) (hruled : Ruled s.reader c consumed r)
    (hturns : Turns s (if consumed then r.shifted else r) [c.event s.reader r consumed] s') :
    s'.Heeds is := by
  obtain ⟨out, i, v, htracked, -⟩ := h.tracked
  obtain rfl := htracked.raw_of_ne hidle hfront
    (Or.inr (LineKind.not_include_of_conditional hkind))
  have hquiet : (s.tracker true).observeAll [c.event s.reader r consumed] = s.tracker true := by
    simp [Conditional.event, Tracker.observe_conditional s.preserve_tracker]
  have hleft : s'.leftText? = if consumed then none else c.text.map stripEnd := by
    rw [hturns.leftText? rfl]
    cases consumed <;> rfl
  -- a conditional that is used up leaves no text
  have hpassed : consumed = true → ∀ conditionals skipping,
      r = { s.reader with conditionals, skipping } → s'.Heeds is := by
    rintro rfl conditionals skipping rfl
    refine h.turn hturns (hquiet.symm ▸ htracked.pass hidle hfront conditionals skipping) ?_
    rw [hleft]
    exact .of_none (by simp)
  cases hruled with
  | idle => exact hpassed rfl s.reader.conditionals s.reader.skipping rfl
  | opened target skip skipping => exact hpassed rfl _ _ rfl
  | closed top open' => exact hpassed rfl _ _ rfl
  | kept text hskip htext =>
    refine h.turn hturns
      (hquiet.symm ▸ htracked.keep hidle hfront hskip hkind text) ?_
    rw [hleft, htext]
    unfold View.keep
    by_cases hinclude : text.startsWith "include::" = true
    · rw [if_pos hinclude]
      simp [View.Recalls, Reader.keeping, hinclude, Reader.setHead]
    · rw [if_neg hinclude]
      intro text' d hsame hdirective
      cases hsame
      exact hinclude (startsWith_of_stripEnd (LineKind.startsWith_of_directive hdirective))

/-- A directive is followed; if it leads to a file, that stands in its place unless the directive is
the text of a conditional. -/
theorem follow {d : Include} {es : List Event} {r : Reader}
    (hkind : LineKind.ofLine line = .directive d) (hfollowed : Followed s.reader d es r)
    (hturns : Turns s r es s') : s'.Heeds (is ++ (s.absorbed? true line).toList) := by
  obtain ⟨out, i, v, htracked, hrecalls⟩ := h.tracked
  obtain ⟨out', i', v', htracked', hne⟩ := htracked.followed hidle hfront hkind hfollowed
  have hheeds : s'.Heeds is := by
    refine h.turn hturns htracked' ?_
    rw [hturns.leftText?_followed hfollowed]
    exact .of_none hne
  refine { hheeds with settled := fun j hj => ?_ }
  rcases List.mem_append.mp hj with hold | hnew
  · -- an include from before the line
    exact hheeds.settled j hold
  · -- the include of the line: its place is taken exactly if the line is not the text that a
    -- conditional left
    obtain ⟨e, -, rfl⟩ := Option.map_eq_some_iff.mp (Option.mem_toList.mp hnew)
    obtain ⟨o, hobserved⟩ := Tracker.observeAll_followed htracked.pending htracked.recorded.path
      htracked.lineno hfollowed
    obtain ⟨left, offset, htree⟩ := Tracker.tree_including (s.tracker true) i d.line o
    have hsource : s'.doc.sourceLines = s.doc.sourceLines := by rw [hturns.doc]
    rw [hturns.tracker, hobserved, htree, hsource, LineKind.line_of_directive hkind]
    refine ⟨_, Tree.siteOf?_attach_self .., htracked.recorded.lt_size, ?_⟩
    change Stands _ _ (s.tracker true).tree.size ↔ (s.leftText? == some line) = false
    have htext := hrecalls.eq_line_iff hfront hkind
    rw [htracked.attach_stands_iff hidle hfront hkind left offset, beq_eq_false_iff_ne, Ne, htext]
    obtain ⟨-, -, ⟨rfl, -⟩ | ⟨rfl, -⟩⟩ := htracked.front hidle hfront
    · -- the line is one of the file, and no text was put into it
      simp
    · -- the line is the text that a conditional put there
      simp

/-- Whatever a look leads to, it is known what it has absorbed, unless the system refuses it. -/
theorem look (hgoes : (s.glance line).GoesOn) :
    (s.glance line).session.Heeds (is ++ (s.absorbed? true line).toList) := by
  have hlook := look_glance hidle.lookAhead hfront
  -- on a line that is no directive, or is skipped, nothing is absorbed
  have hnothing : ∀ s' : Session, s'.Heeds is →
      (∀ d, LineKind.ofLine line = .directive d → s.reader.skipping = true) →
      s'.Heeds (is ++ (s.absorbed? true line).toList) := by
    intro s' hheeds hkind
    rw [absorbed?_eq_none true hkind]
    simpa using hheeds
  generalize s.glance line = g at hlook hgoes
  cases hlook with
  | plain s' hturns hline =>
    have hkind := ne_directive_of_plain hline
    exact hnothing s' (h.hold hidle hfront hkind hturns) fun d hd => absurd hd (hkind d)
  | escaped s' hturns _ hline =>
    have hkind := ne_directive_of_escaped hline
    exact hnothing s' (h.hold hidle hfront hkind hturns) fun d hd => absurd hd (hkind d)
  | passed s' hskip _ hturns =>
    exact hnothing s' (h.pass hidle hfront hskip hturns) fun _ _ => hskip
  | conditional c consumed r s' hkind _ hruled hturns =>
    refine hnothing s' (h.conditional hidle hfront hkind hruled hturns) fun d hd => ?_
    rw [hkind] at hd
    cases hd
  | kept d s' hkind _ _ hturns => exact h.follow hidle hfront hkind .kept hturns
  | followed d es r s' hkind _ hfollowed hturns =>
    exact h.follow hidle hfront hkind hfollowed hturns
  | handed d processor target attributes s' _ _ hresolve =>
    exact absurd hresolve (resolve_ne_handed h.processors)
  | refused d e s' => exact absurd rfl (hgoes e s')

end Look

end Heeds

variable {files : FileTree} {source : Source} {o : LoadOptions} {s : Session} {is : List Absorbed}

/-- Reading without processors heeds what it absorbs. -/
theorem Absorbs.heeds (h : Absorbs true files source o s is) (hprocessors : o.processors = []) :
    s.Heeds is := by
  induction h with
  | start hopen =>
    obtain ⟨mode, -, rfl⟩ := openSource_eq_ok.mp hopen
    exact ⟨hprocessors, ⟨_, 0, .raw, tracked_start source.prepare _ _ _, .of_none (by simp)⟩,
      fun i hi => by cases hi⟩
  | leave _ hidle _ houter ih =>
    obtain ⟨scope, outer, hscopes⟩ := List.exists_cons_of_ne_nil houter
    exact ih.leave hidle hscopes
  | meet line _ ih => exact ih.of_eq ih.processors rfl rfl (events_meet _ _)
  | look _ hidle hfront hgoes ih => exact ih.look hidle hfront hgoes
  | take _ _ hlook ih => exact ih.take hlook
  | edit d _ hedit ih =>
    refine ih.of_eq ?_ hedit.sourceLines hedit.reader rfl
    simpa only [hedit.options] using ih.processors
  | log record _ ih => exact ih.of_eq ih.processors rfl rfl (events_log _ _)

end Session

/-! ## Reductions -/

/-- The replay of a tree that is recorded puts an include in its place exactly if it stands. -/
theorem Replacement.Recorded.mem_placedBelow {t : Tree} {source : List String}
    {out : Nat → List String} (h : Recorded t source out 0 [] []) {c : Nat} (hpos : 0 < c)
    (hlt : c < t.size) :
    c ∈ placedBelow (t.withSource source) t.size ↔ Stands t source c := by
  rw [Replacement.mem_placedBelow h.sound h.tidy (fun c hpos hlt => h.closed c hpos hlt (by simp))
    (partlyReplayed_withSource h.sound) (Nat.le_refl _) hpos]
  exact and_iff_right hlt

namespace Session

variable {fuel : Nat} {files : FileTree} {source : Source} {o : LoadOptions} {s : Session}
  {is : List Absorbed}

/-- Of the files that a loaded document has absorbed, a replay puts exactly those in their places
whose directive is not the text of a conditional that stays. -/
theorem placed_iff {preserve : Bool} (h : load fuel files source o = .ok s)
    (hprocessors : o.processors = [])
    (htrimmed : preserve = false → TextsTrimmed s.journal.events)
    (habsorbs : Absorbs preserve files source o s is) {i : Absorbed} (hi : i ∈ is) :
    let tree := ((s.tracker preserve).finish s.doc.sourceLines.length).tree
    i.Noted tree s.doc.sourceLines ∧
      (i.node ∈ placedBelow (tree.withSource s.doc.sourceLines) tree.size ↔
        ¬ (preserve = true ∧ i.held = true)) := by
  intro tree
  have hdrops : MoreDrops (s.tracker preserve).tree tree := Tracker.moreDrops_finish _ _
  obtain ⟨hpos, ⟨parent, position, hsite⟩, hlines⟩ : i.Noted tree s.doc.sourceLines :=
    (habsorbs.noted.2 i hi).lasts (.of_moreDrops hdrops _)
  have hlt := Tree.siteOf?_lt hsite
  refine ⟨⟨hpos, ⟨parent, position, hsite⟩, hlines⟩, ?_⟩
  cases preserve with
  | false =>
    -- with its conditionals resolved every include stands
    have htexts := htrimmed rfl
    obtain ⟨haccount, hend⟩ := load_keeps harmless_inAccount h fun s₀ hopen =>
      inAccount_openSource hopen (by simp [hprocessors])
    obtain ⟨out, j, e, haccounted⟩ := haccount.2 htexts
    obtain ⟨hrecorded, -⟩ := haccounted.finish hend.idle hend.lines hend.outer
    have hstands : Stands tree s.doc.sourceLines i.node :=
      allStand_finishedTree h hprocessors htexts i.node hpos hlt
    exact iff_of_true ((Recorded.mem_placedBelow hrecorded hpos hlt).mpr hstands) (by simp)
  | true =>
    have hheeds := habsorbs.heeds hprocessors
    have hend := (load_keeps (P := fun _ => True)
      ⟨kept_true, fun _ _ _ _ => trivial, fun _ _ _ => trivial⟩ h fun _ _ => trivial).2
    obtain ⟨out, j, v, htracked, -⟩ := hheeds.tracked
    obtain ⟨-, -, hrecorded⟩ := htracked.document hend.outer
    obtain ⟨-, -, -, hstands⟩ := hheeds.settled i hi
    have htree : tree = (s.tracker true).tree := by
      change ((s.tracker true).finish s.doc.sourceLines.length).tree = _
      rw [Tracker.finish_preserve s.preserve_tracker]
    rw [htree] at hlt ⊢
    rw [Recorded.mem_placedBelow hrecorded hpos hlt, hstands]
    simp

end Session

/-- The catalogue of a reduced document lists exactly the names of the files that its directives
have led to, as whole if one of them was. Of these files a replay puts all in the places of their
directives but those that the text of a conditional leads to, if conditionals stay as they are. -/
theorem catalogue_of_reduction {fuel : Nat} {files : FileTree} {source : Source} {o : LoadOptions}
    {ro : ReduceOptions} {s : Session} (h : Session.load fuel files source o = .ok s)
    (hprocessors : o.processors = []) (hsourcemap : o.sourcemap = false)
    (htrimmed : ro.preserveConditionals = false → TextsTrimmed s.journal.events) :
    let tree := ((s.tracker ro.preserveConditionals).finish s.doc.sourceLines.length).tree
    ∃ reduced, reduce fuel files source o ro = .ok reduced ∧
      (∃ is, Session.Absorbs ro.preserveConditionals files source o s is) ∧
      ∀ is, Session.Absorbs ro.preserveConditionals files source o s is →
        Catalogued reduced.value.includes is ∧
        ∀ i ∈ is, i.Noted tree s.doc.sourceLines ∧
          (i.node ∈ placedBelow (tree.withSource s.doc.sourceLines) tree.size ↔
            ¬ (ro.preserveConditionals = true ∧ i.held = true)) := by
  intro tree
  obtain ⟨reduced, hreduce⟩ : ∃ reduced, reduce fuel files source o ro = .ok reduced :=
    reduce_of_not_sourcemap _ h hsourcemap
  refine ⟨reduced, hreduce, Session.absorbs_load _ h hprocessors, fun is habsorbs => ⟨?_, ?_⟩⟩
  · -- the reduced document lists what the load registered
    rw [includes_reduce h hreduce]
    exact habsorbs.catalogued
  · intro i hi
    exact Session.placed_iff h hprocessors htrimmed habsorbs hi

/-- Two files, one of which includes a part of the other one. -/
def partFiles : FileTree :=
  .ofTexts [("a.adoc", "a\nb\n"), ("c.adoc", "include::a.adoc[lines=2]\n")]

/-- A document that includes both, one of them by the text of a conditional. -/
def partSource : Source :=
  .lines ["ifdef::flag[include::c.adoc[]]", "include::a.adoc[]"]

/-- The text of a conditional leads to a file that includes a part of another one, which is included
as a whole later. -/
theorem catalogue_of_reduction_nested :
    ∃ s ∈ (Session.load 40 partFiles partSource { attributes := .words "flag" }).toOption,
      TextsTrimmed s.journal.events ∧
      s.doc.includes = [("c", true), ("a", true)] ∧
      placedBelow (s.finishedTree.withSource s.doc.sourceLines) s.finishedTree.size = [3, 2, 1] ∧
      ∃ reduced,
        reduce 40 partFiles partSource { attributes := .words "flag" } {} = .ok reduced ∧
        ∃ is, Catalogued reduced.value.includes is ∧ ∀ i ∈ is,
          i.node ∈ placedBelow (s.finishedTree.withSource s.doc.sourceLines) s.finishedTree.size := by
  have hload : ∃ s ∈ (Session.load 40 partFiles partSource
        { attributes := .words "flag" }).toOption,
      TextsTrimmed s.journal.events ∧
      s.doc.includes = [("c", true), ("a", true)] ∧
      placedBelow (s.finishedTree.withSource s.doc.sourceLines) s.finishedTree.size = [3, 2, 1] := by
    decide +kernel
  obtain ⟨s, hs, htrimmed, hincludes, hplaced⟩ := hload
  have hload := eq_ok_of_mem_toOption hs
  have htexts : ({} : ReduceOptions).preserveConditionals = false →
      TextsTrimmed s.journal.events := fun _ => htrimmed
  obtain ⟨reduced, hreduced, ⟨is, habsorbs⟩, hall⟩ := catalogue_of_reduction hload rfl rfl htexts
  obtain ⟨hcatalogued, hplaces⟩ := hall is habsorbs
  exact ⟨s, hs, htrimmed, hincludes, hplaced, reduced, hreduced, is, hcatalogued,
    fun i hi => (hplaces i hi).2.mpr (by simp)⟩

/-- If conditionals stay as they are, a file that the text of one leads to is listed, but the replay
puts it nowhere. -/
theorem listed_without_place :
    ∃ s ∈ (Session.load 20 (.ofTexts [("a.adoc", "a\n")])
        (.lines ["ifdef::flag[include::a.adoc[]]"]) { attributes := .words "flag" }).toOption,
      ∃ reduced ∈ (reduce 20 (.ofTexts [("a.adoc", "a\n")])
          (.lines ["ifdef::flag[include::a.adoc[]]"]) { attributes := .words "flag" }
          { preserveConditionals := true }).toOption,
        reduced.value.includes = [("a", true)] ∧
        placedBelow ((s.tracker true).tree.withSource s.doc.sourceLines)
          (s.tracker true).tree.size = [] ∧
        reduced.value.sourceLines = ["ifdef::flag[include::a.adoc[]]"] := by
  decide +kernel

end DocFlatten
