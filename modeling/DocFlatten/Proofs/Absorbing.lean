import DocFlatten.Proofs.Entering
import DocFlatten.Proofs.Loading
import DocFlatten.Proofs.Placing

/-! # The files that a reading absorbs

While a document is read, two accounts are kept of the files that directives lead to: the document
lists them in its catalogue, and a tracker attaches a node for each of them. Neither mentions the
other, so both are compared with the files themselves, in the order in which they are entered:

* `Absorbed`, `Session.Absorbs`: a file that was entered, and the history of a reading;
* `Absorbs.catalogued`: the catalogue lists the names of these files, as whole if one of them was;
* `Absorbs.noted`: the tracker has a node for each of them, with its directive and its lines.
-/

namespace DocFlatten

open DocFlatten.Replacement DocFlatten.Text

/-! ## Absorbed files -/

/-- A file that a line has led to while a document was read. -/
structure Absorbed where
  line : String
  name : String
  /-- Whether no lines of the file were selected. -/
  whole : Bool
  /-- The lines that were entered, with what is added around them. -/
  lines : List String
  /-- The number of the node that a tracker attaches for the file. -/
  node : Nat
  /-- Whether the line is the text of a single-line conditional. -/
  held : Bool

/-- The lines that are entered of a file, with what is added around them. -/
def Inclusion.entered (e : Inclusion) (s : Session) : List String :=
  if e.lines = [] then []
  else (Session.scopeOf (Mapping.get? s.doc.attributes "leveloffset") e.attributes
    (Session.scopeCursor s.reader.shifted.cursor (some e.path) (some e.shownPath)
      e.selection.lineno) e.lines).1.lines

/-- The text that an event leaves in front: that of a single-line conditional that was true. -/
def Event.leftText? : Event → Option String
  | .conditional e => if e.retained then e.directive.text.map stripEnd else none
  | _ => none

namespace Session

/-- The text that a single-line conditional has left, if nothing has happened since. -/
def leftText? (s : Session) : Option String :=
  s.journal.events.getLast?.bind Event.leftText?

/-- A file that a line leads to, as a tracker will know it. -/
def absorbed (preserve : Bool) (s : Session) (line : String) (e : Inclusion) : Absorbed where
  line := line
  name := e.name
  whole := e.whole
  lines := e.entered s
  node := (s.tracker preserve).tree.size
  held := s.leftText? == some line

/-- The file that a line leads to if it is looked at. -/
def absorbed? (preserve : Bool) (s : Session) (line : String) : Option Absorbed :=
  (s.inclusion? line).map (s.absorbed preserve line)

/-- Only a directive outside of skipped regions leads to a file. -/
theorem absorbed?_eq_none {s : Session} {line : String} (preserve : Bool)
    (h : ∀ d, LineKind.ofLine line = .directive d → s.reader.skipping = true) :
    s.absorbed? preserve line = none := by
  unfold absorbed?
  cases hinclusion : s.inclusion? line with
  | none => rfl
  | some e =>
    obtain ⟨d, hkind, hskip, -⟩ := inclusion?_eq_some hinclusion
    rw [h d hkind] at hskip
    cases hskip

/-- The files that were absorbed by the steps of reading that led to a session, for a tracker that
may leave conditionals as they are. Each step is taken where reading takes it. -/
inductive Absorbs (preserve : Bool) (files : FileTree) (source : Source) (o : LoadOptions) :
    Session → List Absorbed → Prop where
  | start {s : Session} (h : openSource files source o = .ok s) :
    Absorbs preserve files source o s []
  | leave {s : Session} {is : List Absorbed} (h : Absorbs preserve files source o s is)
      (hidle : s.reader.Idle) (hlines : s.reader.scope.lines = []) (houter : s.reader.outer ≠ []) :
    Absorbs preserve files source o s.leave is
  | meet {s : Session} {is : List Absorbed} (line : String)
      (h : Absorbs preserve files source o s is) : Absorbs preserve files source o (s.meet line) is
  | look {s : Session} {is : List Absorbed} {line : String} {rest : List String}
      (h : Absorbs preserve files source o s is) (hidle : s.reader.Idle)
      (hfront : s.reader.scope.lines = line :: rest) (hgoes : (s.glance line).GoesOn) :
    Absorbs preserve files source o (s.glance line).session
      (is ++ (s.absorbed? preserve line).toList)
  | take {s : Session} {is : List Absorbed} (h : Absorbs preserve files source o s is)
      (hsteady : s.reader.Steady) (hlook : 0 < s.reader.lookAhead) :
    Absorbs preserve files source o s.takeFront.2 is
  | edit {s : Session} {is : List Absorbed} (d : Document)
      (h : Absorbs preserve files source o s is) (hedit : s.doc.Edited d) :
    Absorbs preserve files source o { s with doc := d } is
  | log {s : Session} {is : List Absorbed} (record : Log.Record)
      (h : Absorbs preserve files source o s is) :
    Absorbs preserve files source o (s.log record) is

variable {preserve : Bool} {files : FileTree} {source : Source} {o : LoadOptions} {s : Session}
  {is : List Absorbed}

/-- Without processors, reading extends the history of a session. -/
theorem harmless_absorbs (preserve : Bool) (files : FileTree) (source : Source) (o : LoadOptions) :
    Scan.Harmless fun s =>
      s.doc.options.processors = [] ∧ ∃ is, Absorbs preserve files source o s is where
  reading :=
    { leave := by
        rintro s ⟨hprocessors, is, h⟩ hidle hlines houter
        refine ⟨?_, is, h.leave hidle hlines houter⟩
        obtain ⟨scope, outer, hscopes⟩ := List.exists_cons_of_ne_nil houter
        rw [(turns_leave hscopes).doc]
        exact hprocessors
      meet := by
        rintro s line ⟨hprocessors, is, h⟩
        exact ⟨hprocessors, is, h.meet line⟩
      look := by
        rintro s line rest g ⟨hprocessors, is, h⟩ hidle hfront rfl hlook
        refine hlook.ends_of_goesOn hprocessors fun hgoes => ⟨?_, _, h.look hidle hfront hgoes⟩
        obtain ⟨r, es, hturns⟩ := hlook.turns
        rw [hturns.doc]
        exact hprocessors
      take := by
        rintro s ⟨hprocessors, is, h⟩ hsteady hlook
        refine ⟨?_, is, h.take hsteady hlook⟩
        rw [doc_takeFront]
        exact hprocessors }
  edit := by
    rintro s d ⟨hprocessors, is, h⟩ hedit
    refine ⟨?_, is, h.edit d hedit⟩
    simp only [hedit.options]
    exact hprocessors
  log := by
    rintro s record ⟨hprocessors, is, h⟩
    exact ⟨hprocessors, is, h.log record⟩

/-- A loaded document has a history. -/
theorem absorbs_load {fuel : Nat} (preserve : Bool) (h : load fuel files source o = .ok s)
    (hprocessors : o.processors = []) : ∃ is, Absorbs preserve files source o s is := by
  refine (load_keeps (harmless_absorbs preserve files source o) h fun s₀ hopen => ?_).1.2
  refine ⟨?_, [], .start hopen⟩
  obtain ⟨mode, -, rfl⟩ := openSource_eq_ok.mp hopen
  exact hprocessors

end Session

/-! ## The catalogue -/

/-- A name that is listed as a whole stays listed as a whole. -/
theorem IncludeMap.get?_register (includes : IncludeMap) (name : String) (isPartial : Bool)
    (key : String) :
    Mapping.get? (includes.register name isPartial) key =
      if name = key then some (!isPartial || Mapping.get? includes name == some true)
      else Mapping.get? includes key := by
  unfold register Mapping.contains
  cases isPartial with
  | false => simp [Mapping.get?_insert]
  | true =>
    cases hname : Mapping.get? includes name with
    | none => simp [Mapping.get?_insert]
    | some whole =>
      by_cases hkey : name = key
      · subst hkey
        cases whole <;> simp [hname]
      · simp [hkey]

/-- A catalogue that lists absorbed files: their names, and as whole if one of the name was. -/
def Catalogued (includes : IncludeMap) (is : List Absorbed) : Prop :=
  ∀ name whole, Mapping.get? includes name = some whole ↔
    (∃ i ∈ is, i.name = name) ∧ (whole = true ↔ ∃ i ∈ is, i.name = name ∧ i.whole = true)

/-- Registering an absorbed include adds it to the catalogue. -/
theorem Catalogued.register {includes : IncludeMap} {is : List Absorbed}
    (h : Catalogued includes is) (i : Absorbed) :
    Catalogued (includes.register i.name !i.whole) (is ++ [i]) := by
  intro name whole
  rw [IncludeMap.get?_register]
  by_cases hname : i.name = name
  · -- the same name: it is listed as a whole now if it was before or if the new part is the whole
    -- file
    subst hname
    have hwhole : Mapping.get? includes i.name = some true ↔
        ∃ j ∈ is, j.name = i.name ∧ j.whole = true := by
      rw [h i.name true]
      constructor
      · rintro ⟨-, hsome⟩
        exact hsome.mp rfl
      · rintro ⟨j, hj, hjname, hjwhole⟩
        exact ⟨⟨j, hj, hjname⟩, iff_of_true rfl ⟨j, hj, hjname, hjwhole⟩⟩
    have hlisted : ∃ j ∈ is ++ [i], j.name = i.name := ⟨i, by simp, rfl⟩
    rw [if_pos rfl, Option.some.injEq, and_iff_right hlisted, Bool.eq_iff_iff]
    simp only [Bool.not_not, Bool.or_eq_true, beq_iff_eq, hwhole, List.mem_append,
      List.mem_singleton, or_and_right, exists_or, exists_eq_left, true_and]
    exact ⟨fun hw => hw.symm.trans or_comm, fun hw => or_comm.trans hw.symm⟩
  · -- another name: neither the entry nor the includes of that name change
    have hsame : ∀ p : Absorbed → Prop, (∃ j ∈ is ++ [i], j.name = name ∧ p j) ↔
        ∃ j ∈ is, j.name = name ∧ p j := by
      intro p
      simp [or_and_right, exists_or, hname]
    rw [if_neg hname, h name whole, hsame]
    simpa using fun _ => hsame fun _ => True

namespace Session

variable {preserve : Bool} {files : FileTree} {source : Source} {o : LoadOptions} {s : Session}
  {is : List Absorbed}

/-- What a look adds to the catalogue is what it absorbs. -/
theorem catalogued_glance {line : String} (h : Catalogued s.doc.includes is)
    (hlook : s.reader.lookAhead = 0) : Catalogued (s.glance line).session.doc.includes
      (is ++ (s.absorbed? preserve line).toList) := by
  unfold absorbed?
  cases hinclusion : s.inclusion? line with
  | none =>
    rw [(glance_apart hinclusion).includes]
    simpa using h
  | some e =>
    obtain ⟨i, way, es, s', -, -, hglance, hincludes, -⟩ := glance_inclusion hlook hinclusion
    have hpartial : e.selection.isPartial = !e.whole := by simp [Inclusion.whole]
    rw [hglance]
    change Catalogued s'.doc.includes _
    rw [hincludes, hpartial]
    exact h.register (s.absorbed preserve line e)

/-- The catalogue of a session lists what it has absorbed. -/
theorem Absorbs.catalogued (h : Absorbs preserve files source o s is) :
    Catalogued s.doc.includes is := by
  induction h with
  | start hopen =>
    obtain ⟨mode, -, rfl⟩ := openSource_eq_ok.mp hopen
    intro name whole
    change Mapping.get? [] name = some whole ↔ _
    simp
  | leave _ _ _ _ ih => rwa [includes_leave]
  | meet line _ ih => exact ih
  | look _ hidle _ _ ih => exact catalogued_glance ih hidle.lookAhead
  | take _ _ _ ih => rwa [doc_takeFront]
  | edit d _ hedit ih => simpa only [hedit.includes] using ih
  | log record _ ih => exact ih

end Session

/-! ## The nodes of a tracker -/

namespace Replacement

/-- Every include of the first tree is one of the second, with the same lines. -/
def Tree.Lasts (t t' : Tree) (source : List String) : Prop :=
  ∀ c site, t.siteOf? c = some site →
    t'.siteOf? c = some site ∧ t'.linesOf source c = t.linesOf source c

namespace Tree.Lasts

variable {t t' : Tree} {source : List String}

theorem refl (t : Tree) (source : List String) : t.Lasts t source :=
  fun _ _ hsite => ⟨hsite, rfl⟩

theorem trans {u : Tree} (h : t.Lasts t' source) (h' : t'.Lasts u source) : t.Lasts u source := by
  intro c site hsite
  obtain ⟨hsite', hlines⟩ := h c site hsite
  obtain ⟨hsite'', hlines'⟩ := h' c site hsite'
  exact ⟨hsite'', hlines'.trans hlines⟩

theorem of_moreDrops (h : MoreDrops t t') (source : List String) : t.Lasts t' source :=
  fun c _ hsite => ⟨(h.site c).trans hsite, h.lines source c⟩

/-- A node that is attached leaves the nodes before it as they are. -/
theorem attach (t : Tree) (source : List String) (parent : Nat) (position : Int)
    (directive : String) (lines : List String) (offset : Int) :
    t.Lasts (t.attach parent position directive lines offset) source := by
  intro c site hsite
  have hc := Tree.siteOf?_lt hsite
  exact ⟨(t.siteOf?_attach_of_lt _ _ _ _ _ hc).trans hsite,
    t.linesOf_attach_of_lt _ _ _ _ _ source hc⟩

end Tree.Lasts

namespace Tracker

variable {k : Tracker}

/-- Includes last, whatever a tracker observes. -/
theorem lasts_observe (k : Tracker) (e : Event) (source : List String) :
    k.tree.size ≤ (k.observe e).1.tree.size ∧ k.tree.Lasts (k.observe e).1.tree source := by
  -- all events but the resolution of an include only add drops
  have hdrops : ∀ t, MoreDrops k.tree t → k.tree.size ≤ t.size ∧ k.tree.Lasts t source :=
    fun t h => ⟨Nat.le_of_eq h.size.symm, .of_moreDrops h source⟩
  have hattach : ∀ parent position directive lines offset,
      k.tree.size ≤ (k.tree.attach parent position directive lines offset).size ∧
        k.tree.Lasts (k.tree.attach parent position directive lines offset) source := by
    intro parent position directive lines offset
    refine ⟨?_, Tree.Lasts.attach k.tree source parent position directive lines offset⟩
    rw [Tree.size_attach]
    omega
  cases e with
  | conditional e => exact hdrops _ (moreDrops_onConditional k e)
  | includeFound e => exact hdrops _ (.refl _)
  | scopeEnd before after => exact hdrops _ (moreDrops_onScopeEnd k after)
  | includeResolved o =>
    simp only [observe, onResolved]
    split
    · exact hdrops _ (.refl _)
    · cases o <;> exact hattach _ _ _ _ _

/-- Nodes last through any number of events. -/
theorem lasts_observeAll (k : Tracker) (es : List Event) (source : List String) :
    k.tree.size ≤ (k.observeAll es).tree.size ∧ k.tree.Lasts (k.observeAll es).tree source := by
  induction es generalizing k with
  | nil => exact ⟨Nat.le_refl _, .refl _ _⟩
  | cons e es ih =>
    obtain ⟨hsize, hlasts⟩ := lasts_observe k e source
    obtain ⟨hsize', hlasts'⟩ := ih (k.observe e).1
    exact ⟨Nat.le_trans hsize hsize', hlasts.trans hlasts'⟩

/-- The end of a scope does not settle what is pending. -/
theorem pending_onScopeEnd (k : Tracker) (depth : Int) :
    (k.onScopeEnd depth).pending = k.pending := by
  rcases k.onScopeEnd_cases depth with hend | ⟨scope, rest, left, -, -, hend | hend⟩
  · rw [hend]
  · rw [hend]
  · rw [hend]
    rfl

/-- While scopes end, what is known of an include directive stays, and no node is attached. -/
theorem observeAll_areEnds {depth : Nat} {ends : List Event} (h : AreEnds depth ends)
    (k : Tracker) :
    (k.observeAll ends).pending = k.pending ∧ MoreDrops k.tree (k.observeAll ends).tree := by
  induction ends generalizing k with
  | nil => exact ⟨rfl, .refl _⟩
  | cons e ends ih =>
    obtain ⟨before, after, rfl, -⟩ := h e List.mem_cons_self
    obtain ⟨hpending, hdrops⟩ := ih (fun e he => h e (List.mem_cons_of_mem _ he))
      (k.observe (.scopeEnd before after)).1
    exact ⟨hpending.trans (pending_onScopeEnd k after),
      (moreDrops_onScopeEnd k after).trans hdrops⟩

end Tracker

end Replacement

/-- The lines that an include directive leaves. -/
def Outcome.lines : Outcome → List String
  | .entered lines _ _ _ => lines
  | .replaced line _ => [line]
  | .vanished _ => []

def Way.lines : Way → List String
  | .vanished => []
  | .empty => []
  | .replaced text => [text]
  | .entered lines _ _ => lines

/-- In whatever way a directive is followed, it is found, and in the end there is an outcome. -/
theorem Way.Reported.outcome {r : Reader} {d : Include} {way : Way} {es : List Event}
    (h : way.Reported r d es) : ∃ ends o, AreEnds r.includeDepth ends ∧
      es = r.found d :: ends ++ [.includeResolved o] ∧ o.lines = way.lines := by
  have hnone : AreEnds r.includeDepth [] := fun e he => by cases he
  cases h with
  | vanished ends hends | empty ends hends => exact ⟨ends, _, hends, rfl, rfl⟩
  | replaced text => exact ⟨[], _, hnone, rfl, rfl⟩
  | entered lines cursor frame ends _ hends => exact ⟨ends, _, hends, rfl, rfl⟩

namespace Replacement.Tracker

/-- Whatever comes of a directive, its node is attached where the directive was found. -/
theorem tree_onResolved {k : Tracker} {p : Pending} (h : k.pending = some p) (o : Outcome) :
    ∃ offset, (k.onResolved o).1.tree =
      k.tree.attach p.parent p.position p.directive o.lines offset := by
  unfold onResolved
  rw [h]
  cases o with
  | entered lines lineno frame depth => exact ⟨_, rfl⟩
  | replaced line depth => exact ⟨_, rfl⟩
  | vanished depth => exact ⟨_, rfl⟩

/-- A directive that is followed gets the next node, with the lines that it leaves. -/
theorem site_observeAll (k : Tracker) {r : Reader} {d : Include} {way : Way} {es : List Event}
    (h : way.Reported r d es) (hpos : 0 < k.tree.size) (source : List String) :
    (∃ parent position, (k.observeAll es).tree.siteOf? k.tree.size =
        some ⟨parent, position, d.line⟩) ∧
      (k.observeAll es).tree.linesOf source k.tree.size = way.lines := by
  obtain ⟨ends, o, hends, rfl, hlines⟩ := h.outcome
  -- the directive that was found is still known when its outcome is
  obtain ⟨hpending, hdrops⟩ := observeAll_areEnds hends (k.onInclude ⟨d, r.cursor.lineno⟩)
  obtain ⟨offset, htree⟩ := tree_onResolved hpending o
  have hobserved : (k.observeAll (r.found d :: ends ++ [.includeResolved o])).tree =
      (((k.onInclude ⟨d, r.cursor.lineno⟩).observeAll ends).onResolved o).1.tree := by
    rw [List.cons_append, observeAll_cons, observeAll_append]
    rfl
  have hsize : ((k.onInclude ⟨d, r.cursor.lineno⟩).observeAll ends).tree.size = k.tree.size :=
    hdrops.size
  rw [hobserved, htree, ← hsize, ← hlines]
  refine ⟨⟨_, _, Tree.siteOf?_attach_self ..⟩, ?_⟩
  exact Tree.linesOf_attach_self _ _ _ _ _ _ _ (hsize ▸ hpos)

end Replacement.Tracker

/-- The node of an absorbed file: it belongs to the line that led to it, and has the lines that were
entered. -/
def Absorbed.Noted (i : Absorbed) (t : Tree) (source : List String) : Prop :=
  0 < i.node ∧ (∃ parent position, t.siteOf? i.node = some ⟨parent, position, i.line⟩) ∧
    t.linesOf source i.node = i.lines

/-- An include stays noted while nodes last. -/
theorem Absorbed.Noted.lasts {i : Absorbed} {t t' : Tree} {source : List String}
    (h : i.Noted t source) (hlasts : t.Lasts t' source) : i.Noted t' source := by
  obtain ⟨hpos, ⟨parent, position, hsite⟩, hlines⟩ := h
  obtain ⟨hsite', hlines'⟩ := hlasts _ _ hsite
  exact ⟨hpos, ⟨parent, position, hsite'⟩, hlines'.trans hlines⟩

namespace Session

variable {preserve : Bool} {files : FileTree} {source : Source} {o : LoadOptions} {s s' : Session}
  {is : List Absorbed}

/-- The lines that are reported for an include are those that are read. -/
theorem Inclusion.Enters.lines_eq {e : Inclusion} {s : Session} {way : Way}
    (h : Inclusion.Enters e s way) : way.lines = e.entered s := by
  unfold Inclusion.entered
  cases h with
  | empty hempty =>
    rw [if_pos hempty]
    rfl
  | full hne hentered =>
    rw [if_neg hne, hentered]
    rfl

/-- Whether the tracker of a session has a node for each of some absorbed files. -/
def Notes (preserve : Bool) (s : Session) (is : List Absorbed) : Prop :=
  0 < (s.tracker preserve).tree.size ∧
    ∀ i ∈ is, i.Noted (s.tracker preserve).tree s.doc.sourceLines

/-- Only the events and the source matter. -/
theorem Notes.of_eq (h : s.Notes preserve is) (hevents : s'.journal.events = s.journal.events)
    (hsource : s'.doc.sourceLines = s.doc.sourceLines) : s'.Notes preserve is := by
  unfold Notes
  rw [tracker_of_events hevents, hsource]
  exact h

/-- A turn only adds events, so what was noted stays noted. -/
theorem Notes.turn (h : s.Notes preserve is) {r : Reader} {es : List Event}
    (hturns : Turns s r es s') : s'.Notes preserve is := by
  obtain ⟨hsize, hlasts⟩ := (s.tracker preserve).lasts_observeAll es s.doc.sourceLines
  have hsource : s'.doc.sourceLines = s.doc.sourceLines := by rw [hturns.doc]
  unfold Notes
  rw [hturns.tracker, hsource]
  exact ⟨Nat.lt_of_lt_of_le h.1 hsize, fun i hi => (h.2 i hi).lasts hlasts⟩

/-- What a look absorbs gets a node. -/
theorem Notes.glance (h : s.Notes preserve is) {line : String} {rest : List String}
    (hidle : s.reader.Idle) (hfront : s.reader.scope.lines = line :: rest) :
    (s.glance line).session.Notes preserve (is ++ (s.absorbed? preserve line).toList) := by
  unfold absorbed?
  cases hinclusion : s.inclusion? line with
  -- a line that leads into no file: nothing is absorbed, and the turn keeps what was noted
  | none =>
    obtain ⟨r, es, hturns⟩ := (look_glance hidle.lookAhead hfront).turns
    simpa using h.turn hturns
  | some e =>
    obtain ⟨d, way, es, s', hkind, -, hglance, -, henters, hreported, hturns⟩ :=
      glance_inclusion hidle.lookAhead hinclusion
    obtain ⟨hsize, hnoted⟩ := h.turn hturns
    have hsource : s'.doc.sourceLines = s.doc.sourceLines := by rw [hturns.doc]
    obtain ⟨⟨parent, position, hsite⟩, hlines⟩ :=
      (s.tracker preserve).site_observeAll hreported h.1 s'.doc.sourceLines
    rw [← hturns.tracker] at hsite hlines
    rw [hglance]
    refine ⟨hsize, fun i hi => ?_⟩
    rcases List.mem_append.mp hi with hold | hnew
    · -- what was noted before the turn
      exact hnoted i hold
    · -- the file that the turn leads into: its node is the one attached last
      obtain rfl := List.mem_singleton.mp hnew
      refine ⟨h.1, ⟨parent, position, ?_⟩, hlines.trans henters.lines_eq⟩
      rw [LineKind.line_of_directive hkind] at hsite
      exact hsite

/-- Each file that was absorbed has its node. -/
theorem Absorbs.noted (h : Absorbs preserve files source o s is) : s.Notes preserve is := by
  induction h with
  | start hopen =>
    obtain ⟨mode, -, rfl⟩ := openSource_eq_ok.mp hopen
    exact ⟨Nat.one_pos, fun i hi => by cases hi⟩
  | leave _ _ _ houter ih =>
    obtain ⟨scope, outer, hscopes⟩ := List.exists_cons_of_ne_nil houter
    exact ih.turn (turns_leave hscopes)
  | meet line _ ih => exact ih.of_eq (events_meet _ _) rfl
  | look _ hidle hfront _ ih => exact ih.glance hidle hfront
  | take _ _ _ ih => exact ih.of_eq (events_takeFront _) (by rw [doc_takeFront])
  | edit d _ hedit ih => exact ih.of_eq rfl hedit.sourceLines
  | log record _ ih => exact ih.of_eq (events_log _ _) rfl

end Session

end DocFlatten
