import DocFlatten.Proofs.Loading

/-! # What reading does not depend on

Reading looks at the attributes of a document and moves its reader. What it does not look at it
carries along: a session may be changed there before it is read or after (`Carried.peekLine`). One
such change recasts what a scan has made of the lines so far, and whether blocks are to be located
(`carried_recast`). So a document is read in the same way whether its blocks are located or not
(`load_flagged`).
-/

namespace DocFlatten

open DocFlatten.Scan

namespace Journal

@[simp] theorem events_append (j k : Journal) : events (j ++ k) = events j ++ events k := by
  simp [events]

@[simp] theorem taken_append (j k : Journal) : taken (j ++ k) = taken j ++ taken k := by
  simp [taken]

end Journal

namespace Session

/-! ## What reading carries along -/

/-- A look with its session changed. -/
def Glance.map (f : Session → Session) : Glance → Glance
  | .line text s => .line text (f s)
  | .again s => .again (f s)
  | .hand actions depth s => .hand actions depth (f s)
  | .refused e s => .refused e (f s)

/-- A change of sessions that changes neither what is read nor what directives lead to, and that
can be made before a step of reading or after it. -/
structure Carried (f : Session → Session) : Prop where
  reader : ∀ s, (f s).reader = s.reader
  attributes : ∀ s, (f s).doc.attributes = s.doc.attributes
  resolve : ∀ s i, (f s).resolve i = s.resolve i
  move : ∀ s g, (f s).withReader g = f (s.withReader g)
  note : ∀ s e, (f s).note e = f (s.note e)
  register : ∀ s path isPartial, { f s with doc := (f s).doc.registerInclude path isPartial } =
    f { s with doc := s.doc.registerInclude path isPartial }
  set : ∀ s name value, { f s with doc := (f s).doc.setAttribute name value } =
    f { s with doc := s.doc.setAttribute name value }

namespace Carried

variable {f : Session → Session} (hf : Carried f) (s : Session)

include hf

/-- The change leaves the place of reading as it is. -/
theorem place : (f s).place = s.place := by
  unfold Session.place
  rw [hf.reader]

theorem outcomeFrom (depth : Nat) : (f s).outcomeFrom depth = s.outcomeFrom depth := by
  unfold Session.outcomeFrom
  rw [hf.reader]

/-- Reporting an event goes along with the change. -/
theorem report (e : Event) : (f s).report e = f (s.report e) :=
  hf.note s _

/-- Logging goes along with the change. -/
theorem log (r : Log.Record) : (f s).log r = f (s.log r) :=
  hf.note s _

/-- Logging several records goes along with the change. -/
theorem logAll (records : List Log.Record) : (f s).logAll records = f (s.logAll records) := by
  induction records generalizing s with
  | nil => rfl
  | cons record records ih =>
    change ((f s).log record).logAll records = f ((s.log record).logAll records)
    rw [hf.log, ih]

/-- Leaving a file goes along with the change. -/
theorem leave : (f s).leave = f s.leave := by
  unfold Session.leave
  rw [hf.reader]
  cases s.reader.outer with
  | nil => rfl
  | cons scope outer => simp only [hf.move, hf.report]

/-- Entering a file goes along with the change. -/
theorem enter (content : Source) (file path : Option String) (lineno : Int)
    (attributes : Attributes) : (f s).enter content file path lineno attributes =
      f (s.enter content file path lineno attributes) := by
  unfold Session.enter
  rw [hf.reader, hf.attributes]
  cases content.prepare with
  | nil => simp only [hf.move, hf.leave]
  | cons line rest => cases Mapping.get? attributes "leveloffset" <;> exact hf.move s _

/-- Taking the line in front goes along with the change, and gives the same line. -/
theorem takeFront : (f s).takeFront = (s.takeFront.1, f s.takeFront.2) := by
  unfold Session.takeFront
  rw [hf.reader]
  cases hlines : s.reader.scope.lines <;> simp only [hlines, hf.note, hf.move]

/-! ### Looking -/

/-- Closing a conditional goes along with the change. -/
theorem closeConditional (target text : String) :
    (f s).closeConditional target text = f (s.closeConditional target text) := by
  unfold Session.closeConditional
  rw [hf.reader, hf.place]
  split
  · exact hf.log s _
  · split
    · exact hf.log s _
    · split
      · exact hf.move s _
      · exact hf.log s _

/-- Deciding a conditional goes along with the change, with the same decision. -/
theorem decide (c : Conditional) :
    (f s).decide c = ((s.decide c).1, f (s.decide c).2) := by
  have hopen : ∀ target skip skipping, (f s).openConditional target skip skipping =
      f (s.openConditional target skip skipping) := fun _ _ _ => hf.move s _
  have hkeep : ∀ text, (f s).keepText text = f (s.keepText text) := fun _ => hf.move s _
  unfold Session.decide
  rw [hf.reader, hf.attributes, hf.place]
  simp only [hf.closeConditional, hopen, hkeep, hf.log]
  split
  · rfl
  · split
    · split <;> rfl
    · split
      · rfl
      · split
        · rfl
        · split <;> rfl

/-- Processing a conditional goes along with the change. -/
theorem processConditional (c : Conditional) :
    (f s).processConditional c = f (s.processConditional c) := by
  unfold Session.processConditional
  simp only [hf.decide, hf.reader, hf.report, hf.move]
  split <;> rfl

/-- Processing an include goes along with the change. -/
theorem processInclude (line : String) (i : Include) :
    (f s).processInclude line i = (s.processInclude line i).map f := by
  unfold Session.processInclude
  simp only [hf.reader, hf.report, hf.resolve, hf.logAll, hf.move]
  split
  · rfl
  · rfl
  · rfl
  · simp only [hf.register, hf.move, hf.enter, hf.outcomeFrom, hf.report]
    rfl
  · rfl
  · rfl

/-- A look at a line is the same in a changed session. -/
theorem glance (line : String) : (f s).glance line = (s.glance line).map f := by
  unfold Session.glance showEscaped
  simp only [hf.move, hf.processConditional, hf.processInclude, hf.reader]
  split
  · rfl
  · split
    · rfl
    · rfl
    · split
      · rfl
      · split <;> rfl

/-! ### Reading -/

/-- An action of a processor goes along with the change, if reading a line does. -/
theorem act {readLine : Session → Except Halt Session}
    (hread : ∀ u : Session, readLine (f u) = carry f f (readLine u)) (a : Action) :
    Session.act readLine (f s) a = carry f f (Session.act readLine s a) := by
  cases a with
  | enter content file path lineno attributes => exact congrArg Except.ok (hf.enter s _ _ _ _ _)
  | leave => exact congrArg Except.ok (hf.leave s)
  | setAttribute name value => exact congrArg Except.ok (hf.set s name value)
  | readLine => exact hread s

/-- Actions of a processor go along with the change, if reading a line does. -/
theorem acts {readLine : Session → Except Halt Session}
    (hread : ∀ u : Session, readLine (f u) = carry f f (readLine u)) (actions : List Action) :
    actions.foldlM (Session.act readLine) (f s) =
      carry f f (actions.foldlM (Session.act readLine) s) := by
  induction actions generalizing s with
  | nil => rfl
  | cons a actions ih =>
    rw [List.foldlM_cons, List.foldlM_cons, hf.act s hread]
    cases Session.act readLine s a with
    | error halt => rfl
    | ok u => exact ih u

/-- Taking what was looked for can be done before the change or after it, if looking can. -/
theorem takeWith {peek : Session → Except Halt (Option String × Session)}
    (hpeek : ∀ u, peek (f u) = carryFound f (peek u)) :
    Session.takeWith peek (f s) = carryFound f (Session.takeWith peek s) := by
  by_cases hlook : 0 < s.reader.lookAhead
  · rw [takeWith_of_held hlook, takeWith_of_held (by rwa [hf.reader]), hf.takeFront]
    rfl
  · rw [takeWith_of_not_held hlook, takeWith_of_not_held (by rwa [hf.reader]), hpeek]
    rcases peek s with _ | ⟨_ | line, v⟩
    · rfl
    · rfl
    · simp [carry, hf.takeFront]

/-- Going on after a look goes along with the change, if looking does. -/
theorem resume {fuel : Nat}
    (hpeek : ∀ u, (f u).peekLine fuel = carryFound f (u.peekLine fuel)) (g : Glance) :
    (g.map f).resume fuel = carryFound f (g.resume fuel) := by
  cases g with
  -- the line is shown
  | line text u => rfl
  -- reading is refused
  | refused e u => rfl
  -- the look is repeated
  | again u => exact hpeek u
  -- the processor acts first, then the look is repeated
  | hand actions depth u =>
    have hread : ∀ v : Session, ((f v).readLine fuel).map (·.2) =
        carry f f ((v.readLine fuel).map (·.2)) := by
      intro v
      unfold readLine
      rw [hf.takeWith v hpeek]
      cases Session.takeWith (Session.peekLine fuel) v <;> rfl
    have hacts : actions.foldlM (Session.act fun v => (v.readLine fuel).map (·.2)) (f u) =
        carry f f (actions.foldlM (Session.act fun v => (v.readLine fuel).map (·.2)) u) :=
      hf.acts u hread actions
    unfold Glance.map Glance.resume
    simp only [hacts]
    cases actions.foldlM (Session.act fun v => (v.readLine fuel).map (·.2)) u with
    | error halt => rfl
    | ok v => simp only [carry, hf.outcomeFrom, hf.report, hpeek]

/-- Looking for the next line and changing a session can be done in either order. -/
theorem peekLine (fuel : Nat) :
    (f s).peekLine fuel = carryFound f (s.peekLine fuel) := by
  induction fuel generalizing s with
  | zero => rfl
  | succ fuel ih =>
    rw [peekLine_succ, peekLine_succ, hf.reader, hf.leave]
    by_cases hlook : 0 < s.reader.lookAhead
    · simp [hlook, carry]
    · rw [if_neg hlook, if_neg hlook]
      cases s.reader.scope.lines with
      | nil => cases s.reader.outer <;> simp [ih, carry]
      | cons line rest =>
        have hmeet : (f s).meet line = f (s.meet line) := by
          unfold meet
          rw [hf.reader, hf.note]
        simp only [hmeet, hf.glance]
        exact hf.resume (fun u => ih u) _

end Carried

/-! ## Recast sessions -/

/-- A session with what a scan has made of another document, and with a longer journal. -/
def recast (d : Document) (earlier : Journal) (s : Session) : Session :=
  { files := s.files
    doc := { s.doc with
      options.sourcemap := d.options.sourcemap
      title := d.title
      headerAttributes := d.headerAttributes
      blocks := d.blocks
      parsed := d.parsed }
    journal := earlier ++ s.journal }

section

variable (d : Document) (j : Journal) (s : Session)

@[simp] theorem reader_recast : (s.recast d j).reader = s.reader := rfl

@[simp] theorem attributes_recast : (s.recast d j).doc.attributes = s.doc.attributes := rfl

@[simp] theorem place_recast : (s.recast d j).place = s.place := rfl

@[simp] theorem directiveAttributes_recast (attrlist : String) :
    (s.recast d j).directiveAttributes attrlist = s.directiveAttributes attrlist := rfl

@[simp] theorem unresolved_recast (i : Include) :
    (s.recast d j).unresolved i = s.unresolved i := rfl

/-- What a blank target leads to depends on the reader and on the attributes only. -/
theorem resolveBlank_recast (i : Include) :
    (s.recast d j).resolveBlank i = s.resolveBlank i := by
  unfold resolveBlank
  simp only [attributes_recast, place_recast, directiveAttributes_recast, unresolved_recast]
  rfl

/-- What a file leads to depends on the reader, the files and the options only. -/
theorem resolveFile_recast (i : Include) (target : String) (attributes : Attributes) :
    (s.recast d j).resolveFile i target attributes = s.resolveFile i target attributes := by
  have hfiles : (s.recast d j).files = s.files := rfl
  have hrelative : ∀ path, (s.recast d j).doc.relativePath s.files.workingDir path =
      s.doc.relativePath s.files.workingDir path := fun _ => rfl
  unfold resolveFile
  simp only [reader_recast, hfiles, place_recast, unresolved_recast, hrelative]

/-- What a target leads to depends on the same. -/
theorem resolveTarget_recast (i : Include) (target : String) :
    (s.recast d j).resolveTarget i target = s.resolveTarget i target := by
  have hprocessors : (s.recast d j).doc.options.processors = s.doc.options.processors := rfl
  have hsafe : (s.recast d j).doc.options.safe = s.doc.options.safe := rfl
  have hdepth : (s.recast d j).maxIncludeDepth = s.maxIncludeDepth := rfl
  unfold resolveTarget
  simp only [directiveAttributes_recast, hprocessors, hsafe, hdepth, reader_recast, place_recast,
    attributes_recast, unresolved_recast, resolveFile_recast]
  rfl

/-- What a directive leads to depends on the same. -/
theorem resolve_recast (i : Include) : (s.recast d j).resolve i = s.resolve i := by
  have hmissing : (s.recast d j).targetMissing = s.targetMissing := rfl
  unfold resolve
  simp only [hmissing, attributes_recast, resolveBlank_recast, resolveTarget_recast]

end

/-- Reading never looks at what a scan has made of the lines so far. -/
theorem carried_recast (d : Document) (j : Journal) : Carried (recast d j) where
  reader _ := rfl
  attributes _ := rfl
  resolve s i := resolve_recast d j s i
  move _ _ := rfl
  note s e := by simp only [note, recast, Array.push_append]
  register _ _ _ := rfl
  set s name value := by
    have hlocked : (s.recast d j).doc.isLocked name = s.doc.isLocked name := rfl
    unfold Document.setAttribute
    rw [hlocked]
    cases hcase : s.doc.isLocked name with
    | true => simp [recast]
    | false => cases value <;> simp [recast]

/-! ## Locating blocks or not -/

/-- Two sessions at the same place of the same reading, perhaps with blocks located in one only. -/
structure InStep (s t : Session) : Prop where
  files : t.files = s.files
  reader : t.reader = s.reader
  options : t.doc.options = { s.doc.options with sourcemap := t.doc.options.sourcemap }
  sourceLines : t.doc.sourceLines = s.doc.sourceLines
  includes : t.doc.includes = s.doc.includes
  events : t.journal.events = s.journal.events
  taken : t.journal.taken = s.journal.taken

namespace InStep

variable {s t : Session} {Located : Option Cursor → Option Cursor → Prop}

/-- Both sessions are one, recast in two ways. -/
theorem recasts (h : InStep s t) (hdoc : s.doc.Alike Located t.doc) :
    ∃ u d j d' j', s = recast d j u ∧ t = recast d' j' u ∧
      Journal.events j' = Journal.events j ∧ Journal.taken j' = Journal.taken j := by
  refine ⟨{ s with journal := #[] }, s.doc, s.journal, t.doc, t.journal, ?_, ?_, h.events,
    h.taken⟩
  · simp only [recast, Array.append_empty]
  · obtain ⟨files, ⟨options, attributes, locked, lines, reader, includes, title, header, blocks,
      parsed⟩, journal⟩ := t
    obtain rfl : files = s.files := h.files
    obtain rfl : reader = s.doc.reader := h.reader
    obtain rfl : lines = s.doc.sourceLines := h.sourceLines
    obtain rfl : includes = s.doc.includes := h.includes
    obtain rfl : attributes = s.doc.attributes := hdoc.attributes
    obtain rfl : locked = s.doc.locked := hdoc.locked
    have hoptions : options = { s.doc.options with sourcemap := options.sourcemap } := h.options
    simp only [recast, Array.append_empty, ← hoptions]

/-- Sessions stay in step when a part changes that reading does not depend on. -/
theorem of_recast {u : Session} {d d' : Document} {j j' : Journal}
    (hevents : Journal.events j' = Journal.events j)
    (htaken : Journal.taken j' = Journal.taken j) :
    InStep (recast d j u) (recast d' j' u) :=
  ⟨rfl, rfl, rfl, rfl, rfl, by simp [recast, hevents], by simp [recast, htaken]⟩

/-- Looking for the next line keeps sessions in step. -/
theorem peekLine {fuel : Nat} {a : Option String} {s' : Session}
    (h : Joined InStep Located s t) (hrun : s.peekLine fuel = .ok (a, s')) :
    ∃ t', t.peekLine fuel = .ok (a, t') ∧ Joined InStep Located s' t' := by
  obtain ⟨u, d, j, d', j', rfl, rfl, hevents, htaken⟩ := h.together.recasts h.doc
  rw [(carried_recast _ _).peekLine] at hrun ⊢
  obtain ⟨⟨b, u'⟩, hu, hend⟩ := carry_eq_ok_iff.mp hrun
  obtain ⟨rfl, rfl⟩ := Prod.mk.inj hend
  refine ⟨recast d' j' u', by rw [hu]; rfl, ?_⟩
  have hsteady : u'.reader.Steady := (steady_peekLine (s := u) h.steady hu).1
  exact ⟨hsteady, hsteady, of_recast hevents htaken,
    ⟨rfl, rfl, h.doc.parsed, h.doc.title, h.doc.headerAttributes, h.doc.blocks⟩⟩

/-- The line in front is the same, and taking it keeps sessions in step. -/
theorem takeFront (h : Joined InStep Located s t) :
    t.takeFront.1 = s.takeFront.1 ∧ InStep s.takeFront.2 t.takeFront.2 := by
  obtain ⟨u, d, j, d', j', rfl, rfl, hevents, htaken⟩ := h.together.recasts h.doc
  rw [(carried_recast d j).takeFront, (carried_recast d' j').takeFront]
  exact ⟨rfl, of_recast hevents htaken⟩

end InStep

/-- A scan keeps sessions in step, whether blocks are located in both or not. -/
theorem simulation_inStep :
    Simulation (fun _ => False) InStep (fun _ _ => False) fun _ _ => True where
  lost := harmless_of_turns (fun _ _ _ _ h _ => h) (fun _ _ h _ => h) (fun _ _ h => h)
    fun _ h => h
  peek h hrun := Or.inr (Or.inl (InStep.peekLine h hrun))
  -- what is taken has been looked at in both
  take {s t} h hlook := by
    obtain ⟨hsame, hstep⟩ := InStep.takeFront h
    refine ⟨?_, hsame, Or.inr hstep⟩
    rw [h.together.reader]
    exact hlook
  refl _ := trivial
  located _ := trivial
  -- an edit changes neither the reader nor what is carried along
  edit {s t d d'} h hd hd' := by
    refine ⟨h.files, ?_, ?_, ?_, ?_, h.events, h.taken⟩
    · exact (hd'.reader.trans h.reader).trans hd.reader.symm
    · simp only [hd.options, hd'.options]
      exact h.options
    · exact (hd'.sourceLines.trans h.sourceLines).trans hd.sourceLines.symm
    · exact (hd'.includes.trans h.includes).trans hd.includes.symm
  log r r' h := ⟨h.files, h.reader, h.options, h.sourceLines, h.includes,
    by simpa using h.events, by simpa using h.taken⟩
  steady := False.elim
  peekApart := False.elim
  takeApart := False.elim
  exhausted := False.elim
  editApart := False.elim
  logApart _ _ := False.elim

/-- A document is read in the same way whether its blocks are located or not. -/
theorem load_flagged {fuel : Nat} {files : FileTree} {source : Source} {o : LoadOptions}
    {s : Session} (h : load fuel files source o = .ok s) (flag : Bool) :
    ∃ t, load fuel files source { o with sourcemap := flag } = .ok t ∧ InStep s t ∧
      s.doc.Alike (fun _ _ => True) t.doc := by
  obtain ⟨s₀, hopen, hscan⟩ := load_eq_ok.mp h
  obtain ⟨mode, hmode, rfl⟩ := openSource_eq_ok.mp hopen
  have hidle : (start files (.initial files.workingDir source o mode)).reader.Idle := ⟨rfl, rfl⟩
  have hopen' : openSource files source { o with sourcemap := flag } =
      .ok (start files (.initial files.workingDir source { o with sourcemap := flag } mode)) :=
    openSource_of_mode (o := { o with sourcemap := flag }) hmode files source
  have hjoined : Joined InStep (fun _ _ => True)
      (start files (.initial files.workingDir source o mode))
      (start files (.initial files.workingDir source { o with sourcemap := flag } mode)) :=
    ⟨Or.inl hidle, Or.inl hidle, ⟨rfl, rfl, rfl, rfl, rfl, rfl, rfl⟩,
      ⟨rfl, rfl, rfl, rfl, rfl, .nil⟩⟩
  rcases scan_abreast simulation_inStep hjoined hscan with hfalse | ⟨t, ht, hend⟩
  · exact hfalse.elim
  · rcases hend with hend | hfalse
    · exact ⟨t, load_eq_ok.mpr ⟨_, hopen', ht⟩, hend.together, hend.doc⟩
    · exact hfalse.1.elim

end Session

end DocFlatten
