import DocFlatten.Document.Load
import DocFlatten.Proofs.Scanning

/-! # Loading

What reading and scanning keep holds of a loaded document:

* `load_keeps`: what holds before anything is read and is kept holds once a document is loaded, and
  then nothing is left to be read (`exhausted_body`);
* `Driven`: the states of a reader that others drive, as a load does (`driven_load`), with what holds
  in all of them (`Driven.of_harmless`);
* `scan_abreast`: two scans that begin together stay together, or end apart;
* `load_reads`, `files_load`: a load never changes the source, the options and the files.
-/

namespace DocFlatten

/-- What is in the result is the result. -/
theorem eq_ok_of_mem_toOption {α ε : Type} {x : Except ε α} {a : α} (h : a ∈ x.toOption) :
    x = .ok a := by
  cases x with
  | error e => cases h
  | ok b =>
    cases h
    rfl

/-- A working directory with text files in it. -/
def FileTree.ofTexts (files : List (String × String)) : FileTree where
  workingDir := ["w"]
  entries := (["w"], .directory) :: files.map fun (name, text) => (["w", name], .file (.text text) 0)
  clock := 1

end DocFlatten

namespace DocFlatten.Scan

/-! ## The end of a scan -/

/-- Nothing is asked of a session but that its reader is steady. -/
theorem harmless_true : Harmless fun _ => True :=
  ⟨Session.kept_true, fun _ _ _ _ => trivial, fun _ _ _ => trivial⟩

/-- A scan of the body ends where nothing is left to be read. -/
theorem exhausted_body {fuel : Nat} {s s' : Session} {u : Unit} (hsteady : s.reader.Steady)
    (h : body fuel s = .ok (u, s')) : Session.Exhausted s'.reader := by
  induction fuel generalizing s with
  | zero => cases h
  | succ fuel ih =>
    unfold body at h
    obtain ⟨line, s₁, hpeek, hrest⟩ := bind_eq_ok.mp h
    cases line with
    | none =>
      obtain ⟨-, rfl⟩ := pure_eq_ok.mp hrest
      exact Session.exhausted_of_peekLine hsteady hpeek
    | some line =>
      obtain ⟨v, s₂, helement, hbody⟩ := bind_eq_ok.mp hrest
      have hsteady₁ := harmless_true.peek _ s _ s₁ ⟨hsteady, trivial⟩ hpeek
      exact ih (harmless_true.element _ _ s₁ _ s₂ hsteady₁ helement).1 hbody

end DocFlatten.Scan

namespace DocFlatten.Session

open DocFlatten.Scan

/-! ## Loading -/

/-- A document is created in the safe mode that its options name. -/
theorem create_eq_ok {workingDir : List String} {source : Source} {o : LoadOptions}
    {d : Document} : Document.create workingDir source o = .ok d ↔
      ∃ mode, SafeMode.ofValue o.safe = .ok mode ∧ d = .initial workingDir source o mode := by
  unfold Document.create
  cases SafeMode.ofValue o.safe with
  | error e =>
    constructor
    · intro h
      cases h
    · rintro ⟨mode, hmode, -⟩
      cases hmode
  | ok mode =>
    constructor
    · intro h
      cases h
      exact ⟨mode, rfl, rfl⟩
    · rintro ⟨mode', hmode, rfl⟩
      cases hmode
      rfl

/-- If the safe mode is known, a document is opened in it. -/
theorem openSource_of_mode {o : LoadOptions} {mode : SafeMode}
    (h : SafeMode.ofValue o.safe = .ok mode) (files : FileTree) (source : Source) :
    openSource files source o =
      .ok (start files (.initial files.workingDir source o mode)) := by
  unfold openSource
  rw [create_eq_ok.mpr ⟨mode, h, rfl⟩]

/-- A session before anything is read: all that it has is known from the source and the options. -/
theorem openSource_eq_ok {files : FileTree} {source : Source} {o : LoadOptions} {s : Session} :
    openSource files source o = .ok s ↔ ∃ mode, SafeMode.ofValue o.safe = .ok mode ∧
      s = start files (.initial files.workingDir source o mode) := by
  constructor
  · intro h
    unfold openSource at h
    split at h
    · rename_i doc hdoc
      obtain ⟨mode, hmode, rfl⟩ := create_eq_ok.mp hdoc
      exact ⟨mode, hmode, (Except.ok.inj h).symm⟩
    · cases h
  · rintro ⟨mode, hmode, rfl⟩
    exact openSource_of_mode hmode files source

theorem scan_eq_ok {fuel : Nat} {s s' : Session} :
    scan fuel s = .ok s' ↔ Scan.document fuel s = .ok ((), s') := by
  unfold scan
  cases Scan.document fuel s with
  | error halt => simp
  | ok found => simp [Prod.ext_iff]

/-- Loading is to open a session and to scan it to its end. -/
theorem load_eq_ok {fuel : Nat} {files : FileTree} {source : Source} {o : LoadOptions}
    {s : Session} : load fuel files source o = .ok s ↔
      ∃ s₀, openSource files source o = .ok s₀ ∧ scan fuel s₀ = .ok s := by
  unfold load
  cases openSource files source o with
  | error e => simp [bind, Except.bind]
  | ok s₀ => simp [bind, Except.bind]

/-- What holds before anything is read, and what reading and scanning keep, holds once a document
is loaded; then nothing is left to be read. -/
theorem load_keeps {P : Session → Prop} (harmless : Harmless P) {fuel : Nat} {files : FileTree}
    {source : Source} {o : LoadOptions} {s : Session} (h : load fuel files source o = .ok s)
    (hstart : ∀ s₀, openSource files source o = .ok s₀ → P s₀) :
    P s ∧ Exhausted s.reader := by
  obtain ⟨s₀, hopen, hscan⟩ := load_eq_ok.mp h
  have hrun := scan_eq_ok.mp hscan
  obtain ⟨mode, -, rfl⟩ := openSource_eq_ok.mp hopen
  have hsteady : (start files (.initial files.workingDir source o mode)).reader.Steady :=
    Or.inl ⟨rfl, rfl⟩
  refine ⟨(harmless.document fuel _ _ _ ⟨hsteady, hstart _ hopen⟩ hrun).2, ?_⟩
  -- the body decides about the end, so all that the header has to keep is a steady reader
  unfold document at hrun
  obtain ⟨t, t', hget, hrest⟩ := bind_eq_ok.mp hrun
  obtain ⟨rfl, rfl⟩ := get_eq_ok.mp hget
  have hunparsed : (!(start files (.initial files.workingDir source o mode)).doc.parsed) = true :=
    rfl
  rw [if_pos hunparsed] at hrest
  obtain ⟨_, s₁, hheader, hrest⟩ := bind_eq_ok.mp hrest
  obtain ⟨_, s₂, hbody, hedit⟩ := bind_eq_ok.mp hrest
  have hsteady₁ := (harmless_true.header fuel _ _ _ ⟨hsteady, trivial⟩ hheader).1
  have hend := exhausted_body hsteady₁ hbody
  rw [← modify_eq_ok.mp hedit]
  exact hend

/-- Nothing is left to be read once a document is loaded. -/
theorem exhausted_load {fuel : Nat} {files : FileTree} {source : Source} {o : LoadOptions}
    {s : Session} (h : load fuel files source o = .ok s) : Exhausted s.reader :=
  (load_keeps harmless_true h fun _ _ => trivial).2

/-! ## Driven readers -/

/-- Before anything is read, the reader is idle. -/
theorem steady_openSource {files : FileTree} {source : Source} {o : LoadOptions} {s : Session}
    (h : openSource files source o = .ok s) : s.reader.Idle := by
  rcases openSource_eq_ok.mp h with ⟨mode, -, rfl⟩
  exact ⟨rfl, rfl⟩

/-- The states of a reader that is driven by looking at lines and taking them, while records are
logged and its document is edited around it in some way. A look that the system refuses ends the
reading. -/
inductive Driven (edits : Document → Document → Prop) (files : FileTree) (source : Source)
    (o : LoadOptions) : Session → Prop where
  | start {s : Session} (h : openSource files source o = .ok s) : Driven edits files source o s
  | peek {s s' : Session} {a : Option String} (fuel : Nat) (h : Driven edits files source o s)
      (hrun : s.peekLine fuel = .ok (a, s')) : Driven edits files source o s'
  | read {s s' : Session} {a : Option String} (fuel : Nat) (h : Driven edits files source o s)
      (hrun : s.readLine fuel = .ok (a, s')) : Driven edits files source o s'
  | edit {s : Session} (d : Document) (h : Driven edits files source o s)
      (hedit : edits s.doc d) : Driven edits files source o { s with doc := d }
  | log {s : Session} (record : Log.Record) (h : Driven edits files source o s) :
    Driven edits files source o (s.log record)

/-- What reading keeps holds in every state of a driven reader. -/
theorem Driven.of_harmless {P : Session → Prop} (harmless : Harmless P) {files : FileTree}
    {source : Source} {o : LoadOptions} {s : Session}
    (h : Driven Document.Edited files source o s)
    (hstart : ∀ s₀, openSource files source o = .ok s₀ → P s₀) : s.reader.Steady ∧ P s := by
  induction h with
  | start h => exact ⟨Or.inl (steady_openSource h), hstart _ h⟩
  | peek fuel _ hrun ih =>
    exact ⟨(steady_peekLine ih.1 hrun).1, harmless.reading.peekLine ih.1 ih.2 hrun⟩
  | read fuel _ hrun ih =>
    exact ⟨Or.inl (idle_readLine ih.1 hrun), harmless.reading.readLine ih.1 ih.2 hrun⟩
  | edit d _ hedit ih =>
    refine ⟨?_, harmless.edit _ d ih.2 hedit⟩
    have hsteady := ih.1
    unfold Session.reader at hsteady ⊢
    rwa [hedit.reader]
  | log record _ ih => exact ⟨ih.1, harmless.log _ record ih.2⟩

/-- A load drives the reader: all that it does is to look at lines, to take them, to log and to edit. -/
theorem driven_load {fuel : Nat} {files : FileTree} {source : Source} {o : LoadOptions}
    {s : Session} (h : load fuel files source o = .ok s) :
    Driven Document.Edited files source o s := by
  have hendures : Scan.Endures (Driven Document.Edited files source o) :=
    { peek := fun fuel s a s' hs hrun => .peek fuel hs hrun
      take := fun fuel s a s' hs hrun => .read fuel hs hrun
      edit := fun s d hs hedit => .edit d hs hedit
      log := fun s record hs => .log record hs }
  obtain ⟨s₀, hopen, hscan⟩ := load_eq_ok.mp h
  exact hendures.document fuel s₀ () s (.start hopen) (scan_eq_ok.mp hscan)

/-! ## Scans abreast -/

/-- Two scans of sessions that belong together stay together, unless the first one is lost or both
end apart. -/
theorem scan_abreast {Lost : Session → Prop} {Together Apart : Session → Session → Prop}
    {Located : Option Cursor → Option Cursor → Prop}
    (sim : Simulation Lost Together Apart Located) {fuel : Nat} {s t s' : Session}
    (hjoined : Joined Together Located s t) (h : scan fuel s = .ok s') :
    Lost s' ∨ ∃ t', scan fuel t = .ok t' ∧ sim.Either s' t' := by
  have hrun := scan_eq_ok.mp h
  rcases (sim.abreast_document fuel).run s t () s' hjoined hrun with hlost | ⟨_, t', ht, hend⟩
  · exact Or.inl hlost.2
  · exact Or.inr ⟨t', scan_eq_ok.mpr ht, hend⟩

/-! ## What every turn keeps -/

section

variable {P : Session → Prop} (hturn : ∀ s r es s', P s → Turns s r es s' → P s')
  (hedit : ∀ s (d : Document), P s → s.doc.Edited d → P { s with doc := d })

include hturn hedit

/-- What a processor does keeps what every turn keeps. -/
theorem act_of_turns {readLine : Session → Except Halt Session} {s s' : Session} {a : Action}
    (hread : ∀ s s', s.reader.Idle → readLine s = .ok s' → s'.reader.Idle ∧ (P s → P s'))
    (hidle : s.reader.Idle) (h : act readLine s a = .ok s') (hs : P s) : P s' := by
  cases a with
  | enter content file path lineno attributes =>
    cases h
    rcases s.enter_cases content file path lineno attributes with
      ⟨-, hturns⟩ | ⟨-, lines, cursor, frame, -, hturns⟩
    · exact hturn _ _ _ _ hs hturns
    · exact hturn _ _ _ _ hs hturns
  | leave =>
    cases h
    cases houter : s.reader.outer with
    | nil => simpa [leave, houter] using hs
    | cons scope outer => exact hturn _ _ _ _ hs (turns_leave houter)
  | setAttribute name value =>
    cases h
    exact hedit s _ hs (Simulation.edited_setAttribute s.doc name value)
  | readLine => exact (hread _ _ hidle h).2 hs

/-- What turns and edits keep, the actions of a processor keep. -/
theorem acts_of_turns {readLine : Session → Except Halt Session} {s s' : Session}
    {actions : List Action}
    (hread : ∀ s s', s.reader.Idle → readLine s = .ok s' → s'.reader.Idle ∧ (P s → P s'))
    (hidle : s.reader.Idle) (h : actions.foldlM (Session.act readLine) s = .ok s')
    (hs : P s) : P s' := by
  induction actions generalizing s with
  | nil =>
    cases h
    exact hs
  | cons a actions ih =>
    rw [List.foldlM_cons] at h
    rcases Except.bind_eq_ok_iff.mp h with ⟨t, ht, hrest⟩
    have hidle' := idle_act (fun t t' hi hr => (hread t t' hi hr).1) hidle ht
    exact ih hidle' hrest (act_of_turns hturn hedit hread hidle ht hs)

/-- What every turn keeps, every reading and every scan keep. -/
theorem harmless_of_turns (hmeet : ∀ s line, P s → P (s.meet line))
    (htake : ∀ s, P s → P s.takeFront.2) : Harmless P where
  reading :=
    { leave := fun s hs _ _ houter => by
        cases hnil : s.reader.outer with
        | nil => exact absurd hnil houter
        | cons scope outer => exact hturn _ _ _ _ hs (turns_leave hnil)
      meet := hmeet
      look := fun s line rest g hs hidle _ _ hlook => by
        cases hlook with
        | plain s' hturns | escaped s' hturns | passed s' _ _ hturns
        | conditional c consumed r s' _ _ _ hturns | kept i s' _ _ _ hturns
        | followed i es r s' _ _ _ hturns => exact hturn _ _ _ _ hs hturns
        | refused => exact trivial
        -- a processor acts with the reader behind the directive, and it may read further on
        | handed i processor target attributes s' _ _ _ hturns =>
          intro readLine hread t hacts
          have hidle' : s'.reader.Idle := by
            rw [hturns.reader]
            exact hidle.shifted
          have hacted := acts_of_turns hturn hedit hread hidle' hacts (hturn _ _ _ _ hs hturns)
          exact hturn _ _ _ _ hacted ((Turns.refl t).report _)
      take := fun s hs _ _ => htake s hs }
  edit := hedit
  log s record hs := hturn _ _ _ _ hs ((Turns.refl s).log record)

end

/-- The files that are read stay the same. -/
theorem harmless_files (files : FileTree) : Harmless fun s => s.files = files := by
  refine harmless_of_turns ?_ (fun s d hs hedit => hs) (fun s line hs => hs) ?_
  · intro s r es s' hs hturns
    exact hturns.files.trans hs
  · intro s hs
    rw [files_takeFront]
    exact hs

/-- Whether a session reads given lines under given options. -/
def Reads (lines : List String) (options : Options) (s : Session) : Prop :=
  s.doc.sourceLines = lines ∧ s.doc.options = options

/-- A document's source and its options stay, whatever is read and whatever processors do. -/
theorem harmless_reads (lines : List String) (options : Options) :
    Harmless (Reads lines options) := by
  refine harmless_of_turns ?_ ?_ (fun s line hs => hs) ?_
  · intro s r es s' hs hturns
    unfold Reads
    rw [hturns.doc]
    exact hs
  · intro s d hs hedit
    exact ⟨hedit.sourceLines.trans hs.1, hedit.options.trans hs.2⟩
  · intro s hs
    unfold Reads
    rw [doc_takeFront]
    exact hs

/-- A loaded document has the source and the options that it was opened with. -/
theorem reads_load {fuel : Nat} {files : FileTree} {source : Source} {o : LoadOptions}
    {s s₀ : Session} (h : load fuel files source o = .ok s)
    (hopen : openSource files source o = .ok s₀) : Reads s₀.doc.sourceLines s₀.doc.options s := by
  refine (load_keeps (harmless_reads s₀.doc.sourceLines s₀.doc.options) h fun s₁ hopen' => ?_).1
  obtain rfl : s₀ = s₁ := Except.ok.inj (hopen.symm.trans hopen')
  exact ⟨rfl, rfl⟩

/-- The source and the options of a loaded document. -/
theorem load_reads {fuel : Nat} {files : FileTree} {source : Source} {o : LoadOptions}
    {s : Session} (h : load fuel files source o = .ok s) :
    s.doc.sourceLines = source.prepare ∧ s.doc.options.sourcemap = o.sourcemap := by
  obtain ⟨s₀, hopen, -⟩ := load_eq_ok.mp h
  obtain ⟨hlines, hoptions⟩ := reads_load h hopen
  obtain ⟨mode, -, rfl⟩ := openSource_eq_ok.mp hopen
  exact ⟨hlines, congrArg Options.sourcemap hoptions⟩

/-- Files stay as they are while a document is loaded. -/
theorem files_load {fuel : Nat} {files : FileTree} {source : Source} {o : LoadOptions}
    {s : Session} (h : load fuel files source o = .ok s) : s.files = files := by
  refine (load_keeps (harmless_files files) h fun s₀ hopen => ?_).1
  obtain ⟨mode, -, rfl⟩ := openSource_eq_ok.mp hopen
  rfl

end DocFlatten.Session
