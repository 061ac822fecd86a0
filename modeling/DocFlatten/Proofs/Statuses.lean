import DocFlatten.Command
import DocFlatten.Proofs.Accepting
import DocFlatten.Proofs.Bounding
import DocFlatten.Proofs.Concluding
import DocFlatten.Proofs.Conforming
import DocFlatten.Proofs.Lenient

/-! # Commands end with a status

With a configuration that satisfies its schema, little can go wrong that a command is not prepared for:
settings and options have the values that are needed, every document that can be read has a reduction
unless the system refuses to look up a file, and refusals, files that are missing and files that cannot
be written are reported. A few errors are left: a document that is no UTF-8 is not decoded, a log format
without a field is refused, an integer can be too long to be written, a home directory may not be known,
and includes can be nested too deeply to be played back. `run_concludes_iff` says that a run ends with a
status exactly if none of them comes up (`Manageable`).
-/

namespace DocFlatten

open DocFlatten.CommandLine

/-! ## Documents -/

/-- Whether the file at a path holds a text, or there is none. -/
def FileTree.Decodes (files : FileTree) (path : String) : Prop :=
  files.isFile path = .ok true → ∀ e, files.readText path ≠ .error (.encoding e)

namespace Command

variable {w : Surroundings}

/-- Whether a run ended with a status. -/
def Outcome.Concluded (o : Outcome) : Prop :=
  o.status = .ok 0 ∨ o.status = .ok 1

/-- Whether the program is prepared for an error of a delivery. -/
def IsReported : DeliveryError → Prop
  | .failure _ | .load (.file (.file _)) | .load (.refused _ _) | .system _ => True
  | _ => False

/-- The program concludes exactly if it is prepared for the error of the delivery, should there be
one. -/
theorem outcomeOf_concluded_iff {target : Target} {errors : String}
    {value : Except DeliveryError Delivered} :
    (outcomeOf w target errors value).Concluded ↔ ∀ e, value = .error e → IsReported e := by
  unfold outcomeOf Outcome.Concluded
  constructor
  · rintro h e rfl
    split at h
    · rename_i hvalue
      cases hvalue
    · rename_i hvalue
      cases hvalue
      trivial
    · rename_i hvalue
      cases hvalue
      trivial
    · rename_i hvalue
      cases hvalue
      trivial
    · rename_i hvalue
      cases hvalue
      trivial
    · rcases h with h | h <;> cases h
  · intro h
    split
    · exact Or.inl rfl
    · exact Or.inr rfl
    · exact Or.inr rfl
    · exact Or.inr rfl
    · exact Or.inr rfl
    · rename_i _ e hfailure hfile hrefused hsystem
      -- the errors that are reported have been dealt with
      have hreported := h e rfl
      unfold IsReported at hreported
      split at hreported
      · exact absurd rfl (hfailure _)
      · exact absurd rfl (hfile _)
      · exact absurd rfl (hrefused _ _)
      · exact absurd rfl (hsystem _)
      · cases hreported

/-- A document goes to a file or to the output, and a file that cannot be written is reported. -/
theorem deliver_reports {d : Document} {files : FileTree} {a : ReduceArguments} {e : DeliveryError}
    (h : d.deliver files (targetOf a) = .error e) : IsReported e := by
  have hfile : ∀ path, d.deliver files (.file path) = .error e → IsReported e := by
    intro path hpath
    unfold Document.deliver at hpath
    dsimp only at hpath
    split at hpath
    · cases hpath
      trivial
    · cases hpath
  unfold targetOf Target.ofPath at h
  split at h
  · cases h
  · split at h
    · cases h
    · exact hfile _ h

/-! ## Reductions -/

/-- Whether nothing but what is reported can keep a text from being reduced: the home directories in the
options are known, and the includes are not nested more deeply than the stack can be. -/
structure Fits (host : Host) (files : FileTree) (text : String) (load : LoadOptions)
    (o : ReduceOptions) : Prop where
  home : ∃ expanded, load.expand host.homes = .ok expanded
  depth : ∀ expanded, load.expand host.homes = .ok expanded → ∀ fuel s,
    Session.load fuel files (.text text) expanded = .ok s → (playBack o s).depth ≤ host.stack

section

variable {o : LoadOptions} {mode : SafeMode}

/-- Putting home directories into the paths of options changes nothing else in them. -/
theorem expand_cases (homes : Path.Homes) (hmode : SafeMode.ofValue o.safe = .ok mode) :
    o.expand homes = .error .home ∨
      ∃ docfile baseDir, o.expand homes = .ok { o with docfile, baseDir } := by
  have hpath : ∀ path, expandPath homes path = .error .home ∨
      ∃ path', expandPath homes path = .ok path' := by
    intro path
    cases path with
    | none => exact Or.inr ⟨none, rfl⟩
    | some path =>
      unfold expandPath
      dsimp only
      cases Path.expand? homes path with
      | none => exact Or.inl rfl
      | some path' => exact Or.inr ⟨some path', rfl⟩
  unfold LoadOptions.expand
  simp only [hmode, Except.mapError_ok_eq, bind, Except.bind, pure, Except.pure]
  rcases hpath o.docfile with hdocfile | ⟨docfile, hdocfile⟩
  · exact Or.inl (by rw [hdocfile])
  · rcases hpath o.baseDir with hbaseDir | ⟨baseDir, hbaseDir⟩
    · exact Or.inl (by rw [hdocfile, hbaseDir])
    · exact Or.inr ⟨docfile, baseDir, by rw [hdocfile, hbaseDir]⟩

/-- What reducing a text does once the home directories are in their places. -/
theorem reduceText_of_expand {fuel : Nat} {host : Host} {files : FileTree} {text : String}
    {expanded : LoadOptions} (ro : ReduceOptions) (h : o.expand host.homes = .ok expanded) :
    reduceText fuel host files text o ro =
      (readToReduce fuel files (.text text) expanded ro).mapError DeliveryError.load >>= fun s =>
        if host.stack < (playBack ro s).depth then .error (.recursion (playBack ro s).log)
        else (finishReduction fuel ro s).mapError .load := by
  unfold reduceText
  rw [h]
  rfl

/-- An error that refuses a document is reported. -/
theorem isReported_of_isRefusal {e : LoadError} (h : e.IsRefusal) : IsReported (.load e) := by
  obtain ⟨cause, journal, rfl⟩ := h
  trivial

/-- What is left to do for a document that was read ends, and what keeps it from its result is reported
exactly if the stack is deep enough for the replay. -/
theorem replayed_ends (host : Host) {s : Session} (hprocessors : s.doc.options.processors = [])
    (ro : ReduceOptions) :
    ∃ enough result, (∀ fuel, enough ≤ fuel →
        (if host.stack < (playBack ro s).depth then .error (.recursion (playBack ro s).log)
          else (finishReduction fuel ro s).mapError DeliveryError.load) = result) ∧
      ((∀ e, result = .error e → IsReported e) ↔ (playBack ro s).depth ≤ host.stack) := by
  by_cases hdeep : host.stack < (playBack ro s).depth
  · -- the includes are nested too deep for the replay
    refine ⟨0, .error (.recursion (playBack ro s).log), fun _ _ => if_pos hdeep,
      iff_of_false (fun h => h _ rfl) (by omega)⟩
  · -- the reduction ends as its second load does
    obtain ⟨enough, result, hfinish, hrefusal⟩ := finishReduction_ends hprocessors ro
    refine ⟨enough, result.mapError .load, fun fuel hfuel => ?_, iff_of_true ?_ (by omega)⟩
    · rw [if_neg hdeep, hfinish fuel hfuel]
    · intro e he
      cases result with
      | ok reduced => cases he
      | error e' =>
        cases he
        exact isReported_of_isRefusal (hrefusal e' rfl)

/-- Reducing a text ends, and what keeps it from its result is reported exactly if the text fits. -/
theorem reduceText_ends (host : Host) (files : FileTree) (text : String) (ro : ReduceOptions)
    (hmode : SafeMode.ofValue o.safe = .ok mode) (hprocessors : o.processors = []) :
    ∃ enough result, (∀ fuel, enough ≤ fuel → reduceText fuel host files text o ro = result) ∧
      ((∀ e, result = .error e → IsReported e) ↔ Fits host files text o ro) := by
  rcases expand_cases host.homes hmode with hhome | ⟨docfile, baseDir, hexpand⟩
  · -- a home directory is asked for that is not known
    refine ⟨0, .error (.load .home), fun fuel _ => ?_, iff_of_false ?_ ?_⟩
    · unfold reduceText
      rw [hhome]
      rfl
    · exact fun h => h _ rfl
    · rintro ⟨⟨expanded, hknown⟩, -⟩
      cases hhome.symm.trans hknown
  · -- the document is read where it stands
    obtain ⟨enough, read, hread, hbare, hrefusal⟩ := readToReduce_ends files (.text text)
      (o := { o with docfile, baseDir }) ro hmode hprocessors
    have hrun : ∀ fuel, enough ≤ fuel → reduceText fuel host files text o ro =
        read.mapError DeliveryError.load >>= fun s =>
          if host.stack < (playBack ro s).depth then .error (.recursion (playBack ro s).log)
          else (finishReduction fuel ro s).mapError .load := by
      intro fuel hfuel
      rw [← hread fuel hfuel]
      exact reduceText_of_expand ro hexpand
    have hloads : ∀ fuel s, Session.load fuel files (.text text) { o with docfile, baseDir } =
        .ok s → read = .ok s := by
      intro fuel s hload
      rw [← hread (max enough fuel) (Nat.le_max_left _ _)]
      exact readToReduce_eq_ok_iff.mpr (Session.load_eq_ok_of_le (Nat.le_max_right _ _) hload)
    cases read with
    -- the document is refused
    | error e =>
      refine ⟨enough, .error (.load e), hrun, iff_of_true ?_ ⟨⟨_, hexpand⟩, ?_⟩⟩
      · rintro _ ⟨⟩
        exact isReported_of_isRefusal (hrefusal e rfl)
      · intro expanded hexpanded fuel s hload
        cases hexpand.symm.trans hexpanded
        cases hloads fuel s hload
    -- the document was read, and is to be replayed
    | ok s =>
      have hfits : Fits host files text o ro ↔ (playBack ro s).depth ≤ host.stack := by
        constructor
        · intro h
          refine h.depth _ hexpand enough s ?_
          exact readToReduce_eq_ok_iff.mp (hread enough (Nat.le_refl _))
        · intro h
          refine ⟨⟨_, hexpand⟩, fun expanded hexpanded fuel s' hload => ?_⟩
          cases hexpand.symm.trans hexpanded
          cases hloads fuel s' hload
          exact h
      obtain ⟨enough', result, hreplay, hiff⟩ := replayed_ends host (hbare s rfl).processors ro
      refine ⟨max enough enough', result, fun fuel hfuel => ?_, hiff.trans hfits.symm⟩
      rw [hrun fuel (by omega), ← hreplay fuel (by omega)]
      rfl

end

/-- The text of the document that a command line names, and the file that it is in. -/
inductive Given (w : Surroundings) (a : ReduceArguments) : String → Option String → Prop where
  | stream {text : String} (hfile : a.file = standardStream) (hinput : w.input = .ok text) :
    Given w a text none
  | file {text : String} (hfile : a.file ≠ standardStream)
      (hisFile : w.files.isFile (Path.tidy a.file) = .ok true)
      (hread : w.files.readText (Path.tidy a.file) = .ok text) :
    Given w a text (some (Path.tidy a.file))

/-- Whether nothing but what is reported can keep the document of a command line from being reduced. -/
structure Reducible (w : Surroundings) (a : ReduceArguments) (load : LoadOptions)
    (o : ReduceOptions) : Prop where
  input : a.file = standardStream → ∃ text, w.input = .ok text
  decodes : a.file ≠ standardStream → w.files.Decodes (Path.tidy a.file)
  fits : ∀ text docfile, Given w a text docfile → Fits w.host w.files text { load with docfile } o

section

variable {a : ReduceArguments} {o : LoadOptions} {ro : ReduceOptions} {mode : SafeMode}

/-- A document that is in a file can be reduced if the file can be decoded, and its text fits should there
be one. -/
theorem reducible_of_file (hfile : a.file ≠ standardStream)
    (hdecodes : w.files.Decodes (Path.tidy a.file))
    (hfits : ∀ text, w.files.isFile (Path.tidy a.file) = .ok true →
      w.files.readText (Path.tidy a.file) = .ok text →
      Fits w.host w.files text { o with docfile := some (Path.tidy a.file) } ro) :
    Reducible w a o ro := by
  refine ⟨fun h => absurd h hfile, fun _ => hdecodes, fun text docfile hgiven => ?_⟩
  cases hgiven with
  | stream hstream => exact absurd hstream hfile
  | file _ hfound htext => exact hfits text hfound htext

/-- A document that is not given as a stream comes from a file. Reducing it ends, and what keeps it from
its result is reported exactly if the file is none, is no file that can be read, or holds a text that
fits. -/
theorem fileInput_ends (hfile : a.file ≠ standardStream)
    (hmode : SafeMode.ofValue o.safe = .ok mode) (hprocessors : o.processors = [])
    (hdocfile : o.docfile = none) :
    ∃ enough result, (∀ fuel, enough ≤ fuel →
        (Input.file a.file).reduce fuel w.host w.files o ro = result) ∧
      ((∀ e, result = .error e → IsReported e) ↔ Reducible w a o ro) := by
  unfold Input.reduce
  dsimp only
  cases hisFile : w.files.isFile (Path.tidy a.file) with
  -- the file cannot be looked at
  | error e =>
    refine ⟨0, _, fun _ _ => rfl, iff_of_true ?_ (reducible_of_file hfile ?_ ?_)⟩
    · rintro _ ⟨⟩
      trivial
    · intro h
      cases hisFile.symm.trans h
    · intro text h
      cases hisFile.symm.trans h
  | ok found =>
    cases found with
    -- there is no such file
    | false =>
      refine ⟨0, _, fun _ _ => rfl, iff_of_true ?_ (reducible_of_file hfile ?_ ?_)⟩
      · rintro _ ⟨⟩
        trivial
      · intro h
        cases hisFile.symm.trans h
      · intro text h
        cases hisFile.symm.trans h
    -- the file is there
    | true =>
      cases hread : w.files.readText (Path.tidy a.file) with
      | error e =>
        cases e with
        -- its text cannot be read
        | file e =>
          refine ⟨0, _, fun _ _ => rfl, iff_of_true ?_ (reducible_of_file hfile ?_ ?_)⟩
          · rintro _ ⟨⟩
            trivial
          · intro _ e' he'
            cases hread.symm.trans he'
          · intro text _ htext
            cases hread.symm.trans htext
        -- it is not text
        | encoding e =>
          refine ⟨0, _, fun _ _ => rfl, iff_of_false (fun h => h _ rfl) fun h => ?_⟩
          exact h.decodes hfile hisFile e hread
      -- its text is reduced
      | ok text =>
        have hoptions : (o.docfile <|> some (Path.tidy a.file)) = some (Path.tidy a.file) := by
          rw [hdocfile]
          rfl
        rw [hoptions]
        obtain ⟨enough, result, hrun, hiff⟩ := reduceText_ends
          (o := { o with docfile := some (Path.tidy a.file) }) w.host w.files text ro hmode
          hprocessors
        refine ⟨enough, result, hrun, hiff.trans ⟨fun h => reducible_of_file hfile ?_ ?_, fun h => ?_⟩⟩
        · intro _ e he
          cases hread.symm.trans he
        · intro text' _ htext
          cases hread.symm.trans htext
          exact h
        · exact h.fits text _ (.file hfile hisFile hread)

/-- Reducing the standard input ends, and what keeps it from its result is reported exactly if it
fits. -/
theorem streamInput_ends {text : String} (hfile : a.file = standardStream)
    (hinput : w.input = .ok text) (hmode : SafeMode.ofValue o.safe = .ok mode)
    (hprocessors : o.processors = []) (hdocfile : o.docfile = none) :
    ∃ enough result, (∀ fuel, enough ≤ fuel →
        (Input.stream text none).reduce fuel w.host w.files o ro = result) ∧
      ((∀ e, result = .error e → IsReported e) ↔ Reducible w a o ro) := by
  obtain ⟨enough, result, hrun, hiff⟩ :=
    reduceText_ends (o := { o with docfile := none }) w.host w.files text ro hmode hprocessors
  refine ⟨enough, result, fun fuel hfuel => ?_, hiff.trans ⟨fun h => ?_, fun h => ?_⟩⟩
  · rw [← hrun fuel hfuel]
    unfold Input.reduce
    dsimp only
    rw [hdocfile]
    rfl
  · refine ⟨fun _ => ⟨text, hinput⟩, fun h => absurd hfile h, fun text' docfile hgiven => ?_⟩
    cases hgiven with
    | stream _ htext =>
      cases hinput.symm.trans htext
      exact h
    | file hother => exact absurd hfile hother
  · exact h.fits text none (.stream hfile hinput)

/-- The delivery of a document ends with a status exactly if the document is reducible. -/
theorem deliver_concludes_iff {input : Input} (hinput : inputOf w a = .ok input)
    (ro : ReduceOptions) (hmode : SafeMode.ofValue o.safe = .ok mode)
    (hprocessors : o.processors = []) (hdocfile : o.docfile = none) :
    ∃ enough, ∀ fuel, enough ≤ fuel → ∀ errors,
      ((outcomeOf w (targetOf a) errors
        (deliver fuel w.host w.files input o ro (targetOf a)).value).Concluded ↔
      Reducible w a o ro) := by
  obtain ⟨enough, result, hreduce, hiff⟩ : ∃ enough result, (∀ fuel, enough ≤ fuel →
      input.reduce fuel w.host w.files o ro = result) ∧
      ((∀ e, result = .error e → IsReported e) ↔ Reducible w a o ro) := by
    unfold inputOf at hinput
    by_cases hfile : a.file = standardStream
    · -- the document comes from the standard input
      rw [if_pos (by simpa using hfile)] at hinput
      obtain ⟨text, htext, rfl⟩ := Except.map_eq_ok_iff.mp hinput
      exact streamInput_ends hfile htext hmode hprocessors hdocfile
    · -- the document comes from a file
      rw [if_neg (by simpa using hfile)] at hinput
      cases hinput
      exact fileInput_ends hfile hmode hprocessors hdocfile
  refine ⟨enough, fun fuel hfuel errors => ?_⟩
  rw [outcomeOf_concluded_iff, ← hiff]
  unfold deliver
  rw [hreduce fuel hfuel]
  cases result with
  -- the reduction fails
  | error e =>
    constructor
    · intro h e' he'
      cases he'
      exact h e rfl
    · intro h e' he'
      cases he'
      exact h e rfl
  -- the reduced document is delivered
  | ok reduced =>
    refine ⟨fun _ => nofun, fun _ e he => ?_⟩
    dsimp only at he
    split at he
    · rename_i hdeliver
      cases he
      exact deliver_reports hdeliver
    · cases he

end

/-! ## Plans and logs -/

section

variable {m : Mapping Value} {a : ReduceArguments}

/-- A configuration that satisfies its schema and a command line make a plan. -/
theorem planOf_conforms (hm : Config.Conforms m) {settings : Attribute.Settings}
    (hsettings : Config.attributes m = .ok settings)
    (hsafe : ∀ name, a.safe = some name → name ∈ SafeMode.all.map SafeMode.lowerName) :
    ∃ plan mode, planOf m a = .ok plan ∧
      plan.load.attributes = Document.givenAgain (joinAttributes settings a.attributes) ∧
      SafeMode.ofValue plan.load.safe = .ok mode ∧ plan.load.processors = [] ∧
      plan.load.docfile = none := by
  obtain ⟨configured, hconfigured⟩ := hm.safeMode
  obtain ⟨sourcemap, hsourcemap⟩ : ∃ b, Config.sourcemap m = .ok b := hm.switch _
  obtain ⟨preserve, hpreserve⟩ : ∃ b, Config.preserveConditionals m = .ok b := hm.switch _
  obtain ⟨map, hmap⟩ : ∃ b, Config.includeMap m = .ok b := hm.switch _
  have hmode : ∃ mode, SafeMode.ofValue ((a.safe.map Value.text).getD (.int configured.level)) =
      .ok mode := by
    cases hname : a.safe with
    | some name => exact SafeMode.ofValue_of_mem (hsafe name hname)
    | none => exact ⟨configured, SafeMode.ofValue_level configured⟩
  obtain ⟨mode, hmode⟩ := hmode
  refine ⟨{
    load := { attributes := Document.givenAgain (joinAttributes settings a.attributes)
              safe := (a.safe.map Value.text).getD (.int configured.level), sourcemap }
    options := { preserveConditionals := a.preserveConditionals || preserve
                 includeMap := a.includeMap || map } }, mode, ?_, rfl, hmode, rfl, rfl⟩
  unfold planOf
  simp only [hsettings, hconfigured, hsourcemap, hpreserve, hmap, bind, Except.bind]
  cases a.safe <;> cases a.preserveConditionals <;> cases a.includeMap <;> rfl

/-- Whether records can be written in the configured format. -/
def Formats (m : Mapping Value) : Prop :=
  ∃ text format, Config.logFormat m = .ok text ∧ Log.Format.ofText text = .ok format

/-- The log is opened if the format has a field, or if nothing is to be logged. -/
theorem openLog_conforms (hm : Config.Conforms m)
    (hlevel : ∀ name, a.logLevel = some name → (Log.Output.levelOf? name).isSome = true) :
    (∃ log, openLog m a = .ok log) ↔ (a.quiet = false → Formats m) := by
  obtain ⟨text, htext⟩ := hm.logFormat
  cases hquiet : a.quiet with
  | true =>
    -- there is no level then, and the format is never looked at
    have hlog : logLevel m a = .ok none := by
      unfold logLevel
      rw [hquiet]
      rfl
    refine ⟨fun _ h => absurd h (by decide), fun _ => ?_⟩
    unfold openLog
    simp only [hlog, htext, Except.mapError_ok_eq, bind, Except.bind]
    exact ⟨_, rfl⟩
  | false =>
    have hlog : ∃ name level, logLevel m a = .ok (some name) ∧
        Log.Output.levelOf? name = some level := by
      unfold logLevel
      rw [hquiet]
      cases hname : a.logLevel with
      | some name =>
        obtain ⟨level, hknown⟩ := Option.isSome_iff_exists.mp (hlevel name hname)
        exact ⟨name, level, rfl, hknown⟩
      | none =>
        obtain ⟨name, hname, hknown⟩ := hm.logLevel
        obtain ⟨level, hlevel⟩ := Option.isSome_iff_exists.mp hknown
        exact ⟨name, level, by rw [hname]; rfl, hlevel⟩
    obtain ⟨name, level, hlog, hknown⟩ := hlog
    unfold openLog
    simp only [hlog, htext, Except.mapError_ok_eq, bind, Except.bind, Log.Output.configure]
    cases hformat : Log.Format.ofText text with
    | error e =>
      refine ⟨nofun, fun h => ?_⟩
      obtain ⟨text', format, htext', hformat'⟩ := h trivial
      rw [htext] at htext'
      cases htext'
      rw [hformat] at hformat'
      cases hformat'
    | ok format =>
      refine ⟨fun _ _ => ⟨text, format, htext, hformat⟩, fun _ => ?_⟩
      simp only [hknown]
      exact ⟨_, rfl⟩

end

/-! ## Runs -/

/-- Showing settings always ends with a status. -/
theorem showSettings_concludes (w : Surroundings) (key : Option String) (json : Bool)
    (root : Option String) : (showSettings w key json root).Concluded := by
  unfold showSettings
  split
  · exact Or.inr rfl
  · simp only
    split <;> split
    all_goals first | exact Or.inr rfl | exact Or.inl rfl

/-- Listing an include map ends with a status if the file is a text. -/
theorem includes_concludes_iff (w : Surroundings) (file : String) (json : Bool) :
    (includes w file json).Concluded ↔ w.files.Decodes (Path.tidy file) := by
  unfold includes FileTree.Decodes
  dsimp only
  cases hfile : w.files.isFile (Path.tidy file) with
  | error e => exact ⟨fun _ h => absurd h nofun, fun _ => Or.inr rfl⟩
  | ok found =>
    cases found with
    | false => exact ⟨fun _ h => absurd h (by simp), fun _ => Or.inr rfl⟩
    | true =>
      cases hread : w.files.readText (Path.tidy file) with
      | ok text => exact ⟨fun _ _ e => nofun, fun _ => Or.inl rfl⟩
      | error e =>
        cases e with
        | encoding e =>
          refine ⟨fun h => ?_, fun h => absurd rfl (h rfl e)⟩
          rcases h with h | h <;> cases h
        | file e => exact ⟨fun _ _ e => nofun, fun _ => Or.inr rfl⟩

/-- What a reduction needs beyond a configuration that satisfies its schema: records can be written if
there are to be any, all attributes can, and the document is one that can be reduced. -/
structure Attainable (w : Surroundings) (a : ReduceArguments) (m : Mapping Value) : Prop where
  log : a.quiet = false → Formats m
  attributes : Config.attributes m ≠ .error .tooLong
  document : ∀ plan, planOf m a = .ok plan → Reducible w a plan.load plan.options

/-- What a command needs beyond a valid configuration. -/
def Manageable (w : Surroundings) : Invocation → Prop
  | .overview | .config _ _ _ => True
  | .includes file _ => w.files.Decodes (Path.tidy file)
  | .reduce a => ∀ site m, w.site? a.root = some site → (site.loadDirectly false).value = .ok m →
      Attainable w a m

/-- A plan without attributes is none. -/
theorem planOf_eq_error {m : Mapping Value} {a : ReduceArguments}
    (h : Config.attributes m = .error .tooLong) : planOf m a = .error .tooLong := by
  unfold planOf
  rw [h]
  rfl

/-- A reduction with a valid configuration ends with a status exactly if it is attainable. -/
theorem reduce_concludes_iff {w : Surroundings} {a : ReduceArguments} {site : Config.Site}
    {m : Mapping Value} (hsite : w.site? a.root = some site)
    (hload : (site.loadDirectly false).value = .ok m) (hm : Config.Conforms m)
    (hsafe : ∀ name, a.safe = some name → name ∈ SafeMode.all.map SafeMode.lowerName)
    (hlevel : ∀ name, a.logLevel = some name → (Log.Output.levelOf? name).isSome = true) :
    ∃ enough, ∀ fuel, enough ≤ fuel → ((reduce fuel w a).Concluded ↔ Attainable w a m) := by
  have hreduce : ∀ fuel, reduce fuel w a = reduceWith fuel w a m := by
    intro fuel
    unfold reduce
    rw [hsite]
    dsimp only
    rcases site.loadCached_nil_value false with hvalue | ⟨cause, cause', -, hrefused⟩
    · rw [hvalue, hload]
    · cases hload.symm.trans hrefused
  have hcrash : ∀ e, ¬(Outcome.crashed w.files e).Concluded := by
    rintro e (h | h) <;> cases h
  simp only [hreduce]
  unfold reduceWith
  -- what can go wrong comes up in this order: the log, the plan, the input, the delivery
  cases hopen : openLog m a with
  | error e =>
    refine ⟨0, fun fuel _ => iff_of_false (hcrash e) fun h => ?_⟩
    obtain ⟨log, hlog⟩ := (openLog_conforms hm hlevel).mpr h.log
    cases hopen.symm.trans hlog
  | ok log =>
    have hformats := (openLog_conforms hm hlevel).mp ⟨log, hopen⟩
    by_cases htoo : Config.attributes m = .error .tooLong
    · rw [planOf_eq_error htoo]
      exact ⟨0, fun fuel _ => iff_of_false (hcrash _) fun h => h.attributes htoo⟩
    · obtain ⟨settings, hsettings⟩ := hm.attributes htoo
      obtain ⟨plan, mode, hplan, -, hmode, hprocessors, hdocfile⟩ :=
        planOf_conforms hm hsettings hsafe
      have hiff : Attainable w a m ↔ Reducible w a plan.load plan.options := by
        constructor
        · exact fun h => h.document plan hplan
        · refine fun h => ⟨hformats, htoo, fun plan' hplan' => ?_⟩
          cases hplan.symm.trans hplan'
          exact h
      rw [hplan, hiff]
      cases hinput : inputOf w a with
      | error e =>
        refine ⟨0, fun fuel _ => iff_of_false (hcrash _) fun h => ?_⟩
        unfold inputOf at hinput
        by_cases hfile : a.file = standardStream
        · obtain ⟨text, htext⟩ := h.input hfile
          rw [if_pos (by simpa using hfile), htext] at hinput
          cases hinput
        · rw [if_neg (by simpa using hfile)] at hinput
          cases hinput
      | ok input =>
        obtain ⟨enough, hdeliver⟩ :=
          deliver_concludes_iff hinput plan.options hmode hprocessors hdocfile
        exact ⟨enough, fun fuel hfuel => hdeliver fuel hfuel _⟩

/-- A working directory with the configuration of a project and a document, next to the bundled
data. -/
def workspace (project : Mapping Value) (document : Content) : Surroundings where
  files :=
    { workingDir := ["w"]
      entries := [(["d"], .directory), (["d", "config"], .directory),
        (["d", "config", "defaults.yaml"], .file (.data (.mapping Config.defaults)) 0),
        (["d", "schemas"], .directory), (["d", "schemas", "config"], .directory),
        (["d", "schemas", "config", "config.schema.yaml"],
          .file (.data (.mapping Config.schema)) 1),
        (["w"], .directory), (["w", ".adoc-reducer"], .directory),
        (["w", ".adoc-reducer", "config"], .directory),
        (["w", ".adoc-reducer", "config", "a.yaml"], .file (.data (.mapping project)) 2),
        (["w", "main.adoc"], .file document 3)]
      clock := 4 }
  environment := []
  dataDir := "/d"
  input := .ok ""
  readable := by decide +kernel

/-- The command line that reduces the document, without any option. -/
def plainly : ReduceArguments where
  file := "main.adoc"
  output := "-"
  attributes := []
  preserveConditionals := false
  includeMap := false
  safe := none
  logLevel := none
  quiet := false
  root := none

theorem read_reduce : Invocation.read ["reduce", "main.adoc"] = .ok (.reduce plainly) := by
  have hread : (Invocation.read ["reduce", "main.adoc"]).toOption = some (.reduce plainly) := by
    decide +kernel
  exact eq_ok_of_mem_toOption hread

/-- The default format has fields. -/
theorem formats_default {m : Mapping Value} (h : Config.logFormat m = .ok Config.defaultFormat) :
    Formats m := by
  have hfield : Log.hasField Config.defaultFormat.toList = true := by decide +kernel
  refine ⟨Config.defaultFormat, ⟨Config.defaultFormat, hfield⟩, h, ?_⟩
  unfold Log.Format.ofText
  exact dif_pos hfield

/-- A text fits if what is loaded from it once can be played back. -/
theorem fits_of_load {host : Host} {files : FileTree} {text : String} {load expanded : LoadOptions}
    {o : ReduceOptions} {fuel : Nat} {s : Session} (hexpand : load.expand host.homes = .ok expanded)
    (hload : Session.load fuel files (.text text) expanded = .ok s)
    (hdepth : (playBack o s).depth ≤ host.stack) : Fits host files text load o := by
  refine ⟨⟨expanded, hexpand⟩, fun expanded' hexpand' fuel' s' hload' => ?_⟩
  cases hexpand.symm.trans hexpand'
  have hs := Session.load_eq_ok_of_le (Nat.le_max_left fuel fuel') hload
  have hs' := Session.load_eq_ok_of_le (Nat.le_max_right fuel fuel') hload'
  cases hs.symm.trans hs'
  exact hdepth

/-- A workspace whose document includes a file that is missing. -/
def missing : Surroundings :=
  workspace [] (.text "include::a.adoc[]\n")

/-- A workspace whose document is a byte that begins no character. -/
def undecodable : Surroundings :=
  workspace [] (.bytes [0xff])

example : (run amplyFuel (workspace [("logging", .mapping [("format", .text "plain")])]
    (.text "text\n")) ["reduce", "main.adoc"]).status.toOption = none := by decide +kernel

end Command

end DocFlatten
