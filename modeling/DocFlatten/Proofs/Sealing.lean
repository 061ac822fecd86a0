import DocFlatten.Proofs.Recasting
import DocFlatten.Proofs.Reducing
import DocFlatten.Proofs.Reopening
import DocFlatten.Proofs.Settling

/-! # The secure mode reads no files

In the secure mode the target of a directive is spelled out but never opened: whatever is decided
before the mode is asked for needs the document's attributes only (`resolve_withFiles`). So the files of a
session can be exchanged at any time without reading noticing (`carried_withFiles`). No scope is ever
entered, which bounds what is left to be read by the lines of the source, so every scan ends
(`dwindles_sealed`). Both together give each source one reduction, whatever files there are
(`reduce_secure`).
-/

namespace DocFlatten

open DocFlatten.Scan DocFlatten.Replacement

namespace Session

/-! ## Directives -/

/-- A session with other files, if it is in the secure mode. -/
def withFiles (files : FileTree) (s : Session) : Session :=
  if s.doc.options.safe = .secure then { s with files } else s

/-- In secure mode, other files may be put in the place of those that there are. -/
theorem withFiles_of_secure {s : Session} (h : s.doc.options.safe = .secure) (files : FileTree) :
    s.withFiles files = { s with files } :=
  if_pos h

@[simp] theorem doc_withFiles (files : FileTree) (s : Session) : (s.withFiles files).doc = s.doc := by
  unfold withFiles
  split <;> rfl

/-- In the secure mode no directive is followed into a file. -/
theorem resolve_secure {s : Session} (h : s.doc.options.safe = .secure) (i : Include)
    (selection : Selection) (path shownPath : String) (attributes : Attributes) :
    (s.resolve i).1 ≠ .entered selection path shownPath attributes := by
  intro heq
  have hresolves := resolves s i
  rw [heq] at hresolves
  cases hresolves with
  | entered _ _ _ _ _ hsafe => exact hsafe h

/-- A directive leads to the same with other files. -/
theorem resolve_withFiles (files : FileTree) (s : Session) (i : Include) :
    (s.withFiles files).resolve i = s.resolve i := by
  by_cases h : s.doc.options.safe = .secure
  · rw [withFiles_of_secure h]
    have hsafe : (s.doc.options.safe == .secure) = true := by simp [h]
    have hblank : ({ s with files } : Session).resolveBlank i = s.resolveBlank i := rfl
    have hmissing : ({ s with files } : Session).targetMissing = s.targetMissing := rfl
    have htarget : ∀ target,
        ({ s with files } : Session).resolveTarget i target = s.resolveTarget i target := by
      intro target
      have hdirective : ({ s with files } : Session).directiveAttributes i.attrlist =
          s.directiveAttributes i.attrlist := rfl
      unfold resolveTarget
      simp only [hdirective, hsafe, if_true]
    unfold resolve
    simp only [hmissing, hblank, htarget]
  · unfold withFiles
    rw [if_neg h]

/-- Reading does not notice that files were exchanged. -/
theorem carried_withFiles (files : FileTree) : Carried (withFiles files) where
  reader s := by simp [Session.reader]
  attributes s := by simp
  resolve := resolve_withFiles files
  move s g := by
    unfold withFiles withReader
    split <;> rfl
  note s e := by
    unfold withFiles note
    split <;> rfl
  register s path isPartial := by
    have hoptions : (s.doc.registerInclude path isPartial).options = s.doc.options := rfl
    unfold withFiles
    rw [hoptions]
    split <;> rfl
  set s name value := by
    have hoptions : (s.doc.setAttribute name value).options = s.doc.options :=
      (Simulation.edited_setAttribute s.doc name value).options
    unfold withFiles
    rw [hoptions]
    split <;> rfl

/-! ## Sealed sessions -/

/-- A session in the secure mode without processors, in which nothing was included. -/
structure Sealed (s : Session) : Prop where
  safe : s.doc.options.safe = .secure
  processors : s.doc.options.processors = []
  includes : s.doc.includes = []

namespace Sealed

variable {s s' : Session}

/-- A session stays sealed with the options and the includes that it has. -/
theorem of_doc (h : s.Sealed) (hoptions : s'.doc.options = s.doc.options)
    (hincludes : s'.doc.includes = s.doc.includes) : s'.Sealed where
  safe := by rw [hoptions]; exact h.safe
  processors := by rw [hoptions]; exact h.processors
  includes := hincludes.trans h.includes

/-- A sealed session follows no include. -/
theorem inclusion?_eq_none (h : s.Sealed) (line : String) : s.inclusion? line = none := by
  cases hinclusion : s.inclusion? line with
  | none => rfl
  | some e =>
    obtain ⟨i, -, -, hresolve⟩ := inclusion?_eq_some hinclusion
    exact absurd hresolve (resolve_secure h.safe i _ _ _ _)

/-- A look leaves a session sealed. -/
theorem look {line : String} (h : s.Sealed) (hlook : Look s line (s.glance line)) :
    (s.glance line).session.Sealed := by
  obtain ⟨r, es, hturns⟩ := hlook.turns
  exact h.of_doc (by rw [hturns.doc]) (glance_apart (h.inclusion?_eq_none line)).includes

end Sealed

/-- A scan leaves a session sealed. -/
theorem harmless_sealed : Harmless Sealed where
  reading :=
    { leave := fun s h _ _ houter => by
        cases hscopes : s.reader.outer with
        | nil => exact absurd hscopes houter
        | cons scope outer =>
          exact h.of_doc (by rw [(turns_leave hscopes).doc]) (includes_leave s)
      meet := fun s line h => h.of_doc rfl rfl
      look := fun s line rest g h _ _ hg hlook => by
        subst hg
        exact hlook.ends h.processors (h.look hlook)
      take := fun s h _ _ => h.of_doc (by rw [doc_takeFront]) (by rw [doc_takeFront]) }
  edit _ _ h hedit := h.of_doc hedit.options hedit.includes
  log _ _ h := h.of_doc rfl rfl

/-- No look enters a scope, so there is always less left. -/
theorem dwindles_sealed : Dwindles 0 0 Sealed where
  kept := harmless_sealed.reading
  processors _ h := h.processors
  less _ line _ _ h hidle hfront hglance hlook :=
    rank_apart hidle hfront hglance hlook (h.inclusion?_eq_none line)

/-- In the secure mode no file is looked up, so the system refuses nothing. -/
theorem not_refusable_sealed (e : FileError) : ¬ Refusable Sealed e := by
  rintro ⟨s, fuel, s', hsealed, hsteady, hpeek⟩
  obtain ⟨hpasses, hidle, hfront, hline, htarget, hsafe, hstat, hturns⟩ :=
    refuses_of_peekLine hsealed.processors hsteady hpeek
  exact hsafe (hpasses.kept harmless_sealed.reading hsteady hsealed).2.safe

/-- A sealed session does not see its files. -/
theorem unseen_withFiles : Unseen Sealed withFiles where
  doc := doc_withFiles
  peek files s fuel _ := (carried_withFiles files).peekLine s fuel
  take files s := (carried_withFiles files).takeFront s
  edit files _ _ hd := by
    unfold withFiles
    simp only [hd.options]
    split <;> rfl
  log files s record := (carried_withFiles files).log s record

/-! ## Loading -/

/-- In the secure mode a source is loaded to one document, whatever files there are. -/
theorem load_secure (source : Source) {o : LoadOptions}
    (hsafe : SafeMode.ofValue o.safe = .ok .secure) (hprocessors : o.processors = [])
    (workingDir : List String) : ∃ enough s, Sealed s ∧ ∀ files, files.workingDir = workingDir →
      ∀ fuel, enough ≤ fuel → load fuel files source o = .ok { s with files } := by
  obtain ⟨d, hd⟩ : ∃ d, d = Document.initial workingDir source o .secure := ⟨_, rfl⟩
  have hstart : ∀ files, start files d = (start default d).withFiles files := by
    intro files
    rw [withFiles_of_secure (by rw [hd]; rfl)]
    rfl
  have hsealed : Sealed (start default d) := by
    subst hd
    exact ⟨rfl, hprocessors, rfl⟩
  have hidle : (start default d).reader.Idle := by
    subst hd
    exact ⟨rfl, rfl⟩
  obtain ⟨enough, _, hrun, hcomes⟩ :=
    settles_document harmless_sealed dwindles_sealed unseen_withFiles (Or.inl hidle) hsealed
  cases hcomes with
  -- nothing can be refused
  | @refused e _ hrefusable => exact absurd hrefusable (not_refusable_sealed e)
  -- the result is the same for all files
  | @result _ s hend =>
    refine ⟨enough, s, hend, ?_⟩
    rintro files rfl fuel hfuel
    have hscan : Session.scan fuel (start files d) = .ok { s with files } := by
      rw [scan_eq_ok, hstart, hrun fuel hfuel files, ← withFiles_of_secure hend.safe]
      rfl
    rw [hd] at hscan
    exact load_eq_ok.mpr ⟨_, openSource_of_mode hsafe files source, hscan⟩

end Session

/-! ## Reducing -/

/-- The reduced document is put together without files. -/
theorem rebuild_secure {d : Document} (hsafe : d.options.safe = .secure)
    (hprocessors : d.options.processors = []) (lines : List String) (changed : Bool)
    (workingDir : List String) : ∃ enough rebuilt, rebuilt.value.includes = d.includes ∧
      ∀ files, files.workingDir = workingDir → ∀ fuel, enough ≤ fuel →
        rebuild fuel files d lines changed = .ok rebuilt := by
  cases hreload : d.options.sourcemap && changed with
  | false =>
    refine ⟨0, { value := d.withSourceLines lines, log := [] }, rfl, fun files _ fuel _ => ?_⟩
    unfold rebuild
    rw [hreload]
    rfl
  | true =>
    have hmode : SafeMode.ofValue { d.reloadOptions with reduced := true }.safe = .ok .secure := by
      change SafeMode.ofValue (.int d.options.safe.level) = _
      rw [hsafe]
      exact SafeMode.ofValue_level .secure
    obtain ⟨enough, s, -, hload⟩ := Session.load_secure (.lines lines) hmode hprocessors workingDir
    refine ⟨enough, {
      value := { s.doc with includes := d.includes }
      log := Log.debug .rebuilding "Reloading reduced document for source mapping" ::
        s.journal.records }, rfl, fun files hfiles fuel hfuel => ?_⟩
    unfold rebuild
    rw [hreload, if_pos rfl, hload files hfiles fuel hfuel]

/-- In the secure mode a source has one reduction, log and all, and its catalogue is empty: neither
which files there are nor what they hold makes any difference. The working directory is no part of
them; it says what relative paths in the options mean. -/
theorem reduce_secure (source : Source) {o : LoadOptions} (ro : ReduceOptions)
    (hsafe : SafeMode.ofValue o.safe = .ok .secure) (hprocessors : o.processors = [])
    (workingDir : List String) :
    ∃ enough reduced, reduced.value.includes = [] ∧
      ∀ files, files.workingDir = workingDir → ∀ fuel, enough ≤ fuel →
        reduce fuel files source o ro = .ok reduced := by
  obtain ⟨enough, s, hsealed, hload⟩ := Session.load_secure source hsafe hprocessors workingDir
  obtain ⟨enough', rebuilt, hincludes, hrebuild⟩ := rebuild_secure hsealed.safe hsealed.processors
    (playBack ro s).lines (playBack ro s).changed workingDir
  have hnothing : rebuilt.value.includes = [] := hincludes.trans hsealed.includes
  refine ⟨max enough enough', {
    value := if ro.includeMap then rebuilt.value.appendIncludeMap.2 else rebuilt.value
    log := (playBack ro s).log ++ rebuilt.log }, ?_, fun files hfiles fuel hfuel => ?_⟩
  · simp only
    split
    · rw [Document.appendIncludeMap, hnothing]
      exact hnothing
    · exact hnothing
  · refine reduce_eq_ok.mpr ⟨_, hload files hfiles fuel (by omega), ?_⟩
    have hplayed : playBack ro { s with files } = playBack ro s := rfl
    unfold finishReduction
    simp only [hplayed, hrebuild files hfiles fuel (by omega)]

/-- Whether the file of a directive is there or not, the reduction is the same. -/
theorem reduce_secure_missing :
    SafeMode.ofValue (.int 20) = .ok .secure ∧
      ∃ fuel reduced, reduced.value.includes = [] ∧
        reduce fuel ⟨["w"], [], 1⟩ (.lines ["Seen in", "include::{dir}/a.adoc[]"])
          { attributes := .words "dir=sub", safe := .int 20, sourcemap := true }
          { includeMap := true } = .ok reduced ∧
        reduce fuel ⟨["w"], [(["w", "sub", "a.adoc"], .file (.text ":name: value\n") 0)], 1⟩
          (.lines ["Seen in", "include::{dir}/a.adoc[]"])
          { attributes := .words "dir=sub", safe := .int 20, sourcemap := true }
          { includeMap := true } = .ok reduced := by
  have hsafe : SafeMode.ofValue (.int 20) = .ok .secure := rfl
  obtain ⟨enough, reduced, hincludes, hreduce⟩ :=
    reduce_secure (.lines ["Seen in", "include::{dir}/a.adoc[]"])
      (o := { attributes := .words "dir=sub", safe := .int 20, sourcemap := true })
      { includeMap := true } hsafe rfl ["w"]
  exact ⟨hsafe, enough, reduced, hincludes, hreduce _ rfl enough (Nat.le_refl _),
    hreduce _ rfl enough (Nat.le_refl _)⟩

end DocFlatten
