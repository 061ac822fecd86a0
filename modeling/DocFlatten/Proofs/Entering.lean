import DocFlatten.Proofs.Looking

/-! # The files that directives lead to

`Look` tells what a look does to the reader, but neither which file an include directive was followed
into nor what the document noted of it. A look does one of two things:

* it follows no directive into a file; then the scopes around the current one and the catalogue of
  includes stay (`glance_apart`);
* it follows one into the file that `Session.inclusion?` names: that file is registered, and the
  lines that the directive selects of it are entered (`glance_inclusion`).
-/

namespace DocFlatten

/-- A file that an include directive is followed into. -/
structure Inclusion where
  selection : Selection
  path : String
  shownPath : String
  attributes : Attributes

/-- The name under which a file is listed. -/
def Inclusion.name (i : Inclusion) : String :=
  Path.withoutExtension i.shownPath

/-- Whether no lines are selected, so that the whole file is included. -/
def Inclusion.whole (i : Inclusion) : Bool :=
  !i.selection.isPartial

/-- The lines that are entered, without what is added around them. -/
def Inclusion.lines (i : Inclusion) : List String :=
  (Source.lines i.selection.lines).prepare

namespace Session

/-- A session that a look has led to, before a processor acts. -/
def Glance.session : Glance → Session
  | .line _ s => s
  | .again s => s
  | .hand _ _ s => s
  | .refused _ s => s

/-- Every look is a turn of the reader. -/
theorem Look.turns {s : Session} {line : String} {g : Glance} (h : Look s line g) :
    ∃ r es, Turns s r es g.session := by
  cases h with
  | plain s' hturns | escaped s' hturns | passed s' _ _ hturns
  | conditional c consumed r s' _ _ _ hturns | kept i s' _ _ _ hturns
  | followed i es r s' _ _ _ hturns | handed i processor target attributes s' _ _ _ hturns
  | refused i e s' _ _ _ hturns => exact ⟨_, _, hturns⟩

/-- Looking at a line turns the session that has met it. -/
theorem turns_look {s t : Session} {line : String} {rest : List String}
    (hlook : s.reader.lookAhead = 0) (hfront : s.reader.scope.lines = line :: rest)
    (hglance : (∃ text, (s.meet line).glance line = .line text t) ∨
      (s.meet line).glance line = .again t) : ∃ r es, Turns (s.meet line) r es t := by
  have hlooked : Look (s.meet line) line ((s.meet line).glance line) :=
    look_glance (s := s.meet line) hlook hfront
  obtain ⟨r, es, hturns⟩ := hlooked.turns
  refine ⟨r, es, ?_⟩
  rcases hglance with ⟨text, hglance⟩ | hglance
  · rw [hglance] at hturns
    exact hturns
  · rw [hglance] at hturns
    exact hturns

/-- A look that the system does not refuse. -/
def Glance.GoesOn (g : Glance) : Prop :=
  ∀ e s, g ≠ .refused e s

/-- Without processors nothing happens after a look. -/
theorem Look.ends_of_goesOn {P : Session → Prop} {s : Session} {line : String} {g : Glance}
    (hlook : Look s line g) (hprocessors : s.doc.options.processors = [])
    (h : g.GoesOn → P g.session) : Ends P g := by
  cases hlook with
  | handed i processor target attributes s' _ _ hresolve hturns =>
    exact absurd hresolve (resolve_ne_handed hprocessors)
  | refused => exact trivial
  | _ => exact h fun e t => Glance.noConfusion

/-- Whatever becomes of a line, what a turn keeps holds at the end of it. -/
theorem Look.ends {P : Session → Prop} {s : Session} {line : String} {g : Glance}
    (hlook : Look s line g) (hprocessors : s.doc.options.processors = []) (h : P g.session) :
    Ends P g :=
  hlook.ends_of_goesOn hprocessors fun _ => h

/-- Without processors, what every turn of reading keeps, every step of it keeps. -/
theorem Kept.of_turns {P : Session → Prop} (hprocessors : ∀ s, P s → s.doc.options.processors = [])
    (hturn : ∀ s r es s', P s → Turns s r es s' → P s') (hmeet : ∀ s line, P s → P (s.meet line))
    (htake : ∀ s, P s → P s.takeFront.2) : Kept P where
  leave s hs _ _ houter := by
    cases hscopes : s.reader.outer with
    | nil => exact absurd hscopes houter
    | cons scope outer => exact hturn _ _ _ _ hs (turns_leave hscopes)
  meet := hmeet
  look s line rest g hs _ _ _ hlook := by
    obtain ⟨r, es, hturns⟩ := hlook.turns
    exact hlook.ends (hprocessors s hs) (hturn _ _ _ _ hs hturns)
  take s hs _ _ := htake s hs

/-- The file that a line leads to if it is looked at, if it is a directive that is followed into
one. -/
def inclusion? (s : Session) (line : String) : Option Inclusion :=
  match s.reader.skipping, LineKind.ofLine line with
  | false, .directive i =>
    match (s.resolve i).1 with
    | .entered selection path shownPath attributes =>
      some { selection, path, shownPath, attributes }
    | _ => none
  | _, _ => none

/-! ## Looks that enter no file -/

/-- Neither the scopes around the current one nor the catalogue of includes have changed. -/
structure Apart (s s' : Session) : Prop where
  includes : s'.doc.includes = s.doc.includes
  outer : s'.reader.outer = s.reader.outer

namespace Apart

variable {s s' : Session}

theorem refl (s : Session) : Apart s s :=
  ⟨rfl, rfl⟩

theorem move (h : Apart s s') {f : Reader → Reader} (hf : ∀ r, (f r).outer = r.outer) :
    Apart s (s'.withReader f) :=
  ⟨h.includes, (hf _).trans h.outer⟩

theorem note (h : Apart s s') (entry : JournalEntry) : Apart s (s'.note entry) :=
  ⟨h.includes, h.outer⟩

theorem logAll (h : Apart s s') (records : List Log.Record) : Apart s (s'.logAll records) := by
  induction records generalizing s' with
  | nil => exact h
  | cons record records ih => exact ih (h.note _)

end Apart

theorem outer_replaceNext (text : String) (r : Reader) :
    (r.replaceNext text).2.outer = r.outer := by
  unfold Reader.replaceNext Reader.shift
  cases r.scope.lines <;> rfl

/-- Closing a conditional enters no file. -/
theorem apart_closeConditional (s : Session) (target text : String) :
    Apart s (s.closeConditional target text) := by
  unfold closeConditional
  split
  · exact (Apart.refl s).note _
  · split
    · exact (Apart.refl s).note _
    · split
      · exact (Apart.refl s).move fun _ => rfl
      · exact (Apart.refl s).note _

/-- Keeping a text enters no file. -/
theorem apart_keepText (s : Session) (text : String) : Apart s (s.keepText text) := by
  refine (Apart.refl s).move fun r => ?_
  simp only
  split <;> rfl

/-- Deciding a conditional enters no file. -/
theorem apart_decide (s : Session) (c : Conditional) : Apart s (s.decide c).2 := by
  have hopen : ∀ target skip skipping, Apart s (s.openConditional target skip skipping) :=
    fun target skip skipping => (Apart.refl s).move fun _ => rfl
  unfold decide
  simp only
  split
  · exact apart_closeConditional s _ _
  · split
    · split
      · exact hopen _ _ _
      · exact .refl s
    · split
      · exact (Apart.refl s).note _
      · split
        · exact hopen _ _ _
        · split
          · exact .refl s
          · exact apart_keepText s _

/-- Acting on a conditional enters no file. -/
theorem apart_processConditional (s : Session) (c : Conditional) :
    Apart s (s.processConditional c) := by
  have hreported := (apart_decide s c).note (.event (c.event s.reader (s.decide c).2.reader
    (s.decide c).1))
  have hprocess : s.processConditional c =
      if (s.decide c).1 then
        ((s.decide c).2.report (c.event s.reader (s.decide c).2.reader (s.decide c).1)).withReader
          Reader.shifted
      else (s.decide c).2.report (c.event s.reader (s.decide c).2.reader (s.decide c).1) := rfl
  rw [hprocess]
  split
  · exact hreported.move Reader.outer_shifted
  · exact hreported

/-- What a directive leads to unless it is followed into a file. -/
theorem apart_processInclude {s : Session} {line : String} {i : Include}
    (h : ∀ selection path shownPath attributes,
      (s.resolve i).1 ≠ .entered selection path shownPath attributes) :
    Apart s (s.processInclude line i).session := by
  have hfound : ∀ records : List Log.Record,
      Apart s ((s.report (s.reader.found i)).logAll records) :=
    fun records => ((Apart.refl s).note _).logAll records
  unfold processInclude
  cases hresolve : s.resolve i with
  | mk resolution records =>
    rw [hresolve] at h
    simp only
    cases resolution with
    | kept => exact ((hfound records).note _).move fun _ => rfl
    | vanished => exact ((hfound records).move Reader.outer_shifted).note _
    | replaced text => exact ((hfound records).move (outer_replaceNext text)).note _
    | entered selection path shownPath attributes => exact absurd rfl (h _ _ _ _)
    | handed processor target attributes => exact (hfound records).move Reader.outer_shifted
    | refused e => exact hfound records

/-- A look that enters no file changes neither the scopes around nor the catalogue. -/
theorem glance_apart {s : Session} {line : String} (h : s.inclusion? line = none) :
    Apart s (s.glance line).session := by
  have hheld : Apart s (s.withReader Reader.hold) := (Apart.refl s).move fun _ => rfl
  have hescaped : Apart s (s.withReader fun r => { r.hold with unescape := true }) :=
    (Apart.refl s).move fun _ => rfl
  by_cases hblank : line = ""
  · rw [glance_of_plain (Or.inl hblank)]
    exact hheld
  · cases hkind : LineKind.ofLine line with
    | conditional c =>
      rw [glance_conditional hkind]
      exact apart_processConditional s c
    | escapedConditional =>
      rw [glance_of_escaped (Or.inl hkind)]
      exact hescaped
    -- in a skipped region the line is passed over; outside of one it depends on what it is
    | plain | escapedInclude | directive i =>
      cases hskip : s.reader.skipping with
      | true =>
        rw [glance_passed hskip (by simp [isPassedOver, hblank, hkind])]
        exact (Apart.refl s).move Reader.outer_shifted
      | false =>
        first
          | rw [glance_of_plain (Or.inr ⟨hskip, hkind⟩)]
            exact hheld
          | rw [glance_of_escaped (Or.inr ⟨hskip, hkind⟩)]
            exact hescaped
          | rw [glance_directive hkind hskip]
            refine apart_processInclude fun selection path shownPath attributes hresolve => ?_
            simp [inclusion?, hskip, hkind, hresolve] at h

theorem includes_leave (s : Session) : s.leave.doc.includes = s.doc.includes := by
  unfold leave
  split
  · rfl
  · rfl

/-! ## Looks that enter a file -/

/-- The directive that leads to a file. -/
theorem inclusion?_eq_some {s : Session} {line : String} {e : Inclusion}
    (h : s.inclusion? line = some e) : ∃ i, LineKind.ofLine line = .directive i ∧
      s.reader.skipping = false ∧
      (s.resolve i).1 = .entered e.selection e.path e.shownPath e.attributes := by
  unfold inclusion? at h
  split at h
  · rename_i i hskip hkind
    split at h
    · rename_i selection path shownPath attributes hresolve
      cases h
      exact ⟨i, hkind, hskip, hresolve⟩
    · cases h
  · cases h

/-- How a file is entered: not at all if nothing is left of it, otherwise with its lines and what is
added around them. -/
inductive Inclusion.Enters (e : Inclusion) (s : Session) : Way → Prop where
  | empty (h : e.lines = []) : Enters e s .empty
  | full (h : e.lines ≠ []) {entered : Scope × Nat} (hentered : entered = scopeOf
      (Mapping.get? s.doc.attributes "leveloffset") e.attributes
      (scopeCursor s.reader.shifted.cursor (some e.path) (some e.shownPath) e.selection.lineno)
      e.lines) : Enters e s (.entered entered.1.lines entered.1.cursor entered.2)

/-- A directive that is followed into a file registers it and enters its lines. -/
theorem glance_inclusion {s : Session} {line : String} {e : Inclusion}
    (hlook : s.reader.lookAhead = 0) (h : s.inclusion? line = some e) :
    ∃ i way es s', LineKind.ofLine line = .directive i ∧ s.reader.skipping = false ∧
      s.glance line = .again s' ∧
      s'.doc.includes = s.doc.includes.register e.name e.selection.isPartial ∧
      Inclusion.Enters e s way ∧ way.Reported s.reader i es ∧
      Turns s (way.apply s.reader) es s' := by
  obtain ⟨i, hkind, hskip, hresolve⟩ := inclusion?_eq_some h
  obtain ⟨records, hpair⟩ : ∃ records,
      s.resolve i = (.entered e.selection e.path e.shownPath e.attributes, records) :=
    ⟨_, Prod.ext hresolve rfl⟩
  -- the session once the file is registered
  obtain ⟨found, hfound⟩ : ∃ t, t = (s.report (s.reader.found i)).logAll records := ⟨_, rfl⟩
  obtain ⟨t, ht⟩ : ∃ t, t = ({ found with
    doc := found.doc.registerInclude e.shownPath e.selection.isPartial } : Session).withReader
      Reader.shifted := ⟨_, rfl⟩
  have hturns : Turns s s.reader.shifted [s.reader.found i] t := by
    subst ht hfound
    exact ((turns_processInclude s i records).1.register e.shownPath
      e.selection.isPartial).move rfl
  have hincludes : t.doc.includes = s.doc.includes.register e.name e.selection.isPartial := by
    have hsame : found.doc.includes = s.doc.includes := by
      rw [hfound]
      exact (((Apart.refl s).note _).logAll _).includes
    rw [ht, ← hsame]
    rfl
  obtain ⟨u, hu⟩ : ∃ u, u = t.enter (.lines e.selection.lines) (some e.path) (some e.shownPath)
    e.selection.lineno e.attributes := ⟨_, rfl⟩
  have hglance : s.glance line =
      .again (u.report (.includeResolved (u.outcomeFrom s.reader.includeDepth))) := by
    rw [glance_directive hkind hskip]
    simp only [processInclude, hpair]
    subst hu ht hfound
    rfl
  have hentered : u.doc.includes = t.doc.includes := by
    rw [hu]
    unfold enter
    simp only
    split
    · rfl
    · split <;> rfl
  have hin : (u.report (.includeResolved (u.outcomeFrom s.reader.includeDepth))).doc.includes =
      s.doc.includes.register e.name e.selection.isPartial := hentered.trans hincludes
  by_cases hempty : e.lines = []
  · have hgone := turns_enter_empty t hempty (some e.path) (some e.shownPath) e.selection.lineno
      e.attributes
    rw [← hu] at hgone
    obtain ⟨es, hreported, hall⟩ := followed_of_empty hlook hturns hgone
    exact ⟨i, _, es, _, hkind, hskip, hglance, hin, .empty hempty, hreported, hall⟩
  · have hfull := turns_enter t hempty (some e.path) (some e.shownPath) e.selection.lineno
      e.attributes rfl
    rw [← hu] at hfull
    obtain ⟨es, hreported, hall⟩ := followed_of_full hturns (areEntered_scopeOf hempty) hfull
    refine ⟨i, _, es, _, hkind, hskip, hglance, hin, .full hempty ?_, hreported, hall⟩
    rw [hturns.attributes, hturns.reader]
    rfl

end Session

end DocFlatten
