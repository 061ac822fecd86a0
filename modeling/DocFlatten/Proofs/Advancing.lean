import DocFlatten.Proofs.Entering

/-! # Where a look leaves the reader

`Look` lists what a look does to a whole reader. To follow a single scope, only its lines, its
position and the scopes around it matter, and of those a look changes little: it keeps the line in
front, passes it, puts a text in its place, or enters a file and lets the scope wait around it.

* `Supplants`: the texts that take the place of a line;
* `Advances`: what a look does to the scopes (`advances_glance`).
-/

namespace DocFlatten

open DocFlatten.Text

namespace Session

/-- A text that takes the place of a line: the text of a single-line conditional, or what is left
of an include directive that is not followed. -/
inductive Supplants (s : Session) (line : String) : String → Prop where
  | text {c : Conditional} {text : String} (hline : LineKind.ofLine line = .conditional c)
      (htext : c.text = some text) : Supplants s line (stripEnd text)
  | unresolved {i : Include} (hline : LineKind.ofLine line = .directive i) :
      Supplants s line (s.unresolved i)
  | link {i : Include} (hline : LineKind.ofLine line = .directive i) :
      Supplants s line
        (link ((Attribute.substitute? s.targetMissing s.doc.attributes i.target).getD ""))

/-- A file is opened: its lines are next, and the scope that has led to it waits. -/
structure Opens (s : Session) (rest : List String) (e : Inclusion) (s' : Session) : Prop where
  scope : s'.reader.scope = (scopeOf (Mapping.get? s.doc.attributes "leveloffset") e.attributes
    (scopeCursor s.reader.cursor.next (some e.path) (some e.shownPath) e.selection.lineno)
    e.lines).1
  outer : s'.reader.outer = ⟨rest, s.reader.cursor.next⟩ :: s.reader.outer
  unescape : s'.reader.unescape = false

/-- What a look at the first of some lines does to the scopes. -/
inductive Advances (s : Session) (line : String) (rest : List String) (s' : Session) : Prop where
  | held (hscope : s'.reader.scope = s.reader.scope) (houter : s'.reader.outer = s.reader.outer)
      (hunescape : s'.reader.unescape = true →
        LineKind.ofLine line = .escapedConditional ∨ LineKind.ofLine line = .escapedInclude)
  | passed (hscope : s'.reader.scope = ⟨rest, s.reader.cursor.next⟩)
      (houter : s'.reader.outer = s.reader.outer) (hunescape : s'.reader.unescape = false)
  | replaced {text : String} (hsupplants : Supplants s line text)
      (hscope : s'.reader.scope = ⟨text :: rest, s.reader.cursor⟩)
      (houter : s'.reader.outer = s.reader.outer) (hunescape : s'.reader.unescape = false)
      (hpending : s'.reader.lookAhead = 0 → ∃ c raw, LineKind.ofLine line = .conditional c ∧
        c.text = some raw ∧ text = stripEnd raw ∧ text.startsWith "include::" = true)
  | entered {e : Inclusion} (hinclusion : s.inclusion? line = some e) (hlines : e.lines ≠ [])
      (hopens : Opens s rest e s')

variable {s s' : Session} {line : String} {rest : List String}

/-- What a directive leads to does not depend on the journal. -/
theorem resolve_of_doc {t : Session} (hfiles : t.files = s.files) (hdoc : t.doc = s.doc)
    (i : Include) : t.resolve i = s.resolve i := by
  unfold resolve resolveTarget resolveFile resolveBlank directiveAttributes unresolved place
    targetMissing maxIncludeDepth reader
  simp only [hfiles, hdoc]

/-- Whether a line leads into a file depends on the files and the document alone. -/
theorem inclusion?_of_doc {t : Session} (hfiles : t.files = s.files) (hdoc : t.doc = s.doc)
    (line : String) : t.inclusion? line = s.inclusion? line := by
  unfold inclusion? reader
  simp only [hdoc, resolve_of_doc hfiles hdoc]

/-! ## Placeholders -/

/-- A directive is replaced by a line that tells its target, or by the directive itself. -/
theorem supplants_of_resolve {i : Include} {text : String}
    (hline : LineKind.ofLine line = .directive i) (h : (s.resolve i).1 = .replaced text) :
    Supplants s line text := by
  have hresolves := resolves s i
  rw [h] at hresolves
  cases hresolves with
  | unresolved => exact .unresolved hline
  | link => exact .link hline

/-! ## Looks -/

namespace Advances

/-- A line that waits has been reached. -/
theorem hold (hidle : s.reader.Idle) (h : s'.reader = s.reader.hold) :
    Advances s line rest s' := by
  refine .held (by rw [h]; rfl) (by rw [h]; rfl) ?_
  intro hunescape
  have hplain : s'.reader.unescape = false := by
    rw [h]
    exact hidle.plain
  rw [hplain] at hunescape
  cases hunescape

/-- A line that is passed over is done with. -/
theorem shift (hfront : s.reader.scope.lines = line :: rest) {r : Reader}
    (hscope : r.scope = s.reader.scope) (houter : r.outer = s.reader.outer)
    (h : s'.reader = r.shifted) : Advances s line rest s' := by
  have hlines : r.scope.lines = line :: rest := hscope ▸ hfront
  rw [Reader.shifted_of_lines hlines] at h
  refine .passed ?_ ?_ ?_
  · rw [h]
    exact congrArg (fun c : Cursor => Scope.mk rest c.next) (congrArg Scope.cursor hscope)
  · rw [h]
    exact houter
  · rw [h]

/-- A line that is replaced stays in front as what replaces it. -/
theorem unshift (hfront : s.reader.scope.lines = line :: rest) {text : String}
    (hsupplants : Supplants s line text) (h : s'.reader = s.reader.shifted.unshift text) :
    Advances s line rest s' := by
  rw [Reader.shifted_of_lines hfront] at h
  refine .replaced hsupplants ?_ ?_ ?_ ?_
  · rw [h]
    have hlineno : s.reader.cursor.lineno + 1 + -1 = s.reader.cursor.lineno := by omega
    simp only [Reader.unshift, Reader.advance, hlineno]
  · rw [h]
    rfl
  · rw [h]
    rfl
  · intro hlook
    rw [h] at hlook
    simp [Reader.unshift] at hlook

end Advances

/-- A directive that is not followed into a file. -/
theorem advances_processInclude {i : Include} (hidle : s.reader.Idle)
    (hfront : s.reader.scope.lines = line :: rest) (hline : LineKind.ofLine line = .directive i)
    (hskip : s.reader.skipping = false) (happart : s.inclusion? line = none)
    (hglance : (∃ text, s.processInclude line i = .line text s') ∨
      s.processInclude line i = .again s') : Advances s line rest s' := by
  have hfound := fun records => (turns_processInclude s i records).1.reader
  unfold processInclude at hglance
  cases hresolve : s.resolve i with
  | mk resolution records =>
    rw [hresolve] at hglance
    simp only at hglance
    -- one case for each resolution; a line or another look are all it can come to here
    cases resolution with
    | kept =>
      obtain ⟨_, hglance⟩ | hglance := hglance
      · cases hglance
        exact .hold hidle (congrArg Reader.hold (hfound records))
      · cases hglance
    | vanished =>
      obtain ⟨_, hglance⟩ | hglance := hglance
      · cases hglance
      · cases hglance
        exact .shift hfront rfl rfl (congrArg Reader.shifted (hfound records))
    | replaced text =>
      obtain ⟨_, hglance⟩ | hglance := hglance
      · cases hglance
      · cases hglance
        refine .unshift hfront (supplants_of_resolve hline (by rw [hresolve])) ?_
        rw [← replaceNext_of_lines text hfront]
        exact congrArg (fun r => (r.replaceNext text).2) (hfound records)
    | entered selection path shownPath attributes =>
      simp [inclusion?, hskip, hline, hresolve] at happart
    | handed processor target attributes =>
      obtain ⟨_, hglance⟩ | hglance := hglance <;> cases hglance
    | refused e =>
      obtain ⟨_, hglance⟩ | hglance := hglance <;> cases hglance

/-- A directive that is followed into a file is passed if nothing is left of that. -/
theorem advances_inclusion {e : Inclusion} (hlook : s.reader.lookAhead = 0)
    (hfront : s.reader.scope.lines = line :: rest) (h : s.inclusion? line = some e)
    (hglance : (∃ text, s.glance line = .line text s') ∨ s.glance line = .again s') :
    Advances s line rest s' ∧ (e.lines ≠ [] → Opens s rest e s') := by
  obtain ⟨i, way, es, t, -, -, hagain, -, henters, -, hturns⟩ := glance_inclusion hlook h
  rw [hagain] at hglance
  obtain ⟨_, hglance⟩ | hglance := hglance
  · cases hglance
  cases hglance
  have hshifted := Reader.shifted_of_lines hfront
  cases henters with
  | empty hempty =>
    -- an empty file: the directive is passed over, and no scope is entered
    refine ⟨.passed ?_ ?_ ?_, fun hlines => absurd hempty hlines⟩
    · rw [hturns.reader]
      simp only [Way.apply, hshifted]
      rfl
    · rw [hturns.reader]
      simp only [Way.apply, hshifted]
    · rw [hturns.reader]
      simp only [Way.apply, hshifted]
  | full hlines hentered =>
    subst hentered
    -- the lines are the new scope, and what is left of the file is around it
    have hopens : Opens s rest e s' := by
      refine ⟨?_, ?_, ?_⟩
      · rw [hturns.reader]
        simp only [Way.apply, Reader.entered, hshifted]
        rfl
      · rw [hturns.reader]
        simp only [Way.apply, Reader.entered, hshifted]
        rfl
      · rw [hturns.reader]
        simp only [Way.apply, Reader.entered, hshifted]
    exact ⟨.entered h hlines hopens, fun _ => hopens⟩

/-- What a look does to the scopes, if no processor has to act. -/
theorem advances_glance (hidle : s.reader.Idle) (hfront : s.reader.scope.lines = line :: rest)
    (hglance : (∃ text, s.glance line = .line text s') ∨ s.glance line = .again s') :
    Advances s line rest s' := by
  cases hinclusion : s.inclusion? line with
  | some e => exact (advances_inclusion hidle.lookAhead hfront hinclusion hglance).1
  | none =>
    have hlook : Look s line (s.glance line) := look_glance hidle.lookAhead hfront
    have hdirective : ∀ i, LineKind.ofLine line = .directive i → s.reader.skipping = false →
        Advances s line rest s' := by
      intro i hline hskip
      rw [glance_directive hline hskip] at hglance
      exact advances_processInclude hidle hfront hline hskip hinclusion hglance
    -- the session that the look has led to
    have hsession : (s.glance line).session = s' := by
      obtain ⟨text, hglance⟩ | hglance := hglance <;> rw [hglance] <;> rfl
    generalize s.glance line = g at hlook hsession
    subst hsession
    cases hlook with
    | plain t hturns => exact .hold hidle hturns.reader
    | escaped t hturns hne hline =>
      refine .held ?_ ?_ ?_
      · exact (congrArg Reader.scope hturns.reader).trans rfl
      · exact (congrArg Reader.outer hturns.reader).trans rfl
      · exact fun _ => hline.imp id And.right
    | passed t hskip hline hturns => exact .shift hfront rfl rfl hturns.reader
    | conditional c consumed r t hline hne hruled hturns =>
      have hreader := hturns.reader
      cases hruled with
      | idle => exact .shift hfront rfl rfl hreader
      | opened target skip skipping => exact .shift hfront (by rfl) (by rfl) hreader
      | closed top below => exact .shift hfront (by rfl) (by rfl) hreader
      | kept text hskip htext =>
        refine .replaced (.text hline htext) ?_ ?_ ?_ ?_
        · refine (congrArg Reader.scope hreader).trans ?_
          simp [hfront, Reader.cursor]
        · refine (congrArg Reader.outer hreader).trans ?_
          simp
        · refine (congrArg Reader.unescape hreader).trans ?_
          exact (s.reader.unescape_keeping text).trans hidle.plain
        · intro hlook
          have hlook' : (s.reader.keeping text).lookAhead = 0 :=
            (congrArg Reader.lookAhead hreader).symm.trans hlook
          rw [Reader.lookAhead_keeping] at hlook'
          split at hlook'
          · rename_i hinclude
            exact ⟨c, text, hline, htext, rfl, startsWith_include_stripEnd hinclude⟩
          · cases hlook'
    | kept i t hline hskip => exact hdirective i hline hskip
    | followed i es r t hline hskip => exact hdirective i hline hskip
    | handed i processor target attributes t hline hskip => exact hdirective i hline hskip
    | refused i e t hline hskip => exact hdirective i hline hskip

end Session

end DocFlatten
