import DocFlatten.Proofs.Altering
import DocFlatten.Proofs.Peeking

/-! # Lines put in front

A caller may put a line in front of what is left to be read, or enter a scope with lines of its own.
Unless a line waits whose backslash is set aside, the reader gives these lines first and then what it
would have given without them:

* `TakesAll`, `ReadsLike`: taking some lines one after the other, and sessions that give the same
  lines from now on;
* `Twins`: sessions that differ in nothing that reading depends on; they read alike
  (`Twins.readsLike`);
* `Retains`: a directive that waits is one that stays as a line, so looking at it once more leaves it
  there (`Driven.retains`, `Beside.readsLike`);
* `takes_unshift`, `takes_enter`: what is put in front comes first.

`insertion_transparent` has all of it; `insertion_garbles` has what happens to a line whose backslash
is set aside, and to the text of a conditional that reads as a directive.
-/

namespace DocFlatten

open DocFlatten.Text DocFlatten.Scan

namespace Session

/-! ## Reading on -/

/-- Taking lines one after the other, at the end of the document none. -/
inductive TakesAll : Session → List (Option String) → Session → Prop where
  | done (s : Session) : TakesAll s [] s
  | more {s t u : Session} {line : Option String} {lines : List (Option String)}
      (h : s.Takes line t) (hrest : TakesAll t lines u) : TakesAll s (line :: lines) u

/-- From now on both sessions give the same lines. -/
def ReadsLike (s t : Session) : Prop :=
  ∀ lines, (∃ u, s.TakesAll lines u) ↔ ∃ u, t.TakesAll lines u

namespace ReadsLike

variable {s t u : Session}

theorem symm (h : ReadsLike s t) : ReadsLike t s :=
  fun lines => (h lines).symm

theorem trans (h : ReadsLike s t) (h' : ReadsLike t u) : ReadsLike s u :=
  fun lines => (h lines).trans (h' lines)

/-- Sessions that agree on the next line and what follows it. -/
theorem of_takes (h : ∀ line u, s.Takes line u ↔ t.Takes line u) : ReadsLike s t := by
  intro lines
  cases lines with
  | nil => exact ⟨fun _ => ⟨t, .done t⟩, fun _ => ⟨s, .done s⟩⟩
  | cons line lines =>
    constructor
    · rintro ⟨v, _ | ⟨htakes, hrest⟩⟩
      exact ⟨v, .more ((h _ _).mp htakes) hrest⟩
    · rintro ⟨v, _ | ⟨htakes, hrest⟩⟩
      exact ⟨v, .more ((h _ _).mpr htakes) hrest⟩

/-- A session reads like the one that looking for the next line leads to. -/
theorem of_peeks {line : Option String} (hcovered : s.reader.Covered) (h : s.Peeks line t) :
    ReadsLike s t := by
  obtain ⟨v, hs, ht, -⟩ := h.takes hcovered
  refine of_takes fun line u => ⟨fun htakes => ?_, fun htakes => ?_⟩
  · obtain ⟨rfl, rfl⟩ := hs.unique htakes
    exact ht
  · obtain ⟨rfl, rfl⟩ := ht.unique htakes
    exact hs

/-- At the end of a scope a session reads like the one around it. -/
theorem leave (hidle : s.reader.Idle) (hlines : s.reader.scope.lines = [])
    (houter : s.reader.outer ≠ []) : ReadsLike s s.leave := by
  have hidle' : s.leave.reader.Idle := idle_leave hidle
  have hstep : ∀ fuel, s.peekLine (fuel + 1) = s.leave.peekLine fuel := fun fuel => by
    rw [peekLine_of_nil fuel hidle hlines, if_neg (by simpa using houter)]
  have hpeeks : ∀ line u, s.Peeks line u ↔ s.leave.Peeks line u := fun line u => by
    constructor
    · rintro ⟨fuel, hfound⟩
      exact ⟨fuel, by rw [← hstep]; exact peekLine_eq_ok_of_le (Nat.le_succ fuel) hfound⟩
    · rintro ⟨fuel, hfound⟩
      exact ⟨fuel + 1, by rw [hstep]; exact hfound⟩
  exact of_takes fun line u =>
    ⟨.of_peeks (by simp [hidle'.lookAhead]) (.of_idle hidle) fun _ _ => (hpeeks _ _).mp,
      .of_peeks (by simp [hidle.lookAhead]) (.of_idle hidle') fun _ _ => (hpeeks _ _).mpr⟩

end ReadsLike

/-- Reading goes on as long as a caller takes lines, or until the system refuses a look. -/
theorem Tended.takesAll {s : Session} (h : s.Tended) (n : Nat) :
    (∃ lines u, lines.length = n ∧ s.TakesAll lines u) ∨
      ∃ lines u, lines.length < n ∧ s.TakesAll lines u ∧ ∃ e t, u.Balks e t := by
  induction n generalizing s with
  | zero => exact Or.inl ⟨[], s, rfl, .done s⟩
  | succ n ih =>
    rcases h.peeks with ⟨line, t, hpeeks⟩ | hbalks
    · obtain ⟨u, htakes, -⟩ := hpeeks.takes h.covered
      rcases ih (h.take htakes) with ⟨lines, v, hlength, hrest⟩ | ⟨lines, v, hlength, hrest, hbalks⟩
      · exact Or.inl ⟨line :: lines, v, congrArg (· + 1) hlength, .more htakes hrest⟩
      · exact Or.inr ⟨line :: lines, v, Nat.succ_lt_succ hlength, .more htakes hrest, hbalks⟩
    · exact Or.inr ⟨[], s, Nat.succ_pos n, .done s, hbalks⟩

/-! ## Twins -/

/-- Sessions that differ in the journal, in the files that were recorded and in what waits to be
taken. -/
structure Beside (s t : Session) : Prop where
  files : t.files = s.files
  doc : t.doc = { s.doc with reader := t.reader, includes := t.doc.includes }
  scope : t.reader.scope = s.reader.scope
  outer : t.reader.outer = s.reader.outer
  conditionals : t.reader.conditionals = s.reader.conditionals
  skipping : t.reader.skipping = s.reader.skipping

/-- Sessions that differ in nothing that reading depends on. -/
structure Twins (s t : Session) : Prop extends Beside s t where
  lookAhead : t.reader.lookAhead = s.reader.lookAhead
  unescape : t.reader.unescape = s.reader.unescape

theorem Beside.trans {s t u : Session} (h : s.Beside t) (h' : t.Beside u) : s.Beside u where
  files := h'.files.trans h.files
  doc := by rw [h'.doc, h.doc]
  scope := h'.scope.trans h.scope
  outer := h'.outer.trans h.outer
  conditionals := h'.conditionals.trans h.conditionals
  skipping := h'.skipping.trans h.skipping

theorem Beside.symm {s t : Session} (h : s.Beside t) : t.Beside s where
  files := h.files.symm
  doc := by rw [h.doc]; rfl
  scope := h.scope.symm
  outer := h.outer.symm
  conditionals := h.conditionals.symm
  skipping := h.skipping.symm

/-- Only the journal has changed. -/
theorem beside_meet (s : Session) (line : String) : s.Beside (s.meet line) :=
  ⟨rfl, rfl, rfl, rfl, rfl, rfl⟩

/-- A turn that changes neither scopes nor conditionals stays beside where it was. -/
theorem Turns.beside {s s' : Session} {r : Reader} {es : List Event} (h : Turns s r es s')
    (hscope : r.scope = s.reader.scope) (houter : r.outer = s.reader.outer)
    (hconditionals : r.conditionals = s.reader.conditionals)
    (hskipping : r.skipping = s.reader.skipping) : s.Beside s' where
  files := h.files
  doc := by rw [h.reader]; exact h.doc
  scope := by rw [h.reader]; exact hscope
  outer := by rw [h.reader]; exact houter
  conditionals := by rw [h.reader]; exact hconditionals
  skipping := by rw [h.reader]; exact hskipping

/-- An include directive means the same in both sessions. -/
theorem Beside.alongside {s t : Session} (h : s.Beside t) : Alongside (fun _ => Eq) s t where
  attributes := by rw [h.doc]
  conditionals := h.conditionals
  skipping := h.skipping
  files := by rw [h.files]; exact .refl (fun _ _ => rfl) s.files
  options := by rw [h.doc]
  place := by
    unfold Reader.cursor
    rw [h.scope]
    exact ⟨rfl, rfl, rfl⟩
  depth := by unfold Reader.includeDepth; rw [h.outer]

/-- What is resolved depends on the document and the files, so an include is kept on both sides. -/
theorem Beside.resolve_kept {s t : Session} (h : s.Beside t) {i : Include}
    (hkept : (s.resolve i).1 = .kept) : (t.resolve i).1 = .kept := by
  have hsame := h.alongside.resolve i
  rw [hkept] at hsame
  generalize (t.resolve i).1 = resolution at hsame
  cases hsame
  rfl

theorem Twins.symm {s t : Session} (h : s.Twins t) : t.Twins s :=
  { h.toBeside.symm with lookAhead := h.lookAhead.symm, unescape := h.unescape.symm }

/-- No line is changed between twins. -/
theorem Twins.joint {s t : Session} (h : s.Twins t) (hsteady : s.reader.Steady) :
    Joint (fun _ _ => False) s t := by
  have hsame : s.reader.Altered (fun _ _ => False) t.reader :=
    { scope := by rw [Scope.Altered, h.scope]; exact ⟨rfl, .refl _ _⟩
      outer := by
        rw [h.outer]
        exact List.forall₂_same.mpr fun _ _ => ⟨rfl, .refl _ _⟩
      lookAhead := h.lookAhead
      unescape := h.unescape
      conditionals := h.conditionals
      skipping := h.skipping
      front := fun _ => by rw [h.scope] }
  refine ⟨hsteady, hsame.steady hsteady, ⟨?_, by rw [h.doc], hsame⟩, ?_⟩
  · rw [h.files]
    exact .refl Altered.refl s.files
  · rw [h.doc]
    exact ⟨rfl, rfl, rfl, rfl, rfl, List.forall₂_same.mpr fun _ _ => ⟨rfl, rfl, rfl, rfl⟩⟩

/-- Joint sessions without changed lines give the same next line. -/
theorem takes_joint {s t u : Session} {line : Option String}
    (h : Joint (fun _ _ => False) s t) (htakes : s.Takes line u) :
    ∃ v, t.Takes line v ∧ Joint (fun _ _ => False) u v := by
  have hnever : ∀ w, ¬ Exposed (fun _ _ => False) w := fun w ⟨_, _, _, hchanged⟩ => hchanged
  by_cases hlook : 0 < s.reader.lookAhead
  · obtain ⟨rfl, rfl⟩ := (takes_of_held hlook).unique htakes
    obtain ⟨hlook', hsame, hjoint⟩ := h.takeFront hlook
    exact ⟨t.takeFront.2, by rw [← hsame]; exact takes_of_held hlook', hjoint⟩
  · obtain ⟨fuel, hread⟩ := htakes
    rcases readLine_joint (fun _ _ _ _ => peekLine_joint) h (h.steady.idle hlook) hread with
      hexposed | ⟨v, hread', hjoint⟩
    · exact absurd hexposed (hnever u)
    · exact ⟨v, ⟨fuel, hread'⟩, hjoint⟩

/-- Reading all lines goes alike in sessions that are joined. -/
theorem takesAll_joint {s t u : Session} {lines : List (Option String)}
    (h : Joint (fun _ _ => False) s t) (htakes : s.TakesAll lines u) :
    ∃ v, t.TakesAll lines v := by
  induction htakes generalizing t with
  | done => exact ⟨t, .done t⟩
  | more hfirst _ ih =>
    obtain ⟨t', hfirst', hjoint⟩ := takes_joint h hfirst
    obtain ⟨v, hrest⟩ := ih hjoint
    exact ⟨v, .more hfirst' hrest⟩

/-- Twins give the same lines. -/
theorem Twins.readsLike {s t : Session} (h : s.Twins t) (hsteady : s.reader.Steady) :
    ReadsLike s t := by
  intro lines
  constructor
  · rintro ⟨u, htakes⟩
    exact takesAll_joint (h.joint hsteady) htakes
  · rintro ⟨u, htakes⟩
    exact takesAll_joint (h.symm.joint (h.joint hsteady).steady') htakes

/-! ## Directives that wait -/

/-- An include directive that waits to be taken is one that stays as a line. -/
def Retains (s : Session) : Prop :=
  0 < s.reader.lookAhead → ∀ line ∈ s.reader.scope.lines.head?, ∀ i,
    LineKind.ofLine line = .directive i → (s.resolve i).1 = .kept

/-- Nothing waits in an idle reader. -/
theorem retains_of_idle {s : Session} (h : s.reader.Idle) : Retains s := by
  intro hlook
  have := h.lookAhead
  omega

/-- The line in front is the same, and so is what becomes of it. -/
theorem Retains.beside {s t : Session} (h : Retains s) (hbeside : s.Beside t)
    (hlook : t.reader.lookAhead = s.reader.lookAhead) : Retains t := by
  intro hheld line hline i hi
  rw [hlook] at hheld
  rw [hbeside.scope] at hline
  exact hbeside.resolve_kept (h hheld line hline i hi)

/-- Only the line in front has to be one that stays. -/
theorem retains_of_front {s : Session} (line : String) (hhead : s.reader.scope.lines.head? = some line)
    (h : ∀ i, LineKind.ofLine line ≠ .directive i) : Retains s := by
  intro _ front hfront i hi
  rw [hhead] at hfront
  exact absurd (Option.some.inj hfront ▸ hi) (h i)

/-- The text that a conditional leaves waits only if it is no include directive. -/
theorem retains_keeping {s s' : Session} {text : String} {es : List Event} (hidle : s.reader.Idle)
    (h : Turns s (s.reader.keeping text) es s') : Retains s' := by
  unfold Reader.keeping at h
  split at h
  · refine retains_of_idle ?_
    rw [h.reader]
    exact ⟨hidle.lookAhead, hidle.plain⟩
  · rename_i hinclude
    refine retains_of_front (stripEnd text) (by rw [h.reader]; rfl) ?_
    intro i hi
    exact hinclude (startsWith_of_stripEnd (LineKind.startsWith_of_directive hi))

/-- A look that leaves a directive in front has kept it because of its depth. -/
theorem retains_glance {s : Session} {line : String} {rest : List String}
    (hprocessors : s.doc.options.processors = []) (hidle : s.reader.Idle)
    (hfront : s.reader.scope.lines = line :: rest) : Retains (s.glance line).session := by
  -- a line waits only where it was held
  have hunheld : ∀ {s' : Session} {r : Reader} {es : List Event}, Turns s r es s' → r.Idle →
      Retains s' := fun hturns hr => retains_of_idle (by rw [hturns.reader]; exact hr)
  have hheld : ∀ {s' : Session} (unescape : Bool) {es : List Event},
      Turns s { s.reader.hold with unescape } es s' →
      s'.reader.scope.lines.head? = some line := fun _ _ hturns => by
    rw [hturns.reader]
    exact congrArg List.head? hfront
  -- the outcomes are told apart beside the session itself, since these know the way of a directive
  have hlooks : Looks (fun _ => Eq) s s line (s.glance line) (s.glance line) :=
    looks_glance framing_eq (Agree.refl s) (fun _ _ _ => .refl (fun _ _ => rfl) s)
    (.intro hidle.lookAhead hidle.lookAhead) (.intro ⟨rest, hfront⟩ ⟨rest, hfront⟩)
  generalize s.glance line = g at hlooks ⊢
  cases hlooks with
  | plain s' _ hturns _ hline =>
    exact retains_of_front line (hheld s.reader.unescape hturns) (ne_directive_of_plain hline)
  | escaped s' _ hturns _ _ hline =>
    exact retains_of_front line (hheld true hturns) (ne_directive_of_escaped hline)
  | passed s' _ _ _ hturns => exact hunheld hturns hidle.shifted
  | conditional c consumed ruling s' _ _ _ hfits _ hturns =>
    cases hfits with
    | set conditionals skipping =>
      exact hunheld hturns (Reader.Idle.shifted ⟨hidle.lookAhead, hidle.plain⟩)
    | keep text htext => exact retains_keeping hidle hturns
  | kept i s' _ hkind _ hresolve hturns =>
    change Retains s'
    intro _ front hhead i' hi'
    rw [hheld s.reader.unescape hturns] at hhead
    rw [← Option.some.inj hhead, hkind] at hi'
    cases hi'
    exact (hturns.beside rfl rfl rfl rfl).resolve_kept hresolve
  | followed i way _ es _ s' _ _ _ hreported hturns =>
    change Retains s'
    cases hreported with
    | vanished => exact hunheld hturns hidle.shifted
    | empty => exact hunheld hturns ⟨hidle.shifted.lookAhead, hidle.shifted.plain⟩
    | replaced text hplain =>
      refine retains_of_front text (by rw [hturns.reader]; rfl) ?_
      intro i hi
      rw [hplain] at hi
      cases hi
    | entered lines cursor frame => exact hunheld hturns ⟨rfl, hidle.shifted.plain⟩
  | handed i processor target attributes s' _ _ _ hresolve =>
    exact absurd hresolve (resolve_ne_handed hprocessors)
  | refused i e s' _ _ _ _ hturns => exact hunheld hturns hidle

/-- All that reading does retains what it leaves in front. -/
theorem kept_retains : Kept fun s => s.doc.options.processors = [] ∧ Retains s where
  leave s h hidle _ houter := by
    refine ⟨?_, retains_of_idle (idle_leave hidle)⟩
    obtain ⟨scope, outer, hscopes⟩ := List.exists_cons_of_ne_nil houter
    rw [(turns_leave hscopes).doc]
    exact h.1
  meet s line h := ⟨h.1, h.2.beside (beside_meet s line) rfl⟩
  look s line rest g h hidle hfront hg hlook := by
    obtain ⟨r, es, hturns⟩ := hlook.turns
    refine hlook.ends h.1 ⟨by rw [hturns.doc]; exact h.1, ?_⟩
    rw [hg]
    exact retains_glance h.1 hidle hfront
  take s h hsteady hlook := by
    refine ⟨by rw [doc_takeFront]; exact h.1, retains_of_idle ?_⟩
    rw [reader_takeFront]
    exact hsteady.idle_shifted hlook

section

variable {files : FileTree} {source : Source} {o : LoadOptions}

/-- A reader that is only looked at and taken from processes at most the line in front, and if that
is an include directive, it is one that stays. -/
theorem Driven.retains (hprocessors : o.processors = []) {s : Session}
    (h : Driven (fun _ _ => False) files source o s) :
    s.reader.Steady ∧ s.doc.options.processors = [] ∧ Retains s := by
  induction h with
  | start h =>
    have hsound := sound_openSource h hprocessors
    exact ⟨hsound.1, hsound.2, retains_of_idle (steady_openSource h)⟩
  | peek fuel _ hrun ih =>
    exact ⟨(steady_peekLine ih.1 hrun).1, kept_retains.peekLine ih.1 ih.2 hrun⟩
  | read fuel _ hrun ih =>
    exact ⟨Or.inl (idle_readLine ih.1 hrun), kept_retains.readLine ih.1 ih.2 hrun⟩
  | edit d _ hedit _ => exact hedit.elim
  | log record _ ih => exact ⟨ih.1, ih.2.1, ih.2.2.beside ⟨rfl, rfl, rfl, rfl, rfl, rfl⟩ rfl⟩

end

/-- The line in front, which has waited before, is found again. -/
theorem peeks_again {s : Session} {line : String} {rest : List String} (hidle : s.reader.Idle)
    (hread : s.reader.skipping = false) (hfront : s.reader.scope.lines = line :: rest)
    (hline : LineKind.ofLine line = .plain ∨
      ∃ i, LineKind.ofLine line = .directive i ∧ (s.resolve i).1 = .kept) :
    ∃ t, s.Peeks (some line) t ∧ s.Beside t ∧ t.reader.lookAhead = 1 ∧
      t.reader.unescape = false := by
  obtain ⟨m, hm⟩ : ∃ m, m = s.meet line := ⟨_, rfl⟩
  have hmet : s.Beside m := hm ▸ beside_meet s line
  have hreader : m.reader = s.reader := by rw [hm]; rfl
  rw [← hreader] at hidle hread
  -- the look shows the line: it is content, or its directive is kept once more
  obtain ⟨es, t, hglance, hturns⟩ : ∃ es t, m.glance line = .line line t ∧
      Turns m m.reader.hold es t := by
    rcases hline with hplain | ⟨i, hkind, hresolve⟩
    · have hescaped : isEscaped line = false := by simp [isEscaped, hplain]
      have hheld : (m.withReader fun r => { r.hold with unescape := isEscaped line }) =
          m.withReader Reader.hold := by
        have hsame : m.doc.reader.unescape = false := hidle.plain
        simp only [withReader, Reader.hold, hescaped, ← hsame]
      refine ⟨[], m.withReader Reader.hold, ?_, (Turns.refl m).move rfl⟩
      rw [glance_of_isInert (by simp [isInert, hplain]) hread hidle,
        contentOf_of_not_isEscaped hescaped, hheld]
    · obtain ⟨records, hpair⟩ : ∃ records, m.resolve i = (.kept, records) :=
        ⟨(m.resolve i).2, Prod.ext (hmet.resolve_kept hresolve) rfl⟩
      have hfound := (turns_processInclude m i records).1.report
        (.includeResolved (.replaced i.line m.reader.includeDepth))
      refine ⟨_, _, ?_, hfound.move rfl⟩
      rw [glance_directive hkind hread]
      unfold processInclude
      simp only [hpair]
      rfl
  have hpeek : s.peekLine 1 = .ok (some line, t) := by
    rw [peekLine_of_cons 0 (by rwa [← hreader]) hfront, ← hm, hglance]
    rfl
  refine ⟨t, ⟨1, hpeek⟩, hmet.trans (hturns.beside rfl rfl rfl rfl), ?_, ?_⟩
  · rw [hturns.reader]
    exact congrArg (· + 1) hidle.lookAhead
  · rw [hturns.reader]
    exact hidle.plain

/-- Where a line waits, a session beside in which none does reads alike: the line is found again. -/
theorem Beside.readsLike {s t : Session} (h : s.Beside t) (hsteady : s.reader.Steady)
    (hplain : s.reader.unescape = false) (hread : s.reader.skipping = false)
    (hfront : 0 < s.reader.lookAhead → ∀ line ∈ s.reader.scope.lines.head?,
      LineKind.ofLine line = .plain ∨
        ∃ i, LineKind.ofLine line = .directive i ∧ (s.resolve i).1 = .kept)
    (hidle : t.reader.Idle) : ReadsLike s t := by
  by_cases hlook : 0 < s.reader.lookAhead
  · -- after the look, the line waits as before
    obtain ⟨hone, line, rest, hlines⟩ := hsteady.held hlook
    have hline : LineKind.ofLine line = .plain ∨
        ∃ i, LineKind.ofLine line = .directive i ∧ (t.resolve i).1 = .kept := by
      rcases hfront hlook line (by simp [hlines]) with hkind | ⟨i, hkind, hresolve⟩
      · -- a line without a meaning of its own
        exact Or.inl hkind
      · -- a directive that is kept because of its depth is kept again
        exact Or.inr ⟨i, hkind, h.resolve_kept hresolve⟩
    obtain ⟨v, hpeeks, hbeside, hheld, hshown⟩ := peeks_again hidle
      (by rw [h.skipping]; exact hread) (by rw [h.scope]; exact hlines) hline
    have htwins : s.Twins v :=
      { h.trans hbeside with
        lookAhead := hheld.trans hone.symm, unescape := hshown.trans hplain.symm }
    exact (htwins.readsLike hsteady).trans (ReadsLike.of_peeks (.of_idle hidle) hpeeks).symm
  · -- nothing waits, so both sessions are idle
    have htwins : s.Twins t :=
      { h with
        lookAhead := by rw [hidle.lookAhead]; omega
        unescape := hidle.plain.trans hplain.symm }
    exact htwins.readsLike hsteady

/-! ## What is put in front -/

/-- A line that is put in front is taken next, and nothing else has changed. -/
theorem takes_unshift {s : Session} (hplain : s.reader.unescape = false) (line : String) :
    ∃ t, (s.withReader fun r => r.unshift line).Takes (some line) t ∧ s.Twins t := by
  obtain ⟨w, hw⟩ : ∃ w, w = s.withReader fun r => r.unshift line := ⟨_, rfl⟩
  -- the line is in front and waits, and taking it leads back
  have hreader : w.reader = s.reader.unshift line := by rw [hw]; rfl
  have hfront : w.reader.scope.lines = line :: s.reader.scope.lines := by rw [hreader]; rfl
  have hheld : 0 < w.reader.lookAhead := by rw [hreader]; exact Nat.succ_pos _
  have hline : w.takeFront.1 = some line := by
    rw [takeFront_fst, Reader.head?, hfront, hreader]
    have hshown : (s.reader.unshift line).unescape = false := hplain
    simp [Reader.shown, hshown]
  have hafter : w.takeFront.2.reader = s.reader := by
    rw [reader_takeFront, Reader.shifted_of_lines hfront, hreader]
    have hback : s.reader.scope.cursor.lineno + -1 + 1 = s.reader.scope.cursor.lineno := by omega
    unfold Reader.unshift Reader.advance Reader.cursor
    simp only [hback, Nat.add_sub_cancel]
    rw [← hplain]
  rw [← hw]
  refine ⟨w.takeFront.2, by rw [← hline]; exact takes_of_held hheld, ?_⟩
  refine { files := by rw [files_takeFront, hw]; rfl, doc := ?_, scope := by rw [hafter],
           outer := by rw [hafter], conditionals := by rw [hafter], skipping := by rw [hafter],
           lookAhead := by rw [hafter], unescape := by rw [hafter] }
  rw [hafter, doc_takeFront, ← reader_takeFront, hafter, hw]
  rfl

/-- Lines without live directives are taken as content, one after the other. -/
theorem takesAll_of_isInert {s : Session} {lines : List String} (hidle : s.reader.Idle)
    (hread : s.reader.skipping = false) (hlines : s.reader.scope.lines = lines)
    (hinert : ∀ line ∈ lines, isInert line = true) :
    ∃ t cursor, s.TakesAll (lines.map fun line => some (contentOf line)) t ∧ t.files = s.files ∧
      t.doc = { s.doc with reader := { s.reader with scope := { lines := [], cursor } } } := by
  induction lines generalizing s with
  | nil =>
    -- all lines are taken
    refine ⟨s, s.reader.cursor, .done s, rfl, ?_⟩
    unfold Reader.cursor
    rw [← hlines]
    rfl
  | cons line rest ih =>
    -- the first line is taken as it is, and the others follow
    obtain ⟨t, htakes, hfiles, hdoc, -⟩ := takes_of_isInert hidle hread hlines
      (hinert line List.mem_cons_self)
    have hreader : t.reader = { s.reader with
        scope := { lines := rest, cursor := s.reader.cursor.next } } := by
      rw [← hidle.shifted_eq hlines]
      unfold reader at hdoc ⊢
      rw [hdoc]
    obtain ⟨u, cursor, hrest, hfiles', hdoc'⟩ := ih (s := t)
      (by rw [hreader]; exact ⟨hidle.lookAhead, hidle.plain⟩) (by rw [hreader]; exact hread)
      (by rw [hreader]) fun other hother => hinert other (List.mem_cons_of_mem _ hother)
    refine ⟨u, cursor, .more htakes hrest, hfiles'.trans hfiles, ?_⟩
    rw [hdoc', hreader, hdoc]

/-- Content that is entered is taken next, and then reading goes on where it would have gone on. -/
theorem takes_enter {s : Session} (hsteady : s.reader.Steady) (hplain : s.reader.unescape = false)
    (hread : s.reader.skipping = false)
    (hfront : 0 < s.reader.lookAhead → ∀ line ∈ s.reader.scope.lines.head?,
      LineKind.ofLine line = .plain ∨
        ∃ i, LineKind.ofLine line = .directive i ∧ (s.resolve i).1 = .kept)
    {content : Source} (hcontent : content.prepare ≠ [])
    (hinert : ∀ line ∈ content.prepare, isInert line = true) (file path : Option String)
    (lineno : Int) {attributes : Attributes}
    (hoffset : Mapping.get? attributes "leveloffset" = none) :
    ∃ t, (s.enter content file path lineno attributes).TakesAll
        (content.prepare.map fun line => some (contentOf line)) t ∧ ReadsLike s t := by
  have hturns := turns_enter s hcontent file path lineno attributes rfl
  generalize s.enter content file path lineno attributes = w at hturns ⊢
  have hscope : ∀ cursor, scopeOf (Mapping.get? s.doc.attributes "leveloffset") attributes cursor
      content.prepare = ({ lines := content.prepare, cursor }, 0) := fun cursor => by
    simp [scopeOf, hoffset]
  rw [hscope] at hturns
  have hreader := hturns.reader
  have hlines : w.reader.scope.lines = content.prepare := by rw [hreader]; rfl
  obtain ⟨t, cursor, htakes, hfiles, hdoc⟩ := takesAll_of_isInert
    (by rw [hreader]; exact ⟨rfl, hplain⟩) (by rw [hreader]; exact hread) hlines hinert
  refine ⟨t, htakes, ?_⟩
  -- once the content is taken, its scope is left
  have hend : t.reader = { s.reader.entered [] cursor 0 with } := by
    have hreader' : t.reader = { w.reader with scope := { lines := [], cursor } } := by
      unfold reader at hdoc ⊢
      rw [hdoc]
    rw [hreader', hreader]
    rfl
  have houter : t.reader.outer = s.reader.scope :: s.reader.outer := by rw [hend]; rfl
  have hidle : t.reader.Idle := by rw [hend]; exact ⟨rfl, hplain⟩
  have hleave : ReadsLike t t.leave :=
    .leave hidle (by rw [hend]; rfl) (by rw [houter]; exact List.cons_ne_nil _ _)
  have hleft := turns_leave houter
  have hback : s.Beside t.leave :=
    { files := by rw [hleft.files, hfiles, hturns.files]
      doc := by rw [hleft.reader, hleft.doc, hdoc, hturns.doc]
      scope := by rw [hleft.reader]
      outer := by rw [hleft.reader]
      conditionals := by rw [hleft.reader, hend]; rfl
      skipping := by rw [hleft.reader, hend]; rfl }
  exact (hback.readsLike hsteady hplain hread hfront (idle_leave hidle)).trans hleave.symm

/-- Putting lines in front is transparent where no line waits whose backslash is set aside. A line
that is put in front is taken next. Content without live directives that is entered, outside of
skipped regions and without a level offset, is taken line by line as it is prepared, apart from the
backslashes that keep lines from being directives; a line that waits must not be the text of a
conditional that reads as a directive. In both cases the session then reads like the one in which
nothing was put in front, and that has lines to give as long as a caller takes them, or until the system
refuses to look up the file of an include. -/
theorem insertion_transparent {files : FileTree} {source : Source} {o : LoadOptions}
    (hprocessors : o.processors = []) {s : Session}
    (h : Driven (fun _ _ => False) files source o s) (hplain : s.reader.unescape = false) :
    (∀ n, (∃ lines u, lines.length = n ∧ s.TakesAll lines u) ∨
      ∃ lines u, lines.length < n ∧ s.TakesAll lines u ∧ ∃ e t, u.Balks e t) ∧
    (∀ line, ∃ t, (s.withReader fun r => r.unshift line).Takes (some line) t ∧ ReadsLike s t) ∧
    ∀ (content : Source) (file path : Option String) (lineno : Int) (attributes : Attributes),
      content.prepare ≠ [] → (∀ line ∈ content.prepare, isInert line = true) →
      Mapping.get? attributes "leveloffset" = none → s.reader.skipping = false →
      (0 < s.reader.lookAhead → ∀ line ∈ s.reader.scope.lines.head?,
        LineKind.ofLine line = .plain ∨ ∃ i, LineKind.ofLine line = .directive i) →
      ∃ t, (s.enter content file path lineno attributes).TakesAll
          (content.prepare.map fun line => some (contentOf line)) t ∧ ReadsLike s t := by
  obtain ⟨hsteady, hnone, hretains⟩ := h.retains hprocessors
  refine ⟨Tended.takesAll ⟨hnone, .of_steady hsteady⟩, fun line => ?_, ?_⟩
  · -- a line that is put in front comes next
    obtain ⟨t, htakes, htwins⟩ := takes_unshift hplain line
    exact ⟨t, htakes, htwins.readsLike hsteady⟩
  · -- the lines of a scope that is entered come next
    intro content file path lineno attributes hcontent hinert hoffset hread hfront
    refine takes_enter hsteady hplain hread ?_ hcontent hinert file path lineno hoffset
    intro hlook line hline
    refine (hfront hlook line hline).imp_right ?_
    rintro ⟨i, hkind⟩
    exact ⟨i, hkind, hretains hlook line hline i hkind⟩

/-- A source whose include stays as a line of content, if no scope may be entered. -/
def limitedLines : Source := .lines ["include::a.adoc[]", "last"]

/-- Options that allow no include to be entered. -/
def limitedOptions : LoadOptions := { attributes := .words "max-include-depth=0" }

/-- In front of an include directive that stays as a line because of the limit of nested includes. -/
theorem insertion_transparent_kept :
    limitedOptions.processors = [] ∧
    ∃ s, Driven (fun _ _ => False) default limitedLines limitedOptions s ∧
      s.reader.unescape = false ∧ s.reader.lookAhead = 1 ∧
      (∃ t, (s.withReader fun r => r.unshift "front").Takes (some "front") t ∧ ReadsLike s t) ∧
      ∃ t, (s.enter (.lines ["one ", "\\endif::[]"]) (some "b") none 1 []).TakesAll
          [some "one", some "endif::[]"] t ∧ ReadsLike s t := by
  have hwaits : ∃ s ∈ (openSource default limitedLines limitedOptions).toOption,
      ∃ found ∈ (s.peekLine 4).toOption, found.2.reader.unescape = false ∧ found.2.reader.lookAhead = 1 ∧
        found.2.reader.skipping = false ∧
        found.2.reader.scope.lines.head? = some "include::a.adoc[]" := by
    decide +kernel
  obtain ⟨s, hs, ⟨line, s'⟩, hpeek, hplain, hlook, hread, hfront⟩ := hwaits
  have hdriven : Driven (fun _ _ => False) default limitedLines limitedOptions s' :=
    .peek 4 (.start (eq_ok_of_mem_toOption hs)) (eq_ok_of_mem_toOption hpeek)
  obtain ⟨-, hunshift, henter⟩ := insertion_transparent rfl hdriven hplain
  refine ⟨rfl, s', hdriven, hplain, hlook, hunshift "front", ?_⟩
  have htakes := henter (.lines ["one ", "\\endif::[]"]) (some "b") none 1 [] (by decide)
    (by decide +kernel) rfl hread fun _ line hline => by
      rw [hfront] at hline
      obtain rfl := Option.some.inj hline
      exact Or.inr ⟨⟨"a.adoc", ""⟩, by decide +kernel⟩
  have hlines : ((Source.lines ["one ", "\\endif::[]"]).prepare.map fun line =>
      some (contentOf line)) = [some "one", some "endif::[]"] := by decide +kernel
  rwa [hlines] at htakes

/-- In front of a line that waits behind a backslash, the line that is put there loses its first
character. In front of the text of a conditional that reads as a conditional, entering a scope makes
the reader forget that the text is content: it is acted on once the scope is left. -/
theorem insertion_garbles :
    (∃ s, Driven (fun _ _ => False) default (.lines ["\\include::a.adoc[]", "text"]) {} s ∧
      ¬ ∃ t, (s.withReader fun r => r.unshift "front").Takes (some "front") t) ∧
    ∃ s, Driven (fun _ _ => False) default (.lines ["ifdef::a[ifdef::b[x]]", "end"])
        { attributes := .words "a" } s ∧ s.reader.skipping = false ∧
      ¬ ∃ t, (s.enter (.lines ["new"]) none none 1 []).TakesAll [some "new"] t ∧
        ReadsLike s t := by
  constructor
  · -- the text of an escaped line waits, so the line in front of it loses its first character
    have hloses : ∃ s ∈ (openSource default
        (.lines ["\\include::a.adoc[]", "text"]) {}).toOption,
        ∃ found ∈ (s.peekLine 4).toOption,
          ∃ next ∈ ((found.2.withReader fun r => r.unshift "front").readLine 4).toOption,
            next.1 = some "ront" := by
      decide +kernel
    obtain ⟨s, hs, ⟨line, s'⟩, hpeek, ⟨next, u⟩, hread, hnext⟩ := hloses
    refine ⟨s', .peek 4 (.start (eq_ok_of_mem_toOption hs)) (eq_ok_of_mem_toOption hpeek), ?_⟩
    rintro ⟨t, htakes⟩
    have hsame := (Takes.unique ⟨4, eq_ok_of_mem_toOption hread⟩ htakes).1
    exact absurd (hsame.trans hnext) (by decide)
  · -- a text that waits as content is looked at again behind the new lines
    have hforgets : ∃ s ∈ (openSource default (.lines ["ifdef::a[ifdef::b[x]]", "end"])
        { attributes := .words "a" }).toOption,
        ∃ found ∈ (s.peekLine 4).toOption, found.2.reader.skipping = false ∧
          (∃ next ∈ (found.2.readLine 4).toOption, next.1 = some "ifdef::b[x]") ∧
          ∃ first ∈ ((found.2.enter (.lines ["new"]) none none 1 []).readLine 4).toOption,
            ∃ next ∈ (first.2.readLine 4).toOption, next.1 = some "end" := by
      decide +kernel
    obtain ⟨s, hs, ⟨line, s'⟩, hpeek, hskip, ⟨⟨text, v⟩, hreads, rfl⟩, ⟨first, w⟩, hfirst,
      ⟨next, u⟩, hread, hnext⟩ := hforgets
    refine ⟨s', .peek 4 (.start (eq_ok_of_mem_toOption hs)) (eq_ok_of_mem_toOption hpeek), hskip, ?_⟩
    rintro ⟨t, _ | ⟨htakes, _ | _⟩, hlike⟩
    obtain ⟨-, rfl⟩ := Takes.unique ⟨4, eq_ok_of_mem_toOption hfirst⟩ htakes
    obtain ⟨x, _ | ⟨hthen, -⟩⟩ := (hlike [some "ifdef::b[x]"]).mp
      ⟨v, .more ⟨4, eq_ok_of_mem_toOption hreads⟩ (.done v)⟩
    have hsame := (Takes.unique ⟨4, eq_ok_of_mem_toOption hread⟩ hthen).1
    exact absurd (hsame.trans hnext) (by decide)

end Session

end DocFlatten
