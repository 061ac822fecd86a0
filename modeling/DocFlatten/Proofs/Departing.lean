import DocFlatten.Proofs.Mirroring
import DocFlatten.Proofs.Moving
import DocFlatten.Proofs.Reckoning
import DocFlatten.Proofs.Repeating

/-! # Sessions that lead elsewhere

A session that leaves conditionals as they are yields its lines one after the other. Whether these
are the lines that come in the end can be told while it reads.

* `Leads`: lines that begin given ones, or have only empty ones behind them;
* `Departs`: a session that will not yield given lines, or in which an include was kept or has found
  no place. It does so for good (`harmless_departs`).
* `Reckons.yields`, `Reckons.follow`: what a look at a line in its place adds to the lines.
-/

namespace DocFlatten

open DocFlatten.Replacement DocFlatten.Scan DocFlatten.Text

/-! ## Lines on the way to others -/

/-- Lines that begin given ones, or are these with empty lines behind them. -/
def Leads (lines target : List String) : Prop :=
  lines <+: target ∨ ∃ blanks, lines = target ++ blanks ∧ ∀ line ∈ blanks, line = ""

namespace Leads

variable {lines more target blanks : List String} {line : String}

/-- What leads to the target with more lines behind it does so without them. -/
theorem of_append (h : Leads (lines ++ more) target) : Leads lines target := by
  rcases h with hprefix | ⟨blanks, heq, hblank⟩
  · exact Or.inl ((List.prefix_append _ _).trans hprefix)
  · rcases List.append_eq_append_iff.mp heq with
      ⟨between, htarget, -⟩ | ⟨between, hlines, hblanks⟩
    · exact Or.inl ⟨between, htarget.symm⟩
    · refine Or.inr ⟨between, hlines, ?_⟩
      intro line hline
      refine hblank line ?_
      rw [hblanks]
      exact List.mem_append_left _ hline

/-- Behind the given lines there are only empty ones. -/
theorem blank (h : Leads (target ++ blanks ++ [line]) target) : line = "" := by
  rcases h with hprefix | ⟨blanks', heq, hblank⟩
  · have hle := hprefix.length_le
    simp only [List.length_append, List.length_singleton] at hle
    omega
  · rw [List.append_assoc] at heq
    refine hblank line ?_
    rw [← List.append_cancel_left heq]
    simp

/-- After lines that begin the given ones comes the next of these, or an empty line behind them. -/
theorem next (h : Leads (lines ++ [line]) target) (hbegins : lines <+: target) :
    lines ++ [line] <+: target ∨ lines = target ∧ line = "" := by
  rcases h with hprefix | ⟨blanks, heq, hblank⟩
  · exact Or.inl hprefix
  · cases blanks with
    | nil =>
      rw [List.append_nil] at heq
      exact Or.inl (heq ▸ List.prefix_refl _)
    | cons first blanks =>
      have hlength := congrArg List.length heq
      have hle := hbegins.length_le
      simp only [List.length_append, List.length_cons, List.length_nil] at hlength
      have hsame : lines = target := hbegins.eq_of_length_le (by omega)
      subst hsame
      refine Or.inr ⟨rfl, hblank line ?_⟩
      rw [← List.append_cancel_left heq]
      exact List.mem_singleton_self _

end Leads

namespace Session

/-- The lines that were read outside of skipped regions. -/
def contents (s : Session) : List String :=
  (s.journal.taken.filter fun t => !t.skipping).map (·.shown)

/-- Taking a line adds what was shown of it, unless it is hidden. -/
theorem contents_takeFront {s : Session} (hsteady : s.reader.Steady)
    (hlook : 0 < s.reader.lookAhead) : s.takeFront.2.contents =
      s.contents ++ if s.reader.skipping then [] else s.takeFront.1.toList := by
  obtain ⟨line, rest, hlines⟩ := hsteady.exists_front hlook
  unfold contents
  rw [journal_takeFront hlines, Journal.taken_push_taken, takeFront_fst]
  cases s.reader.skipping <;> simp [Reader.head?, hlines]

/-! ## Sessions that depart -/

/-- A session that will not yield the given lines, or in which an include was kept or strays. -/
structure Departs (target : List String) (s : Session) : Prop where
  processors : s.doc.options.processors = []
  departs : ¬ NoneKept s.journal.events ∨ (s.tracker true).tree.Strayed s.doc.sourceLines ∨
    ∃ v lines, s.Reckons v lines ∧
      (¬ Leads lines target ∨ Exhausted s.reader ∧ lines.length < target.length)

namespace Departs

variable {target : List String} {s s' : Session} {r : Reader} {es : List Event}

/-- Where not all is read, a turn after which no fewer lines were yielded changes nothing. -/
theorem turn (h : Departs target s) (hleft : ¬ Exhausted s.reader) (hturns : Turns s r es s')
    (hgrow : ∀ v lines, s.Reckons v lines → (s'.tracker true).tree.Strayed s'.doc.sourceLines ∨
      ∃ v' left, s'.Reckons v' (lines ++ left)) : Departs target s' := by
  refine ⟨by rw [hturns.doc]; exact h.processors, ?_⟩
  rcases h.departs with hkept | hstrayed | ⟨v, lines, hreckons, hnot | ⟨hend, -⟩⟩
  · -- an include was kept because of its depth, and still is
    left
    intro hnone
    apply hkept
    intro line depth he
    refine hnone line depth ?_
    rw [hturns.events]
    exact List.mem_append_left _ he
  · -- a node has strayed, and growing does not bring it back
    right
    left
    have hsource : s'.doc.sourceLines = s.doc.sourceLines := by rw [hturns.doc]
    rw [hsource, hturns.tracker]
    exact (Tracker.grows_observeAll s.preserve_tracker es _).2.strayed hstrayed
  · -- the lines that are left differ from the target already, and lines are only added to them
    rcases hgrow v lines hreckons with hstrayed | ⟨v', left, hreckons'⟩
    · exact Or.inr (Or.inl hstrayed)
    · exact Or.inr (Or.inr ⟨v', _, hreckons', Or.inl fun hleads => hnot hleads.of_append⟩)
  · -- nothing is left to be read, but there is a line
    exact absurd hend hleft

/-- A look at a line keeps the departure, whatever becomes of the line. -/
theorem look {line : String} {rest : List String} {g : Glance} (h : Departs target s)
    (hidle : s.reader.Idle) (hfront : s.reader.scope.lines = line :: rest)
    (hlook : Look s line g) : Ends (Departs target) g := by
  have hleft : ¬ Exhausted s.reader := by
    intro hend
    rw [hend.lines] at hfront
    cases hfront
  cases hlook with
  | plain s' hturns =>
    -- a line of content is held as it is
    refine h.turn hleft hturns fun v lines hreckons => Or.inr ⟨v.hold, v.passes [line], ?_⟩
    exact hreckons.hold hidle hfront (hturns : Turns s { s.reader.hold with } [] s')
  | escaped s' hturns =>
    exact h.turn hleft hturns fun v lines hreckons =>
      Or.inr ⟨_, _, hreckons.hold hidle hfront hturns⟩
  | passed s' hskip _ hturns =>
    exact h.turn hleft hturns fun v lines hreckons =>
      Or.inr ⟨_, _, hreckons.pass hidle hfront hskip hturns⟩
  | conditional c consumed r s' hkind _ hruled hturns =>
    -- a conditional is passed over, or its text is in front now
    refine h.turn hleft hturns fun v lines hreckons => Or.inr ?_
    rcases hreckons.conditional hidle hfront hkind hruled hturns with
      ⟨-, hpassed⟩ | ⟨text, -, -, hkept⟩
    · exact ⟨_, _, hpassed⟩
    · exact ⟨_, _, hkept⟩
  | kept d s' hkind _ _ hturns =>
    exact h.turn hleft hturns fun v lines hreckons =>
      Or.inr ⟨_, _, hreckons.kept hidle hfront hkind hturns⟩
  | followed d es r s' hkind _ hfollowed hturns =>
    exact h.turn hleft hturns fun v lines hreckons =>
      hreckons.followed hidle hfront hkind hfollowed hturns
  -- without processors no directive is handed over
  | handed d processor target' attributes s' _ _ hresolve _ =>
    exact absurd hresolve (resolve_ne_handed h.processors)
  | refused => trivial

end Departs

/-- A session that departs does so for good. -/
theorem harmless_departs (target : List String) : Harmless (Departs target) where
  reading :=
    { leave := by
        intro s h hidle hlines houter
        cases hs : s.reader.outer with
        | nil => exact absurd hs houter
        | cons scope outer =>
          refine h.turn (fun hend => houter hend.outer) (turns_leave hs) fun v lines hreckons => ?_
          refine Or.inr ⟨v.leave outer, [], ?_⟩
          rw [List.append_nil]
          exact hreckons.leave hidle hlines hs
      meet := by
        intro s line h
        refine ⟨h.processors, ?_⟩
        rw [events_meet, tracker_meet]
        rcases h.departs with hkept | hstrayed | ⟨v, lines, hreckons, hnot⟩
        · exact Or.inl hkept
        · exact Or.inr (Or.inl hstrayed)
        · exact Or.inr (Or.inr ⟨v, lines, hreckons.meet line, hnot⟩)
      look := fun s line rest g h hidle hfront _ hlook => h.look hidle hfront hlook
      take := by
        intro s h hsteady hlook
        have hsource : s.takeFront.2.doc.sourceLines = s.doc.sourceLines := by rw [doc_takeFront]
        refine ⟨by rw [doc_takeFront]; exact h.processors, ?_⟩
        rw [events_takeFront, tracker_takeFront, hsource]
        -- at the end of the document no line waits to be taken
        rcases h.departs with hkept | hstrayed | ⟨v, lines, hreckons, hnot | ⟨hend, -⟩⟩
        · exact Or.inl hkept
        · exact Or.inr (Or.inl hstrayed)
        · exact Or.inr (Or.inr ⟨_, lines, hreckons.take hsteady hlook, Or.inl hnot⟩)
        · have := hend.idle.lookAhead
          omega }
  edit := by
    intro s d h hedit
    have hr : ({ s with doc := d } : Session).reader = s.reader := hedit.reader
    refine ⟨by simp only [hedit.options]; exact h.processors, ?_⟩
    rcases h.departs with hkept | hstrayed | ⟨v, lines, hreckons, hnot⟩
    · exact Or.inl hkept
    · right
      left
      simp only [hedit.sourceLines]
      exact hstrayed
    · refine Or.inr (Or.inr ⟨v, lines, hreckons.edit hedit.reader hedit.sourceLines, ?_⟩)
      rw [hr]
      exact hnot
  log := by
    intro s record h
    refine ⟨h.processors, ?_⟩
    rw [events_log, tracker_log]
    rcases h.departs with hkept | hstrayed | ⟨v, lines, hreckons, hnot⟩
    · exact Or.inl hkept
    · exact Or.inr (Or.inl hstrayed)
    · exact Or.inr (Or.inr ⟨v, lines, hreckons.log record, hnot⟩)

/-! ## Lines of the document or of an include -/

/-- A property holds after a look in which no processor has a part, unless the look fails. -/
inductive Lands (P : Session → Prop) : Glance → Prop where
  | line (text : String) (s : Session) (hs : P s) : Lands P (.line text s)
  | again (s : Session) (hs : P s) : Lands P (.again s)
  | refused (e : FileError) (s : Session) : Lands P (.refused e s)

theorem Lands.mono {P Q : Session → Prop} {g : Glance} (h : Lands P g) (hPQ : ∀ s, P s → Q s) :
    Lands Q g := by
  cases h with
  | line text s hs => exact .line text s (hPQ s hs)
  | again s hs => exact .again s (hPQ s hs)
  | refused e s => exact .refused e s

/-- A step that lands somewhere ends there or not at all. -/
theorem Lands.ends {P : Session → Prop} {g : Glance} (h : Lands P g) : Ends P g := by
  cases h with
  | line text s hs => exact hs
  | again s hs => exact hs
  | refused e s => trivial

/-- A directive that stays as a line of content was kept. -/
theorem Turns.not_noneKept {s s' : Session} {r : Reader} {d : Include} {line : String} {depth : Int}
    (h : Turns s r [s.reader.found d, .includeResolved (.replaced d.line depth)] s')
    (hkind : LineKind.ofLine line = .directive d) : ¬ NoneKept s'.journal.events := by
  intro hnone
  refine hnone d.line depth ?_ d ?_
  · rw [h.events]
    simp
  · rwa [LineKind.line_of_directive hkind]

section

variable {s s' : Session} {lines : List String} {line : String} {rest : List String}

/-- A line in its place that is no include directive to follow is yielded by a look at it. -/
theorem Reckons.yields {g : Glance} (h : s.Reckons .raw lines) (hidle : s.reader.Idle)
    (hfront : s.reader.scope.lines = line :: rest)
    (hnot : ∀ d, LineKind.ofLine line = .directive d → s.reader.skipping = true)
    (hlook : Look s line g) :
    Lands (fun s' => s'.doc.options = s.doc.options ∧ ∃ v, s'.Reckons v (lines ++ [line])) g := by
  -- the line is no directive that is acted on
  have hfollowed : ∀ d, LineKind.ofLine line = .directive d → s.reader.skipping = false →
      False := by
    intro d hkind hskip
    rw [hnot d hkind] at hskip
    cases hskip
  cases hlook with
  | plain s' hturns =>
    have hheld := h.hold hidle hfront (hturns : Turns s { s.reader.hold with } [] s')
    exact .line _ s' ⟨by rw [hturns.doc], _, hheld⟩
  | escaped s' hturns =>
    exact .line _ s' ⟨by rw [hturns.doc], _, h.hold hidle hfront hturns⟩
  | passed s' hskip _ hturns =>
    exact .again s' ⟨by rw [hturns.doc], _, h.pass hidle hfront hskip hturns⟩
  | conditional c consumed r s' hkind _ hruled hturns =>
    refine .again s' ⟨by rw [hturns.doc], ?_⟩
    rcases h.conditional hidle hfront hkind hruled hturns with ⟨-, hpassed⟩ | ⟨text, -, -, hkept⟩
    · exact ⟨_, hpassed⟩
    · exact ⟨_, hkept⟩
  | kept d s' hkind hskip => exact (hfollowed d hkind hskip).elim
  | followed d es r s' hkind hskip => exact (hfollowed d hkind hskip).elim
  | handed d processor target attributes s' hkind hskip => exact (hfollowed d hkind hskip).elim
  | refused d e s' hkind hskip => exact (hfollowed d hkind hskip).elim

/-- A session that has yielded nothing yet in the place of an include directive; what follows is read
at the same place of the document. -/
structure Follows (lines : List String) (s s' : Session) (r : Reader) (es : List Event) : Prop where
  turns : Turns s r es s'
  reckons : s'.Reckons .raw lines
  idle : r.Idle
  conditionals : r.conditionals = s.reader.conditionals
  skipping : r.skipping = s.reader.skipping
  place : r.home.SamePlace s.reader.home

/-- A session that has one line in the place of an include directive. It waits. -/
structure Puts (lines : List String) (text : String) (s s' : Session) (es : List Event) :
    Prop where
  turns : Turns s (s.reader.shifted.unshift text) es s'
  reckons : s'.Reckons .held (lines ++ [text])
  plain : LineKind.ofLine text = .plain
  ne : text ≠ ""

/-- Without processors, a look at an include directive keeps it or follows it, or fails. -/
theorem Look.of_directive {d : Include} {g : Glance} (hlook : Look s line g)
    (hprocessors : s.doc.options.processors = []) (hkind : LineKind.ofLine line = .directive d)
    (hskip : s.reader.skipping = false) :
    (∃ s', g = .line line s' ∧ Turns s s.reader.hold
      [s.reader.found d, .includeResolved (.replaced d.line s.reader.includeDepth)] s') ∨
    (∃ s' r es, g = .again s' ∧ Followed s.reader d es r ∧ Turns s r es s') ∨
    ∃ e s', g = .refused e s' := by
  -- one case for each way a line can be looked at; it is a directive outside of skipped regions
  cases hlook with
  | plain s' hturns hline => exact absurd hkind (ne_directive_of_plain hline d)
  | escaped s' hturns hne hline => exact absurd hkind (ne_directive_of_escaped hline d)
  | passed s' hskip' =>
    rw [hskip] at hskip'
    cases hskip'
  | conditional c consumed r s' hline =>
    rw [hkind] at hline
    cases hline
  | handed d' processor target attributes s' hline hskip' hresolve =>
    exact absurd hresolve (resolve_ne_handed hprocessors)
  | kept d' s' hline hskip' hresolve hturns =>
    rw [hkind] at hline
    cases hline
    exact Or.inl ⟨s', rfl, hturns⟩
  | followed d' es r s' hline hskip' hfollowed hturns =>
    rw [hkind] at hline
    cases hline
    exact Or.inr (Or.inl ⟨s', r, es, rfl, hfollowed, hturns⟩)
  | refused d' e s' => exact Or.inr (Or.inr ⟨e, s', rfl⟩)

/-- An include directive that is the text of a conditional of an included file is kept or finds no
place. -/
theorem Reckons.look_text (target : List String) {d : Include} {g : Glance}
    (h : s.Reckons .text lines) (hprocessors : s.doc.options.processors = [])
    (hidle : s.reader.Idle) (hfront : s.reader.scope.lines = line :: rest)
    (houter : s.reader.outer ≠ []) (hkind : LineKind.ofLine line = .directive d)
    (hskip : s.reader.skipping = false) (hlook : Look s line g) : Lands (Departs target) g := by
  rcases hlook.of_directive hprocessors hkind hskip with
    ⟨s', rfl, hturns⟩ | ⟨s', r, es, rfl, hfollowed, hturns⟩ | ⟨e, s', rfl⟩
  · exact .line _ s' ⟨by rw [hturns.doc]; exact hprocessors, Or.inl (hturns.not_noneKept hkind)⟩
  · refine .again s' ⟨by rw [hturns.doc]; exact hprocessors, Or.inr (Or.inl ?_)⟩
    have hsource : s'.doc.sourceLines = s.doc.sourceLines := by rw [hturns.doc]
    rw [hsource, hturns.tracker]
    exact Reckoned.strayed h hidle hfront houter hkind hfollowed
  · exact .refused e s'

/-- Following an include directive in its place yields nothing yet, or one line that waits; or the
directive was kept. -/
theorem Reckons.follow {d : Include} {g : Glance} (h : s.Reckons .raw lines)
    (hprocessors : s.doc.options.processors = []) (hidle : s.reader.Idle)
    (hfront : s.reader.scope.lines = line :: rest) (hkind : LineKind.ofLine line = .directive d)
    (hskip : s.reader.skipping = false) (hlook : Look s line g) :
    (∃ s' r es, g = .again s' ∧ Follows lines s s' r es) ∨
    (∃ s' text es, g = .again s' ∧ Puts lines text s s' es) ∨
    Lands (fun s' => s'.doc.options = s.doc.options ∧ ¬ NoneKept s'.journal.events) g := by
  have hhome := Reader.home_shifted s.reader
  have hshifted := Reader.shifted_of_lines hfront
  rcases hlook.of_directive hprocessors hkind hskip with
    ⟨s', rfl, hturns⟩ | ⟨s', r, es, rfl, hfollowed, hturns⟩ | ⟨e, s', rfl⟩
  · -- the limit of nested includes keeps the directive as a line
    exact Or.inr (Or.inr (.line _ s' ⟨by rw [hturns.doc], hturns.not_noneKept hkind⟩))
  · cases hfollowed with
    | kept =>
      exact Or.inr (Or.inr (.again s' ⟨by rw [hturns.doc], hturns.not_noneKept hkind⟩))
    | gone ends frame hends =>
      -- nothing comes of it: the line is used up and nothing is put there
      have hfollows : Follows lines s s' _ _ :=
        { turns := hturns
          reckons := hturns.reckons
            (Reckoned.vanish h hidle hfront hkind hends frame s.reader.includeDepth)
          idle := ⟨hidle.shifted.lookAhead, hidle.shifted.plain⟩
          conditionals := by simp [hshifted]
          skipping := by simp [hshifted]
          place := hhome }
      exact Or.inl ⟨s', _, _, rfl, hfollows⟩
    | replaced text hplain hne =>
      exact Or.inr (Or.inl ⟨s', text, _, rfl, hturns,
        Reckons.replaced h hidle hfront hkind text hturns, hplain, hne.1⟩)
    | entered content cursor frame ends _ hends =>
      -- a file is entered: its lines are read before what is left
      have hfollows : Follows lines s s' _ _ :=
        { turns := hturns
          reckons := hturns.reckons
            (Reckoned.enter h hidle hfront hkind hends content cursor frame (by simp))
          idle := ⟨rfl, hidle.shifted.plain⟩
          conditionals := by simp [Reader.entered, hshifted]
          skipping := by simp [Reader.entered, hshifted]
          place := by
            rw [Reader.home_entered]
            exact hhome }
      exact Or.inl ⟨s', _, _, rfl, hfollows⟩
  · exact Or.inr (Or.inr (.refused e s'))

/-- What a look at a line in its place leads to, unless the session departs: nothing is yielded yet,
or one line in the place of a directive, or the line itself. -/
theorem Reckons.look_raw (target : List String) {g : Glance} (h : s.Reckons .raw lines)
    (hprocessors : s.doc.options.processors = []) (hidle : s.reader.Idle)
    (hfront : s.reader.scope.lines = line :: rest) (hlook : Look s line g) :
    Lands (Departs target) g ∨ (∃ s' r es, g = .again s' ∧ Follows lines s s' r es) ∨
    (s.reader.skipping = false ∧ ∃ s' text es, g = .again s' ∧ Puts lines text s s' es ∧
      Leads (lines ++ [text]) target) ∨
    ((∀ d, LineKind.ofLine line = .directive d → s.reader.skipping = true) ∧
      Leads (lines ++ [line]) target) := by
  -- lines that do not lead to the target make the session depart
  have hstrays : ∀ (s' : Session) v lines', s'.doc.options = s.doc.options →
      s'.Reckons v lines' → ¬ Leads lines' target → Departs target s' := by
    intro s' v lines' hoptions hreckons hnot
    exact ⟨by rw [hoptions]; exact hprocessors, Or.inr (Or.inr ⟨v, lines', hreckons, Or.inl hnot⟩)⟩
  by_cases hnot : ∀ d, LineKind.ofLine line = .directive d → s.reader.skipping = true
  · by_cases hleads : Leads (lines ++ [line]) target
    · exact Or.inr (Or.inr (Or.inr ⟨hnot, hleads⟩))
    · exact Or.inl ((h.yields hidle hfront hnot hlook).mono
        fun s' ⟨hoptions, v, hreckons⟩ => hstrays s' v _ hoptions hreckons hleads)
  · rw [not_forall] at hnot
    rcases hnot with ⟨d, hnot⟩
    rcases Classical.not_imp.mp hnot with ⟨hkind, hskip⟩
    have hskip' : s.reader.skipping = false := by simpa using hskip
    rcases h.follow hprocessors hidle hfront hkind hskip' hlook with hfollows |
      ⟨s', text, es, rfl, hputs⟩ | hkept
    · exact Or.inr (Or.inl hfollows)
    · by_cases hleads : Leads (lines ++ [text]) target
      · exact Or.inr (Or.inr (Or.inl ⟨hskip', s', text, es, rfl, hputs, hleads⟩))
      · exact Or.inl (.again s'
          (hstrays s' _ _ (by rw [hputs.turns.doc]) hputs.reckons hleads))
    · exact Or.inl (hkept.mono fun s' ⟨hoptions, hnone⟩ =>
        ⟨by rw [hoptions]; exact hprocessors, Or.inl hnone⟩)

end

end Session

end DocFlatten
