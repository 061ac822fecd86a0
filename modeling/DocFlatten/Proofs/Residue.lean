import DocFlatten.Proofs.DirectiveLines
import DocFlatten.Proofs.Flattening

/-! # Directives among the delivered lines

A line that was delivered is hardly ever a directive: the reader acts on those. Two ways are left,
and the journal tells both: an include that the limit of nested includes kept as a line of content,
and a single-line conditional whose text is a conditional itself (`load_residual`).
-/

namespace DocFlatten

open DocFlatten.Text

namespace Reader

/-- All lines that are still to be read are neat. -/
def HoldsNeat (r : Reader) : Prop :=
  ∀ scope ∈ r.scope :: r.outer, ∀ line ∈ scope.lines, IsNeat line

namespace HoldsNeat

variable {r : Reader}

/-- Only the lines count, in whatever scopes. -/
theorem of_subset {r' : Reader} (h : r.HoldsNeat) (hscope : r'.scope.lines ⊆ r.scope.lines)
    (houter : r'.outer = r.outer) : r'.HoldsNeat := by
  intro scope hmem line hline
  rcases List.mem_cons.mp hmem with rfl | hmem
  · exact h _ List.mem_cons_self line (hscope hline)
  · rw [houter] at hmem
    exact h scope (List.mem_cons_of_mem _ hmem) line hline

/-- Taking the line in front leaves neat lines. -/
theorem shifted (h : r.HoldsNeat) : r.shifted.HoldsNeat := by
  refine h.of_subset ?_ (outer_shifted r)
  cases hlines : r.scope.lines with
  | nil => simp [Reader.shifted, Reader.shift, Reader.advance, hlines]
  | cons line rest =>
    rw [shifted_of_lines hlines]
    exact List.subset_cons_self line rest

/-- A neat line in the place of the one in front, or before it. -/
theorem of_cons {r' : Reader} (h : r.HoldsNeat) {line : String} {rest : List String}
    (hline : IsNeat line) (hlines : r'.scope.lines = line :: rest) (hrest : rest ⊆ r.scope.lines)
    (houter : r'.outer = r.outer) : r'.HoldsNeat := by
  intro scope hmem front hfront
  rcases List.mem_cons.mp hmem with rfl | hmem
  · rw [hlines] at hfront
    rcases List.mem_cons.mp hfront with rfl | hfront
    · exact hline
    · exact h _ List.mem_cons_self front (hrest hfront)
  · rw [houter] at hmem
    exact h scope (List.mem_cons_of_mem _ hmem) front hfront

/-- The text of a conditional is neat. -/
theorem keeping (h : r.HoldsNeat) (text : String) : (r.keeping text).HoldsNeat := by
  have hlines : (r.keeping text).scope.lines = stripEnd text :: r.scope.lines.tail := by
    rw [Reader.scope_keeping]
  exact h.of_cons (isNeat_stripEnd text) hlines (List.tail_sublist _).subset
    (r.outer_keeping text)

/-- The lines of an include are neat. -/
theorem entered (h : r.HoldsNeat) {lines : List String} (hlines : AreEntered lines)
    (cursor : Cursor) (frame : Nat) : (r.entered lines cursor frame).HoldsNeat := by
  intro scope hmem line hline
  rcases List.mem_cons.mp hmem with rfl | hmem
  · exact hlines.neat line hline
  · exact h scope hmem line hline

/-- Deciding a conditional leaves neat lines. -/
theorem ruled (h : r.HoldsNeat) {c : Conditional} {consumed : Bool} {r' : Reader}
    (hruled : Ruled r c consumed r') : (if consumed then r'.shifted else r').HoldsNeat := by
  cases hruled with
  | idle => exact h.shifted
  | opened | closed => exact HoldsNeat.shifted (h.of_subset (List.Subset.refl _) rfl)
  | kept text => exact h.keeping text

/-- Following an include leaves neat lines. -/
theorem followed (h : r.HoldsNeat) {i : Include} {es : List Event} {r' : Reader}
    (hfollowed : Followed r i es r') : r'.HoldsNeat := by
  cases hfollowed with
  | kept => exact h.of_subset (List.Subset.refl _) rfl
  | gone => exact h.shifted.of_subset (List.Subset.refl _) rfl
  | replaced text hplain hne =>
    have hlines : (r.shifted.unshift text).scope.lines = text :: r.shifted.scope.lines := rfl
    exact h.shifted.of_cons (Or.inl hne.2) hlines (List.Subset.refl _) rfl
  | entered lines cursor frame ends hlines => exact h.shifted.entered hlines cursor frame

end HoldsNeat

end Reader

/-- A line that is no live directive. -/
def isInert (line : String) : Bool :=
  match LineKind.ofLine line with
  | .conditional _ | .directive _ => false
  | _ => true

/-- Whether a line is a directive behind a backslash. -/
def isEscaped (line : String) : Bool :=
  match LineKind.ofLine line with
  | .escapedConditional | .escapedInclude => true
  | _ => false

/-- A line that is no live directive, as content. -/
def contentOf (line : String) : String :=
  if isEscaped line then Reader.dropFirst line else line

/-- The texts of single-line conditionals that were kept. -/
def keptTexts (es : List Event) : List String :=
  es.filterMap fun
    | .conditional e => if e.retained then e.directive.text else none
    | _ => none

/-- A text is kept exactly if it is that of a conditional that was retained. -/
theorem mem_keptTexts {es : List Event} {text : String} :
    text ∈ keptTexts es ↔
      ∃ e, .conditional e ∈ es ∧ e.retained = true ∧ e.directive.text = some text := by
  unfold keptTexts
  rw [List.mem_filterMap]
  constructor
  · rintro ⟨e, he, htext⟩
    split at htext
    · rename_i e
      split at htext
      · rename_i hretained
        exact ⟨e, he, hretained, htext⟩
      · cases htext
    · cases htext
  · rintro ⟨e, he, hretained, htext⟩
    exact ⟨.conditional e, he, by simp [hretained, htext]⟩

/-- A line is a directive only if the events tell why it was left: as an include it was kept by the
limit of nested includes, as a conditional it is the text of another one. It is shown as content
unless it is such a text, which is shown as it is. -/
structure Residual (es : List Event) (line shown : String) : Prop where
  directive : ∀ i, LineKind.ofLine line = .directive i →
    ∃ depth, .includeResolved (.replaced line depth) ∈ es
  conditional : ∀ c, LineKind.ofLine line = .conditional c →
    ∃ text ∈ keptTexts es, line = stripEnd text
  content : shown = contentOf line ∨ shown = line ∧ ∃ text ∈ keptTexts es, line = stripEnd text

/-- A line that is residual for some events is residual for more. -/
theorem Residual.mono {es es' : List Event} {line shown : String} (h : Residual es line shown)
    (hes : ∀ e ∈ es, e ∈ es') : Residual es' line shown := by
  have htexts : ∀ text ∈ keptTexts es, text ∈ keptTexts es' := by
    intro text htext
    obtain ⟨e, he, hrest⟩ := mem_keptTexts.mp htext
    exact mem_keptTexts.mpr ⟨e, hes _ he, hrest⟩
  refine ⟨fun i hi => ?_, fun c hc => ?_, h.content.imp_right ?_⟩
  · obtain ⟨depth, hdepth⟩ := h.directive i hi
    exact ⟨depth, hes _ hdepth⟩
  · obtain ⟨text, htext, hline⟩ := h.conditional c hc
    exact ⟨text, htexts text htext, hline⟩
  · rintro ⟨hshown, text, htext, hline⟩
    exact ⟨hshown, text, htexts text htext, hline⟩

/-- An inert line is residual. -/
theorem Residual.of_isInert {line : String} (h : isInert line = true) (es : List Event) :
    Residual es line (contentOf line) where
  directive i hi := by simp [isInert, hi] at h
  conditional c hc := by simp [isInert, hc] at h
  content := Or.inl rfl

/-- A line that is not behind a backslash is content as it is. -/
theorem contentOf_of_not_isEscaped {line : String} (h : isEscaped line = false) :
    contentOf line = line := by
  simp [contentOf, h]

/-- A reader that knows whether a line is behind a backslash shows it as content. -/
theorem shown_of_unescape {r : Reader} {line : String} (h : r.unescape = isEscaped line) :
    r.shown line = contentOf line := by
  simp [Reader.shown, contentOf, h]

namespace Session

/-- What was delivered and what waits to be is residual, and all lines are neat. -/
structure Leaves (s : Session) : Prop where
  processors : s.doc.options.processors = []
  neat : s.reader.HoldsNeat
  taken : ∀ t ∈ s.journal.taken, IsNeat t.spelled ∧ Residual s.journal.events t.spelled t.shown
  front : 0 < s.reader.lookAhead →
    ∀ line ∈ s.reader.scope.lines.head?, Residual s.journal.events line (s.reader.shown line)

/-- A turn keeps that what was delivered is residual; the line in front has to be if it waits. -/
theorem Leaves.turn {s s' : Session} {r : Reader} {es : List Event} (h : Leaves s)
    (hturns : Turns s r es s') (hneat : r.HoldsNeat)
    (hfront : 0 < r.lookAhead → ∀ line ∈ r.scope.lines.head?,
      Residual (s.journal.events ++ es) line (r.shown line)) : Leaves s' where
  processors := by
    rw [hturns.doc]
    exact h.processors
  neat := by
    rw [hturns.reader]
    exact hneat
  taken t ht := by
    rw [hturns.taken] at ht
    rw [hturns.events]
    obtain ⟨hline, hresidual⟩ := h.taken t ht
    exact ⟨hline, hresidual.mono fun e he => List.mem_append_left _ he⟩
  front := by
    rw [hturns.reader, hturns.events]
    exact hfront

/-- What was delivered stays residual when nothing is held. -/
theorem Leaves.turn_idle {s s' : Session} {r : Reader} {es : List Event} (h : Leaves s)
    (hturns : Turns s r es s') (hneat : r.HoldsNeat) (hidle : r.Idle) : Leaves s' :=
  h.turn hturns hneat fun hpos => by
    have := hidle.lookAhead
    omega

/-- The line in front may wait from now on if it is residual. -/
theorem Leaves.turn_held {s s' : Session} {r : Reader} {es : List Event} {line : String}
    {rest : List String} (h : Leaves s) (hturns : Turns s r es s') (hneat : r.HoldsNeat)
    (hlines : r.scope.lines = line :: rest)
    (hline : Residual (s.journal.events ++ es) line (r.shown line)) : Leaves s' :=
  h.turn hturns hneat fun _ front hmem => by
    rw [hlines] at hmem
    cases hmem
    exact hline

/-- The line in front waits, and is content. -/
theorem Leaves.turn_plain {s s' : Session} {r : Reader} {es : List Event} {line : String}
    {rest : List String} (h : Leaves s) (hturns : Turns s r es s') (hneat : r.HoldsNeat)
    (hlines : r.scope.lines = line :: rest) (hinert : isInert line = true)
    (hunescape : r.unescape = isEscaped line) : Leaves s' := by
  refine h.turn_held hturns hneat hlines ?_
  rw [shown_of_unescape hunescape]
  exact .of_isInert hinert _

/-- An include that is kept is the reason why its line is left. -/
theorem residual_kept {s : Session} {r : Reader} {line : String} {i : Include} {found : Event}
    (hkind : LineKind.ofLine line = .directive i) (hplain : r.unescape = false) (depth : Int) :
    Residual (s.journal.events ++ [found, .includeResolved (.replaced i.line depth)]) line
      (r.shown line) where
  directive i' hi' := by
    refine ⟨depth, List.mem_append_right _ ?_⟩
    rw [LineKind.line_of_directive hkind]
    exact List.mem_cons_of_mem _ List.mem_cons_self
  conditional c hc := by
    rw [hkind] at hc
    cases hc
  content := Or.inl (shown_of_unescape (by simp [hplain, isEscaped, hkind]))

/-- The text of a conditional waits, unless it is looked at next. It is the reason why its line is
left. -/
theorem Leaves.turn_kept {s s' : Session} {line text : String} {rest : List String}
    {c : Conditional} (h : Leaves s) (hidle : s.reader.Idle)
    (hlines : s.reader.scope.lines = line :: rest) (htext : c.text = some text)
    (hneat : (s.reader.keeping text).HoldsNeat)
    (hturns : Turns s (s.reader.keeping text)
      [c.event s.reader (s.reader.keeping text) false] s') : Leaves s' := by
  by_cases hinclude : text.startsWith "include::" = true
  · refine h.turn_idle hturns hneat ⟨?_, (s.reader.unescape_keeping text).trans hidle.plain⟩
    rw [Reader.lookAhead_keeping, if_pos hinclude]
    exact hidle.lookAhead
  · have hfront : (s.reader.keeping text).scope.lines = stripEnd text :: rest := by
      simp [hlines]
    have hmem : text ∈ keptTexts
        (s.journal.events ++ [c.event s.reader (s.reader.keeping text) false]) :=
      mem_keptTexts.mpr ⟨_, List.mem_append_right _ List.mem_cons_self, rfl, htext⟩
    refine h.turn_held hturns hneat hfront ⟨?_, ?_, Or.inr ⟨?_, text, hmem, rfl⟩⟩
    · intro i hi
      exact absurd (startsWith_of_stripEnd (LineKind.startsWith_of_directive hi)) hinclude
    · intro c' _
      exact ⟨text, hmem, rfl⟩
    · simp [Reader.shown, hidle.plain]

/-- A look leaves what was delivered residual, and so is the line that it holds. -/
theorem Leaves.look {s : Session} {line : String} {rest : List String} {g : Glance}
    (h : Leaves s) (hidle : s.reader.Idle) (hlines : s.reader.scope.lines = line :: rest)
    (hlook : Look s line g) : Ends Leaves g := by
  have hheld : s.reader.hold.HoldsNeat := h.neat.of_subset (List.Subset.refl _) rfl
  cases hlook with
  | plain s' hturns hline =>
    have hunescape : s.reader.hold.unescape = false := hidle.plain
    rcases hline with rfl | ⟨-, hkind⟩
    · -- the line is inert by itself
      exact h.turn_plain hturns hheld hlines rfl hunescape
    · -- the line is no directive where it stands
      refine h.turn_plain hturns hheld hlines (by simp [isInert, hkind]) ?_
      simp [hunescape, isEscaped, hkind]
  | escaped s' hturns hne hline =>
    rcases hline with hkind | ⟨-, hkind⟩ <;>
    exact h.turn_plain hturns hheld hlines (by simp [isInert, hkind]) (by simp [isEscaped, hkind])
  | passed s' hskip hline hturns => exact h.turn_idle hturns h.neat.shifted hidle.shifted
  | conditional c consumed r s' hkind hne hruled hturns =>
    have hneat := h.neat.ruled hruled
    cases hruled with
    | idle => exact h.turn_idle hturns hneat hidle.shifted
    | opened | closed =>
      exact h.turn_idle hturns hneat (Reader.Idle.shifted ⟨hidle.lookAhead, hidle.plain⟩)
    -- the text of the conditional goes on as a line
    | kept text hskip htext => exact h.turn_kept hidle hlines htext hneat hturns
  | kept i s' hkind hskip hresolve hturns =>
    exact h.turn_held hturns hheld hlines (residual_kept hkind hidle.plain _)
  | followed i es r s' hkind hskip hfollowed hturns =>
    have hneat := h.neat.followed hfollowed
    cases hfollowed with
    -- the directive is kept by the limit of includes
    | kept => exact h.turn_held hturns hheld hlines (residual_kept hkind hidle.plain _)
    | gone => exact h.turn_idle hturns hneat ⟨hidle.shifted.lookAhead, hidle.shifted.plain⟩
    -- the directive is replaced by one line, which is no directive
    | replaced text hplain =>
      have hfront : (s.reader.shifted.unshift text).scope.lines =
          text :: s.reader.shifted.scope.lines := rfl
      refine h.turn_plain hturns hneat hfront (by simp [isInert, hplain]) ?_
      have hunescape : (s.reader.shifted.unshift text).unescape = false := hidle.shifted.plain
      simp [hunescape, isEscaped, hplain]
    | entered lines cursor frame => exact h.turn_idle hturns hneat ⟨rfl, hidle.shifted.plain⟩
  | handed i processor target attributes s' hkind hskip hresolve hturns =>
    exact absurd hresolve (resolve_ne_handed h.processors)
  | refused => exact trivial

/-- Taking a held line adds a residual one. -/
theorem Leaves.take {s : Session} (h : Leaves s) (hsteady : s.reader.Steady)
    (hlook : 0 < s.reader.lookAhead) : Leaves s.takeFront.2 := by
  obtain ⟨line, rest, hlines⟩ := hsteady.exists_front hlook
  have htaken := journal_takeFront hlines
  refine ⟨by rw [doc_takeFront]; exact h.processors, ?_, ?_, ?_⟩
  · rw [reader_takeFront]
    exact h.neat.shifted
  · rw [htaken, Journal.taken_push_taken, Journal.events_push_taken]
    intro t ht
    rcases List.mem_append.mp ht with hold | hnew
    · exact h.taken t hold
    · obtain rfl := List.mem_singleton.mp hnew
      refine ⟨h.neat _ List.mem_cons_self line (by rw [hlines]; exact List.mem_cons_self), ?_⟩
      exact h.front hlook line (by rw [hlines]; rfl)
  · intro hpos
    have hidle := hsteady.idle_shifted hlook
    rw [reader_takeFront, hidle.lookAhead] at hpos
    omega

/-- Reading and scanning keep that what is delivered is residual. -/
theorem harmless_leaves : Scan.Harmless Leaves where
  reading :=
    { leave := fun s h hidle _ houter => by
        cases hs : s.reader.outer with
        | nil => exact absurd hs houter
        | cons scope outer =>
          refine h.turn (turns_leave hs) ?_ fun hpos => absurd hpos (Nat.lt_irrefl 0)
          intro around haround
          exact h.neat around (by rw [hs]; exact List.mem_cons_of_mem _ haround)
      meet := fun s line h => ⟨h.processors, h.neat, by simpa using h.taken, by simpa using h.front⟩
      look := fun s line rest g h hidle hlines _ hlook => h.look hidle hlines hlook
      take := fun s h hsteady hlook => h.take hsteady hlook }
  edit s d h hedit := by
    have hr : ({ s with doc := d } : Session).reader = s.reader := hedit.reader
    exact ⟨by simp only [hedit.options]; exact h.processors, by rw [hr]; exact h.neat, h.taken,
      by rw [hr]; exact h.front⟩
  log s record h := ⟨h.processors, h.neat, by simpa using h.taken, by simpa using h.front⟩

/-- The lines that a document takes are neat, and they are directives only for a reason that the
journal tells. -/
theorem load_residual {fuel : Nat} {files : FileTree} {source : Source} {o : LoadOptions}
    {s : Session} (h : load fuel files source o = .ok s) (hprocessors : o.processors = []) :
    ∀ t ∈ s.journal.taken, IsNeat t.spelled ∧ Residual s.journal.events t.spelled t.shown := by
  obtain ⟨hleaves, -⟩ := load_keeps harmless_leaves h fun s₀ hopen => by
    obtain ⟨mode, -, rfl⟩ := openSource_eq_ok.mp hopen
    refine ⟨hprocessors, ?_, ?_, ?_⟩
    · intro scope hmem line hline
      obtain rfl := List.mem_singleton.mp hmem
      exact isNeat_of_mem_prepare hline
    · intro t ht
      cases ht
    · intro hpos
      exact absurd hpos (Nat.lt_irrefl 0)
  exact hleaves.taken

/-- What is known of the lines that are taken holds of those that are delivered. -/
theorem residual_delivered {fuel : Nat} {files : FileTree} {source : Source} {o : LoadOptions}
    {s : Session} (h : load fuel files source o = .ok s) (hprocessors : o.processors = []) :
    ∀ line ∈ s.delivered, IsNeat line ∧ ∃ shown, Residual s.journal.events line shown := by
  intro line hline
  obtain ⟨t, ht, rfl⟩ := List.mem_map.mp hline
  rw [List.mem_filter] at ht
  obtain ⟨hneat, hresidual⟩ := load_residual h hprocessors t ht.1
  exact ⟨hneat, t.shown, hresidual⟩

end Session

end DocFlatten
