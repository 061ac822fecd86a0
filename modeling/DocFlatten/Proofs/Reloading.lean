import DocFlatten.Proofs.Departing

/-! # Loading a document again with its conditionals

A reduction that leaves conditionals as they are returns what the recorded tree yields. Loading these
lines reads the same document: a conditional that was passed is there again, the lines of an include
are there in its place, and the text of a conditional of the document is resolved anew
(`preserved_reads_again`). The text of a conditional of an included file may be resolved in another
directory then, and the entry of an empty level offset loses the blank at its end
(`preserved_reads_otherwise`).

The two scans run abreast (`Echoes`). The first one enters and leaves includes alone where the second
one reads their lines in place; in an include that has no place both are in the same scopes. At the
end only the first one may have empty lines left (`Outlives`).
-/

namespace DocFlatten

open DocFlatten.Replacement DocFlatten.Scan DocFlatten.Text

/-- After lines that begin given ones comes the next of these. -/
theorem drop_of_concat {lines target : List String} {line : String}
    (h : lines ++ [line] <+: target) :
    target.drop lines.length = line :: target.drop (lines.length + 1) := by
  rcases h with ⟨rest, rfl⟩
  simp

namespace Reader.Mirror

variable {target : List String} {n : Nat} {r r' : Reader} {v : View}

/-- Unless the first reader is at one of the given lines, both have the same line in front. -/
theorem fronts (h : Mirror target n r r' v) (hview : v ≠ .raw) {line : String} {rest : List String}
    (hfront : r.scope.lines = line :: rest) : ∃ rest', r'.scope.lines = line :: rest' := by
  cases h with
  | raw => exact absurd rfl hview
  | front v text after _ _ htext hlines =>
    rw [hfront, List.cons.injEq] at htext
    exact ⟨_, htext.1 ▸ hlines⟩
  | live inner root root' hscope => exact ⟨rest, hscope ▸ hfront⟩

end Reader.Mirror

namespace Session

variable {target : List String} {s s' t t' : Session}

/-- An empty line in its place waits to be taken. -/
theorem Reckons.blank {lines rest : List String} (h : s.Reckons .raw lines)
    (hidle : s.reader.Idle) (hfront : s.reader.scope.lines = "" :: rest) :
    ∃ s', s.glance "" = .line "" s' ∧ Turns s s.reader.hold [] s' ∧
      s'.Reckons .held (lines ++ [""]) ∧ s'.reader.head? = some "" ∧ s'.reader.Steady := by
  have hturns : Turns s s.reader.hold [] (s.withReader Reader.hold) := (Turns.refl s).move rfl
  refine ⟨_, glance_of_plain (Or.inl rfl), hturns, ?_, ?_, ?_⟩
  · exact h.hold hidle hfront (hturns : Turns s { s.reader.hold with } [] _)
  · simp [Reader.head?, Reader.hold, hfront, Reader.shown, hidle.plain]
  · exact Or.inr ⟨by simp [Reader.hold, hidle.lookAhead], by simp [Reader.hold, hfront]⟩

/-! ## Sessions that echo others -/

/-- A session that will yield the given lines, and one that reads them. -/
structure Echoes (target : List String) (s t : Session) : Prop where
  processors : s.doc.options.processors = []
  options : t.doc.options = s.doc.options
  files : t.files = s.files
  contents : t.contents = s.contents
  beside : s.reader.Beside t.reader
  mirror : ∃ v lines, s.Reckons v lines ∧ lines <+: target ∧
    s.reader.Mirror target lines.length t.reader v

/-- The second session has read all of the lines, and the first one has only empty ones left. -/
structure Outlives (target : List String) (s t : Session) : Prop where
  processors : s.doc.options.processors = []
  steady : s.reader.Steady
  reckons : ∃ v blanks, s.Reckons v (target ++ blanks) ∧
    (v = .raw ∨ v = .held ∧ s.reader.head? = some "")
  contents : ∃ blanks, s.contents = t.contents ++ blanks ∧ ∀ line ∈ blanks, line = ""
  ended : Exhausted t.reader

/-- Sessions that echo each other, with documents of the same content. -/
abbrev Echoing (target : List String) : Session → Session → Prop :=
  Joined (Echoes target) fun _ _ => True

/-- How looking for a line ends in the second session if it has ended in the first one. -/
def EndsEcho (target : List String) (a : Option String) (s' : Session)
    (run : Except Halt (Option String × Session)) : Prop :=
  Departs target s' ∨ (∃ t', run = .ok (a, t') ∧ Echoing target s' t') ∨
    (a.getD "" = "" ∧ ∃ t', run = .ok (none, t') ∧ Outlives target s' t' ∧
      s'.doc.Alike (fun _ _ => True) t'.doc)

/-- More looks do not change how looking for a line ends. -/
theorem EndsEcho.mono {a : Option String} {fuel : Nat}
    (h : EndsEcho target a s' (t.peekLine fuel)) : EndsEcho target a s' (t.peekLine (fuel + 1)) := by
  rcases h with hdeparts | ⟨t', ht, hechoing⟩ | ⟨hblank, t', ht, houtlives⟩
  · exact Or.inl hdeparts
  · exact Or.inr (Or.inl ⟨t', (peekLine_mono (by simp [ht])).trans ht, hechoing⟩)
  · exact Or.inr (Or.inr ⟨hblank, t', (peekLine_mono (by simp [ht])).trans ht, houtlives⟩)

/-- A turn delivers nothing. -/
theorem Turns.contents {r : Reader} {es : List Event} (h : Turns s r es s') :
    s'.contents = s.contents := by
  unfold Session.contents
  rw [h.taken]

/-- Meeting a line delivers nothing. -/
theorem contents_meet (s : Session) (line : String) : (s.meet line).contents = s.contents := by
  unfold Session.contents
  rw [taken_meet]

/-- Logging delivers nothing. -/
theorem contents_log (s : Session) (record : Log.Record) :
    (s.log record).contents = s.contents := by
  unfold Session.contents
  rw [taken_log]

/-- Turns of two sessions leave their documents alike. -/
theorem Turns.alike {r r' : Reader} {es es' : List Event} (hs : Turns s r es s')
    (ht : Turns t r' es' t') (h : s.doc.Alike (fun _ _ => True) t.doc) :
    s'.doc.Alike (fun _ _ => True) t'.doc := by
  rw [hs.doc, ht.doc]
  exact ⟨h.attributes, h.locked, h.parsed, h.title, h.headerAttributes, h.blocks⟩

namespace Echoing

/-- Echoing sessions that turn to readers beside each other still echo each other. -/
theorem turn (h : Echoing target s t) {r r' : Reader} {es es' : List Event}
    (hs : Turns s r es s') (ht : Turns t r' es' t') (hsteady : r.Steady) (hbeside : r.Beside r')
    {v : View} {lines : List String} (hreckons : s'.Reckons v lines) (hbegins : lines <+: target)
    (hmirror : r.Mirror target lines.length r' v) : Echoing target s' t' := by
  rw [← hs.reader] at hsteady hbeside hmirror
  rw [← ht.reader] at hbeside hmirror
  have hraw : v = .raw → s'.reader.Idle := fun hv => Reckoned.idle hreckons (Or.inl hv)
  refine ⟨hsteady, hmirror.steady hbeside hsteady hraw, ?_, hs.alike ht h.doc⟩
  exact
    { processors := by rw [hs.doc]; exact h.together.processors
      options := by rw [hs.doc, ht.doc]; exact h.together.options
      files := by rw [hs.files, ht.files, h.together.files]
      contents := by rw [hs.contents, ht.contents, h.together.contents]
      beside := hbeside
      mirror := ⟨v, lines, hreckons, hbegins, hmirror⟩ }

/-- The second session waits while the first one turns. -/
theorem turnAlone (h : Echoing target s t) {r : Reader} {es : List Event} (hs : Turns s r es s')
    (hidle : s.reader.Idle) (hmoved : r.Idle) (hconditionals : r.conditionals = s.reader.conditionals)
    (hskipping : r.skipping = s.reader.skipping) (hplace : r.home.SamePlace s.reader.home)
    {lines : List String} (hreckons : s'.Reckons .raw lines) (hbegins : lines <+: target)
    (houter : t.reader.outer = []) (hlines : t.reader.scope.lines = target.drop lines.length) :
    Echoing target s' t :=
  h.turn hs (Turns.refl t) (Or.inl hmoved)
    (h.together.beside.alone hidle hmoved hconditionals hskipping hplace) hreckons hbegins
    (.raw houter hlines)

/-- Meeting a line in the first session changes nothing for the second. -/
theorem meetLeft (h : Echoing target s t) (line : String) : Echoing target (s.meet line) t := by
  rcases h.together.mirror with ⟨v, lines, hreckons, hbegins, hmirror⟩
  refine ⟨h.steady, h.steady', ?_, h.doc⟩
  exact ⟨h.together.processors, h.together.options, h.together.files,
    h.together.contents.trans (contents_meet s line).symm, h.together.beside,
    v, lines, hreckons.meet line, hbegins, hmirror⟩

/-- Meeting a line in the second session changes nothing for the first. -/
theorem meetRight (h : Echoing target s t) (line : String) : Echoing target s (t.meet line) :=
  ⟨h.steady, h.steady', ⟨h.together.processors, h.together.options, h.together.files,
    (contents_meet t line).trans h.together.contents, h.together.beside, h.together.mirror⟩, h.doc⟩

/-- A session and one that echoes it agree on what directives depend on. -/
theorem agree (h : Echoing target s t) : Agree s t :=
  ⟨h.doc.attributes, h.together.beside.conditionals, h.together.beside.skipping⟩

/-- Where both sessions are in the same scopes, or in the document, an include directive means the
same. -/
theorem alongside (h : Echoing target s t) {v : View} {n : Nat}
    (hmirror : s.reader.Mirror target n t.reader v) (hview : v = .text ∨ v = .live)
    (hhome : v = .text → s.reader.outer = []) : Alongside (fun _ => Eq) s t := by
  have hplace : t.reader.cursor.SamePlace s.reader.cursor ∧
      t.reader.includeDepth = s.reader.includeDepth := by
    cases hmirror with
    | raw => simp at hview
    -- the line in front is the text of a conditional
    | front v text rest hkind houter =>
      rcases hkind with rfl | rfl
      · have hsame := h.together.beside.place
        unfold Reader.home at hsame
        rw [hhome rfl, houter] at hsame
        refine ⟨hsame, ?_⟩
        unfold Reader.includeDepth
        rw [hhome rfl, houter]
      · simp at hview
    -- the lines in front are those of the same include
    | live inner root root' hscope houter houter' =>
      unfold Reader.cursor Reader.includeDepth
      rw [hscope, houter, houter']
      exact ⟨⟨rfl, rfl, rfl⟩, by simp⟩
  exact
    { h.agree with
      files := h.together.files ▸ .refl (fun _ _ => rfl) _
      options := h.together.options
      place := hplace.1
      depth := hplace.2 }

section Look

variable {line : String} {rest rest' : List String} {v : View} {lines : List String}
  {s₁ t₁ : Session}

/-- A conditional does the same in both sessions. -/
theorem conditional (h : Echoing target s t) (hidle : s.reader.Idle)
    (hfront : s.reader.scope.lines = line :: rest) (hfront' : t.reader.scope.lines = line :: rest')
    (hreckons : s.Reckons v lines) (hmirror : s.reader.Mirror target lines.length t.reader v)
    (hnext : lines ++ v.passes [line] <+: target) {c : Conditional} {consumed : Bool}
    {ruling : Ruling} (hkind : LineKind.ofLine line = .conditional c)
    (hfits : ruling.Fits c consumed) (hruled : Ruled s.reader c consumed (ruling.apply s.reader))
    (hs : Turns s (if consumed then (ruling.apply s.reader).shifted else ruling.apply s.reader)
      [c.event s.reader (ruling.apply s.reader) consumed] s₁)
    (ht : Turns t (if consumed then (ruling.apply t.reader).shifted else ruling.apply t.reader)
      [c.event t.reader (ruling.apply t.reader) consumed] t₁)
    (hsteady : s₁.reader.Steady) : Echoing target s₁ t₁ := by
  have hbeside := h.together.beside
  rw [hs.reader] at hsteady
  have hlength : lines.length + (v.passes [line]).length =
      (lines ++ v.passes [line]).length := List.length_append.symm
  have hreckoned := hreckons.conditional hidle hfront hkind hruled hs
  cases hfits with
  -- the directive opens or closes a conditional, and its line is used up
  | set conditionals skipping =>
    rcases hreckoned with ⟨-, hpassed⟩ | ⟨text, hnot, -⟩
    · have hset : Reader.Mirror target lines.length { s.reader with conditionals, skipping }
          { t.reader with conditionals, skipping } v := hmirror.of_scopes rfl rfl rfl rfl
      have hmirror' := hset.shifted hfront hfront'
      rw [hlength] at hmirror'
      exact h.turn hs ht hsteady ((hbeside.set conditionals skipping).shifted hfront hfront')
        hpassed hnext hmirror'
    · cases hnot
  -- its text stays in front, as the next line
  | keep text htext =>
    rcases hreckoned with ⟨hused, -⟩ | ⟨text', -, htext', hkept⟩
    · cases hused
    · rw [htext] at htext'
      cases htext'
      have hmirror' := hmirror.keeping hfront hfront' text
      rw [hlength] at hmirror'
      exact h.turn hs ht hsteady (hbeside.keeping text) hkept hnext hmirror'

/-- An include directive is followed in the same way in both sessions. -/
theorem followed (h : Echoing target s t) (hidle : s.reader.Idle)
    (hfront : s.reader.scope.lines = line :: rest) (hfront' : t.reader.scope.lines = line :: rest')
    (hreckons : s.Reckons v lines) (hmirror : s.reader.Mirror target lines.length t.reader v)
    (hbegins : lines <+: target) (hview : v = .text ∨ v = .live)
    (hhome : v = .text → s.reader.outer = []) {d : Include} {way way' : Way}
    {es es' : List Event} (hkind : LineKind.ofLine line = .directive d)
    (hs : way.Reported s.reader d es) (hs' : Turns s (way.apply s.reader) es s₁)
    (ht' : Turns t (way'.apply t.reader) es' t₁) (hway : Way.Alike (fun _ => Eq) way way')
    (hsteady : s₁.reader.Steady) : Echoing target s₁ t₁ := by
  rw [hs'.reader] at hsteady
  -- lines in these views are no lines of the document, so none of them has been passed
  have hnothing : ∀ left, v.passes left = [] := by
    rcases hview with rfl | rfl <;> exact fun _ => rfl
  have hshifted := hmirror.shifted hfront hfront'
  rw [hnothing, List.length_nil, Nat.add_zero] at hshifted
  have hbeside := h.together.beside.shifted hfront hfront'
  cases hway with
  | vanished =>
    cases hs with
    | vanished ends hends =>
      have hgone := hs'.reckons
        (Reckoned.vanish hreckons hidle hfront hkind hends s.reader.shifted.frame _)
      exact h.turn hs' ht' hsteady hbeside hgone hbegins hshifted
  | empty =>
    cases hs with
    | empty ends hends =>
      have hgone := hs'.reckons (Reckoned.vanish hreckons hidle hfront hkind hends 0 _)
      exact h.turn hs' ht' hsteady hbeside.unframed hgone hbegins
        (hshifted.of_scopes rfl rfl rfl rfl)
  | replaced text =>
    cases hs with
    | replaced _ hplain hne =>
      have hput := hreckons.replaced hidle hfront hkind text hs'
      rw [hnothing, List.append_nil] at hput
      exact h.turn hs' ht' hsteady (hbeside.unshift text) hput hbegins
        (hmirror.unshift hfront hfront' hview text)
  | entered content content' cursor frame hsame =>
    cases hsame
    cases hs with
    | entered _ _ _ ends _ hends =>
      have hlive : v.enter = .live := by
        rcases hview with rfl | rfl <;> rfl
      have hentered := hs'.reckons
        (Reckoned.enter hreckons hidle hfront hkind hends content cursor frame hhome)
      rw [hlive] at hentered
      exact h.turn hs' ht' hsteady (hbeside.entered content cursor frame) hentered hbegins
        (hmirror.entered hfront hfront' hview hhome content cursor frame)

/-- What a look at the same line has led to goes on in both sessions. -/
theorem resume {fuel : Nat}
    (hpeek : ∀ s t a s', Echoing target s t → s.peekLine fuel = .ok (a, s') →
      EndsEcho target a s' (t.peekLine fuel))
    (h : Echoing target s t) (hidle : s.reader.Idle)
    (hfront : s.reader.scope.lines = line :: rest) (hfront' : t.reader.scope.lines = line :: rest')
    (hreckons : s.Reckons v lines)
    (hmirror : s.reader.Mirror target lines.length t.reader v)
    (hnext : lines ++ v.passes [line] <+: target)
    (hdirective : ∀ d, LineKind.ofLine line = .directive d → s.reader.skipping = false →
      (v = .text ∨ v = .live) ∧ (v = .text → s.reader.outer = []))
    {g g' : Glance} (hlooks : Looks (fun _ => Eq) s t line g g') {a : Option String}
    (hrun : g.resume fuel = .ok (a, s')) : EndsEcho target a s' (g'.resume fuel) := by
  have hbeside := h.together.beside
  have hsteady := fun s' => @Look.steady s s' line rest g hlooks.left hidle hfront
  have hheld : ∀ unescape, Reader.Steady { s.reader.hold with unescape } := fun unescape =>
    Or.inr ⟨by simp [Reader.hold, hidle.lookAhead], by simp [Reader.hold, hfront]⟩
  have hshown : ∀ text u v, Echoing target u v →
      (Glance.line text u).resume fuel = .ok (a, s') →
      EndsEcho target a s' ((Glance.line text v).resume fuel) := by
    intro text u v huv heq
    rcases Prod.mk.inj (Except.ok.inj heq) with ⟨rfl, rfl⟩
    exact Or.inr (Or.inl ⟨v, rfl, huv⟩)
  -- what is in front is passed now, and the other reader has it behind as well
  have hlength : lines.length + (v.passes [line]).length =
      (lines ++ v.passes [line]).length := List.length_append.symm
  have hbegins : lines <+: target := (List.prefix_append _ _).trans hnext
  cases hlooks with
  | plain s₁ t₁ hs ht =>
    have hmirror' := hmirror.hold hfront hfront' s.reader.unescape t.reader.unescape
    rw [hlength] at hmirror'
    exact hshown line s₁ t₁ (h.turn hs ht (hheld _) hbeside.hold
      (hreckons.hold hidle hfront (hs : Turns s { s.reader.hold with } [] s₁)) hnext hmirror') hrun
  | escaped s₁ t₁ hs ht =>
    have hmirror' := hmirror.hold hfront hfront' true true
    rw [hlength] at hmirror'
    exact hshown _ s₁ t₁ (h.turn hs ht (hheld _) hbeside.escape
      (hreckons.hold hidle hfront hs) hnext hmirror') hrun
  | passed s₁ t₁ hskip _ hs ht =>
    have hmirror' := hmirror.shifted hfront hfront'
    rw [hlength] at hmirror'
    exact hpeek s₁ t₁ a s' (h.turn hs ht (Or.inl hidle.shifted) (hbeside.shifted hfront hfront')
      (hreckons.pass hidle hfront hskip hs) hnext hmirror') hrun
  | conditional c consumed ruling s₁ t₁ hkind _ hfits hruled hs ht =>
    have hechoing := h.conditional hidle hfront hfront' hreckons hmirror hnext hkind hfits
      hruled.left hs ht ((hsteady s₁).2.1 rfl)
    exact hpeek s₁ t₁ a s' hechoing hrun
  | kept d s₁ t₁ hkind _ _ hs ht =>
    rcases Prod.mk.inj (Except.ok.inj hrun) with ⟨-, rfl⟩
    exact Or.inl ⟨by rw [hs.doc]; exact h.together.processors, Or.inl (hs.not_noneKept hkind)⟩
  | handed d processor target' attributes s₁ t₁ _ _ hresolve =>
    exact absurd hresolve (resolve_ne_handed h.together.processors)
  | followed d way way' es es' s₁ t₁ hkind hskip hs hs' ht ht' hway =>
    rcases hdirective d hkind hskip with ⟨hview, hhome⟩
    have hechoing := h.followed hidle hfront hfront' hreckons hmirror hbegins hview hhome hkind hs
      hs' ht' hway ((hsteady s₁).2.1 rfl)
    exact hpeek s₁ t₁ a s' hechoing hrun
  | refused => cases hrun

end Look

/-- The first session has one line in the place of an include directive, the second one has that
line in front. -/
theorem put (h : Echoing target s t) (hidle : s.reader.Idle) {line : String} {rest : List String}
    (hfront : s.reader.scope.lines = line :: rest) (hskip : s.reader.skipping = false)
    {s₁ : Session} {lines : List String} {text : String} {es : List Event}
    (hputs : Puts lines text s s₁ es) (hnext : lines ++ [text] <+: target)
    (houter : t.reader.outer = []) (hlines : t.reader.scope.lines = target.drop lines.length)
    {fuel : Nat} {a : Option String} (hrun : s₁.peekLine fuel = .ok (a, s')) :
    EndsEcho target a s' (t.peekLine (fuel + 1)) := by
  have hidle' : t.reader.Idle := h.together.beside.idle hidle
  have hskip' : (t.meet text).reader.skipping = false := h.together.beside.skipping.trans hskip
  have hfront' : t.reader.scope.lines = text :: target.drop (lines.length + 1) :=
    hlines.trans (drop_of_concat hnext)
  have hheld : (s.reader.shifted.unshift text).lookAhead = 1 := by
    simp [Reader.unshift, Reader.advance, hidle.lookAhead]
  have hechoing : Echoing target s₁ ((t.meet text).withReader Reader.hold) := by
    refine (h.meetRight text).turn hputs.turns ((Turns.refl _).move rfl)
      (Or.inr ⟨hheld, by simp [Reader.unshift]⟩) ?_ hputs.reckons hnext ?_
    · exact h.together.beside.put hidle hfront text
    · refine .front .held text s.reader.shifted.scope.lines (Or.inr rfl) houter rfl ?_
      rw [List.length_append]
      exact hfront'
  have hwaits : 0 < s₁.reader.lookAhead ∧ s₁.reader.head? = some text := by
    rw [hputs.turns.reader]
    refine ⟨by omega, ?_⟩
    simp [Reader.head?, Reader.unshift, Reader.shown, Reader.advance, hidle.shifted.plain]
  cases fuel with
  -- without fuel no line is found
  | zero => cases hrun
  -- the line that was put is the one that is shown
  | succ fuel =>
    rw [peekLine_of_held fuel hwaits.1, hwaits.2] at hrun
    rcases Prod.mk.inj (Except.ok.inj hrun) with ⟨rfl, rfl⟩
    refine Or.inr (Or.inl ⟨_, ?_, hechoing⟩)
    rw [peekLine_of_cons _ hidle' hfront', glance_of_plain (Or.inr ⟨hskip', hputs.plain⟩)]
    rfl

/-- The first session has an empty line where the second one is at its end. -/
theorem ends_blank (h : Echoing target s t) (hidle : s.reader.Idle) {rest : List String}
    (hfront : s.reader.scope.lines = "" :: rest) (hreckons : s.Reckons .raw target)
    (houter : t.reader.outer = []) (hlines : t.reader.scope.lines = []) {fuel : Nat}
    {a : Option String} (hrun : (s.glance "").resume fuel = .ok (a, s')) :
    EndsEcho target a s' (t.peekLine (fuel + 1)) := by
  have hidle' : t.reader.Idle := h.together.beside.idle hidle
  rcases hreckons.blank hidle hfront with ⟨s₁, hg, hturns, hheld, hhead, hsteady⟩
  rw [hg] at hrun
  rcases Prod.mk.inj (Except.ok.inj hrun) with ⟨rfl, rfl⟩
  refine Or.inr (Or.inr ⟨rfl, t, ?_, ?_, hturns.alike (Turns.refl t) h.doc⟩)
  · rw [peekLine_of_nil fuel hidle' hlines, houter]
    rfl
  · exact
      { processors := by rw [hturns.doc]; exact h.together.processors
        steady := hsteady
        reckons := ⟨.held, [""], hheld, Or.inr ⟨rfl, hhead⟩⟩
        contents := ⟨[], by rw [hturns.contents, h.together.contents, List.append_nil], by simp⟩
        ended := ⟨hidle', hlines, houter⟩ }

/-- The first session looks at a line in its place. -/
theorem peekLine_raw {fuel : Nat}
    (hpeek : ∀ s t a s', Echoing target s t → s.peekLine fuel = .ok (a, s') →
      EndsEcho target a s' (t.peekLine fuel))
    (h : Echoing target s t) (hidle : s.reader.Idle) {line : String} {rest : List String}
    (hfront : s.reader.scope.lines = line :: rest) {lines : List String}
    (hreckons : s.Reckons .raw lines) (hbegins : lines <+: target) (houter : t.reader.outer = [])
    (hlines : t.reader.scope.lines = target.drop lines.length) {a : Option String}
    (hrun : ((s.meet line).glance line).resume fuel = .ok (a, s')) :
    EndsEcho target a s' (t.peekLine (fuel + 1)) := by
  have hmet := h.meetLeft line
  have hidleMet : (s.meet line).reader.Idle := hidle
  have hidle' : t.reader.Idle := h.together.beside.idle hidle
  have hlook : Look (s.meet line) line ((s.meet line).glance line) :=
    look_glance hidle.lookAhead hfront
  rcases (hreckons.meet line).look_raw target hmet.together.processors hidleMet hfront
    hlook with hdeparts | ⟨s₁, r, es, hg, hfollows⟩ | ⟨hskip, s₁, text, es, hg, hputs, hleads⟩ |
    ⟨hnot, hleads⟩
  · -- the first session departs
    exact Or.inl ((harmless_departs target).reading.resume_ends hidleMet hfront hlook hdeparts.ends
      hrun)
  · -- the second session has the lines of the include in front
    rw [hg] at hrun
    exact (hpeek s₁ t a s' (hmet.turnAlone hfollows.turns hidleMet hfollows.idle
      hfollows.conditionals hfollows.skipping hfollows.place hfollows.reckons hbegins houter hlines)
      hrun).mono
  · -- one line comes in the place of the directive
    rw [hg] at hrun
    rcases hleads.next hbegins with hnext | ⟨-, hempty⟩
    · exact hmet.put hidleMet hfront hskip hputs hnext houter hlines hrun
    · exact absurd hempty hputs.ne
  · rcases hleads.next hbegins with hnext | ⟨rfl, rfl⟩
    · -- both sessions have the line in front
      have hfront' : t.reader.scope.lines = line :: target.drop (lines.length + 1) :=
        hlines.trans (drop_of_concat hnext)
      have hfollowed : ∀ d, LineKind.ofLine line = .directive d → s.reader.skipping = false →
          False := by
        intro d hkind hskip
        have hskip' := hnot d hkind
        rw [reader_meet, hskip] at hskip'
        cases hskip'
      rw [peekLine_of_cons fuel hidle' hfront']
      refine (hmet.meetRight line).resume hpeek hidleMet hfront hfront' (hreckons.meet line)
        (.raw houter hlines) hnext (fun d hkind hskip => (hfollowed d hkind hskip).elim) ?_ hrun
      exact looks_glance framing_eq (hmet.meetRight line).agree
        (fun d hkind hskip => (hfollowed d hkind hskip).elim)
        (.intro hidle.lookAhead hidle'.lookAhead) (.intro ⟨rest, hfront⟩ ⟨_, hfront'⟩)
    · -- no line is left in the second session
      have hend : t.reader.scope.lines = [] := hlines.trans List.drop_length
      exact hmet.ends_blank hidleMet hfront (hreckons.meet "") houter hend hrun

/-- Both sessions look at a text of a conditional, or at a line inside of an include that has no
place. -/
theorem peekLine_both {fuel : Nat}
    (hpeek : ∀ s t a s', Echoing target s t → s.peekLine fuel = .ok (a, s') →
      EndsEcho target a s' (t.peekLine fuel))
    (h : Echoing target s t) (hidle : s.reader.Idle) {line : String} {rest : List String}
    (hfront : s.reader.scope.lines = line :: rest) {v : View} {lines : List String}
    (hreckons : s.Reckons v lines) (hbegins : lines <+: target)
    (hmirror : s.reader.Mirror target lines.length t.reader v) (hview : v = .text ∨ v = .live)
    {a : Option String} (hrun : ((s.meet line).glance line).resume fuel = .ok (a, s')) :
    EndsEcho target a s' (t.peekLine (fuel + 1)) := by
  have hmet := (h.meetLeft line).meetRight line
  have hidleMet : (s.meet line).reader.Idle := hidle
  have hidle' : t.reader.Idle := h.together.beside.idle hidle
  have hlook : Look (s.meet line) line ((s.meet line).glance line) :=
    look_glance hidle.lookAhead hfront
  have hnothing : v.passes [line] = [] := by
    rcases hview with rfl | rfl <;> rfl
  have hraw : v ≠ .raw := by
    rcases hview with rfl | rfl <;> simp
  rcases hmirror.fronts hraw hfront with ⟨rest', hfront'⟩
  by_cases hstrays : v = .text ∧ s.reader.outer ≠ [] ∧ s.reader.skipping = false ∧
      ∃ d, LineKind.ofLine line = .directive d
  · -- the text of a conditional of an included file
    rcases hstrays with ⟨rfl, houter, hskip, d, hkind⟩
    have hdeparts := (hreckons.meet line).look_text target hmet.together.processors
      hidleMet hfront houter hkind hskip hlook
    exact Or.inl ((harmless_departs target).reading.resume_ends hidleMet hfront hlook hdeparts.ends
      hrun)
  · have hhome : ∀ d, LineKind.ofLine line = .directive d → s.reader.skipping = false →
        v = .text → s.reader.outer = [] := by
      intro d hkind hskip htext
      by_contra houter
      exact hstrays ⟨htext, houter, hskip, d, hkind⟩
    rw [peekLine_of_cons fuel hidle' hfront']
    refine hmet.resume hpeek hidleMet hfront hfront' (hreckons.meet line) hmirror
      (by rw [hnothing, List.append_nil]; exact hbegins)
      (fun d hkind hskip => ⟨hview, hhome d hkind hskip⟩) ?_ hrun
    exact looks_glance framing_eq hmet.agree
      (fun d hkind hskip => hmet.alongside hmirror hview (hhome d hkind hskip))
      (.intro hidle.lookAhead hidle'.lookAhead) (.intro ⟨rest, hfront⟩ ⟨rest', hfront'⟩)

/-- A line that waits in the first session waits in the second one. -/
theorem held (h : Echoing target s t) (hlook : 0 < s.reader.lookAhead) :
    ∃ v lines line rest rest', (v = .held ∨ v = .live) ∧ s.Reckons v lines ∧ lines <+: target ∧
      s.reader.Mirror target lines.length t.reader v ∧ s.reader.scope.lines = line :: rest ∧
      t.reader.scope.lines = line :: rest' := by
  rcases h.together.mirror with ⟨v, lines, hreckons, hbegins, hmirror⟩
  have hview : v = .held ∨ v = .live := by
    have hnot : ¬ (v = .raw ∨ v = .text) := by
      intro hview
      have := (Reckoned.idle hreckons hview).lookAhead
      omega
    cases v <;> simp_all
  obtain ⟨line, rest, hfront⟩ := h.steady.exists_front hlook
  have hraw : v ≠ .raw := by
    rcases hview with rfl | rfl <;> simp
  rcases hmirror.fronts hraw hfront with ⟨rest', hfront'⟩
  exact ⟨v, lines, line, rest, rest', hview, hreckons, hbegins, hmirror, hfront, hfront'⟩

/-- A line that is held in the first session is held in the second. -/
theorem head_of_held (h : Echoing target s t) (hlook : 0 < s.reader.lookAhead) :
    t.reader.head? = s.reader.head? := by
  rcases h.held hlook with ⟨v, lines, line, rest, rest', -, -, -, -, hfront, hfront'⟩
  unfold Reader.head? Reader.shown
  rw [hfront, hfront', h.together.beside.unescape]
  rfl

/-- Taking a held line takes the same one in both sessions. -/
theorem takeFront (h : Echoing target s t) (hlook : 0 < s.reader.lookAhead) :
    0 < t.reader.lookAhead ∧ t.takeFront.1 = s.takeFront.1 ∧
      Echoes target s.takeFront.2 t.takeFront.2 := by
  have hlook' : 0 < t.reader.lookAhead := by
    rw [h.together.beside.lookAhead]
    exact hlook
  have hsame : t.takeFront.1 = s.takeFront.1 := by
    rw [takeFront_fst, takeFront_fst, h.head_of_held hlook]
  rcases h.held hlook with
    ⟨v, lines, line, rest, rest', hview, hreckons, hbegins, hmirror, hfront, hfront'⟩
  have hnothing : v.passes [line] = [] := by
    rcases hview with rfl | rfl <;> rfl
  have hmirror' := hmirror.shifted hfront hfront'
  rw [hnothing, List.length_nil, Nat.add_zero] at hmirror'
  refine ⟨hlook', hsame, ?_⟩
  exact
    { processors := by rw [doc_takeFront]; exact h.together.processors
      options := by rw [doc_takeFront, doc_takeFront]; exact h.together.options
      files := by rw [files_takeFront, files_takeFront]; exact h.together.files
      contents := by
        rw [contents_takeFront h.steady hlook, contents_takeFront h.steady' hlook',
          h.together.contents, h.together.beside.skipping, hsame]
      beside := by
        rw [reader_takeFront, reader_takeFront]
        exact h.together.beside.shifted hfront hfront'
      mirror := by
        rw [reader_takeFront, reader_takeFront]
        exact ⟨v.next, lines, hreckons.take h.steady hlook, hbegins, hmirror'⟩ }

/-- At the end of the first session the second one is at its end, unless lines are missing. -/
theorem at_end (h : Echoing target s t) (hidle : s.reader.Idle) (hlines : s.reader.scope.lines = [])
    (houter : s.reader.outer = []) :
    Departs target s ∨ ∀ fuel, t.peekLine (fuel + 1) = .ok (none, t) := by
  rcases h.together.mirror with ⟨v, lines, hreckons, hbegins, hmirror⟩
  cases hmirror with
  | raw houter' hlines' =>
    by_cases hlength : lines.length < target.length
    · exact Or.inl ⟨h.together.processors,
        Or.inr (Or.inr ⟨.raw, lines, hreckons, Or.inr ⟨⟨hidle, hlines, houter⟩, hlength⟩⟩)⟩
    · rw [List.drop_eq_nil_of_le (Nat.le_of_not_lt hlength)] at hlines'
      refine Or.inr fun fuel => ?_
      rw [peekLine_of_nil fuel (h.together.beside.idle hidle) hlines', houter']
      rfl
  | front v text rest hview _ hfront =>
    rw [hlines] at hfront
    cases hfront
  | live inner root root' _ hinner =>
    rw [houter] at hinner
    simp at hinner

/-- A scope ends in the first session. It ends in the second one as well if that is in the same
scopes. -/
theorem leave (h : Echoing target s t) (hidle : s.reader.Idle) (hlines : s.reader.scope.lines = [])
    {scope : Scope} {outer : List Scope} (houter : s.reader.outer = scope :: outer) :
    Echoing target s.leave t ∨ (t.reader.scope.lines = [] ∧ ¬ t.reader.outer.isEmpty = true ∧
      Echoing target s.leave t.leave) := by
  have hleft := turns_leave houter
  have hmoved : ({ s.reader with scope, outer, lookAhead := 0 } : Reader).Idle := ⟨rfl, hidle.plain⟩
  rcases h.together.mirror with ⟨v, lines, hreckons, hbegins, hmirror⟩
  have hreckons' := hreckons.leave hidle hlines houter
  cases v with
  -- the second session has the lines of the include in front, and waits
  | raw =>
    cases hmirror with
    | raw houter' hlines' =>
      left
      refine h.turnAlone hleft hidle hmoved rfl rfl ?_ hreckons' hbegins houter' hlines'
      rw [Reader.home_leave houter]
      exact ⟨rfl, rfl, rfl⟩
    | front _ _ _ hview => simp at hview
  | text | held =>
    -- a line in front cannot be left
    cases hmirror with
    | front _ text rest _ _ hfront =>
      rw [hlines] at hfront
      cases hfront
  -- both sessions leave the same include
  | live =>
    right
    rcases hmirror.leave houter with ⟨scope', outer', houter', hmirror'⟩
    refine ⟨?_, by simp [houter'], ?_⟩
    · cases hmirror with
      | front _ _ _ hview => simp at hview
      | live inner root root' hscope => rw [hscope, hlines]
    · exact h.turn hleft (turns_leave houter') (Or.inl hmoved)
        (h.together.beside.leave houter houter') hreckons' hbegins hmirror'

/-- Looking for a line in the first session and in the one that echoes it ends in the same way,
unless the first one departs or has only empty lines left. -/
theorem peekLine {fuel : Nat} {a : Option String} (h : Echoing target s t)
    (hrun : s.peekLine fuel = .ok (a, s')) : EndsEcho target a s' (t.peekLine fuel) := by
  induction fuel generalizing s t a s' with
  | zero => cases hrun
  | succ fuel ih =>
    rcases peekLine_cases h.steady hrun with ⟨hlook, hfront, rfl, rfl⟩ |
      ⟨hidle, hlines, houter, rfl, rfl⟩ |
      ⟨n, hn, hidle, ⟨hlines, houter, hrest⟩ | ⟨line, rest, hfront, hrest⟩⟩
    · -- a line is held in both sessions
      have hlook' : 0 < t.reader.lookAhead := by
        rw [h.together.beside.lookAhead]
        exact hlook
      refine Or.inr (Or.inl ⟨t, ?_, h⟩)
      rw [peekLine_of_held fuel hlook', h.head_of_held hlook]
    · -- both sessions are at their end
      rcases h.at_end hidle hlines houter with hdeparts | hnone
      · exact Or.inl hdeparts
      · exact Or.inr (Or.inl ⟨t, hnone fuel, h⟩)
    · -- the first session leaves an include
      obtain rfl : fuel = n := by omega
      rcases List.exists_cons_of_ne_nil houter with ⟨scope, outer, hscopes⟩
      rcases h.leave hidle hlines hscopes with hleft | ⟨hlines', houter', hleft⟩
      · exact (ih hleft hrest).mono
      · rw [peekLine_of_nil fuel (h.together.beside.idle hidle) hlines', if_neg houter']
        exact ih hleft hrest
    · obtain rfl : fuel = n := by omega
      -- how the second session goes on depends on where the line in front comes from
      rcases h.together.mirror with ⟨v, lines, hreckons, hbegins, hmirror⟩
      cases v with
      | raw =>
        cases hmirror with
        | raw houter' hlines' =>
          exact h.peekLine_raw (fun _ _ _ _ => ih) hidle hfront hreckons hbegins houter' hlines'
            hrest
        | front _ _ _ hview => simp at hview
      | held =>
        have := hidle.lookAhead.symm.trans (Reckoned.waits hreckons)
        cases this
      | text =>
        exact h.peekLine_both (fun _ _ _ _ => ih) hidle hfront hreckons hbegins hmirror
          (Or.inl rfl) hrest
      | live =>
        exact h.peekLine_both (fun _ _ _ _ => ih) hidle hfront hreckons hbegins hmirror
          (Or.inr rfl) hrest

end Echoing

namespace Outlives

/-- Meeting a line leaves the first session in its blank lines. -/
theorem meet (h : Outlives target s t) (line : String) : Outlives target (s.meet line) t := by
  rcases h.reckons with ⟨v, blanks, hreckons, hview⟩
  refine ⟨h.processors, h.steady, ⟨v, blanks, hreckons.meet line, hview⟩, ?_, h.ended⟩
  rw [contents_meet]
  exact h.contents

/-- A turn of the first session leaves it in its blank lines, if what it reckons stays there. -/
theorem turn (h : Outlives target s t) {r : Reader} {es : List Event} (hs : Turns s r es s')
    (hsteady : s'.reader.Steady) {v : View} {blanks : List String}
    (hreckons : s'.Reckons v (target ++ blanks))
    (hview : v = .raw ∨ v = .held ∧ s'.reader.head? = some "") : Outlives target s' t where
  processors := by
    rw [hs.doc]
    exact h.processors
  steady := hsteady
  reckons := ⟨v, blanks, hreckons, hview⟩
  contents := by
    rw [hs.contents]
    exact h.contents
  ended := h.ended

/-- What is left in the first session is empty, unless it departs. -/
theorem peekLine {fuel : Nat} {a : Option String} (h : Outlives target s t)
    (hrun : s.peekLine fuel = .ok (a, s')) :
    Departs target s' ∨ a.getD "" = "" ∧ Outlives target s' t := by
  induction fuel generalizing s with
  | zero => cases hrun
  | succ fuel ih =>
    rcases h.reckons with ⟨v, blanks, hreckons, hview⟩
    rcases peekLine_cases h.steady hrun with ⟨hlook, hfront, rfl, rfl⟩ |
      ⟨hidle, hlines, houter, rfl, rfl⟩ |
      ⟨n, hn, hidle, hrest⟩
    · rcases hview with rfl | ⟨-, hhead⟩
      · have := (Reckoned.idle hreckons (Or.inl rfl)).lookAhead
        omega
      · -- a line is held, which is blank
        exact Or.inr ⟨by rw [hhead]; rfl, h⟩
    · -- the session is at its end
      exact Or.inr ⟨rfl, h⟩
    · obtain rfl : fuel = n := by omega
      -- a reader that looks for a line holds none
      obtain rfl : v = .raw := by
        rcases hview with rfl | ⟨rfl, -⟩
        · rfl
        · have := hidle.lookAhead.symm.trans (Reckoned.waits hreckons)
          cases this
      rcases hrest with ⟨hlines, houter, hrest⟩ | ⟨line, rest, hfront, hrest⟩
      · -- an include is left
        rcases List.exists_cons_of_ne_nil houter with ⟨scope, outer, hscopes⟩
        exact ih (h.turn (turns_leave hscopes) (Or.inl (idle_leave hidle))
          (hreckons.leave hidle hlines hscopes) (Or.inl rfl)) hrest
      · have hmet := h.meet line
        have hidle' : (s.meet line).reader.Idle := hidle
        have hlook : Look (s.meet line) line ((s.meet line).glance line) :=
          look_glance hidle.lookAhead hfront
        rcases (hreckons.meet line).look_raw target hmet.processors hidle' hfront hlook
          with hdeparts | ⟨s₁, r, es, hg, hfollows⟩ | ⟨-, s₁, text, es, hg, hputs, hleads⟩ |
            ⟨-, hleads⟩
        · exact Or.inl ((harmless_departs target).reading.resume_ends hidle' hfront hlook
            hdeparts.ends hrest)
        · -- an include is entered
          rw [hg] at hrest
          have hidle₁ : s₁.reader.Idle := by
            rw [hfollows.turns.reader]
            exact hfollows.idle
          exact ih (hmet.turn hfollows.turns (Or.inl hidle₁) hfollows.reckons (Or.inl rfl)) hrest
        · -- no line is put, for only blank ones are left
          exact absurd hleads.blank hputs.ne
        · -- one more blank line
          obtain rfl := hleads.blank
          rcases (hreckons.meet "").blank hidle' hfront with
            ⟨s₁, hg, hturns, hheld, hhead, hsteady⟩
          rw [hg] at hrest
          rcases Prod.mk.inj (Except.ok.inj hrest) with ⟨rfl, rfl⟩
          rw [List.append_assoc] at hheld
          exact Or.inr ⟨rfl, hmet.turn hturns hsteady hheld (Or.inr ⟨rfl, hhead⟩)⟩

/-- What is taken from blank lines is blank. -/
theorem takeFront (h : Outlives target s t) (hlook : 0 < s.reader.lookAhead) :
    s.takeFront.1.getD "" = "" ∧ Outlives target s.takeFront.2 t := by
  rcases h.reckons with ⟨v, blanks, hreckons, rfl | ⟨rfl, hhead⟩⟩
  · have := (Reckoned.idle hreckons (Or.inl rfl)).lookAhead
    omega
  · have hempty : s.takeFront.1 = some "" := by rw [takeFront_fst, hhead]
    refine ⟨by rw [hempty]; rfl, ?_⟩
    exact
      { processors := by rw [doc_takeFront]; exact h.processors
        steady := by rw [reader_takeFront]; exact Or.inl (h.steady.idle_shifted hlook)
        reckons := ⟨.raw, blanks, hreckons.take h.steady hlook, Or.inl rfl⟩
        contents := by
          rcases h.contents with ⟨more, hmore, hblank⟩
          rw [contents_takeFront h.steady hlook, hmore, hempty, List.append_assoc]
          refine ⟨_, rfl, ?_⟩
          intro line hline
          rcases List.mem_append.mp hline with hin | hin
          · exact hblank line hin
          · split at hin
            · cases hin
            · simpa using hin
        ended := h.ended }

/-- A session at its end finds no line. -/
theorem exhausted (h : Outlives target s t) (fuel : Nat) :
    t.peekLine (fuel + 1) = .ok (none, t) := by
  rw [peekLine_of_nil fuel h.ended.idle h.ended.lines, h.ended.outer]
  rfl

/-- Editing the documents leaves the first session in its blank lines. -/
theorem edit (h : Outlives target s t) {d d' : Document} (hd : s.doc.Edited d)
    (hd' : t.doc.Edited d') : Outlives target { s with doc := d } { t with doc := d' } := by
  have hr : ({ s with doc := d } : Session).reader = s.reader := hd.reader
  have hr' : ({ t with doc := d' } : Session).reader = t.reader := hd'.reader
  rcases h.reckons with ⟨v, blanks, hreckons, hview⟩
  exact
    { processors := by simp only [hd.options]; exact h.processors
      steady := by rw [hr]; exact h.steady
      reckons := ⟨v, blanks, hreckons.edit hd.reader hd.sourceLines, by rw [hr]; exact hview⟩
      contents := h.contents
      ended := by rw [hr']; exact h.ended }

/-- Logging leaves the first session in its blank lines. -/
theorem log (h : Outlives target s t) (record record' : Log.Record) :
    Outlives target (s.log record) (t.log record') := by
  rcases h.reckons with ⟨v, blanks, hreckons, hview⟩
  exact
    { processors := h.processors
      steady := h.steady
      reckons := ⟨v, blanks, hreckons.log record, hview⟩
      contents := by rw [contents_log, contents_log]; exact h.contents
      ended := h.ended }

end Outlives

namespace Echoes

/-- Editing the documents leaves one session echoing the other. -/
theorem edit (h : Echoes target s t) {d d' : Document} (hd : s.doc.Edited d)
    (hd' : t.doc.Edited d') : Echoes target { s with doc := d } { t with doc := d' } := by
  have hr : ({ s with doc := d } : Session).reader = s.reader := hd.reader
  have hr' : ({ t with doc := d' } : Session).reader = t.reader := hd'.reader
  rcases h.mirror with ⟨v, lines, hreckons, hbegins, hmirror⟩
  exact
    { processors := by simp only [hd.options]; exact h.processors
      options := by simp only [hd.options, hd'.options]; exact h.options
      files := h.files
      contents := h.contents
      beside := by rw [hr, hr']; exact h.beside
      mirror := by
        rw [hr, hr']
        exact ⟨v, lines, hreckons.edit hd.reader hd.sourceLines, hbegins, hmirror⟩ }

/-- Logging leaves one session echoing the other. -/
theorem log (h : Echoes target s t) (record record' : Log.Record) :
    Echoes target (s.log record) (t.log record') := by
  rcases h.mirror with ⟨v, lines, hreckons, hbegins, hmirror⟩
  exact
    { processors := h.processors
      options := h.options
      files := h.files
      contents := by rw [contents_log, contents_log]; exact h.contents
      beside := h.beside
      mirror := ⟨v, lines, hreckons.log record, hbegins, hmirror⟩ }

end Echoes

/-- A scan of the lines that a session yields makes the same of them. -/
theorem simulation_echoes (target : List String) :
    Simulation (Departs target) (Echoes target) (Outlives target) fun _ _ => True where
  lost := harmless_departs target
  peek h hrun := Echoing.peekLine h hrun
  take h hlook :=
    have ⟨hlook', hsame, hechoes⟩ := Echoing.takeFront h hlook
    ⟨hlook', hsame, Or.inr hechoes⟩
  refl _ := trivial
  located _ := trivial
  edit h hd hd' := h.edit hd hd'
  log r r' h := h.log r r'
  steady h := h.steady
  peekApart h hrun := by
    rcases h.peekLine hrun with hdeparts | ⟨hblank, houtlives⟩
    · exact Or.inl hdeparts
    · exact Or.inr ⟨hblank, houtlives, (unmoved_peekLine h.processors h.steady hrun).same⟩
  takeApart h hlook := Or.inr (h.takeFront hlook)
  exhausted {fuel} _ _ h := h.exhausted fuel
  editApart h hd hd' := h.edit hd hd'
  logApart r r' h := h.log r r'

/-! ## Loading what was replayed -/

/-- What a session has yielded at its end is what the replay of its tree gives, up to empty lines. -/
theorem Reckons.replayed {lines : List String} {v : View} (h : s.Reckons v lines)
    (hend : Exhausted s.reader) :
    ∃ blanks, (replay (s.tracker true).tree s.doc.sourceLines).lines ++ blanks = lines ∧
      ∀ line ∈ blanks, line = "" := by
  rcases Reckoned.finish h hend.lines hend.outer with ⟨out, hrecorded, rfl⟩
  rw [hrecorded.replay_lines.1]
  split
  · exact ⟨[], by simp, by simp⟩
  · exact trimEmptyEnd_append _

/-- A document whose conditionals are left as they are reads the same when the replayed lines are
loaded. -/
theorem load_replayed {fuel : Nat} {files : FileTree} {source : Source} {o : LoadOptions}
    {s : Session} (h : load fuel files source o = .ok s) (hprocessors : o.processors = [])
    (hkept : NoneKept s.journal.events) (hstrays : ¬ (s.tracker true).tree.Strayed s.doc.sourceLines)
    {source' : Source}
    (hsource : source'.prepare = (replay (s.tracker true).tree s.doc.sourceLines).lines) :
    ∃ t, load fuel files source' o = .ok t ∧
      (∃ blanks, s.contents = t.contents ++ blanks ∧ ∀ line ∈ blanks, line = "") ∧
      s.doc.AlikeButEnd (fun _ _ => True) t.doc := by
  generalize htarget : (replay (s.tracker true).tree s.doc.sourceLines).lines = target at hsource
  rcases load_eq_ok.mp h with ⟨s₀, hopen, hscan⟩
  rcases openSource_eq_ok.mp hopen with ⟨mode, hmode, rfl⟩
  have hopen' := openSource_of_mode hmode files source'
  have hidle : (start files (.initial files.workingDir source o mode)).reader.Idle := ⟨rfl, rfl⟩
  have hechoing : Echoing target (start files (.initial files.workingDir source o mode))
      (start files (.initial files.workingDir source' o mode)) := by
    refine ⟨Or.inl hidle, Or.inl ⟨rfl, rfl⟩, ?_, ⟨rfl, rfl, rfl, rfl, rfl, .nil⟩⟩
    exact
      { processors := hprocessors
        options := rfl
        files := rfl
        contents := rfl
        beside := ⟨rfl, rfl, rfl, rfl, ⟨rfl, rfl, rfl⟩⟩
        mirror := ⟨.raw, [], reckoned_start _ _ _ _, List.nil_prefix, .raw rfl hsource⟩ }
  rcases scan_abreast (simulation_echoes target) hechoing hscan with hdeparts | ⟨t, ht, hend⟩
  · -- the session has yielded the lines that it has yielded
    exfalso
    have hexhausted := exhausted_load h
    rcases hdeparts.departs with hnone | hstrayed | ⟨v, lines, hreckons, hnot⟩
    · exact hnone hkept
    · exact hstrays hstrayed
    · rcases hreckons.replayed hexhausted with ⟨blanks, hlines, hblank⟩
      rw [htarget] at hlines
      rcases hnot with hnot | ⟨-, hlength⟩
      · exact hnot (Or.inr ⟨blanks, hlines.symm, hblank⟩)
      · rw [← hlines, List.length_append] at hlength
        omega
  · refine ⟨t, load_eq_ok.mpr ⟨_, hopen', ht⟩, ?_⟩
    rcases hend with hjoined | ⟨houtlives, hdocs⟩
    · exact ⟨⟨[], by simpa using hjoined.together.contents.symm, by simp⟩, hjoined.doc.butEnd⟩
    · exact ⟨houtlives.contents, hdocs⟩

end Session

/-- What a reduction that leaves conditionals as they are returns is what was replayed. -/
theorem sourceLines_preserved {fuel : Nat} {files : FileTree} {source : Source} {o : LoadOptions}
    {s : Session} {reduced : Logged Document} (h : Session.load fuel files source o = .ok s)
    (hreduce : reduce fuel files source o { preserveConditionals := true } = .ok reduced)
    (hneat : ∀ line ∈ (replay (s.tracker true).tree s.doc.sourceLines).lines,
      stripEnd line = line) :
    reduced.value.sourceLines = (replay (s.tracker true).tree s.doc.sourceLines).lines := by
  have hfinish : ((s.tracker true).finish s.doc.sourceLines.length).tree = (s.tracker true).tree := by
    rw [Tracker.finish_preserve s.preserve_tracker]
  rcases reduce_tree_cases h hreduce with ⟨d, hvalue, ⟨-, hd⟩ | ⟨-, t, hload, hd⟩⟩
  · rw [hvalue, hd]
    exact congrArg (fun t => (replay t s.doc.sourceLines).lines) hfinish
  · have hlines : t.doc.sourceLines = _ := (Session.load_reads hload).1
    rw [hvalue, hd]
    change t.doc.sourceLines = _
    rw [hlines]
    simp only [hfinish]
    exact List.map_congr_left hneat |>.trans (List.map_id _)

/-- A document reads the same once it was reduced with its conditionals left as they are: its lines
outside of skipped regions are delivered again, up to empty ones at the end, and its attributes end
up the same, as do its blocks. This asks that no include was kept by the limit of nested includes,
that no include in the text of a conditional of an included file finds no place, and that no line
ends in white space. -/
theorem preserved_reads_again {fuel : Nat} {files : FileTree} {source : Source} {o : LoadOptions}
    {s : Session} (h : Session.load fuel files source o = .ok s) (hprocessors : o.processors = [])
    (hkept : NoneKept s.journal.events)
    (hstrays : ¬ (s.tracker true).tree.Strayed s.doc.sourceLines)
    (hneat : ∀ line ∈ (replay (s.tracker true).tree s.doc.sourceLines).lines,
      stripEnd line = line) :
    (o.sourcemap = false →
      ∃ reduced, reduce fuel files source o { preserveConditionals := true } = .ok reduced) ∧
    ∀ reduced, reduce fuel files source o { preserveConditionals := true } = .ok reduced →
      ∃ t, Session.load fuel files (.lines reduced.value.sourceLines) o = .ok t ∧
        (∃ blanks, s.contents = t.contents ++ blanks ∧ ∀ line ∈ blanks, line = "") ∧
        t.doc.attributes = s.doc.attributes ∧ s.doc.AlikeButEnd (fun _ _ => True) t.doc := by
  constructor
  · intro hsourcemap
    exact reduce_of_not_sourcemap _ h hsourcemap
  · intro reduced hreduce
    have hlines := sourceLines_preserved h hreduce hneat
    have hsource : (Source.lines reduced.value.sourceLines).prepare =
        (replay (s.tracker true).tree s.doc.sourceLines).lines := by
      rw [hlines]
      exact (List.map_congr_left hneat).trans (List.map_id _)
    -- the replayed lines are loaded again
    rcases Session.load_replayed h hprocessors hkept hstrays hsource with
      ⟨t, ht, hcontents, hdocs⟩
    exact ⟨t, ht, hcontents, hdocs.attributes, hdocs⟩

/-- A file in the working directory, and one below it with a region that is skipped. -/
def regionFiles : FileTree where
  workingDir := ["w"]
  entries := [(["w"], .directory), (["w", "b.adoc"], .file (.text "b\n") 0), (["w", "sub"], .directory),
    (["w", "sub", "a.adoc"], .file (.text "ifdef::x[]\nhidden\nendif::[]\na\n") 0)]
  clock := 1

/-- A document that includes both, one of them by the text of a conditional. -/
def regionSource : Source :=
  .lines ["include::sub/a.adoc[]", "ifndef::x[include::b.adoc[]]", "last"]

/-- An included file with a region that is skipped, and an include as the text of a conditional of
the document. -/
theorem preserved_reads_again_included :
    ∃ s reduced t,
      Session.load 20 regionFiles regionSource {} = .ok s ∧
      NoneKept s.journal.events ∧ ¬ (s.tracker true).tree.Strayed s.doc.sourceLines ∧
      (∀ line ∈ (replay (s.tracker true).tree s.doc.sourceLines).lines, stripEnd line = line) ∧
      reduce 20 regionFiles regionSource {} { preserveConditionals := true } = .ok reduced ∧
      reduced.value.sourceLines =
        ["ifdef::x[]", "hidden", "endif::[]", "a", "ifndef::x[include::b.adoc[]]", "last"] ∧
      Session.load 20 regionFiles (.lines reduced.value.sourceLines) {} = .ok t ∧
      s.contents = ["a", "b", "last"] ∧
      (∃ blanks, s.contents = t.contents ++ blanks ∧ ∀ line ∈ blanks, line = "") ∧
      t.doc.attributes = s.doc.attributes ∧ s.doc.AlikeButEnd (fun _ _ => True) t.doc := by
  have hload : ∃ s ∈ (Session.load 20 regionFiles regionSource {}).toOption,
      NoneKept s.journal.events ∧ ¬ (s.tracker true).tree.Strayed s.doc.sourceLines ∧
        (∀ line ∈ (replay (s.tracker true).tree s.doc.sourceLines).lines, stripEnd line = line) ∧
        s.contents = ["a", "b", "last"] := by
    decide +kernel
  have hreduce : ∃ reduced ∈ (reduce 20 regionFiles regionSource {}
        { preserveConditionals := true }).toOption,
      reduced.value.sourceLines =
        ["ifdef::x[]", "hidden", "endif::[]", "a", "ifndef::x[include::b.adoc[]]", "last"] := by
    decide +kernel
  rcases hload with ⟨s, hs, hkept, hstrays, hneat, hcontents⟩
  rcases hreduce with ⟨reduced, hr, hlines⟩
  have hs' := eq_ok_of_mem_toOption hs
  have hr' := eq_ok_of_mem_toOption hr
  rcases (preserved_reads_again hs' rfl hkept hstrays hneat).2 reduced hr' with ⟨t, ht, hsame⟩
  exact ⟨s, reduced, t, hs', hkept, hstrays, hneat, hr', hlines, ht, hcontents, hsame⟩

/-- Two files below the working directory, one of which includes the other by the text of a
conditional. -/
def strayFiles : FileTree where
  workingDir := ["w"]
  entries := [(["w"], .directory), (["w", "sub"], .directory),
    (["w", "sub", "a.adoc"], .file (.text "ifdef::flag[include::b.adoc[]]\n") 0),
    (["w", "sub", "b.adoc"], .file (.text "b\n") 0)]
  clock := 1

/-- An include that is the text of a conditional in a file of another directory is not found when
the reduced lines are loaded; and the entry of an empty level offset ends in a blank, which loading
takes off. -/
theorem preserved_reads_otherwise :
    (∃ s ∈ (Session.load 20 strayFiles (.lines ["include::sub/a.adoc[]"])
        { attributes := .words "flag" }).toOption,
      s.contents = ["b"] ∧
      ∃ reduced ∈ (reduce 20 strayFiles (.lines ["include::sub/a.adoc[]"])
        { attributes := .words "flag" } { preserveConditionals := true }).toOption,
      ∃ t ∈ (Session.load 20 strayFiles (.lines reduced.value.sourceLines)
        { attributes := .words "flag" }).toOption,
      t.contents = ["Unresolved directive in <stdin> - include::b.adoc[]"]) ∧
    ∃ s ∈ (Session.load 20 (.ofTexts [("a.adoc", "a\n")])
        (.lines ["include::a.adoc[leveloffset=]", "last"]) {}).toOption,
      s.contents = [":leveloffset: ", "", "a", "", ":leveloffset!:", "last"] ∧
      ∃ reduced ∈ (reduce 20 (.ofTexts [("a.adoc", "a\n")])
          (.lines ["include::a.adoc[leveloffset=]", "last"]) {}
          { preserveConditionals := true }).toOption,
        ∃ t ∈ (Session.load 20 (.ofTexts [("a.adoc", "a\n")]) (.lines reduced.value.sourceLines)
            {}).toOption,
          t.contents = [":leveloffset:", "", "a", "", ":leveloffset!:", "last"] := by
  decide +kernel

end DocFlatten
