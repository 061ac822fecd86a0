import DocFlatten.Proofs.Resolving

/-! # What a look does

`Session.glance` decides on the line in front by its kind. Here its outcomes are told apart once,
with what each one does to the reader and which events it reports, so that no later proof opens it:

* `glance_of_plain`, `glance_of_escaped`, `glance_passed`, `glance_conditional` and
  `glance_directive`: the look at a line of each kind;
* `Looks`: the outcomes of a look in two sessions that agree (`looks_glance`);
* `Look`: those in one session (`look_glance`);
* `takeWith_cases`: taking the line that was looked for;
* `Kept`: a property that every step of reading keeps, and so every reading
  (`Kept.peekLine`, `Kept.readLine`).
-/

namespace DocFlatten

open DocFlatten.Text

/-! ## One look -/

/-- Whether a line is passed over inside a false conditional. -/
def isPassedOver (line : String) : Bool :=
  line != "" && match LineKind.ofLine line with
    | .conditional _ | .escapedConditional => false
    | _ => true

namespace Session

section

variable {s : Session} {line : String}

/-- A line that is content is shown as it is. -/
theorem glance_of_plain
    (h : line = "" ∨ s.reader.skipping = false ∧ LineKind.ofLine line = .plain) :
    s.glance line = .line line (s.withReader Reader.hold) := by
  unfold glance
  rcases h with rfl | ⟨hskip, hplain⟩
  · rfl
  · rw [hplain, hskip]
    simp

/-- Content behind a backslash is shown without it. -/
theorem glance_of_escaped (h : LineKind.ofLine line = .escapedConditional ∨
      s.reader.skipping = false ∧ LineKind.ofLine line = .escapedInclude) :
    s.glance line = s.showEscaped line := by
  have hne : line ≠ "" := by
    rintro rfl
    rw [LineKind.ofLine_empty] at h
    simp at h
  unfold glance
  rw [if_neg (by simpa using hne)]
  rcases h with hkind | ⟨hskip, hkind⟩
  · rw [hkind]
  · simp only [hkind, hskip, Bool.false_eq_true, if_false]

/-- Inside a false conditional most lines are passed over. -/
theorem glance_passed (hskip : s.reader.skipping = true) (hline : isPassedOver line = true) :
    s.glance line = .again (s.withReader Reader.shifted) := by
  unfold isPassedOver at hline
  unfold glance
  by_cases hblank : line = ""
  · simp [hblank] at hline
  · rw [if_neg (by simpa using hblank)]
    cases hkind : LineKind.ofLine line with
    | conditional c => simp [hkind] at hline
    | escapedConditional => simp [hkind] at hline
    | plain | escapedInclude | directive i => simp only [hskip, if_true]

/-- A conditional is processed in any case. -/
theorem glance_conditional {c : Conditional} (hline : LineKind.ofLine line = .conditional c) :
    s.glance line = .again (s.processConditional c) := by
  have hne : line ≠ "" := by
    rintro rfl
    rw [LineKind.ofLine_empty] at hline
    cases hline
  unfold glance
  rw [if_neg (by simpa using hne)]
  simp only [hline]

/-- A directive outside of skipped regions is processed. -/
theorem glance_directive {i : Include} (hkind : LineKind.ofLine line = .directive i)
    (hskip : s.reader.skipping = false) : s.glance line = s.processInclude line i := by
  have hne : line ≠ "" := by
    rintro rfl
    rw [LineKind.ofLine_empty] at hkind
    cases hkind
  unfold glance
  rw [if_neg (by simpa using hne)]
  simp only [hkind, hskip, Bool.false_eq_true, if_false]

end

/-- The outcomes of a look at a line. -/
inductive Look (s : Session) (line : String) : Glance → Prop where
  | plain (s' : Session) (h : Turns s s.reader.hold [] s')
      (hline : line = "" ∨ s.reader.skipping = false ∧ LineKind.ofLine line = .plain) :
    Look s line (.line line s')
  | escaped (s' : Session) (h : Turns s { s.reader.hold with unescape := true } [] s')
      (hne : line ≠ "")
      (hline : LineKind.ofLine line = .escapedConditional ∨
        s.reader.skipping = false ∧ LineKind.ofLine line = .escapedInclude) :
    Look s line (.line (Reader.dropFirst line) s')
  | passed (s' : Session) (hskip : s.reader.skipping = true) (hline : isPassedOver line = true)
      (h : Turns s s.reader.shifted [] s') : Look s line (.again s')
  | conditional (c : Conditional) (consumed : Bool) (r : Reader) (s' : Session)
      (hline : LineKind.ofLine line = .conditional c) (hne : line ≠ "")
      (hruled : Ruled s.reader c consumed r)
      (h : Turns s (if consumed then r.shifted else r) [c.event s.reader r consumed] s') :
    Look s line (.again s')
  | kept (i : Include) (s' : Session) (hline : LineKind.ofLine line = .directive i)
      (hskip : s.reader.skipping = false) (hresolve : (s.resolve i).1 = .kept)
      (h : Turns s s.reader.hold
        [s.reader.found i, .includeResolved (.replaced i.line s.reader.includeDepth)] s') :
    Look s line (.line line s')
  | followed (i : Include) (es : List Event) (r : Reader) (s' : Session)
      (hline : LineKind.ofLine line = .directive i) (hskip : s.reader.skipping = false)
      (hfollowed : Followed s.reader i es r) (h : Turns s r es s') : Look s line (.again s')
  | handed (i : Include) (processor : Processor) (target : String) (attributes : Attributes)
      (s' : Session) (hline : LineKind.ofLine line = .directive i)
      (hskip : s.reader.skipping = false)
      (hresolve : (s.resolve i).1 = .handed processor target attributes)
      (h : Turns s s.reader.shifted [s.reader.found i] s') :
    Look s line (.hand (processor.actions target attributes) s.reader.includeDepth s')
  | refused (i : Include) (e : FileError) (s' : Session)
      (hline : LineKind.ofLine line = .directive i) (hskip : s.reader.skipping = false)
      (hresolve : (s.resolve i).1 = .refused e) (h : Turns s s.reader [s.reader.found i] s') :
    Look s line (.refused e s')

/-- The outcomes of a look at the same line in two sessions in which it means the same, except for
what is entered. -/
inductive Looks (R : Cursor → List String → List String → Prop) (s t : Session) (line : String) :
    Glance → Glance → Prop where
  | plain (s' t' : Session) (hs : Turns s s.reader.hold [] s') (ht : Turns t t.reader.hold [] t')
      (hline : line = "" ∨ s.reader.skipping = false ∧ LineKind.ofLine line = .plain) :
    Looks R s t line (.line line s') (.line line t')
  | escaped (s' t' : Session) (hs : Turns s { s.reader.hold with unescape := true } [] s')
      (ht : Turns t { t.reader.hold with unescape := true } [] t') (hne : line ≠ "")
      (hline : LineKind.ofLine line = .escapedConditional ∨
        s.reader.skipping = false ∧ LineKind.ofLine line = .escapedInclude) :
    Looks R s t line (.line (Reader.dropFirst line) s') (.line (Reader.dropFirst line) t')
  | passed (s' t' : Session) (hskip : s.reader.skipping = true)
      (hline : isPassedOver line = true) (hs : Turns s s.reader.shifted [] s')
      (ht : Turns t t.reader.shifted [] t') : Looks R s t line (.again s') (.again t')
  | conditional (c : Conditional) (consumed : Bool) (ruling : Ruling) (s' t' : Session)
      (hline : LineKind.ofLine line = .conditional c) (hne : line ≠ "")
      (hfits : ruling.Fits c consumed)
      (hruled : Both s t fun u => Ruled u.reader c consumed (ruling.apply u.reader))
      (hs : Turns s (if consumed then (ruling.apply s.reader).shifted else ruling.apply s.reader)
        [c.event s.reader (ruling.apply s.reader) consumed] s')
      (ht : Turns t (if consumed then (ruling.apply t.reader).shifted else ruling.apply t.reader)
        [c.event t.reader (ruling.apply t.reader) consumed] t') :
    Looks R s t line (.again s') (.again t')
  | kept (i : Include) (s' t' : Session) (hline : LineKind.ofLine line = .directive i)
      (hskip : s.reader.skipping = false) (hresolve : (s.resolve i).1 = .kept)
      (hs : Turns s s.reader.hold
        [s.reader.found i, .includeResolved (.replaced i.line s.reader.includeDepth)] s')
      (ht : Turns t t.reader.hold
        [t.reader.found i, .includeResolved (.replaced i.line t.reader.includeDepth)] t') :
    Looks R s t line (.line line s') (.line line t')
  | followed (i : Include) (way way' : Way) (es es' : List Event) (s' t' : Session)
      (hline : LineKind.ofLine line = .directive i) (hskip : s.reader.skipping = false)
      (hs : way.Reported s.reader i es) (hs' : Turns s (way.apply s.reader) es s')
      (ht : way'.Reported t.reader i es') (ht' : Turns t (way'.apply t.reader) es' t')
      (hway : Way.Alike R way way') :
    Looks R s t line (.again s') (.again t')
  | handed (i : Include) (processor : Processor) (target : String) (attributes : Attributes)
      (s' t' : Session) (hline : LineKind.ofLine line = .directive i)
      (hskip : s.reader.skipping = false)
      (hresolve : (s.resolve i).1 = .handed processor target attributes)
      (hs : Turns s s.reader.shifted [s.reader.found i] s')
      (ht : Turns t t.reader.shifted [t.reader.found i] t') :
    Looks R s t line (.hand (processor.actions target attributes) s.reader.includeDepth s')
      (.hand (processor.actions target attributes) t.reader.includeDepth t')
  | refused (i : Include) (e : FileError) (s' t' : Session)
      (hline : LineKind.ofLine line = .directive i) (hskip : s.reader.skipping = false)
      (hresolve : (s.resolve i).1 = .refused e) (hs : Turns s s.reader [s.reader.found i] s')
      (ht : Turns t t.reader [t.reader.found i] t') :
    Looks R s t line (.refused e s') (.refused e t')

/-- Only the looks of the first session are forgotten. -/
theorem Looks.left {R : Cursor → List String → List String → Prop} {s t : Session}
    {line : String} {g g' : Glance} (h : Looks R s t line g g') : Look s line g := by
  cases h with
  | plain s' t' hs ht hline => exact .plain s' hs hline
  | escaped s' t' hs ht hne hline => exact .escaped s' hs hne hline
  | passed s' t' hskip hline hs ht => exact .passed s' hskip hline hs
  | conditional c consumed ruling s' t' hline hne hfits hruled hs ht =>
    exact .conditional c consumed _ s' hline hne hruled.left hs
  | kept i s' t' hline hskip hresolve hs ht => exact .kept i s' hline hskip hresolve hs
  | followed i way way' es es' s' t' hline hskip hs hs' =>
    exact .followed i es _ s' hline hskip hs.followed hs'
  | handed i processor target attributes s' t' hline hskip hresolve hs ht =>
    exact .handed i processor target attributes s' hline hskip hresolve hs
  | refused i e s' t' hline hskip hresolve hs ht => exact .refused i e s' hline hskip hresolve hs

/-- An empty line or one of content is no directive. -/
theorem ne_directive_of_plain {P : Prop} {line : String}
    (h : line = "" ∨ P ∧ LineKind.ofLine line = .plain) (i : Include) :
    LineKind.ofLine line ≠ .directive i := by
  intro hdirective
  rcases h with rfl | ⟨-, hplain⟩
  · rw [LineKind.ofLine_empty] at hdirective
    cases hdirective
  · rw [hplain] at hdirective
    cases hdirective

/-- An escaped line is no directive. -/
theorem ne_directive_of_escaped {P : Prop} {line : String}
    (h : LineKind.ofLine line = .escapedConditional ∨ P ∧ LineKind.ofLine line = .escapedInclude)
    (i : Include) : LineKind.ofLine line ≠ .directive i := by
  intro hdirective
  rcases h with hescaped | ⟨-, hescaped⟩
  · rw [hescaped] at hdirective
    cases hdirective
  · rw [hescaped] at hdirective
    cases hdirective

/-- What an include directive leads to in one session. -/
theorem turns_processInclude (s : Session) (i : Include) (records : List Log.Record) :
    Turns s s.reader [s.reader.found i] ((s.report (s.reader.found i)).logAll records) ∧
      Turns s s.reader.shifted [s.reader.found i]
        (((s.report (s.reader.found i)).logAll records).withReader Reader.shifted) := by
  have hlogged := ((Turns.refl s).report (s.reader.found i)).logAll records
  exact ⟨hlogged, hlogged.move rfl⟩

/-- Content that is entered in two sessions in which it means the same is entered in both, or in
neither. -/
theorem ways_enter {R : Cursor → List String → List String → Prop} (hR : Framing R)
    {s t s₁ t₁ : Session} {i : Include} (h : Alongside R s t)
    (hlook : Both s t fun u => u.reader.lookAhead = 0)
    (hs : Turns s s.reader.shifted [s.reader.found i] s₁)
    (ht : Turns t t.reader.shifted [t.reader.found i] t₁) {content content' : Source}
    {path : String} (shownPath : String) {lineno : Int} (attributes : Attributes)
    (hpath : path ≠ "")
    (hcontent : ∀ cursor : Cursor, cursor.file = some path → cursor.lineno = lineno →
      R cursor content.prepare content'.prepare) :
    let s₂ := s₁.enter content (some path) (some shownPath) lineno attributes
    let t₂ := t₁.enter content' (some path) (some shownPath) lineno attributes
    ∃ way way' es es', way.Reported s.reader i es ∧
      Turns s (way.apply s.reader) es
        (s₂.report (.includeResolved (s₂.outcomeFrom s.reader.includeDepth))) ∧
      way'.Reported t.reader i es' ∧
      Turns t (way'.apply t.reader) es'
        (t₂.report (.includeResolved (t₂.outcomeFrom t.reader.includeDepth))) ∧
      Way.Alike R way way' := by
  have hplace := samePlace_shifted_congr h.place
  rw [← hs.reader, ← ht.reader] at hplace
  have hattributes := h.attributes
  rw [← hs.attributes, ← ht.attributes] at hattributes
  have hscope : R (scopeCursor s₁.reader.cursor (some path) (some shownPath) lineno)
      content.prepare content'.prepare := by
    rcases scopeCursor_of_file s₁.reader.cursor hpath (some shownPath) lineno with
      ⟨hfile, hline⟩
    exact hcontent _ hfile hline
  rcases enter_abreast hR hattributes hplace attributes hscope with
    ⟨hsempty, htempty⟩ | ⟨lines, lines', cursor, frame, hlines, hlines', hR', hsfull, htfull⟩
  · -- the file is empty, or its lines are all left out: nothing is entered on either side
    rcases followed_of_empty hlook.left hs hsempty with ⟨es, hsgone, hsturns⟩
    rcases followed_of_empty hlook.right ht htempty with ⟨es', htgone, htturns⟩
    exact ⟨.empty, .empty, es, es', hsgone, hsturns, htgone, htturns, .empty⟩
  · -- the file is entered on both sides
    rcases followed_of_full hs hlines hsfull with ⟨es, hsin, hsturns⟩
    rcases followed_of_full ht hlines' htfull with ⟨es', htin, htturns⟩
    exact ⟨_, _, es, es', hsin, hsturns, htin, htturns, .entered lines lines' cursor frame hR'⟩

/-- An include directive leads both sessions the same way. -/
theorem looks_processInclude {R : Cursor → List String → List String → Prop} (hR : Framing R)
    {s t : Session} {line : String} {i : Include} (h : Alongside R s t)
    (hlook : Both s t fun u => u.reader.lookAhead = 0)
    (hfront : Both s t fun u => ∃ rest, u.reader.scope.lines = line :: rest)
    (hline : LineKind.ofLine line = .directive i) (hskip : s.reader.skipping = false) :
    Looks R s t line (s.processInclude line i) (t.processInclude line i) := by
  have hnone : ∀ depth : Nat, AreEnds depth [] := fun depth e he => by cases he
  have hresolve := h.resolve i
  unfold processInclude
  cases hs : s.resolve i with
  | mk resolution records =>
    cases ht : t.resolve i with
    | mk resolution' records' =>
      rw [hs, ht] at hresolve
      rcases turns_processInclude s i records with ⟨hsfound, hstaken⟩
      rcases turns_processInclude t i records' with ⟨htfound, httaken⟩
      simp only at hresolve ⊢
      -- the directive resolves alike in both sessions, so both go the same way
      cases hresolve with
      | kept =>
        exact .kept i _ _ hline hskip (by rw [hs]) ((hsfound.report _).move rfl)
          ((htfound.report _).move rfl)
      | vanished =>
        exact .followed i .vanished .vanished _ _ _ _ hline hskip
          (.vanished [] (hnone _)) (hstaken.report _) (.vanished [] (hnone _)) (httaken.report _)
          .vanished
      | replaced text hplain hne =>
        rcases hfront.left with ⟨rest, hrest⟩
        rcases hfront.right with ⟨rest', hrest'⟩
        exact .followed i (.replaced text) (.replaced text) _ _ _ _ hline hskip
          (.replaced text hplain hne)
          ((hsfound.move (replaceNext_of_lines text hrest)).report _) (.replaced text hplain hne)
          ((htfound.move (replaceNext_of_lines text hrest')).report _) (.replaced text)
      | entered selection selection' path shownPath attributes hpath hlineno hpartial hcontent =>
        -- the content is entered once the directive is behind and the file is registered
        have hsenter := (hsfound.register shownPath selection.isPartial).move
          (f := Reader.shifted) rfl
        have htenter := (htfound.register shownPath selection'.isPartial).move
          (f := Reader.shifted) rfl
        change Looks R s t line (.again _) (.again _)
        rw [hlineno]
        obtain ⟨way, way', es, es', hsway, hsturns, htway, htturns, hways⟩ :=
          ways_enter hR h hlook hsenter htenter shownPath attributes hpath hcontent
        exact .followed i way way' es es' _ _ hline hskip hsway hsturns htway htturns hways
      | handed processor target attributes =>
        exact .handed i processor target attributes _ _ hline hskip (by rw [hs]) hstaken httaken
      | refused e => exact .refused i e _ _ hline hskip (by rw [hs]) hsfound htfound

/-- A look at the same line has the same outcome in two sessions in which it means the same. -/
theorem looks_glance {R : Cursor → List String → List String → Prop} (hR : Framing R)
    {s t : Session} {line : String} (h : Agree s t)
    (hinclude : ∀ i, LineKind.ofLine line = .directive i → s.reader.skipping = false →
      Alongside R s t)
    (hlook : Both s t fun u => u.reader.lookAhead = 0)
    (hfront : Both s t fun u => ∃ rest, u.reader.scope.lines = line :: rest) :
    Looks R s t line (s.glance line) (t.glance line) := by
  have hheld : ∀ u : Session, Turns u u.reader.hold [] (u.withReader Reader.hold) := fun u =>
    (Turns.refl u).move rfl
  have hescaped : ∀ u : Session, Turns u { u.reader.hold with unescape := true } []
      (u.withReader fun r => { r.hold with unescape := true }) := fun u => (Turns.refl u).move rfl
  by_cases hblank : line = ""
  · rw [glance_of_plain (Or.inl hblank), glance_of_plain (Or.inl hblank)]
    exact .plain _ _ (hheld s) (hheld t) (Or.inl hblank)
  · cases hkind : LineKind.ofLine line with
    | conditional c =>
      rcases processConditional_abreast h c with ⟨consumed, ruling, hfits, hboth⟩
      rw [glance_conditional hkind, glance_conditional hkind]
      exact .conditional c consumed ruling _ _ hkind hblank hfits
        (.intro hboth.left.1 hboth.right.1) hboth.left.2 hboth.right.2
    | escapedConditional =>
      rw [glance_of_escaped (Or.inl hkind), glance_of_escaped (Or.inl hkind)]
      exact .escaped _ _ (hescaped s) (hescaped t) hblank (Or.inl hkind)
    | plain | escapedInclude | directive i =>
      cases hskip : s.reader.skipping with
      | true =>
        have hpassed : isPassedOver line = true := by simp [isPassedOver, hblank, hkind]
        rw [glance_passed hskip hpassed, glance_passed (h.skipping.trans hskip) hpassed]
        exact .passed _ _ hskip hpassed ((Turns.refl s).move rfl) ((Turns.refl t).move rfl)
      | false =>
        have hskip' := h.skipping.trans hskip
        -- outside of false conditionals each of these kinds has its own outcome
        first
          | rw [glance_of_plain (Or.inr ⟨hskip, hkind⟩), glance_of_plain (Or.inr ⟨hskip', hkind⟩)]
            exact .plain _ _ (hheld s) (hheld t) (Or.inr ⟨hskip, hkind⟩)
          | rw [glance_of_escaped (Or.inr ⟨hskip, hkind⟩),
              glance_of_escaped (Or.inr ⟨hskip', hkind⟩)]
            exact .escaped _ _ (hescaped s) (hescaped t) hblank (Or.inr ⟨hskip, hkind⟩)
          | rw [glance_directive hkind hskip, glance_directive hkind hskip']
            exact looks_processInclude hR (hinclude i hkind hskip) hlook hfront hkind hskip

/-- A look has one of the outcomes that `Look` lists. -/
theorem look_glance {s : Session} {line : String} {rest : List String}
    (hlook : s.reader.lookAhead = 0) (hfront : s.reader.scope.lines = line :: rest) :
    Look s line (s.glance line) :=
  (looks_glance framing_eq (Agree.refl s) (fun _ _ _ => .refl (fun _ _ => rfl) s)
    (.intro hlook hlook)
    (.intro ⟨rest, hfront⟩ ⟨rest, hfront⟩)).left

/-! ## Many looks -/

/-- A property holds after a look. If a processor has to act, it holds once that has acted,
whatever it reads lines with. -/
def Ends (P : Session → Prop) : Glance → Prop
  | .line _ s => P s
  | .again s => P s
  | .refused _ _ => True
  | .hand actions depth s =>
    ∀ readLine : Session → Except Halt Session,
      (∀ s s', s.reader.Idle → readLine s = .ok s' → s'.reader.Idle ∧ (P s → P s')) →
      ∀ s', actions.foldlM (act readLine) s = .ok s' →
        P (s'.report (.includeResolved (s'.outcomeFrom depth)))

/-- A property that every step of reading keeps. -/
structure Kept (P : Session → Prop) : Prop where
  leave : ∀ s, P s → s.reader.Idle → s.reader.scope.lines = [] → s.reader.outer ≠ [] → P s.leave
  meet : ∀ s line, P s → P (s.meet line)
  look : ∀ s line rest g, P s → s.reader.Idle → s.reader.scope.lines = line :: rest →
    g = s.glance line → Look s line g → Ends P g
  take : ∀ s, P s → s.reader.Steady → 0 < s.reader.lookAhead → P s.takeFront.2

/-- A halt with its session changed. -/
def Halt.map (f : Session → Session) : Halt → Halt
  | .endless => .endless
  | .refused e s => .refused e (f s)

/-- What reading has come to, with the session changed in which it ended or halted. -/
def carry {α : Type} (f : Session → Session) (g : α → α) : Except Halt α → Except Halt α
  | .ok a => .ok (g a)
  | .error halt => .error (halt.map f)

/-- What is carried on succeeds exactly if the first part does. -/
theorem carry_eq_ok_iff {α : Type} {f : Session → Session} {g : α → α} {found : Except Halt α}
    {b : α} : carry f g found = .ok b ↔ ∃ a, found = .ok a ∧ g a = b := by
  cases found <;> simp [carry]

/-- What was found, with the session changed in which it was found. -/
abbrev carryFound {α : Type} (f : Session → Session) :
    Except Halt (α × Session) → Except Halt (α × Session) :=
  carry f fun found => (found.1, f found.2)

/-- Looking for the next line once it is known what a look has led to. -/
def Glance.resume (fuel : Nat) : Glance → Except Halt (Option String × Session)
  | .line text s => .ok (some text, s)
  | .again s => s.peekLine fuel
  | .refused e s => .error (.refused e s)
  | .hand actions depth s =>
    match actions.foldlM (act fun s => (s.readLine fuel).map (·.2)) s with
    | .error halt => .error halt
    | .ok s => (s.report (.includeResolved (s.outcomeFrom depth))).peekLine fuel

theorem Glance.resume_hand_eq_ok {fuel depth : Nat} {actions : List Action} {s : Session}
    {found : Option String × Session} :
    (Glance.hand actions depth s).resume fuel = .ok found ↔
      ∃ t, actions.foldlM (act fun s => (s.readLine fuel).map (·.2)) s = .ok t ∧
        (t.report (.includeResolved (t.outcomeFrom depth))).peekLine fuel = .ok found := by
  unfold Glance.resume
  simp only
  cases actions.foldlM (act fun s => (s.readLine fuel).map (·.2)) s with
  | error halt => simp
  | ok t => simp

/-- One step of looking for the next line. -/
theorem peekLine_succ (fuel : Nat) (s : Session) :
    s.peekLine (fuel + 1) =
      if 0 < s.reader.lookAhead then .ok (s.reader.head?, s)
      else match s.reader.scope.lines with
        | [] => if s.reader.outer.isEmpty then .ok (none, s) else s.leave.peekLine fuel
        | line :: _ => ((s.meet line).glance line).resume fuel := by
  rw [peekLine.eq_def]
  simp only
  split
  · rfl
  · cases s.reader.scope.lines with
    | nil => rfl
    | cons line rest => cases (s.meet line).glance line <;> rfl

/-- A line that waits is found without a look. -/
theorem peekLine_of_held {s : Session} (fuel : Nat) (hlook : 0 < s.reader.lookAhead) :
    s.peekLine (fuel + 1) = .ok (s.reader.head?, s) := by
  rw [peekLine_succ, if_pos hlook]

/-- At the end of a scope reading goes on around it, if there is anything around. -/
theorem peekLine_of_nil {s : Session} (fuel : Nat) (hidle : s.reader.Idle)
    (hlines : s.reader.scope.lines = []) :
    s.peekLine (fuel + 1) =
      if s.reader.outer.isEmpty then .ok (none, s) else s.leave.peekLine fuel := by
  rw [peekLine_succ, if_neg (by simp [hidle.lookAhead]), hlines]

/-- A line in front is met and looked at. -/
theorem peekLine_of_cons {s : Session} (fuel : Nat) (hidle : s.reader.Idle) {line : String}
    {rest : List String} (hfront : s.reader.scope.lines = line :: rest) :
    s.peekLine (fuel + 1) = ((s.meet line).glance line).resume fuel := by
  rw [peekLine_succ, if_neg (by simp [hidle.lookAhead]), hfront]

/-- The cases of looking for the next line, if that has a result. -/
theorem peekLine_cases {s s' : Session} {fuel : Nat} {a : Option String}
    (hsteady : s.reader.Steady) (h : s.peekLine fuel = .ok (a, s')) :
    (0 < s.reader.lookAhead ∧ s.reader.scope.lines ≠ [] ∧ a = s.reader.head? ∧ s' = s) ∨
    (s.reader.Idle ∧ s.reader.scope.lines = [] ∧ s.reader.outer = [] ∧ a = none ∧ s' = s) ∨
    ∃ n, fuel = n + 1 ∧ s.reader.Idle ∧
      ((s.reader.scope.lines = [] ∧ s.reader.outer ≠ [] ∧ s.leave.peekLine n = .ok (a, s')) ∨
        ∃ line rest, s.reader.scope.lines = line :: rest ∧
          ((s.meet line).glance line).resume n = .ok (a, s')) := by
  cases fuel with
  | zero => cases h
  | succ n =>
    by_cases hlook : 0 < s.reader.lookAhead
    · -- a line waits
      rw [peekLine_of_held n hlook] at h
      rcases Prod.mk.inj (Except.ok.inj h) with ⟨rfl, rfl⟩
      obtain ⟨line, rest, hfront⟩ := hsteady.exists_front hlook
      exact Or.inl ⟨hlook, by simp [hfront], rfl, rfl⟩
    · have hidle := hsteady.idle hlook
      cases hlines : s.reader.scope.lines with
      | nil =>
        rw [peekLine_of_nil n hidle hlines] at h
        by_cases houter : s.reader.outer.isEmpty = true
        · -- nothing is left
          rw [if_pos houter] at h
          rcases Prod.mk.inj (Except.ok.inj h) with ⟨rfl, rfl⟩
          exact Or.inr (Or.inl ⟨hidle, rfl, List.isEmpty_iff.mp houter, rfl, rfl⟩)
        · -- the scope ends, and reading goes on around it
          rw [if_neg houter] at h
          have hsome : s.reader.outer ≠ [] := fun hnil => houter (List.isEmpty_iff.mpr hnil)
          exact Or.inr (Or.inr ⟨n, rfl, hidle, Or.inl ⟨rfl, hsome, h⟩⟩)
      | cons line rest =>
        -- a line is in front, and what follows depends on it
        rw [peekLine_of_cons n hidle hlines] at h
        exact Or.inr (Or.inr ⟨n, rfl, hidle, Or.inr ⟨line, rest, rfl, h⟩⟩)

theorem idle_leave {s : Session} (h : s.reader.Idle) : s.leave.reader.Idle := by
  cases houter : s.reader.outer with
  | nil =>
    unfold leave
    rw [houter]
    exact h
  | cons scope outer =>
    rw [(turns_leave houter).reader]
    exact ⟨rfl, h.plain⟩

theorem idle_enter {s : Session} (h : s.reader.Idle) (content : Source)
    (file path : Option String) (lineno : Int) (attributes : Attributes) :
    (s.enter content file path lineno attributes).reader.Idle := by
  rcases s.enter_cases content file path lineno attributes with
    ⟨-, hturns⟩ | ⟨-, lines, cursor, frame, -, hturns⟩ <;> rw [hturns.reader] <;>
    exact ⟨rfl, h.plain⟩

/-- A line that is held waits. -/
theorem steady_hold {r : Reader} {line : String} {rest : List String} (h : r.Idle)
    (hfront : r.scope.lines = line :: rest) : r.hold.lookAhead = 1 ∧ r.hold.scope.lines ≠ [] := by
  simp [Reader.hold, h.lookAhead, hfront]

/-- A conditional leaves its text processed, or its line is used up. -/
theorem steady_ruled {r r' : Reader} {c : Conditional} {consumed : Bool} (h : r.Idle)
    (hruled : Ruled r c consumed r') : (if consumed then r'.shifted else r').Steady := by
  cases hruled with
  | idle => exact Or.inl h.shifted
  | opened | closed => exact Or.inl (Reader.Idle.shifted ⟨h.lookAhead, h.plain⟩)
  | kept text =>
    simp only [Bool.false_eq_true, if_false]
    have hlook := r.lookAhead_keeping text
    rw [h.lookAhead] at hlook
    split at hlook
    · exact Or.inl ⟨hlook, (r.unescape_keeping text).trans h.plain⟩
    · exact Or.inr ⟨hlook, by simp⟩

/-- Of an include directive that is followed, at most the line in its place is processed. -/
theorem steady_followed {r r' : Reader} {i : Include} {es : List Event} {line : String}
    {rest : List String} (h : r.Idle) (hfront : r.scope.lines = line :: rest)
    (hfollowed : Followed r i es r') : r'.Steady := by
  cases hfollowed with
  | kept => exact Or.inr (steady_hold h hfront)
  | gone => exact Or.inl ⟨h.shifted.lookAhead, h.shifted.plain⟩
  | replaced text =>
    exact Or.inr ⟨by simp [Reader.unshift, Reader.advance, h.lookAhead], by simp [Reader.unshift]⟩
  | entered => exact Or.inl ⟨rfl, h.shifted.plain⟩

/-- A line shown by a look was processed; otherwise at most the line in front was. -/
theorem Look.steady {s s' : Session} {line : String} {rest : List String} {g : Glance}
    (hlook : Look s line g) (h : s.reader.Idle) (hfront : s.reader.scope.lines = line :: rest) :
    (∀ text, g = .line text s' → s'.reader.lookAhead = 1 ∧ s'.reader.scope.lines ≠ []) ∧
    (g = .again s' → s'.reader.Steady) ∧
    (∀ actions depth, g = .hand actions depth s' → s'.reader.Idle) := by
  cases hlook with
  | plain t hturns | escaped t hturns | kept i t _ _ _ hturns =>
    -- the line is held
    refine ⟨fun text heq => ?_, by simp, by simp⟩
    cases heq
    rw [hturns.reader]
    exact steady_hold h hfront
  | passed t _ _ hturns =>
    -- the line is passed over
    refine ⟨by simp, fun heq => ?_, by simp⟩
    cases heq
    rw [hturns.reader]
    exact Or.inl h.shifted
  | conditional c consumed r t _ _ hruled hturns =>
    -- a conditional is passed over, or its text is held
    refine ⟨by simp, fun heq => ?_, by simp⟩
    cases heq
    rw [hturns.reader]
    exact steady_ruled h hruled
  | followed i es r t _ _ hfollowed hturns =>
    refine ⟨by simp, fun heq => ?_, by simp⟩
    cases heq
    rw [hturns.reader]
    exact steady_followed h hfront hfollowed
  | handed i processor target attributes t _ _ _ hturns =>
    -- the processor begins behind the directive
    refine ⟨by simp, by simp, fun actions depth heq => ?_⟩
    cases heq
    rw [hturns.reader]
    exact h.shifted
  | refused => exact ⟨by simp, by simp, by simp⟩

/-- What a processor does leaves no line processed. -/
theorem idle_act {readLine : Session → Except Halt Session} {s s' : Session} {a : Action}
    (hread : ∀ s s', s.reader.Idle → readLine s = .ok s' → s'.reader.Idle)
    (h : s.reader.Idle) (hact : act readLine s a = .ok s') : s'.reader.Idle := by
  cases a with
  | enter content file path lineno attributes =>
    cases hact
    exact idle_enter h content file path lineno attributes
  | leave =>
    cases hact
    exact idle_leave h
  | setAttribute name value =>
    cases hact
    have hreader : (s.doc.setAttribute name value).reader = s.doc.reader := by
      rw [Document.setAttribute_eq]
    unfold reader at h ⊢
    simp only
    rwa [hreader]
  | readLine => exact hread _ _ h hact

/-- Actions leave the reader idle if reading a line does. -/
theorem idle_acts {readLine : Session → Except Halt Session} {s s' : Session} {actions : List Action}
    (hread : ∀ s s', s.reader.Idle → readLine s = .ok s' → s'.reader.Idle)
    (h : s.reader.Idle) (hacts : actions.foldlM (act readLine) s = .ok s') :
    s'.reader.Idle := by
  induction actions generalizing s with
  | nil =>
    cases hacts
    exact h
  | cons a actions ih =>
    rw [List.foldlM_cons] at hacts
    obtain ⟨t, ht, hrest⟩ := Except.bind_eq_ok_iff.mp hacts
    exact ih (idle_act hread h ht) hrest

@[simp] theorem doc_takeFront (s : Session) :
    s.takeFront.2.doc = { s.doc with reader := s.reader.shifted } := by
  unfold takeFront
  cases h : s.reader.scope.lines <;> simp only [h] <;> rfl

@[simp] theorem files_takeFront (s : Session) : s.takeFront.2.files = s.files := by
  unfold takeFront
  cases h : s.reader.scope.lines <;> simp only [h] <;> rfl

@[simp] theorem reader_takeFront (s : Session) : s.takeFront.2.reader = s.reader.shifted := by
  change s.takeFront.2.doc.reader = s.reader.shifted
  rw [doc_takeFront]

@[simp] theorem events_takeFront (s : Session) :
    s.takeFront.2.journal.events = s.journal.events := by
  unfold takeFront
  cases hlines : s.reader.scope.lines <;> simp [hlines, note]

/-- What is taken is the line in front, as it is shown. -/
theorem takeFront_fst (s : Session) : s.takeFront.1 = s.reader.head? := by
  unfold takeFront Reader.head? Reader.shift
  cases hlines : s.reader.scope.lines <;> simp [hlines]

/-- The line in front is noted as taken. -/
theorem journal_takeFront {s : Session} {line : String} {rest : List String}
    (h : s.reader.scope.lines = line :: rest) :
    s.takeFront.2.journal = s.journal.push
      (.taken ⟨line, s.reader.shown line, s.reader.cursor, s.reader.skipping⟩) := by
  unfold takeFront
  simp only [h]
  rfl

/-! ## Taking what was looked for -/

section

variable {peek peek' : Session → Except Halt (Option String × Session)} {s s' : Session}

/-- A line that waits is taken at once. -/
theorem takeWith_of_held (hlook : 0 < s.reader.lookAhead) : takeWith peek s = .ok s.takeFront :=
  if_pos hlook

/-- Unless a line waits, the one that is looked for is taken. -/
theorem takeWith_of_not_held (hlook : ¬ 0 < s.reader.lookAhead) :
    takeWith peek s =
      (peek s).map fun found => if found.1.isSome then found.2.takeFront else found := by
  unfold takeWith
  rw [if_neg hlook]
  rcases peek s with _ | ⟨_ | line, t⟩ <;> rfl

/-- The cases of taking a line, if that has a result. -/
theorem takeWith_cases {a : Option String} (h : takeWith peek s = .ok (a, s')) :
    0 < s.reader.lookAhead ∧ s.takeFront = (a, s') ∨
    ¬ 0 < s.reader.lookAhead ∧ ∃ b t, peek s = .ok (b, t) ∧
      (b = none ∧ a = none ∧ s' = t ∨ b.isSome = true ∧ t.takeFront = (a, s')) := by
  by_cases hlook : 0 < s.reader.lookAhead
  · rw [takeWith_of_held hlook] at h
    exact Or.inl ⟨hlook, Except.ok.inj h⟩
  · rw [takeWith_of_not_held hlook] at h
    obtain ⟨⟨b, t⟩, hpeek, htaken⟩ := Except.map_eq_ok_iff.mp h
    refine Or.inr ⟨hlook, b, t, hpeek, ?_⟩
    cases b with
    | none =>
      cases htaken
      exact Or.inl ⟨rfl, rfl, rfl⟩
    | some line => exact Or.inr ⟨rfl, htaken⟩

/-- What comes of taking a line comes of it with every better way to look. -/
theorem takeWith_mono (hpeek : ∀ s, peek s ≠ .error .endless → peek' s = peek s)
    (h : takeWith peek s ≠ .error .endless) : takeWith peek' s = takeWith peek s := by
  by_cases hlook : 0 < s.reader.lookAhead
  · rw [takeWith_of_held hlook, takeWith_of_held hlook]
  · rw [takeWith_of_not_held hlook] at h ⊢
    rw [takeWith_of_not_held hlook, hpeek s fun hpeek => h (by rw [hpeek]; rfl)]

end

/-! ## What every step keeps -/

namespace Kept

variable {P : Session → Prop}

/-- After a line was taken, none is processed. -/
theorem takeWith (hkept : Kept P) {fuel : Nat} {s s' : Session} {a : Option String}
    (hpeek : ∀ s a s', s.reader.Steady → s.peekLine fuel = .ok (a, s') →
      s'.reader.Steady ∧ (a.isSome = true ↔ 0 < s'.reader.lookAhead) ∧ (P s → P s'))
    (hsteady : s.reader.Steady) (h : Session.takeWith (Session.peekLine fuel) s = .ok (a, s')) :
    s'.reader.Idle ∧ (P s → P s') := by
  have htaken : ∀ t : Session, t.reader.Steady → 0 < t.reader.lookAhead →
      t.takeFront.2.reader.Idle ∧ (P t → P t.takeFront.2) := by
    intro t ht hlook
    refine ⟨?_, fun hP => hkept.take t hP ht hlook⟩
    rw [reader_takeFront]
    exact ht.idle_shifted hlook
  rcases takeWith_cases h with ⟨hlook, htook⟩ | ⟨-, b, t, hrun, htook⟩
  · obtain rfl : s.takeFront.2 = s' := congrArg Prod.snd htook
    exact htaken s hsteady hlook
  · obtain ⟨hsteady', hlook, hP⟩ := hpeek s b t hsteady hrun
    rcases htook with ⟨rfl, -, rfl⟩ | ⟨hfound, htook⟩
    · exact ⟨hsteady'.idle (by simpa using hlook), hP⟩
    · obtain rfl : t.takeFront.2 = s' := congrArg Prod.snd htook
      obtain ⟨hidle, hP'⟩ := htaken t hsteady' (hlook.mp hfound)
      exact ⟨hidle, fun hs => hP' (hP hs)⟩

/-- What a look has led to keeps what each step keeps, if further looks do. -/
theorem resume (hkept : Kept P) {fuel : Nat}
    (hpeek : ∀ s a s', s.reader.Steady → s.peekLine fuel = .ok (a, s') →
      s'.reader.Steady ∧ (a.isSome = true ↔ 0 < s'.reader.lookAhead) ∧ (P s → P s'))
    {s s' : Session} {a : Option String} {line : String} {rest : List String} {g : Glance}
    (hidle : s.reader.Idle) (hfront : s.reader.scope.lines = line :: rest)
    (hlook : Look s line g) {C : Prop} (hends : C → Ends P g)
    (h : g.resume fuel = .ok (a, s')) :
    s'.reader.Steady ∧ (a.isSome = true ↔ 0 < s'.reader.lookAhead) ∧ (C → P s') := by
  cases g with
  | line text t =>
    rcases Prod.mk.inj (Except.ok.inj h) with ⟨rfl, rfl⟩
    -- the line was found
    have hheld := (hlook.steady hidle hfront).1 text rfl
    exact ⟨Or.inr hheld, by simp [hheld.1], hends⟩
  | refused e t => cases h
  | again t =>
    -- the next line is looked for
    rcases hpeek t a s' ((hlook.steady hidle hfront).2.1 rfl) h with ⟨hsteady', hlook', hP⟩
    exact ⟨hsteady', hlook', fun hs => hP (hends hs)⟩
  | hand actions depth t =>
    have hidle₁ := (hlook.steady hidle hfront).2.2 actions depth rfl
    obtain ⟨s₂, hacted, hrest⟩ := Glance.resume_hand_eq_ok.mp h
    -- a processor may read lines by itself
    have hread : ∀ u u' : Session, u.reader.Idle →
        ((u.readLine fuel).map (·.2)) = .ok u' → u'.reader.Idle ∧ (P u → P u') := by
      intro u u' hidle hread
      rcases Except.map_eq_ok_iff.mp hread with ⟨⟨b, u''⟩, hrun, hsame⟩
      cases hsame
      exact hkept.takeWith hpeek (Or.inl hidle) hrun
    have hidle₂ := idle_acts (fun u u' hu hrun => (hread u u' hu hrun).1) hidle₁ hacted
    have hsteady₂ : (s₂.report (.includeResolved (s₂.outcomeFrom depth))).reader.Steady :=
      Or.inl hidle₂
    rcases hpeek _ a s' hsteady₂ hrest with ⟨hsteady', hlook', hP⟩
    exact ⟨hsteady', hlook', fun hs => hP (hends hs _ hread s₂ hacted)⟩

/-- Looking for the next line keeps what each step keeps. A line that was found waits to be
taken. -/
theorem peekLine_steady (hkept : Kept P) {fuel : Nat} {s s' : Session} {a : Option String}
    (hsteady : s.reader.Steady) (h : s.peekLine fuel = .ok (a, s')) :
    s'.reader.Steady ∧ (a.isSome = true ↔ 0 < s'.reader.lookAhead) ∧ (P s → P s') := by
  induction fuel generalizing s a s' with
  | zero => cases h
  | succ fuel ih =>
    rcases peekLine_cases hsteady h with ⟨hlook, hfront, rfl, rfl⟩ | ⟨hidle, -, -, rfl, rfl⟩ |
      ⟨n, hn, hidle, ⟨hlines, houter, hrest⟩ | ⟨line, rest, hfront, hrest⟩⟩
    · -- a line waits already
      refine ⟨hsteady, iff_of_true ?_ hlook, id⟩
      cases hlines : s'.reader.scope.lines with
      | nil => exact absurd hlines hfront
      | cons line rest => simp [Reader.head?, hlines]
    · -- nothing is left
      exact ⟨hsteady, by simp [hidle.lookAhead], id⟩
    · -- the scope ends
      obtain rfl : fuel = n := by omega
      rcases ih (Or.inl (idle_leave hidle)) hrest with ⟨hsteady', hlook', hP⟩
      exact ⟨hsteady', hlook', fun hs => hP (hkept.leave s hs hidle hlines houter)⟩
    · -- a line is looked at
      obtain rfl : fuel = n := by omega
      have hidle' : (s.meet line).reader.Idle := hidle
      have hlooked : Look (s.meet line) line ((s.meet line).glance line) :=
        look_glance hidle.lookAhead hfront
      rcases hkept.resume (fun _ _ _ => ih) hidle' hfront hlooked
        (fun hs => hkept.look _ _ _ _ hs hidle' hfront rfl hlooked) hrest with ⟨hsteady', hlook', hP⟩
      exact ⟨hsteady', hlook', fun hs => hP (hkept.meet s line hs)⟩

/-- What holds once the line in front is looked at holds after that look. -/
theorem peekLine_meet (hkept : Kept P) {fuel : Nat} {s s' : Session} {a : Option String}
    {line : String} {rest : List String} (hidle : s.reader.Idle)
    (hfront : s.reader.scope.lines = line :: rest) (hs : P (s.meet line))
    (h : s.peekLine fuel = .ok (a, s')) : P s' := by
  cases fuel with
  | zero => cases h
  | succ fuel =>
    rw [peekLine_of_cons fuel hidle hfront] at h
    have hidle' : (s.meet line).reader.Idle := hidle
    have hlooked : Look (s.meet line) line ((s.meet line).glance line) :=
      look_glance hidle.lookAhead hfront
    exact (hkept.resume (fun _ _ _ => hkept.peekLine_steady) hidle' hfront hlooked
      (fun hs => hkept.look _ _ _ _ hs hidle' hfront rfl hlooked) h).2.2 hs

/-- What holds after a look holds after what it has led to. -/
theorem resume_ends (hkept : Kept P) {fuel : Nat} {s s' : Session} {a : Option String}
    {line : String} {rest : List String} {g : Glance} (hidle : s.reader.Idle)
    (hfront : s.reader.scope.lines = line :: rest) (hlook : Look s line g) (hends : Ends P g)
    (h : g.resume fuel = .ok (a, s')) : P s' :=
  (hkept.resume (C := True) (fun _ _ _ => hkept.peekLine_steady) hidle hfront hlook
    (fun _ => hends) h).2.2 trivial

theorem peekLine (hkept : Kept P) {fuel : Nat} {s s' : Session} {a : Option String}
    (hsteady : s.reader.Steady) (hs : P s) (h : s.peekLine fuel = .ok (a, s')) : P s' :=
  (hkept.peekLine_steady hsteady h).2.2 hs

/-- What reading keeps holds after a line was read. -/
theorem readLine (hkept : Kept P) {fuel : Nat} {s s' : Session} {a : Option String}
    (hsteady : s.reader.Steady) (hs : P s) (h : s.readLine fuel = .ok (a, s')) : P s' :=
  (hkept.takeWith (fun _ _ _ => hkept.peekLine_steady) hsteady h).2 hs

end Kept

theorem kept_true : Kept fun _ => True where
  leave _ _ _ _ _ := trivial
  meet _ _ _ := trivial
  look _ _ _ g _ _ _ _ _ := by
    cases g with
    | line | again | refused => exact trivial
    | hand => exact fun _ _ _ _ => trivial
  take _ _ _ _ := trivial

/-- Looking for a line leaves the reader steady, and a line waits if one was found. -/
theorem steady_peekLine {fuel : Nat} {s s' : Session} {a : Option String}
    (hsteady : s.reader.Steady) (h : s.peekLine fuel = .ok (a, s')) :
    s'.reader.Steady ∧ (a.isSome = true ↔ 0 < s'.reader.lookAhead) :=
  let ⟨hsteady', hlook, _⟩ := kept_true.peekLine_steady hsteady h
  ⟨hsteady', hlook⟩

/-- Reading a line leaves the reader idle. -/
theorem idle_readLine {fuel : Nat} {s s' : Session} {a : Option String}
    (hsteady : s.reader.Steady) (h : s.readLine fuel = .ok (a, s')) : s'.reader.Idle :=
  (kept_true.takeWith (fun _ _ _ => kept_true.peekLine_steady) hsteady h).1

/-- What a look shows is the line in front. -/
theorem Look.head {s s' : Session} {line text : String} {rest : List String}
    (hlook : Look s line (.line text s')) (h : s.reader.Idle)
    (hfront : s.reader.scope.lines = line :: rest) : some text = s'.reader.head? := by
  cases hlook with
  | plain _ hturns =>
    simp [hturns.reader, Reader.head?, Reader.hold, hfront, Reader.shown, h.plain]
  | escaped _ hturns => simp [hturns.reader, Reader.head?, Reader.hold, hfront, Reader.shown]
  | kept i _ _ _ _ hturns =>
    simp [hturns.reader, Reader.head?, Reader.hold, hfront, Reader.shown, h.plain]

/-- What holds of every way in which looking for the next line can end. -/
theorem peekLine_ends {Q : Option String → Session → Prop}
    (hheld : ∀ s : Session, s.reader.Steady → 0 < s.reader.lookAhead → Q s.reader.head? s)
    (hend : ∀ s : Session, s.reader.Idle → s.reader.scope.lines = [] → s.reader.outer = [] →
      Q none s)
    (hline : ∀ (s : Session) line rest text s', s.reader.Idle →
      s.reader.scope.lines = line :: rest → Look s line (.line text s') → Q (some text) s')
    {fuel : Nat} {s s' : Session} {a : Option String} (hsteady : s.reader.Steady)
    (h : s.peekLine fuel = .ok (a, s')) : Q a s' := by
  induction fuel generalizing s with
  | zero => cases h
  | succ fuel ih =>
    rcases peekLine_cases hsteady h with ⟨hlook, hfront, rfl, rfl⟩ |
      ⟨hidle, hlines, houter, rfl, rfl⟩ |
      ⟨n, hn, hidle, ⟨hlines, houter, hrest⟩ | ⟨line, rest, hfront, hrest⟩⟩
    · exact hheld s' hsteady hlook
    · exact hend s' hidle hlines houter
    · obtain rfl : fuel = n := by omega
      exact ih (Or.inl (idle_leave hidle)) hrest
    · obtain rfl : fuel = n := by omega
      have hidle' : (s.meet line).reader.Idle := hidle
      have hlooked : Look (s.meet line) line ((s.meet line).glance line) :=
        look_glance hidle.lookAhead hfront
      generalize (s.meet line).glance line = g at hlooked hrest
      cases g with
      | line text t =>
        rcases Prod.mk.inj (Except.ok.inj hrest) with ⟨rfl, rfl⟩
        exact hline _ line rest text _ hidle' hfront hlooked
      | refused e t => cases hrest
      | again t => exact ih ((hlooked.steady hidle' hfront).2.1 rfl) hrest
      | hand actions depth t =>
        -- a processor acts on an idle reader and leaves one
        have hidle₁ := (hlooked.steady hidle' hfront).2.2 actions depth rfl
        obtain ⟨s₂, hacted, hrest₂⟩ := Glance.resume_hand_eq_ok.mp hrest
        have hread : ∀ u u' : Session, u.reader.Idle →
            ((u.readLine fuel).map (·.2)) = .ok u' → u'.reader.Idle := by
          intro u u' hidle hread
          rcases Except.map_eq_ok_iff.mp hread with ⟨⟨b, u''⟩, hrun, hsame⟩
          cases hsame
          exact idle_readLine (Or.inl hidle) hrun
        have hidle₂ := idle_acts hread hidle₁ hacted
        have hsteady₂ : (s₂.report (.includeResolved (s₂.outcomeFrom depth))).reader.Steady :=
          Or.inl hidle₂
        exact ih hsteady₂ hrest₂

/-- The next line is the line that is then in front. -/
theorem head_of_peekLine {fuel : Nat} {s s' : Session} {a : Option String}
    (hsteady : s.reader.Steady) (h : s.peekLine fuel = .ok (a, s')) : a = s'.reader.head? :=
  peekLine_ends (Q := fun a s => a = s.reader.head?) (fun _ _ _ => rfl)
    (fun t _ hlines _ => by simp [Reader.head?, hlines])
    (fun _ _ _ _ _ hidle hfront hlook => hlook.head hidle hfront) hsteady h

/-- What comes of a processor's actions comes of them with every better way to read lines. -/
theorem acts_mono {readLine readLine' : Session → Except Halt Session}
    (hread : ∀ s, readLine s ≠ .error .endless → readLine' s = readLine s)
    {actions : List Action} {s : Session}
    (h : actions.foldlM (act readLine) s ≠ .error .endless) :
    actions.foldlM (act readLine') s = actions.foldlM (act readLine) s := by
  induction actions generalizing s with
  | nil => rfl
  | cons a actions ih =>
    rw [List.foldlM_cons] at h
    rw [List.foldlM_cons, List.foldlM_cons]
    have hact : act readLine s a ≠ .error .endless → act readLine' s a = act readLine s a := by
      cases a with
      | readLine => exact hread s
      | enter | leave | setAttribute => exact fun _ => rfl
    rw [hact fun hendless => h (by rw [hendless]; rfl)]
    cases hacted : act readLine s a with
    | error halt => rfl
    | ok t =>
      rw [hacted] at h
      exact ih h

/-- A look that ends within a bound ends alike within one that is enough for what follows. -/
theorem Glance.resume_mono {fuel fuel' : Nat}
    (hpeek : ∀ s, peekLine fuel s ≠ .error .endless → peekLine fuel' s = peekLine fuel s)
    {g : Glance} (h : g.resume fuel ≠ .error .endless) : g.resume fuel' = g.resume fuel := by
  cases g with
  | line text t => rfl
  | refused e t => rfl
  | again t => exact hpeek t h
  | hand actions depth t =>
    have hread : ∀ u : Session, (u.readLine fuel).map (·.2) ≠ .error .endless →
        (u.readLine fuel').map (·.2) = (u.readLine fuel).map (·.2) := by
      -- the processor reads as much as before
      intro u hu
      exact congrArg _ (takeWith_mono hpeek fun hendless => hu (Except.map_eq_error_iff.mpr hendless))
    unfold Glance.resume at h ⊢
    dsimp only at h ⊢
    cases hacted : actions.foldlM (act fun s => (s.readLine fuel).map (·.2)) t with
    | error halt =>
      rw [hacted] at h
      -- the processor fails in the same way
      rw [acts_mono hread (hacted ▸ fun hendless => h (by rw [hendless])), hacted]
    | ok u =>
      rw [hacted] at h
      -- it ends in the same way, and so does what follows
      rw [acts_mono hread (by rw [hacted]; exact nofun), hacted]
      exact hpeek _ h

/-- Looking for the next line needs a bound, but what comes of it does not depend on it. -/
theorem peekLine_mono {fuel : Nat} {s : Session} (h : s.peekLine fuel ≠ .error .endless) :
    s.peekLine (fuel + 1) = s.peekLine fuel := by
  induction fuel generalizing s with
  | zero => exact absurd rfl h
  | succ fuel ih =>
    rw [peekLine_succ] at h
    rw [peekLine_succ (fuel + 1) s, peekLine_succ fuel s]
    by_cases hlook : 0 < s.reader.lookAhead
    · rw [if_pos hlook, if_pos hlook]
    · rw [if_neg hlook] at h
      rw [if_neg hlook, if_neg hlook]
      cases hlines : s.reader.scope.lines with
      | nil =>
        simp only [hlines] at h ⊢
        by_cases houter : s.reader.outer.isEmpty = true
        · rw [if_pos houter, if_pos houter]
        · rw [if_neg houter] at h
          rw [if_neg houter, if_neg houter]
          exact ih h
      | cons line rest =>
        simp only [hlines] at h ⊢
        exact Glance.resume_mono (fun _ => ih) h

/-- Nothing is left to be read. -/
structure Exhausted (r : Reader) : Prop where
  idle : r.Idle
  lines : r.scope.lines = []
  outer : r.outer = []

/-- There is no next line only at the end of the document. -/
theorem exhausted_of_peekLine {fuel : Nat} {s s' : Session} (hsteady : s.reader.Steady)
    (h : s.peekLine fuel = .ok (none, s')) : Exhausted s'.reader :=
  peekLine_ends (Q := fun a s => a = none → Exhausted s.reader)
    (fun t hsteady hlook hnone => by
      obtain ⟨line, rest, hfront⟩ := hsteady.exists_front hlook
      simp [Reader.head?, hfront] at hnone)
    (fun _ hidle hlines houter _ => ⟨hidle, hlines, houter⟩)
    (fun _ _ _ _ _ _ _ _ hnone => by cases hnone) hsteady h rfl

end Session

end DocFlatten
