import DocFlatten.Proofs.AlteredContents
import DocFlatten.Proofs.Skipping

/-! # A document does not depend on what is passed over

Two loads read contents that differ only in lines of the kind that a false conditional hides. As
long as the first one looks at such a line inside a false conditional only, both come to the same
document (`load_altered`).

* `Exposed`: a changed line was looked at outside of every false conditional;
* `Veiled`: sessions that differ in changed lines. Reading keeps them so unless the first one is
  exposed (`peekLine_joint`), and so does a scan (`simulation_veiled`);
* `false_conditional_hides`: what a false conditional hides, and what it does not.
-/

namespace DocFlatten

open DocFlatten.Scan

variable {changed : Cursor → String → Prop}

namespace Session

/-! ## Exposed lines -/

/-- A changed line was looked at outside of every false conditional. -/
def Exposed (changed : Cursor → String → Prop) (s : Session) : Prop :=
  ∃ l ∈ s.journal.looked, l.skipping = false ∧ changed l.cursor l.line

/-- What was looked at once stays in the journal. -/
theorem Exposed.turn {s s' : Session} {r : Reader} {es : List Event} (h : Exposed changed s)
    (hturns : Turns s r es s') : Exposed changed s' := by
  unfold Exposed
  rw [hturns.looked]
  exact h

/-- A changed line that is looked at is exposed, unless it is inside a false conditional. -/
theorem exposed_meet {s : Session} {line : String} (hskip : s.reader.skipping = false)
    (hchanged : changed s.reader.cursor line) : Exposed changed (s.meet line) := by
  refine ⟨⟨line, s.reader.cursor, s.reader.skipping⟩, ?_, hskip, hchanged⟩
  rw [looked_meet]
  exact List.mem_append_right _ (List.mem_singleton.mpr rfl)

/-- What was exposed once stays so. -/
theorem harmless_exposed (changed : Cursor → String → Prop) : Harmless (Exposed changed) := by
  refine harmless_of_turns (fun s r es s' hs => hs.turn) (fun s d hs _ => hs) ?_ ?_
  · rintro s line ⟨l, hl, hseen⟩
    refine ⟨l, ?_, hseen⟩
    rw [looked_meet]
    exact List.mem_append_left _ hl
  · intro s hs
    have hlooked : s.takeFront.2.journal.looked = s.journal.looked := by
      cases hlines : s.reader.scope.lines with
      | nil => simp [takeFront, hlines]
      | cons line rest => rw [journal_takeFront hlines, Journal.looked_push_taken]
    unfold Exposed
    rw [hlooked]
    exact hs

/-! ## Reading side by side -/

/-- Sessions that differ in changed lines only. -/
structure Veiled (changed : Cursor → String → Prop) (s t : Session) : Prop where
  files : FileTree.Alike (Altered changed) s.files t.files
  options : t.doc.options = s.doc.options
  reader : s.reader.Altered changed t.reader

/-- Veiled sessions with documents of the same content. -/
abbrev Joint (changed : Cursor → String → Prop) : Session → Session → Prop :=
  Joined (Veiled changed) Eq

namespace Joint

variable {s t : Session}

theorem agree (h : Joint changed s t) : Agree s t :=
  ⟨h.doc.attributes, h.together.reader.conditionals, h.together.reader.skipping⟩

theorem alongside (h : Joint changed s t) : Alongside (Altered changed) s t :=
  { h.agree with
    files := h.together.files
    options := h.together.options
    place := by
      have hcursor := h.together.reader.scope.1
      unfold Reader.cursor
      rw [hcursor]
      exact ⟨rfl, rfl, rfl⟩
    depth := h.together.reader.includeDepth }

/-- If one reader is idle, so is the other one. -/
theorem idle (h : Joint changed s t) (hidle : s.reader.Idle) : t.reader.Idle :=
  h.together.reader.idle hidle

/-- Both sessions turn, and their readers are still the same but for changed lines. -/
theorem turn (h : Joint changed s t) {r r' : Reader} {es es' : List Event} {s' t' : Session}
    (hs : Turns s r es s') (ht : Turns t r' es' t') (hr : r.Altered changed r')
    (hsteady : r.Steady) : Joint changed s' t' where
  steady := by rwa [hs.reader]
  steady' := by
    rw [ht.reader]
    exact hr.steady hsteady
  together :=
    { files := by
        rw [hs.files, ht.files]
        exact h.together.files
      options := by
        rw [hs.doc, ht.doc]
        exact h.together.options
      reader := by rwa [hs.reader, ht.reader] }
  doc := by
    rw [hs.doc, ht.doc]
    exact ⟨h.doc.attributes, h.doc.locked, h.doc.parsed, h.doc.title, h.doc.headerAttributes,
      h.doc.blocks⟩

/-- Lines that differ may be met together. -/
theorem meet (h : Joint changed s t) (line line' : String) :
    Joint changed (s.meet line) (t.meet line') :=
  ⟨h.steady, h.steady', ⟨h.together.files, h.together.options, h.together.reader⟩, h.doc⟩

/-- A scope is left on both sides. -/
theorem leave (h : Joint changed s t) (hidle : s.reader.Idle) (houter : s.reader.outer ≠ []) :
    Joint changed s.leave t.leave := by
  have hboth := h.together.reader.outer
  cases hs : s.reader.outer with
  | nil => exact absurd hs houter
  | cons scope outer =>
    cases ht : t.reader.outer with
    | nil =>
      rw [hs, ht] at hboth
      cases hboth
    | cons scope' outer' =>
      rw [hs, ht] at hboth
      rcases hboth with _ | ⟨hscope, houter'⟩
      refine h.turn (turns_leave hs) (turns_leave ht) ?_ (Or.inl ⟨rfl, hidle.plain⟩)
      exact { h.together.reader with
        scope := hscope
        outer := houter'
        lookAhead := rfl
        front := fun hlook => absurd hlook (Nat.lt_irrefl 0) }

/-- The line in front is taken. -/
theorem takeFront (h : Joint changed s t) (hlook : 0 < s.reader.lookAhead) :
    0 < t.reader.lookAhead ∧ t.takeFront.1 = s.takeFront.1 ∧
      Joint changed s.takeFront.2 t.takeFront.2 := by
  have hlook' : 0 < t.reader.lookAhead := by
    rw [h.together.reader.lookAhead]
    exact hlook
  have hone : s.reader.lookAhead ≤ 1 := (h.steady.held hlook).1.le
  refine ⟨hlook', ?_, ?_⟩
  · rw [takeFront_fst, takeFront_fst, h.together.reader.head_of_held hlook]
  · -- one line is gone from both, and nothing else has changed
    refine ⟨?_, ?_, ⟨?_, ?_, ?_⟩, ?_⟩
    · rw [reader_takeFront]
      exact Or.inl (h.steady.idle_shifted hlook)
    · rw [reader_takeFront]
      exact Or.inl (h.steady'.idle_shifted hlook')
    · rw [files_takeFront, files_takeFront]
      exact h.together.files
    · rw [doc_takeFront, doc_takeFront]
      exact h.together.options
    · rw [reader_takeFront, reader_takeFront]
      exact h.together.reader.shifted hone
    · rw [doc_takeFront, doc_takeFront]
      exact ⟨h.doc.attributes, h.doc.locked, h.doc.parsed, h.doc.title, h.doc.headerAttributes,
        h.doc.blocks⟩

end Joint

/-- Steps of two sessions side by side: the first one is exposed, or both end in the same way. -/
def EndsJoint {α : Type} (changed : Cursor → String → Prop) (a : α) (s' : Session)
    (run : Except Halt (α × Session)) : Prop :=
  Exposed changed s' ∨ ∃ t', run = .ok (a, t') ∧ Joint changed s' t'

/-- Reading goes on side by side if looking does. -/
theorem readLine_joint {fuel : Nat}
    (hpeek : ∀ s t a s', Joint changed s t → s.peekLine fuel = .ok (a, s') →
      EndsJoint changed a s' (t.peekLine fuel))
    {s t s' : Session} {a : Option String} (h : Joint changed s t) (hidle : s.reader.Idle)
    (hrun : s.readLine fuel = .ok (a, s')) : EndsJoint changed a s' (t.readLine fuel) := by
  have hlook : ¬ 0 < s.reader.lookAhead := by simp [hidle.lookAhead]
  rcases peekLine_of_readLine hlook hrun with ⟨b, s₁, hfound, htaken⟩
  have hsteady := steady_peekLine h.steady hfound
  rcases hpeek s t b s₁ h hfound with hexposed | ⟨t₁, ht, h₁⟩
  · refine Or.inl ?_
    rcases htaken with ⟨-, -, rfl⟩ | ⟨hsome, htake⟩
    · exact hexposed
    · -- the changed line was exposed by the look, and taking a line does not hide it again
      have hkept := (harmless_exposed changed).reading.take s₁ hexposed hsteady.1
        (hsteady.2.mp hsome)
      rwa [htake] at hkept
  · have hread := readLine_of_peekLine h.steady' ht
    rcases htaken with ⟨rfl, rfl, rfl⟩ | ⟨hsome, htake⟩
    · -- there was nothing to take
      exact Or.inr ⟨t₁, hread.1 rfl, h₁⟩
    · -- the line that waits is the same on both sides
      rcases h₁.takeFront (hsteady.2.mp hsome) with ⟨-, hsame, hjoint⟩
      rw [htake] at hsame hjoint
      refine Or.inr ⟨t₁.takeFront.2, ?_, hjoint⟩
      have hpair : t₁.takeFront = (a, t₁.takeFront.2) := by
        rw [← show t₁.takeFront.1 = a from hsame]
      rw [hread.2 hsome, hpair]

/-- Documents may be edited apart as long as they stay alike. -/
theorem Veiled.edit {s t : Session} {d d' : Document} (h : Veiled changed s t)
    (hd : s.doc.Edited d) (hd' : t.doc.Edited d') :
    Veiled changed { s with doc := d } { t with doc := d' } := by
  refine ⟨h.files, ?_, ?_⟩
  · rw [hd.options, hd'.options]
    exact h.options
  · have hreader := h.reader
    unfold Session.reader at hreader ⊢
    rwa [hd.reader, hd'.reader]

/-- A processor does the same side by side. -/
theorem act_joint {readLine readLine' : Session → Except Halt Session}
    (hread : ∀ u v u', Joint changed u v → u.reader.Idle → readLine u = .ok u' →
      Exposed changed u' ∨ ∃ v', readLine' v = .ok v' ∧ Joint changed u' v')
    {s t s' : Session} {a : Action} (h : Joint changed s t) (hidle : s.reader.Idle)
    (hact : act readLine s a = .ok s') :
    Exposed changed s' ∨ ∃ t', act readLine' t a = .ok t' ∧ Joint changed s' t' := by
  cases a with
  | enter content file path lineno attributes =>
    cases hact
    refine Or.inr ⟨_, rfl, ?_⟩
    have hcontent : Altered changed (scopeCursor s.reader.cursor file path lineno)
        content.prepare content.prepare := Altered.refl _ _
    rcases enter_abreast Altered.framing h.doc.attributes h.alongside.place attributes hcontent
      with ⟨hs, ht⟩ | ⟨lines, lines', cursor, frame, -, -, hlines, hs, ht⟩
    · refine h.turn hs ht ?_ (Or.inl ⟨rfl, hidle.plain⟩)
      exact { h.together.reader with
        lookAhead := rfl
        front := fun hlook => absurd hlook (Nat.lt_irrefl 0) }
    · exact h.turn hs ht (h.together.reader.entered hlines frame) (Or.inl ⟨rfl, hidle.plain⟩)
  | leave =>
    cases hact
    refine Or.inr ⟨_, rfl, ?_⟩
    by_cases houter : s.reader.outer = []
    · -- there is nothing to leave in either session
      have houter' : t.reader.outer = [] := h.together.reader.outer_eq_nil_iff.mpr houter
      unfold leave
      rw [houter, houter']
      exact h
    · exact h.leave hidle houter
  | setAttribute name value =>
    -- the readers stay as they are
    cases hact
    refine Or.inr ⟨_, rfl, ?_⟩
    have hs := Simulation.edited_setAttribute s.doc name value
    have ht := Simulation.edited_setAttribute t.doc name value
    refine ⟨?_, ?_, h.together.edit hs ht, Simulation.alike_setAttribute h.doc name value⟩
    · have hsteady := h.steady
      unfold Session.reader at hsteady ⊢
      rwa [hs.reader]
    · have hsteady := h.steady'
      unfold Session.reader at hsteady ⊢
      rwa [ht.reader]
  | readLine => exact hread s t s' h hidle hact

/-- The actions of a processor are taken on both sides, unless a changed line is exposed. -/
theorem acts_joint {readLine readLine' : Session → Except Halt Session}
    (hread : ∀ u v u', Joint changed u v → u.reader.Idle → readLine u = .ok u' →
      Exposed changed u' ∨ ∃ v', readLine' v = .ok v' ∧ Joint changed u' v')
    (hkeeps : ∀ u u', u.reader.Idle → readLine u = .ok u' →
      u'.reader.Idle ∧ (Exposed changed u → Exposed changed u'))
    {s t s' : Session} {actions : List Action} (h : Joint changed s t) (hidle : s.reader.Idle)
    (hacts : actions.foldlM (act readLine) s = .ok s') :
    Exposed changed s' ∨ ∃ t', actions.foldlM (act readLine') t = .ok t' ∧
      Joint changed s' t' := by
  induction actions generalizing s t with
  | nil =>
    cases hacts
    exact Or.inr ⟨t, rfl, h⟩
  | cons a actions ih =>
    rw [List.foldlM_cons] at hacts
    rcases Except.bind_eq_ok_iff.mp hacts with ⟨s₁, hs₁, hrest⟩
    have hidle₁ := idle_act (fun u u' hu hrun => (hkeeps u u' hu hrun).1) hidle hs₁
    rcases act_joint hread h hidle hs₁ with hexposed | ⟨t₁, ht₁, h₁⟩
    · -- the first action exposed a changed line, and the others keep it exposed
      exact Or.inl (acts_of_turns (fun u r es u' hu => hu.turn) (fun u d hu _ => hu) hkeeps
        hidle₁ hrest hexposed)
    · -- otherwise the other actions begin side by side
      rcases ih h₁ hidle₁ hrest with hexposed | ⟨t', ht', h'⟩
      · exact Or.inl hexposed
      · refine Or.inr ⟨t', ?_, h'⟩
        rw [List.foldlM_cons]
        exact Except.bind_eq_ok_iff.mpr ⟨t₁, ht₁, ht'⟩

/-- A processor that was handed a directive reads on side by side, and so does what comes after it. -/
theorem resume_hand_joint {fuel : Nat}
    (hpeek : ∀ s t a s', Joint changed s t → s.peekLine fuel = .ok (a, s') →
      EndsJoint changed a s' (t.peekLine fuel))
    {s t s' : Session} {a : Option String} {actions : List Action} {depth depth' : Nat}
    (h : Joint changed s t) (hidle : s.reader.Idle)
    (hrun : (Glance.hand actions depth s).resume fuel = .ok (a, s')) :
    EndsJoint changed a s' ((Glance.hand actions depth' t).resume fuel) := by
  have hkept := (harmless_exposed changed).reading
  -- one line that the processor reads
  have hread : ∀ u v u', Joint changed u v → u.reader.Idle →
      (u.readLine fuel).map (·.2) = .ok u' →
      Exposed changed u' ∨ ∃ v', (v.readLine fuel).map (·.2) = .ok v' ∧ Joint changed u' v' := by
    intro u v u' huv hu hrun
    rcases Except.map_eq_ok_iff.mp hrun with ⟨⟨b, u''⟩, hline, rfl⟩
    rcases readLine_joint hpeek huv hu hline with hexposed | ⟨v', hv', huv'⟩
    · exact Or.inl hexposed
    · exact Or.inr ⟨v', by rw [hv']; rfl, huv'⟩
  have hkeeps : ∀ u u', u.reader.Idle → (u.readLine fuel).map (·.2) = .ok u' →
      u'.reader.Idle ∧ (Exposed changed u → Exposed changed u') := by
    intro u u' hu hrun
    rcases Except.map_eq_ok_iff.mp hrun with ⟨⟨b, u''⟩, hline, rfl⟩
    exact ⟨idle_readLine (Or.inl hu) hline, fun hs => hkept.readLine (Or.inl hu) hs hline⟩
  obtain ⟨s₂, hacted, hrest⟩ := Glance.resume_hand_eq_ok.mp hrun
  have hidle₂ := idle_acts (fun u u' hu hr => (hkeeps u u' hu hr).1) hidle hacted
  rcases acts_joint hread hkeeps h hidle hacted with hexposed | ⟨t₂, ht₂, h₂⟩
  · have hreported := hexposed.turn ((Turns.refl s₂).report
      (.includeResolved (s₂.outcomeFrom depth)))
    have hsteady : (s₂.report (.includeResolved (s₂.outcomeFrom depth))).reader.Steady :=
      Or.inl hidle₂
    exact Or.inl (hkept.peekLine hsteady hreported hrest)
  · rcases hpeek _ _ a s' (h₂.turn ((Turns.refl s₂).report _) ((Turns.refl t₂).report _)
      h₂.together.reader (Or.inl hidle₂)) hrest with hexposed | ⟨t', ht', hjoint⟩
    · exact Or.inl hexposed
    · exact Or.inr ⟨t', Glance.resume_hand_eq_ok.mpr ⟨t₂, ht₂, ht'⟩, hjoint⟩

/-- What a look at the same line has led to goes on side by side. -/
theorem resume_joint {fuel : Nat}
    (hpeek : ∀ s t a s', Joint changed s t → s.peekLine fuel = .ok (a, s') →
      EndsJoint changed a s' (t.peekLine fuel))
    {s t s' : Session} {a : Option String} {line : String} {rest rest' : List String}
    {g g' : Glance} (h : Joint changed s t) (hidle : s.reader.Idle)
    (hfront : s.reader.scope.lines = line :: rest)
    (hfront' : t.reader.scope.lines = line :: rest')
    (hlooks : Looks (Altered changed) s t line g g') (hrun : g.resume fuel = .ok (a, s')) :
    EndsJoint changed a s' (g'.resume fuel) := by
  have hsame : t.reader.scope.lines.head? = s.reader.scope.lines.head? := by
    rw [hfront, hfront']
    rfl
  have hone : s.reader.lookAhead ≤ 1 := by simp [hidle.lookAhead]
  have hsteady := fun s' => @Look.steady s s' line rest g hlooks.left hidle hfront
  have hheld : ∀ unescape, Reader.Steady { s.reader.hold with unescape } := fun unescape =>
    Or.inr ⟨by simp [Reader.hold, hidle.lookAhead], by simp [Reader.hold, hfront]⟩
  have hshown : ∀ text u v, Joint changed u v →
      (Except.ok (some text, u) : Except Halt (Option String × Session)) = .ok (a, s') →
      EndsJoint changed a s' (.ok (some text, v)) := by
    intro text u v huv heq
    rcases Prod.mk.inj (Except.ok.inj heq) with ⟨rfl, rfl⟩
    exact Or.inr ⟨v, rfl, huv⟩
  cases hlooks with
  | plain s₁ t₁ hs ht =>
    exact hshown line s₁ t₁ (h.turn hs ht (h.together.reader.hold hsame) (hheld _)) hrun
  | escaped s₁ t₁ hs ht =>
    exact hshown _ s₁ t₁ (h.turn hs ht (h.together.reader.escape hsame) (hheld _)) hrun
  | kept i s₁ t₁ _ _ _ hs ht =>
    exact hshown line s₁ t₁ (h.turn hs ht (h.together.reader.hold hsame) (hheld _)) hrun
  | passed s₁ t₁ _ _ hs ht =>
    exact hpeek s₁ t₁ a s' (h.turn hs ht (h.together.reader.shifted hone) (Or.inl hidle.shifted))
      hrun
  | conditional c consumed ruling s₁ t₁ _ _ _ hruled hs ht =>
    -- the same ruling holds for both readers, and at most one line is held after it
    have hsteady₁ := (hsteady s₁).2.1 rfl
    rw [hs.reader] at hsteady₁
    have hreader := h.together.reader.ruled ruling
    refine hpeek s₁ t₁ a s' (h.turn hs ht ?_ hsteady₁) hrun
    cases consumed with
    | false => exact hreader
    | true =>
      refine hreader.shifted ?_
      cases ruling with
      | set conditionals skipping => exact hone
      | keep text =>
        change (s.reader.keeping text).lookAhead ≤ 1
        rw [Reader.lookAhead_keeping, hidle.lookAhead]
        split <;> omega
  | followed i way way' es es' s₁ t₁ _ _ hs hs' ht ht' hway =>
    have hsteady₁ := (hsteady s₁).2.1 rfl
    rw [hs'.reader] at hsteady₁
    exact hpeek s₁ t₁ a s' (h.turn hs' ht' (h.together.reader.way hone hway) hsteady₁) hrun
  | handed i processor target attributes s₁ t₁ _ _ _ hs ht =>
    exact resume_hand_joint hpeek (h.turn hs ht (h.together.reader.shifted hone)
      (Or.inl hidle.shifted)) ((hsteady s₁).2.2 _ _ rfl) hrun
  | refused => cases hrun

/-- A look at a line that is in front of the first session, and of the second one if it was not
changed. -/
theorem peekLine_joint_cons {fuel : Nat}
    (hpeek : ∀ s t a s', Joint changed s t → s.peekLine fuel = .ok (a, s') →
      EndsJoint changed a s' (t.peekLine fuel))
    {s t s' : Session} {a : Option String} {line : String} {rest : List String}
    (h : Joint changed s t) (hidle : s.reader.Idle) (hfront : s.reader.scope.lines = line :: rest)
    (hrun : s.peekLine (fuel + 1) = .ok (a, s')) :
    EndsJoint changed a s' (t.peekLine (fuel + 1)) := by
  have hrest := hrun
  rw [peekLine_of_cons fuel hidle hfront] at hrest
  have hbelow := h.together.reader.scope.2
  rw [hfront] at hbelow
  obtain ⟨line', rest', hfront'⟩ : ∃ line' rest', t.reader.scope.lines = line' :: rest' := by
    cases hlines' : t.reader.scope.lines with
    | nil => simp [h.together.reader.lines_eq_nil_iff.mp hlines'] at hfront
    | cons line' rest' => exact ⟨line', rest', rfl⟩
  rw [hfront'] at hbelow
  rw [peekLine_of_cons fuel (h.idle hidle) hfront']
  by_cases hsame : line' = line
  · subst hsame
    have hmet := h.meet line' line'
    refine resume_joint hpeek hmet hidle hfront hfront' ?_ hrest
    exact looks_glance Altered.framing hmet.agree (fun _ _ _ => hmet.alongside)
      (.intro hidle.lookAhead (h.idle hidle).lookAhead) (.intro ⟨rest, hfront⟩ ⟨rest', hfront'⟩)
  · rcases hbelow with _ | _ | ⟨hline, hline', hchanged, -⟩
    · exact absurd rfl hsame
    · cases hskip : s.reader.skipping with
      | true =>
        -- both sessions pass over their line
        have hskip' : t.reader.skipping = true := h.together.reader.skipping.trans hskip
        rw [glance_passed (s := s.meet line) hskip hline] at hrest
        rw [glance_passed (s := t.meet line') hskip' hline']
        have hone : s.reader.lookAhead ≤ 1 := by simp [hidle.lookAhead]
        exact hpeek _ _ a s' ((h.meet line line').turn ((Turns.refl _).move rfl)
          ((Turns.refl _).move rfl) (h.together.reader.shifted hone) (Or.inl hidle.shifted)) hrest
      | false =>
        exact Or.inl ((harmless_exposed changed).reading.peekLine_meet hidle hfront
          (exposed_meet hskip hchanged) hrun)

/-- Looking for the next line keeps the sessions side by side, unless a changed line is exposed. -/
theorem peekLine_joint {fuel : Nat} {s t s' : Session} {a : Option String}
    (h : Joint changed s t) (hrun : s.peekLine fuel = .ok (a, s')) :
    EndsJoint changed a s' (t.peekLine fuel) := by
  induction fuel generalizing s t a s' with
  | zero => cases hrun
  | succ fuel ih =>
    rcases peekLine_cases h.steady hrun with ⟨hlook, hfront, rfl, rfl⟩ |
      ⟨hidle, hlines, houter, rfl, rfl⟩ |
      ⟨n, hn, hidle, ⟨hlines, houter, hrest⟩ | ⟨line, rest, hfront, -⟩⟩
    · -- a line waits to be taken
      have hlook' : 0 < t.reader.lookAhead := by
        rw [h.together.reader.lookAhead]
        exact hlook
      refine Or.inr ⟨t, ?_, h⟩
      rw [peekLine_of_held fuel hlook', h.together.reader.head_of_held hlook]
    · -- nothing is left
      have hlines' := h.together.reader.lines_eq_nil_iff.mpr hlines
      have houter' := h.together.reader.outer_eq_nil_iff.mpr houter
      refine Or.inr ⟨t, ?_, h⟩
      rw [peekLine_of_nil fuel (h.idle hidle) hlines', houter']
      rfl
    · -- a scope ends
      obtain rfl : fuel = n := by omega
      have hlines' := h.together.reader.lines_eq_nil_iff.mpr hlines
      have houter' : ¬ t.reader.outer.isEmpty = true := fun hnil =>
        houter (h.together.reader.outer_eq_nil_iff.mp (List.isEmpty_iff.mp hnil))
      rw [peekLine_of_nil fuel (h.idle hidle) hlines', if_neg houter']
      exact ih (h.leave hidle houter) hrest
    · -- a line is looked at
      exact peekLine_joint_cons (fun s t a s' => ih) h hidle hfront hrun

/-! ## Loading side by side -/

/-- Scans keep sessions side by side, with blocks at the same places. -/
theorem simulation_veiled (changed : Cursor → String → Prop) :
    Simulation (Exposed changed) (Veiled changed) (fun _ _ => False) Eq where
  lost := harmless_exposed changed
  peek h hrun := by
    rcases peekLine_joint h hrun with hexposed | hjoint
    · exact Or.inl hexposed
    · exact Or.inr (Or.inl hjoint)
  take h hlook := by
    rcases Joint.takeFront h hlook with ⟨hlook', hsame, hjoint⟩
    exact ⟨hlook', hsame, Or.inr hjoint.together⟩
  refl _ := rfl
  located {s t} h := by
    have hcursor : t.reader.cursor = s.reader.cursor := h.together.reader.scope.1
    unfold locationOf
    rw [h.together.options, hcursor]
  edit := Veiled.edit
  log _ _ h := ⟨h.files, h.options, h.reader⟩
  steady := False.elim
  peekApart := False.elim
  takeApart := False.elim
  exhausted := False.elim
  editApart := False.elim
  logApart _ _ := False.elim

/-- Blocks that are alike and located alike are the same. -/
theorem eq_of_alike {blocks blocks' : List Block}
    (h : List.Forall₂ (Block.Alike Eq) blocks blocks') : blocks = blocks' := by
  induction h with
  | nil => rfl
  | cons hblock _ ih =>
    rename_i block block' rest rest' _
    have hsame : block = block' := by
      cases block
      cases block'
      simp only [Block.mk.injEq]
      exact ⟨hblock.context.symm, hblock.lines.symm, hblock.location, hblock.level.symm⟩
    rw [hsame, ih]

/-- A load does not depend on lines that it only looks at inside a false conditional. -/
theorem load_altered {files files' : FileTree} {source source' : Source} {o : LoadOptions}
    (hfiles : FileTree.Alike (Altered changed) files files')
    (hsource : ∀ s, openSource files source o = .ok s →
      Altered changed s.reader.cursor source.prepare source'.prepare)
    {fuel : Nat} {s : Session} (hload : load fuel files source o = .ok s)
    (hhidden : ∀ l ∈ s.journal.looked, l.skipping = false → ¬ changed l.cursor l.line) :
    ∃ t, load fuel files' source' o = .ok t ∧ t.doc.title = s.doc.title ∧
      t.doc.headerAttributes = s.doc.headerAttributes ∧ t.doc.attributes = s.doc.attributes ∧
      t.doc.blocks = s.doc.blocks := by
  obtain ⟨s₀, hopen, hscan⟩ := load_eq_ok.mp hload
  have hidle := steady_openSource hopen
  have hlines := hsource s₀ hopen
  obtain ⟨mode, hmode, rfl⟩ := openSource_eq_ok.mp hopen
  have hopen' : openSource files' source' o =
      .ok (start files' (.initial files.workingDir source' o mode)) := by
    rw [openSource_of_mode hmode, hfiles.workingDir]
  have hr : (start files (.initial files.workingDir source o mode)).reader.Altered changed
      (start files' (.initial files.workingDir source' o mode)).reader :=
    ⟨⟨rfl, hlines⟩, .nil, rfl, rfl, rfl, rfl, fun hlook => absurd hlook (Nat.lt_irrefl 0)⟩
  have hjoint : Joint changed (start files (.initial files.workingDir source o mode))
      (start files' (.initial files.workingDir source' o mode)) :=
    ⟨Or.inl hidle, hr.steady (Or.inl hidle), ⟨hfiles, rfl, hr⟩, ⟨rfl, rfl, rfl, rfl, rfl, .nil⟩⟩
  -- before anything is read the two sessions are side by side
  rcases scan_abreast (simulation_veiled changed) hjoint hscan with hexposed | ⟨t, ht, hend⟩
  · -- a changed line would have been looked at outside of a false conditional
    rcases hexposed with ⟨l, hl, hskip, hchanged⟩
    exact absurd hchanged (hhidden l hl hskip)
  · rcases hend with h | hfalse
    · exact ⟨t, load_eq_ok.mpr ⟨_, hopen', ht⟩, h.doc.title, h.doc.headerAttributes,
        h.doc.attributes, (eq_of_alike h.doc.blocks).symm⟩
    · exact hfalse.1.elim

end Session

/-! ## Hidden lines -/

/-- What a false conditional hides. A line is read inside of it only if it is blank or a conditional
behind a backslash, and these are read whenever they are in front. Every other line that is no
conditional is passed over, and a document does not depend on it. -/
theorem false_conditional_hides {files : FileTree} {source : Source} {o : LoadOptions} :
    (∀ s, Session.Reachable files source o s →
      (∀ fuel line s', s.readLine fuel = .ok (some line, s') → s'.reader.skipping = true →
        line = "" ∨ ∃ spelled, LineKind.ofLine spelled = .escapedConditional ∧
          line = Reader.dropFirst spelled) ∧
      ∀ fuel line rest, s.reader.lookAhead = 0 → s.reader.skipping = true →
        s.reader.scope.lines = line :: rest →
        (isLetThrough line = true → ∃ shown s', s.readLine (fuel + 1) = .ok (some shown, s') ∧
          s'.reader.skipping = true) ∧
        (isPassedOver line = true →
          s.peekLine (fuel + 1) = ((s.meet line).withReader Reader.shifted).peekLine fuel)) ∧
    ∀ (changed : Cursor → String → Prop) (files' : FileTree) (source' : Source) (fuel : Nat)
      (s : Session), FileTree.Alike (Altered changed) files files' →
      (∀ s₀, Session.openSource files source o = .ok s₀ →
        Altered changed s₀.reader.cursor source.prepare source'.prepare) →
      Session.load fuel files source o = .ok s →
      (∀ l ∈ s.journal.looked, l.skipping = false → ¬ changed l.cursor l.line) →
      ∃ t, Session.load fuel files' source' o = .ok t ∧ t.doc.title = s.doc.title ∧
        t.doc.headerAttributes = s.doc.headerAttributes ∧
        t.doc.attributes = s.doc.attributes ∧ t.doc.blocks = s.doc.blocks := by
  constructor
  · intro s hreachable
    constructor
    · -- the lines that are delivered
      intro fuel line s' hrun hskip
      exact Session.readLine_skipping hreachable hrun hskip
    · -- the lines that are let through, and those that are passed over
      intro fuel line rest hlook hskip hfront
      have hidle : s.reader.Idle := hreachable.skipped.1.idle (by omega)
      constructor
      · intro hlet
        rcases Session.readLine_let_through hidle hfront hlet fuel with ⟨s', hrun, hskip'⟩
        exact ⟨_, s', hrun, hskip'.trans hskip⟩
      · intro hpassed
        exact Session.peekLine_passed hidle hskip hfront hpassed fuel
  · -- the lines that may be altered
    intro changed files' source' fuel s hfiles hsource hload hhidden
    exact Session.load_altered hfiles hsource hload hhidden

/-- A file with a line inside a false conditional. -/
def hidingFiles (hidden : String) : FileTree where
  workingDir := ["w"]
  entries := [(["w"], .directory),
    (["w", "a"], .file (.text ("ifdef::x[]\n" ++ hidden ++ "\nendif::[]\ntwo\n")) 0)]
  clock := 1

/-- A hidden line of an included file may become a directive. -/
theorem false_conditional_hides_directive :
    ∃ s t, Session.load 20 (hidingFiles "one") (.lines ["include::a[]"]) {} = .ok s ∧
      Session.load 20 (hidingFiles "include::b[]") (.lines ["include::a[]"]) {} = .ok t ∧
      s.doc.blocks.map Block.lines = [["two"]] ∧ t.doc.blocks = s.doc.blocks := by
  have hload : ∃ s ∈ (Session.load 20 (hidingFiles "one") (.lines ["include::a[]"]) {}).toOption,
      s.doc.blocks.map Block.lines = [["two"]] ∧
      ∀ l ∈ s.journal.looked, l.skipping = false → ¬ l.line = "one" := by
    decide +kernel
  rcases hload with ⟨s, hs, hblocks, hhidden⟩
  have hs' := eq_ok_of_mem_toOption hs
  have hsame : ∀ path line, Text.stripEnd line = line →
      AlteredLine (fun _ line => line = "one") path line line := fun _ _ hline =>
    ⟨Or.inl rfl, rfl, hline, hline⟩
  have hother : ∀ path, AlteredLine (fun _ line => line = "one") path "one" "include::b[]" :=
    fun _ => ⟨Or.inr ⟨by decide +kernel, by decide +kernel, fun _ _ => rfl⟩, by decide +kernel,
      by decide +kernel, by decide +kernel⟩
  have hlines : ∀ path, List.Forall₂ (AlteredLine (fun _ line => line = "one") path)
      (Source.text "ifdef::x[]\none\nendif::[]\ntwo\n").prepare
      (Source.text "ifdef::x[]\ninclude::b[]\nendif::[]\ntwo\n").prepare := fun path =>
    .cons (hsame path _ (by decide +kernel)) <| .cons (hother path) <|
      .cons (hsame path _ (by decide +kernel)) <| .cons (hsame path _ (by decide +kernel)) .nil
  have hfiles : AlteredTree (fun _ line => line = "one") (hidingFiles "one")
      (hidingFiles "include::b[]") :=
    .of_entries rfl <| .cons ⟨rfl, .same _⟩ <|
      .cons ⟨rfl, .file 0 0 (by decide +kernel) (by decide +kernel) hlines⟩ .nil
  rcases false_conditional_hides.2 (fun _ line => line = "one") (hidingFiles "include::b[]")
    (.lines ["include::a[]"]) 20 s hfiles.alike (fun _ _ => .refl _ _) hs' hhidden with
    ⟨t, ht, -, -, -, hblocks'⟩
  exact ⟨s, t, hs', ht, hblocks, hblocks'⟩

/-- A blank line inside a false conditional is read, and the blocks of a document depend on it. -/
theorem false_conditional_delivers_blank :
    (∃ s ∈ (Session.openSource (.ofTexts []) (.lines ["ifdef::x[]", "", "endif::[]"])
        {}).toOption,
      ∃ p ∈ (s.readLine 20).toOption, p.1 = some "" ∧ p.2.reader.skipping = true) ∧
    ∃ s ∈ (Session.load 20 (.ofTexts [])
        (.lines ["one", "ifdef::x[]", "", "endif::[]", "two"]) {}).toOption,
      ∃ t ∈ (Session.load 20 (.ofTexts [])
          (.lines ["one", "ifdef::x[]", "three", "endif::[]", "two"]) {}).toOption,
        s.doc.blocks.map Block.lines = [["one"], ["two"]] ∧
        t.doc.blocks.map Block.lines = [["one", "two"]] := by
  decide +kernel

end DocFlatten
