import DocFlatten.Proofs.Loading
import Mathlib.Logic.Relation

/-! # Moves

Looking for a line, taking it and editing the document around that are made of a few moves. A
property of single lines and scopes is followed through those, whoever drives the reader.

* `Move`: one move, if there are no processors to hand anything to; `Runs`: any number of them;
* `Harmless.runs`: what reading and editing keep holds after any number of moves.
-/

namespace DocFlatten

namespace Session

/-- A session with the line in front taken. -/
def taken (s : Session) : Session :=
  s.takeFront.2

@[simp] theorem reader_taken (s : Session) : s.taken.reader = s.reader.shifted :=
  reader_takeFront s

/-- One move of a session: a scope is left, a line is looked at or taken, the document is edited
around that, or something is logged. -/
inductive Move (s : Session) : Session → Prop where
  | leave (hlook : s.reader.lookAhead = 0) (hlines : s.reader.scope.lines = [])
      (houter : s.reader.outer ≠ []) : Move s s.leave
  | look {line : String} {rest : List String} {t : Session} (hlook : s.reader.lookAhead = 0)
      (hfront : s.reader.scope.lines = line :: rest)
      (hglance : (∃ text, (s.meet line).glance line = .line text t) ∨
        (s.meet line).glance line = .again t) : Move s t
  | take (hheld : 0 < s.reader.lookAhead) : Move s s.taken
  | edit {d : Document} (hedit : s.doc.Edited d) : Move s { s with doc := d }
  | log (record : Log.Record) : Move s (s.log record)

/-- Any number of moves. -/
abbrev Runs : Session → Session → Prop :=
  Relation.ReflTransGen Move

/-- Records are written one by one. -/
theorem runs_logAll (s : Session) (records : List Log.Record) : Runs s (s.logAll records) := by
  induction records generalizing s with
  | nil => exact .refl
  | cons record records ih => exact .head (.log record) (ih (s.log record))

/-! ## What looking leaves as it is -/

/-- A session in which lines were looked at, but none was taken. -/
structure Unmoved (s s' : Session) : Prop where
  doc : s'.doc = { s.doc with reader := s'.doc.reader, includes := s'.doc.includes }
  taken : s'.journal.taken = s.journal.taken

namespace Unmoved

variable {s s' s'' : Session}

/-- What does not move is where it was. -/
theorem refl (s : Session) : Unmoved s s :=
  ⟨rfl, rfl⟩

theorem trans (h : Unmoved s s') (h' : Unmoved s' s'') : Unmoved s s'' := by
  refine ⟨?_, h'.taken.trans h.taken⟩
  rw [h'.doc, h.doc]

theorem meet (s : Session) (line : String) : Unmoved s (s.meet line) :=
  ⟨rfl, taken_meet s line⟩

/-- A turn changes neither options nor content. -/
theorem of_turns {r : Reader} {es : List Event} (h : Turns s r es s') : Unmoved s s' := by
  refine ⟨?_, h.taken⟩
  have hdoc := h.doc
  rw [hdoc]

theorem options (h : Unmoved s s') : s'.doc.options = s.doc.options := by
  rw [h.doc]

theorem same (h : Unmoved s s') : s.doc.Matches Eq s'.doc := by
  rw [h.doc]
  exact ⟨rfl, rfl, rfl, rfl, rfl, rfl⟩

end Unmoved

/-- Leaving a scope changes neither options nor content. -/
theorem unmoved_leave {s : Session} (houter : s.reader.outer ≠ []) : Unmoved s s.leave := by
  cases hs : s.reader.outer with
  | nil => exact absurd hs houter
  | cons scope outer => exact .of_turns (turns_leave hs)

/-- Without processors, a look at a line takes none. -/
theorem unmoved_look {s : Session} {line : String} {g : Glance}
    (hprocessors : s.doc.options.processors = []) (hlook : Look s line g) : Ends (Unmoved s) g := by
  cases hlook with
  | plain t hturns | escaped t hturns | kept i t _ _ _ hturns
  | passed t _ _ hturns | conditional c consumed r t _ _ _ hturns
  | followed i es r t _ _ _ hturns => exact .of_turns hturns
  | handed i processor target attributes t _ _ hresolve _ =>
    -- there is nobody to hand a directive to
    exact absurd hresolve (resolve_ne_handed hprocessors)
  | refused => exact trivial

/-- Without processors, looking for the next line takes none. -/
theorem unmoved_peekLine {fuel : Nat} {s s' : Session} {a : Option String}
    (hprocessors : s.doc.options.processors = []) (hsteady : s.reader.Steady)
    (h : s.peekLine fuel = .ok (a, s')) : Unmoved s s' := by
  induction fuel generalizing s with
  | zero => cases h
  | succ fuel ih =>
    -- what is found later was found from the next session on
    have hnext : ∀ t, Unmoved s t → t.reader.Steady → t.peekLine fuel = .ok (a, s') →
        Unmoved s s' := by
      intro t hmoves ht hrun
      exact hmoves.trans (ih (by rw [hmoves.options]; exact hprocessors) ht hrun)
    rcases peekLine_cases hsteady h with ⟨-, -, -, rfl⟩ | ⟨-, -, -, -, rfl⟩ |
      ⟨n, hn, hidle, ⟨-, houter, hrest⟩ | ⟨line, rest, hfront, hrest⟩⟩
    · -- a line waits, or nothing is left
      exact .refl _
    · exact .refl _
    · -- the scope ends
      obtain rfl : fuel = n := by omega
      exact hnext _ (unmoved_leave houter) (Or.inl (idle_leave hidle)) hrest
    · -- a line is looked at
      obtain rfl : fuel = n := by omega
      have hidle' : (s.meet line).reader.Idle := hidle
      have hlook : Look (s.meet line) line ((s.meet line).glance line) :=
        look_glance hidle.lookAhead hfront
      have hmeet := Unmoved.meet s line
      have hends := unmoved_look (s := s.meet line) hprocessors hlook
      cases hglance : (s.meet line).glance line with
      | line text t =>
        rw [hglance] at hends hrest
        cases hrest
        exact hmeet.trans hends
      | again t =>
        rw [hglance] at hlook hends hrest
        exact hnext t (hmeet.trans hends) ((hlook.steady hidle' hfront).2.1 rfl) hrest
      | refused e t =>
        rw [hglance] at hrest
        cases hrest
      | hand actions depth t =>
        rw [hglance] at hlook
        cases hlook with
        | handed i processor target attributes _ _ _ hresolve _ =>
          exact absurd hresolve (resolve_ne_handed hprocessors)

end Session

namespace Scan

open Session

namespace Harmless

variable {P : Session → Prop} {s t : Session}

/-- A move keeps what reading keeps. -/
theorem moves (harmless : Harmless P) (h : Steadily P s) (hmoves : Move s t) : Steadily P t := by
  cases hmoves with
  | leave hlook hlines houter =>
    have hidle := h.1.idle (by omega)
    exact ⟨Or.inl (idle_leave hidle), harmless.reading.leave _ h.2 hidle hlines houter⟩
  | @look line rest _ hlook hfront hglance =>
    have hidle := h.1.idle (by omega)
    have hmet : (s.meet line).reader.Idle := hidle
    have hlooked : Look (s.meet line) line ((s.meet line).glance line) :=
      look_glance hidle.lookAhead hfront
    have hends := harmless.reading.look _ line rest _ (harmless.reading.meet _ line h.2) hmet
      hfront rfl hlooked
    rcases hglance with ⟨text, hglance⟩ | hglance
    · -- the line waits now
      rw [hglance] at hlooked hends
      exact ⟨Or.inr ((hlooked.steady hmet hfront).1 text rfl), hends⟩
    · -- the next one is looked for
      rw [hglance] at hlooked hends
      exact ⟨(hlooked.steady hmet hfront).2.1 rfl, hends⟩
  | take hheld =>
    refine ⟨Or.inl ?_, harmless.reading.take s h.2 h.1 hheld⟩
    rw [reader_taken]
    exact h.1.idle_shifted hheld
  | @edit d hedit =>
    refine ⟨?_, harmless.edit s d h.2 hedit⟩
    have hreader : ({ s with doc := d } : Session).reader = s.reader := hedit.reader
    rw [hreader]
    exact h.1
  | log record => exact ⟨h.1, harmless.log s record h.2⟩

/-- What reading and editing keep holds after any number of moves. -/
theorem runs (harmless : Harmless P) (h : Steadily P s) (hruns : Runs s t) : Steadily P t := by
  induction hruns with
  | refl => exact h
  | tail _ hmoves ih => exact harmless.moves ih hmoves

end Harmless

/-- A session that is read line by line, with no processors to hand anything to. -/
abbrev Sound : Session → Prop :=
  Steadily fun s => s.doc.options.processors = []

/-- Nothing that reading does changes the processors. -/
theorem harmless_processors : Harmless fun s => s.doc.options.processors = [] := by
  apply harmless_of_turns
  · intro s r es s' hs hturns
    rw [hturns.doc]
    exact hs
  · intro s d hs hedit
    rw [hedit.options]
    exact hs
  · intro s line hs
    exact hs
  · intro s hs
    rw [doc_takeFront]
    exact hs

/-- A document without processors begins soundly. -/
theorem sound_openSource {files : FileTree} {source : Source} {o : LoadOptions} {s : Session}
    (hopen : openSource files source o = .ok s) (hprocessors : o.processors = []) : Sound s := by
  refine ⟨Or.inl (steady_openSource hopen), ?_⟩
  obtain ⟨mode, -, rfl⟩ := openSource_eq_ok.mp hopen
  exact hprocessors

end Scan

end DocFlatten
