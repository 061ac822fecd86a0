import DocFlatten.Proofs.Loading

/-! # Lines inside a false conditional

Inside a false conditional a reader passes over every line that is no conditional, except for two
kinds: a blank line and a conditional behind a backslash are looked at before the skip is, and so
they are delivered.

* `Skipped`: a line that waits to be taken inside a false conditional is of these two kinds, an
  invariant of every state of a reader (`Reachable.skipped`);
* `readLine_skipping`: so only such lines are read there;
* `peekLine_passed`, `readLine_let_through`: all others are passed over, and these are not.
-/

namespace DocFlatten

open DocFlatten.Scan

/-- Whether a line is delivered even inside a false conditional. -/
def isLetThrough (line : String) : Bool :=
  line == "" || LineKind.ofLine line == .escapedConditional

namespace Session

/-! ## States of a reader -/

/-- The states of a reader that is driven by looking at lines and taking them, while its document
may be edited around it. -/
inductive Reachable (files : FileTree) (source : Source) (o : LoadOptions) : Session → Prop where
  | start {s : Session} (h : openSource files source o = .ok s) : Reachable files source o s
  | peek {s s' : Session} {a : Option String} (fuel : Nat) (h : Reachable files source o s)
      (hrun : s.peekLine fuel = .ok (a, s')) : Reachable files source o s'
  | read {s s' : Session} {a : Option String} (fuel : Nat) (h : Reachable files source o s)
      (hrun : s.readLine fuel = .ok (a, s')) : Reachable files source o s'
  | edit {s : Session} (d : Document) (h : Reachable files source o s)
      (hedit : s.doc.Edited d) : Reachable files source o { s with doc := d }

theorem Reachable.driven {files : FileTree} {source : Source} {o : LoadOptions} {s : Session}
    (h : Reachable files source o s) : Driven Document.Edited files source o s := by
  induction h with
  | start h => exact .start h
  | peek fuel _ hrun ih => exact .peek fuel ih hrun
  | read fuel _ hrun ih => exact .read fuel ih hrun
  | edit d _ hedit ih => exact .edit d ih hedit

/-! ## What is delivered -/

/-- If a line waits to be taken inside a false conditional, it is one of those that are let
through. -/
def Skipped (s : Session) : Prop :=
  0 < s.reader.lookAhead → s.reader.skipping = true →
    ∃ line rest, s.reader.scope.lines = line :: rest ∧ isLetThrough line = true ∧
      s.reader.unescape = !(line == "")

/-- Unless a line waits to be taken, there is nothing to say. -/
theorem skipped_of_idle {s : Session} (h : s.reader.Idle) : Skipped s := by
  intro hlook
  have := h.lookAhead
  omega

/-- Outside of false conditionals there is nothing to say. -/
theorem skipped_of_reading {s : Session} (h : s.reader.skipping = false) : Skipped s := by
  intro _ hskip
  rw [h] at hskip
  cases hskip

/-- A line that a look leaves waiting inside a false conditional is one of those that are let
through. -/
theorem skipped_look {s : Session} {line : String} {rest : List String} {g : Glance}
    (hidle : s.reader.Idle) (hfront : s.reader.scope.lines = line :: rest)
    (hlook : Look s line g) : Ends Skipped g := by
  have hsteady := fun s' => @Look.steady s s' line rest g hlook hidle hfront
  cases hlook with
  | plain s' hturns hline =>
    intro _ hskip
    rw [hturns.reader] at hskip ⊢
    rcases hline with rfl | ⟨hreading, -⟩
    · exact ⟨"", rest, hfront, rfl, hidle.plain⟩
    · rw [show s.reader.hold.skipping = s.reader.skipping from rfl, hreading] at hskip
      cases hskip
  | escaped s' hturns hne hline =>
    intro _ hskip
    rw [hturns.reader] at hskip ⊢
    rcases hline with hkind | ⟨hreading, -⟩
    · exact ⟨line, rest, hfront, by simp [isLetThrough, hkind], by simp [hne]⟩
    · rw [show ({ s.reader.hold with unescape := true } : Reader).skipping = s.reader.skipping
        from rfl, hreading] at hskip
      cases hskip
  | passed s' _ _ hturns =>
    refine skipped_of_idle ?_
    rw [hturns.reader]
    exact hidle.shifted
  | conditional c consumed r s' _ _ hruled hturns =>
    cases hruled with
    | idle | opened | closed =>
      refine skipped_of_idle ?_
      rw [hturns.reader]
      exact Reader.Idle.shifted ⟨hidle.lookAhead, hidle.plain⟩
    | kept text hreading =>
      -- the text of a single-line conditional is only kept outside
      refine skipped_of_reading ?_
      rw [hturns.reader]
      exact (s.reader.skipping_keeping text).trans hreading
  | kept i s' _ hreading _ hturns =>
    refine skipped_of_reading ?_
    rw [hturns.reader]
    exact hreading
  | followed i es r s' _ hreading hfollowed hturns =>
    refine skipped_of_reading ?_
    rw [hturns.reader]
    have hshifted : s.reader.shifted.skipping = false := by
      rw [← hreading]
      unfold Reader.shifted Reader.shift
      cases s.reader.scope.lines <;> rfl
    cases hfollowed with
    | kept => exact hreading
    | gone | replaced | entered => exact hshifted
  | handed i processor target attributes s' _ _ _ hturns =>
    intro readLine hread t hacts
    have hacted : t.reader.Idle :=
      idle_acts (fun u u' hu hrun => (hread u u' hu hrun).1) ((hsteady s').2.2 _ _ rfl) hacts
    exact skipped_of_idle hacted
  | refused => exact trivial

/-- All through a scan, only lines that are let through wait inside a false conditional. -/
theorem harmless_skipped : Harmless Skipped where
  reading :=
    { leave := fun s _ hidle _ _ => skipped_of_idle (idle_leave hidle)
      meet := fun s line hs => hs
      look := fun s line rest g _ hidle hfront _ hlook => skipped_look hidle hfront hlook
      take := fun s _ hsteady hlook => by
        refine skipped_of_idle ?_
        rw [reader_takeFront]
        exact hsteady.idle_shifted hlook }
  edit s d hs hedit := by
    unfold Skipped Session.reader at hs ⊢
    simp only [hedit.reader]
    exact hs
  log s record hs := hs

theorem Reachable.skipped {files : FileTree} {source : Source} {o : LoadOptions} {s : Session}
    (h : Reachable files source o s) : s.reader.Steady ∧ Skipped s :=
  h.driven.of_harmless harmless_skipped fun _ hopen => skipped_of_idle (steady_openSource hopen)

/-- Taking the line in front does not change whether lines are skipped. -/
theorem skipping_takeFront (s : Session) :
    s.takeFront.2.reader.skipping = s.reader.skipping := by
  rw [reader_takeFront]
  unfold Reader.shifted Reader.shift
  cases s.reader.scope.lines <;> rfl

/-- Only blank lines and conditionals behind a backslash are read inside a false conditional. -/
theorem readLine_skipping {files : FileTree} {source : Source} {o : LoadOptions}
    {s s' : Session} (h : Reachable files source o s) {fuel : Nat} {line : String}
    (hrun : s.readLine fuel = .ok (some line, s')) (hskip : s'.reader.skipping = true) :
    line = "" ∨ ∃ spelled, LineKind.ofLine spelled = .escapedConditional ∧
      line = Reader.dropFirst spelled := by
  -- the session in which the line was taken
  have htaken : ∃ t : Session, Skipped t ∧ 0 < t.reader.lookAhead ∧
      t.takeFront = (some line, s') := by
    by_cases hlook : 0 < s.reader.lookAhead
    · refine ⟨s, h.skipped.2, hlook, ?_⟩
      rw [readLine, takeWith_of_held hlook] at hrun
      exact Except.ok.inj hrun
    · rcases peekLine_of_readLine hlook hrun with ⟨b, t, hpeek, ⟨-, hnone, -⟩ | ⟨hsome, htake⟩⟩
      · cases hnone
      · have hreached := (h.peek fuel hpeek).skipped
        exact ⟨t, hreached.2, (steady_peekLine h.skipped.1 hpeek).2.mp hsome, htake⟩
  rcases htaken with ⟨t, hskipped, hlook, htake⟩
  have hsame : s' = t.takeFront.2 := by rw [htake]
  rw [hsame, skipping_takeFront] at hskip
  rcases hskipped hlook hskip with ⟨front, rest, hfront, hlet, hunescape⟩
  have hhead : some line = t.reader.head? := by rw [← takeFront_fst, htake]
  simp only [Reader.head?, hfront, Reader.shown, hunescape, List.head?_cons,
    Option.map_some] at hhead
  have hline := Option.some.inj hhead
  unfold isLetThrough at hlet
  by_cases hblank : front = ""
  · subst hblank
    exact Or.inl hline
  · refine Or.inr ⟨front, ?_, ?_⟩
    · simpa [hblank] using hlet
    · simpa [hblank] using hline

/-! ## What is passed over -/

/-- A line that is passed over is consumed: looking for the next line goes on behind it, and
nothing but the journal knows of it. -/
theorem peekLine_passed {s : Session} {line : String} {rest : List String}
    (hidle : s.reader.Idle) (hskip : s.reader.skipping = true)
    (hfront : s.reader.scope.lines = line :: rest) (hline : isPassedOver line = true)
    (fuel : Nat) :
    s.peekLine (fuel + 1) = ((s.meet line).withReader Reader.shifted).peekLine fuel := by
  rw [peekLine_of_cons fuel hidle hfront]
  have hskip' : (s.meet line).reader.skipping = true := hskip
  rw [glance_passed hskip' hline]
  rfl

/-- A line that is let through is read, inside a false conditional as elsewhere. -/
theorem readLine_let_through {s : Session} {line : String} {rest : List String}
    (hidle : s.reader.Idle) (hfront : s.reader.scope.lines = line :: rest)
    (hline : isLetThrough line = true) (fuel : Nat) :
    ∃ s', s.readLine (fuel + 1) =
        .ok (some (if line == "" then "" else Reader.dropFirst line), s') ∧
      s'.reader.skipping = s.reader.skipping := by
  have hlook : ¬ 0 < s.reader.lookAhead := by simp [hidle.lookAhead]
  -- the session in which the line waits to be taken
  have hheld : ∃ t, s.peekLine (fuel + 1) = .ok (t.reader.head?, t) ∧
      t.reader.head? = some (if line == "" then "" else Reader.dropFirst line) ∧
      t.reader.skipping = s.reader.skipping := by
    rw [peekLine_of_cons fuel hidle hfront]
    by_cases hblank : line = ""
    · subst hblank
      rw [glance_of_plain (Or.inl rfl)]
      refine ⟨(s.meet "").withReader Reader.hold, ?_, ?_, rfl⟩
      · simp [Reader.head?, Reader.hold, hfront, Reader.shown, hidle.plain, Glance.resume]
      · simp [Reader.head?, Reader.hold, hfront, Reader.shown, hidle.plain]
    · have hkind : LineKind.ofLine line = .escapedConditional := by
        simpa [isLetThrough, hblank] using hline
      rw [glance_of_escaped (Or.inl hkind)]
      refine ⟨(s.meet line).withReader fun r => { r.hold with unescape := true }, ?_, ?_, rfl⟩
      · simp [Reader.head?, Reader.hold, hfront, Reader.shown, Glance.resume, showEscaped]
      · simp [Reader.head?, Reader.hold, hfront, Reader.shown, hblank]
  rcases hheld with ⟨t, hpeek, hhead, hskip⟩
  refine ⟨t.takeFront.2, ?_, by rw [skipping_takeFront, hskip]⟩
  rw [(readLine_of_peekLine (Or.inl hidle) hpeek).2 (by rw [hhead]; rfl), ← hhead,
    ← takeFront_fst]

end Session

end DocFlatten
