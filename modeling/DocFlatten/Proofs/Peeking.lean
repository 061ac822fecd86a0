import DocFlatten.Proofs.Ending
import DocFlatten.Proofs.Moving
import DocFlatten.Proofs.PlainReading

/-! # Looking and taking agree

Looking for the next line is not idle: it acts on directives, leaves scopes and may change the line
in front. Taking the next line finds the same one all the same, also where a caller takes lines
unread and puts others in front:

* `Peeks`, `Takes`: looking for the next line, and taking it, with enough looks; both have one
  result at most;
* `Handled`: the states of a reader that a caller handles line by line; the lines that count as
  processed are there in all of them (`Reader.Covered`, `Handled.tended`);
* `Peeks.again`, `Peeks.takes`: looking once more changes nothing, and taking comes to the same;
* `takes_of_isInert`: a line that is no live directive is taken as content.

`peek_agrees` has all of it.
-/

namespace DocFlatten

open DocFlatten.Scan

namespace Reader

/-- The lines that count as processed are there, and a backslash is set aside only in front of such
a line. -/
structure Covered (r : Reader) : Prop where
  waiting : r.lookAhead ≤ r.scope.lines.length
  escaped : r.unescape = true → 0 < r.lookAhead

namespace Covered

variable {r : Reader}

theorem of_idle (h : r.Idle) : r.Covered where
  waiting := by simp [h.lookAhead]
  escaped hescaped := by simp [h.plain] at hescaped

/-- A steady reader is covered. -/
theorem of_steady (h : r.Steady) : r.Covered := by
  rcases h with hidle | ⟨hone, hfront⟩
  · exact .of_idle hidle
  · exact ⟨hone ▸ List.length_pos_iff.mpr hfront, fun _ => by omega⟩

/-- If no line waits, a covered reader is idle. -/
theorem idle (h : r.Covered) (hlook : ¬ 0 < r.lookAhead) : r.Idle where
  lookAhead := by omega
  plain := by
    cases hescaped : r.unescape with
    | false => rfl
    | true => exact absurd (h.escaped hescaped) hlook

theorem ne_nil (h : r.Covered) (hlook : 0 < r.lookAhead) : r.scope.lines ≠ [] :=
  List.length_pos_iff.mp (Nat.lt_of_lt_of_le hlook h.waiting)

/-- Using up a line leaves a reader covered. -/
theorem shifted (h : r.Covered) (hfront : r.scope.lines ≠ []) : r.shifted.Covered := by
  obtain ⟨line, rest, hlines⟩ := List.exists_cons_of_ne_nil hfront
  have hwaiting := h.waiting
  rw [hlines, List.length_cons] at hwaiting
  rw [shifted_of_lines hlines]
  exact ⟨Nat.sub_le_of_le_add hwaiting, fun hescaped => by cases hescaped⟩

/-- A line that is put in front waits. -/
theorem unshift (h : r.Covered) (line : String) : (r.unshift line).Covered where
  waiting := Nat.succ_le_succ h.waiting
  escaped _ := Nat.succ_pos _

end Covered

/-- Where no line waits, taking the line in front moves on by that line and does nothing else. -/
theorem Idle.shifted_eq {r : Reader} {line : String} {rest : List String} (h : r.Idle)
    (hlines : r.scope.lines = line :: rest) :
    r.shifted = { r with scope := { lines := rest, cursor := r.cursor.next } } := by
  obtain ⟨scope, outer, lookAhead, unescape, conditionals, skipping, frame⟩ := r
  obtain ⟨hnone, hplain⟩ := h
  simp only at hnone hplain hlines
  subst hnone hplain
  exact shifted_of_lines hlines

end Reader

namespace Session

/-! ## Looking and taking -/

/-- Looking for the next line finds it, and goes over into a session. -/
def Peeks (s : Session) (line : Option String) (t : Session) : Prop :=
  ∃ fuel, s.peekLine fuel = .ok (line, t)

/-- The system refuses a look for the next line, and taking one in the same way: the file of a
directive cannot be looked up. -/
def Balks (s : Session) (e : FileError) (t : Session) : Prop :=
  ∃ fuel, s.peekLine fuel = .error (.refused e t) ∧ s.readLine fuel = .error (.refused e t) ∧
    s.Refuses e t

/-- Taking the next line gives it, and goes over into a session. -/
def Takes (s : Session) (line : Option String) (t : Session) : Prop :=
  ∃ fuel, s.readLine fuel = .ok (line, t)

section

variable {s t t' u : Session} {line line' : Option String}

/-- Looking has one result at most. -/
theorem Peeks.unique (h : s.Peeks line t) (h' : s.Peeks line' t') : line' = line ∧ t' = t := by
  obtain ⟨fuel, hfound⟩ := h
  obtain ⟨fuel', hfound'⟩ := h'
  have hsame := peekLine_le (s := s) (Nat.le_max_left fuel fuel') (by rw [hfound]; exact nofun)
  rw [peekLine_le (Nat.le_max_right fuel fuel') (by rw [hfound']; exact nofun), hfound, hfound'] at hsame
  exact Prod.mk.inj (Except.ok.inj hsame)

/-- Taking has one result at most. -/
theorem Takes.unique (h : s.Takes line t) (h' : s.Takes line' t') : line' = line ∧ t' = t := by
  obtain ⟨fuel, hfound⟩ := h
  obtain ⟨fuel', hfound'⟩ := h'
  have hsame := readLine_le (s := s) (Nat.le_max_left fuel fuel') (by rw [hfound]; exact nofun)
  rw [readLine_le (Nat.le_max_right fuel fuel') (by rw [hfound']; exact nofun), hfound, hfound'] at hsame
  exact Prod.mk.inj (Except.ok.inj hsame)

/-- A line that waits is the one to be found. -/
theorem peeks_of_held (hlook : 0 < s.reader.lookAhead) : s.Peeks s.reader.head? s :=
  ⟨1, peekLine_of_held 0 hlook⟩

theorem peeks_of_exhausted (h : Exhausted s.reader) : s.Peeks none s :=
  ⟨1, by rw [peekLine_of_nil 0 h.idle h.lines, if_pos (by simp [h.outer])]⟩

/-- A line that waits is the one to be taken. -/
theorem takes_of_held (hlook : 0 < s.reader.lookAhead) : s.Takes s.takeFront.1 s.takeFront.2 :=
  ⟨0, takeWith_of_held hlook⟩

/-- Without a line that waits, taking comes after looking. -/
theorem takes_of_peeks (hlook : ¬ 0 < s.reader.lookAhead) (h : s.Peeks line t) :
    (line = none → s.Takes none t) ∧
      (line.isSome = true → s.Takes t.takeFront.1 t.takeFront.2) := by
  obtain ⟨fuel, hfound⟩ := h
  cases line with
  | none =>
    refine ⟨fun _ => ⟨fuel, ?_⟩, fun h => by cases h⟩
    rw [readLine, takeWith_of_not_held hlook, hfound]
    rfl
  | some text =>
    refine ⟨fun h => (by cases h), fun _ => ⟨fuel, ?_⟩⟩
    rw [readLine, takeWith_of_not_held hlook, hfound]
    rfl

/-- What looking comes to: the line in front waits to be taken, or the document is at its end. -/
theorem Peeks.cases (hcovered : s.reader.Covered) (h : s.Peeks line t) :
    t.reader.Covered ∧
      (0 < t.reader.lookAhead ∧ line = t.reader.head? ∧ line.isSome = true ∨
        Exhausted t.reader ∧ line = none) := by
  by_cases hlook : 0 < s.reader.lookAhead
  · obtain ⟨rfl, rfl⟩ := (peeks_of_held hlook).unique h
    refine ⟨hcovered, Or.inl ⟨hlook, rfl, ?_⟩⟩
    simpa [Reader.head?] using hcovered.ne_nil hlook
  · have hidle := hcovered.idle hlook
    obtain ⟨fuel, hfound⟩ := h
    obtain ⟨hsteady, hheld⟩ := steady_peekLine (Or.inl hidle) hfound
    refine ⟨.of_steady hsteady, ?_⟩
    cases line with
    | none => exact Or.inr ⟨exhausted_of_peekLine (Or.inl hidle) hfound, rfl⟩
    | some text =>
      exact Or.inl ⟨hheld.mp rfl, head_of_peekLine (Or.inl hidle) hfound, rfl⟩

/-- Looking once more changes nothing. -/
theorem Peeks.again (hcovered : s.reader.Covered) (h : s.Peeks line t) : t.Peeks line t := by
  rcases (h.cases hcovered).2 with ⟨hheld, hline, -⟩ | ⟨hend, rfl⟩
  · rw [hline]
    exact peeks_of_held hheld
  · exact peeks_of_exhausted hend

/-- Taking comes to the same whether or not a caller has looked before, and gives the line that was
found. -/
theorem Peeks.takes (hcovered : s.reader.Covered) (h : s.Peeks line t) :
    ∃ u, s.Takes line u ∧ t.Takes line u ∧ (line = none → u = t) := by
  rcases (h.cases hcovered).2 with ⟨hheld, hline, hsome⟩ | ⟨hend, rfl⟩
  · have htaken : line = t.takeFront.1 := hline.trans (takeFront_fst t).symm
    refine ⟨t.takeFront.2, ?_, ?_, fun hnone => by simp [hnone] at hsome⟩
    · by_cases hlook : 0 < s.reader.lookAhead
      · obtain ⟨-, rfl⟩ := (peeks_of_held hlook).unique h
        rw [htaken]
        exact takes_of_held hlook
      · have htakes := (takes_of_peeks hlook h).2 hsome
        rwa [← htaken] at htakes
    · rw [htaken]
      exact takes_of_held hheld
  · have hidle := hend.idle.lookAhead
    have hlook : ¬ 0 < s.reader.lookAhead := by
      intro hlook
      obtain ⟨-, rfl⟩ := (peeks_of_held hlook).unique h
      omega
    exact ⟨t, (takes_of_peeks hlook h).1 rfl,
      (takes_of_peeks (by omega) (peeks_of_exhausted hend)).1 rfl, fun _ => rfl⟩

/-- Taking comes after looking, if no line waits. -/
theorem Takes.peeks (hlook : ¬ 0 < s.reader.lookAhead) (h : s.Takes line u) :
    ∃ found t, s.Peeks found t ∧ (found = none ∧ line = none ∧ u = t ∨
      found.isSome = true ∧ t.takeFront = (line, u)) := by
  obtain ⟨fuel, hread⟩ := h
  obtain ⟨found, t, hpeek, htaken⟩ := peekLine_of_readLine hlook hread
  exact ⟨found, t, ⟨fuel, hpeek⟩, htaken⟩

/-- A session takes what another one takes, if it finds what the other one finds. -/
theorem Takes.of_peeks (hlook : ¬ 0 < s.reader.lookAhead) (hcovered : t.reader.Covered)
    (hpeeks : ∀ found w, t.Peeks found w → s.Peeks found w) (h : t.Takes line u) :
    s.Takes line u := by
  by_cases hheld : 0 < t.reader.lookAhead
  · obtain ⟨rfl, rfl⟩ := (takes_of_held hheld).unique h
    exact (takes_of_peeks hlook (hpeeks _ _ (peeks_of_held hheld))).2
      (by simpa [Reader.head?] using hcovered.ne_nil hheld)
  · obtain ⟨found, w, hfound, ⟨rfl, rfl, rfl⟩ | ⟨hsome, htaken⟩⟩ := h.peeks hheld
    · exact (takes_of_peeks hlook (hpeeks _ _ hfound)).1 rfl
    · have htakes := (takes_of_peeks hlook (hpeeks _ _ hfound)).2 hsome
      rwa [htaken] at htakes

end

/-! ## Lines of content -/

/-- A line that a look shows is taken, and nothing but that line has gone. -/
theorem takes_of_glance {s : Session} {line text : String} {rest : List String} {unescape : Bool}
    (hidle : s.reader.Idle) (hfront : s.reader.scope.lines = line :: rest)
    (hglance : (s.meet line).glance line =
      .line text ((s.meet line).withReader fun r => { r.hold with unescape }))
    (htext : text = if unescape then Reader.dropFirst line else line) :
    ∃ t, s.Takes (some text) t ∧ t.files = s.files ∧
      t.doc = { s.doc with reader := s.reader.shifted } ∧
      t.journal.records = s.journal.records := by
  obtain ⟨w, hw⟩ : ∃ w, w = (s.meet line).withReader fun r => { r.hold with unescape } := ⟨_, rfl⟩
  -- the look finds the line
  have hpeek : s.peekLine 1 = .ok (some text, w) := by
    rw [peekLine_of_cons 0 hidle hfront, hglance, ← hw]
    rfl
  have hreader : w.reader = { s.reader.hold with unescape } := by rw [hw]; rfl
  have hfront' : w.reader.scope.lines = line :: rest := by rw [hreader]; exact hfront
  have hline : w.takeFront.1 = some text := by
    rw [takeFront_fst, Reader.head?, hfront', htext, hreader]
    rfl
  -- taking it leaves the reader behind the line
  have hafter : w.reader.shifted = s.reader.shifted := by
    rw [Reader.shifted_of_lines hfront', Reader.shifted_of_lines hfront, hreader]
    simp [Reader.hold, Reader.cursor, hidle.lookAhead]
  have htakes := (takes_of_peeks (by simp [hidle.lookAhead]) ⟨1, hpeek⟩).2 rfl
  rw [hline] at htakes
  refine ⟨w.takeFront.2, htakes, by rw [files_takeFront, hw]; rfl, ?_, ?_⟩
  · rw [doc_takeFront, hafter, hw]
    rfl
  · rw [journal_takeFront hfront', Journal.records_push_taken, hw]
    exact Journal.records_push_looked _ _

/-- A line that is no live directive is taken as content. -/
theorem takes_of_isInert {s : Session} {line : String} {rest : List String} (hidle : s.reader.Idle)
    (hread : s.reader.skipping = false) (hfront : s.reader.scope.lines = line :: rest)
    (hinert : isInert line = true) :
    ∃ t, s.Takes (some (contentOf line)) t ∧ t.files = s.files ∧
      t.doc = { s.doc with reader := s.reader.shifted } ∧
      t.journal.records = s.journal.records :=
  takes_of_glance hidle hfront (glance_of_isInert (s := s.meet line) hinert hread hidle) rfl

/-! ## Readers that are handled line by line -/

/-- The states of a reader whose caller looks at lines, takes them, also unread, puts lines in front
and sets attributes. A caller may go on where a look was refused. -/
inductive Handled (files : FileTree) (source : Source) (o : LoadOptions) : Session → Prop where
  | start {s : Session} (h : openSource files source o = .ok s) : Handled files source o s
  | peek {s s' : Session} {a : Option String} (fuel : Nat) (h : Handled files source o s)
      (hrun : s.peekLine fuel = .ok (a, s')) : Handled files source o s'
  | read {s s' : Session} {a : Option String} (fuel : Nat) (h : Handled files source o s)
      (hrun : s.readLine fuel = .ok (a, s')) : Handled files source o s'
  | refused {s s' : Session} {e : FileError} (fuel : Nat) (h : Handled files source o s)
      (hrun : s.peekLine fuel = .error (.refused e s')) : Handled files source o s'
  | shift {s : Session} (h : Handled files source o s) (hfront : s.reader.scope.lines ≠ []) :
    Handled files source o (s.withReader Reader.shifted)
  | unshift {s : Session} (line : String) (h : Handled files source o s) :
    Handled files source o (s.withReader fun r => r.unshift line)
  | setAttribute {s : Session} (name : String) (value : Option String)
      (h : Handled files source o s) :
    Handled files source o { s with doc := s.doc.setAttribute name value }

variable {files : FileTree} {source : Source} {o : LoadOptions}

/-- A session without processors whose lines that count as processed are there. -/
structure Tended (s : Session) : Prop where
  processors : s.doc.options.processors = []
  covered : s.reader.Covered

/-- What is found from a tended session leaves it tended. -/
theorem Tended.peek {s t : Session} {line : Option String} (h : s.Tended) (hpeeks : s.Peeks line t) :
    t.Tended := by
  refine ⟨?_, (hpeeks.cases h.covered).1⟩
  by_cases hlook : 0 < s.reader.lookAhead
  · obtain ⟨-, rfl⟩ := (peeks_of_held hlook).unique hpeeks
    exact h.processors
  · obtain ⟨fuel, hfound⟩ := hpeeks
    exact harmless_processors.reading.peekLine (Or.inl (h.covered.idle hlook)) h.processors hfound

/-- So does what is taken from it. -/
theorem Tended.take {s t : Session} {line : Option String} (h : s.Tended) (htakes : s.Takes line t) :
    t.Tended := by
  by_cases hlook : 0 < s.reader.lookAhead
  · obtain ⟨-, rfl⟩ := (takes_of_held hlook).unique htakes
    refine ⟨by rw [doc_takeFront]; exact h.processors, ?_⟩
    rw [reader_takeFront]
    exact h.covered.shifted (h.covered.ne_nil hlook)
  · have hsteady : s.reader.Steady := Or.inl (h.covered.idle hlook)
    obtain ⟨fuel, hfound⟩ := htakes
    exact ⟨harmless_processors.reading.readLine hsteady h.processors hfound,
      .of_idle (idle_readLine hsteady hfound)⟩

/-- And so does a refusal. -/
theorem Tended.refused {s t : Session} {e : FileError} {fuel : Nat} (h : s.Tended)
    (hrun : s.peekLine fuel = .error (.refused e t)) : t.Tended := by
  have hlook : ¬ 0 < s.reader.lookAhead := by
    intro hlook
    obtain ⟨n, rfl⟩ : ∃ n, fuel = n + 1 := by
      cases fuel with
      | zero => cases hrun
      | succ n => exact ⟨n, rfl⟩
    rw [peekLine_of_held n hlook] at hrun
    cases hrun
  have hsteady : s.reader.Steady := Or.inl (h.covered.idle hlook)
  have hrefuses := refuses_of_peekLine h.processors hsteady hrun
  exact ⟨hrefuses.processors hsteady h.processors, .of_idle hrefuses.idle⟩

/-- In every state of a reader that is handled, the lines that count as processed are there. -/
theorem Handled.tended (hprocessors : o.processors = []) {s : Session}
    (h : Handled files source o s) : s.Tended := by
  induction h with
  | start h =>
    obtain ⟨hsteady, hnone⟩ := sound_openSource h hprocessors
    exact ⟨hnone, .of_steady hsteady⟩
  | peek fuel _ hrun ih => exact ih.peek ⟨fuel, hrun⟩
  | read fuel _ hrun ih => exact ih.take ⟨fuel, hrun⟩
  | refused fuel _ hrun ih => exact ih.refused hrun
  | shift _ hfront ih => exact ⟨ih.processors, ih.covered.shifted hfront⟩
  | unshift line _ ih => exact ⟨ih.processors, ih.covered.unshift line⟩
  | @setAttribute s name value _ ih =>
    have hedited := Simulation.edited_setAttribute s.doc name value
    exact ⟨by rw [hedited.options]; exact ih.processors, by
      have hcovered := ih.covered
      unfold reader at hcovered ⊢
      rwa [hedited.reader]⟩

/-- Looking for the next line has a result, whatever the limit of nested includes is by now, unless
the system refuses it. -/
theorem Tended.peeks {s : Session} (h : s.Tended) :
    (∃ line t, s.Peeks line t) ∨ ∃ e t, s.Balks e t := by
  by_cases hlook : 0 < s.reader.lookAhead
  · exact Or.inl ⟨_, s, peeks_of_held hlook⟩
  · -- the limit stays the same while this one line is looked for, so the bounds of now will do
    have hbounded : Bounded (s.files.lineCount + 4) (max s.reader.includeDepth s.maxIncludeDepth.toNat)
        (s.journal.taken.length + s.reader.work (s.files.lineCount + 4)
          (max s.reader.includeDepth s.maxIncludeDepth.toNat)) s :=
      { processors := h.processors
        files := Nat.le_refl _
        limited := by omega
        depth := Nat.le_max_left _ _
        work := Nat.le_refl _ }
    have hsteady : s.reader.Steady := Or.inl (h.covered.idle hlook)
    obtain ⟨fuel, hended⟩ := (dwindles_bounded _ _ _).peekLine_ends hbounded hsteady
    rcases hpeek : s.peekLine fuel with (_ | ⟨e, t⟩) | ⟨line, t⟩
    · exact absurd hpeek hended
    · exact Or.inr ⟨e, t, fuel, hpeek, readLine_of_refused hpeek,
        refuses_of_peekLine h.processors hsteady hpeek⟩
    · exact Or.inl ⟨line, t, fuel, hpeek⟩

/-- Looking and taking agree in every state of a reader that is handled line by line. Looking has a
result, unless the system refuses to look up the file of a directive: then taking is refused as well.
Looking once more has the same and changes nothing; taking gives the same line, whether or
not a caller has looked before. The lines that count as processed are always there, so no line is
taken where none is left: a line that is found is in front then, and if none is found the document is
at its end, for taking as for looking. -/
theorem peek_agrees (hprocessors : o.processors = []) {s : Session}
    (h : Handled files source o s) :
    s.reader.lookAhead ≤ s.reader.scope.lines.length ∧
    ((∃ line t, s.Peeks line t) ∨ ∃ e t, s.Balks e t) ∧
    ∀ line t, s.Peeks line t →
      t.Peeks line t ∧ (∃ u, s.Takes line u ∧ t.Takes line u ∧ (line = none → u = t)) ∧
      (line ≠ none → 0 < t.reader.lookAhead ∧ t.reader.scope.lines ≠ []) ∧
      (line = none → Exhausted t.reader) := by
  have htended := h.tended hprocessors
  refine ⟨htended.covered.waiting, htended.peeks, ?_⟩
  intro line t hpeeks
  -- looking again finds the same line, and so does reading
  refine ⟨hpeeks.again htended.covered, hpeeks.takes htended.covered, ?_⟩
  obtain ⟨hcovered, hcases⟩ := hpeeks.cases htended.covered
  constructor
  · -- a line was found, so it waits
    intro hsome
    rcases hcases with ⟨hheld, -, -⟩ | ⟨-, hnone⟩
    · exact ⟨hheld, hcovered.ne_nil hheld⟩
    · exact absurd hnone hsome
  · -- none was found, so nothing is left
    intro hnone
    rcases hcases with ⟨-, -, hsome⟩ | ⟨hend, -⟩
    · simp [hnone] at hsome
    · exact hend

/-- A file with a directive behind a backslash. -/
def escapedFiles : FileTree :=
  .ofTexts [("a", "\\ifdef::x[]\nlast\n")]

/-- Inside an included file, with a line put in front of one that waits behind a backslash. -/
theorem peek_agrees_escaped :
    ({} : LoadOptions).processors = [] ∧
    ∃ s, Handled escapedFiles (.lines ["include::a[]"]) {} s ∧
      s.reader.includeDepth = 1 ∧ s.reader.lookAhead = 2 ∧ s.reader.unescape = true ∧
      s.reader.lookAhead ≤ s.reader.scope.lines.length ∧
      ((∃ line t, s.Peeks line t) ∨ ∃ e t, s.Balks e t) ∧
      ∀ line t, s.Peeks line t →
        t.Peeks line t ∧ (∃ u, s.Takes line u ∧ t.Takes line u ∧ (line = none → u = t)) ∧
        (line ≠ none → 0 < t.reader.lookAhead ∧ t.reader.scope.lines ≠ []) ∧
        (line = none → Exhausted t.reader) := by
  have hinside : ∃ s ∈ (openSource escapedFiles (.lines ["include::a[]"]) {}).toOption,
      ∃ found ∈ (s.peekLine 8).toOption, found.2.reader.includeDepth = 1 ∧
        found.2.reader.lookAhead = 1 ∧ found.2.reader.unescape = true := by
    decide +kernel
  obtain ⟨s, hs, ⟨line, s'⟩, hpeek, hdepth, hlook, hescaped⟩ := hinside
  have hhandled : Handled escapedFiles (.lines ["include::a[]"]) {}
      (s'.withReader fun r => r.unshift "front") :=
    .unshift "front" (.peek 8 (.start (eq_ok_of_mem_toOption hs)) (eq_ok_of_mem_toOption hpeek))
  exact ⟨rfl, _, hhandled, hdepth, congrArg (· + 1) hlook, hescaped, peek_agrees rfl hhandled⟩

end Session

end DocFlatten
