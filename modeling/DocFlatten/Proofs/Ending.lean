import DocFlatten.Proofs.Measuring
import DocFlatten.Proofs.Loading

/-! # Reading ends

If a caller locks the limit of nested includes, reading ends, even where files include themselves
or each other:

* `Bounded`: the lines that were taken and what is still left to be read have a bound together, and
  scopes are no deeper than the limit; every step keeps that (`kept_bounded`);
* `Dwindles.peekLine_ends`, `Bounded.readAll_ends`: then each look for the next line ends, and so
  does reading line by line; the bounds hold in all states that a look passes through (`Passes`);
* `Locks`, `Driven`: the limit stays while a reader is driven, in whatever order others look at
  lines, take them and set attributes, since a document cannot set what its caller has locked.

`reading_ends` has all of it.
-/

namespace DocFlatten

namespace Session

variable {width limit : Nat}

/-! ## Reading -/

/-- How far a session may still go: its scopes are no deeper than the limit, and the lines that were
taken and those that may still come have a bound together. -/
structure Bounded (width limit bound : Nat) (s : Session) : Prop extends
    Within width limit s where
  depth : s.reader.includeDepth ≤ limit
  work : s.journal.taken.length + s.reader.work width limit ≤ bound

/-- The limit is in the attributes, and these are the same. -/
theorem Turns.maxIncludeDepth {s s' : Session} {r : Reader} {es : List Event}
    (h : Turns s r es s') : s'.maxIncludeDepth = s.maxIncludeDepth := by
  unfold Session.maxIncludeDepth
  rw [h.attributes]

theorem Within.turn {s s' : Session} {r : Reader} {es : List Event} (h : Within width limit s)
    (hturns : Turns s r es s') : Within width limit s' where
  processors := by rw [hturns.doc]; exact h.processors
  files := by rw [hturns.files]; exact h.files
  limited := by rw [hturns.maxIncludeDepth]; exact h.limited

namespace Bounded

variable {bound : Nat} {s s' : Session}

/-- A turn keeps the bound if it neither goes too deep nor makes more work. -/
theorem turn {r : Reader} {es : List Event} (h : Bounded width limit bound s)
    (hturns : Turns s r es s') (hdepth : r.includeDepth ≤ limit)
    (hwork : r.work width limit ≤ s.reader.work width limit) :
    Bounded width limit bound s' := by
  refine { h.toWithin.turn hturns with depth := ?_, work := ?_ }
  · rw [hturns.reader]
    exact hdepth
  · have hbefore := h.work
    rw [hturns.taken, hturns.reader]
    omega

/-- Leaving a scope leaves less work. -/
theorem leave (h : Bounded width limit bound s) (hidle : s.reader.Idle)
    (houter : s.reader.outer ≠ []) : Bounded width limit bound s.leave := by
  have hwork : s.leave.reader.work width limit ≤ s.reader.work width limit :=
    Reader.work_le_of_rank (rank_leave hidle houter)
  cases hscopes : s.reader.outer with
  | nil => exact absurd hscopes houter
  | cons scope outer =>
    have hturns := turns_leave hscopes
    have hdepth := h.depth
    rw [hturns.reader] at hwork
    refine h.turn hturns ?_ hwork
    unfold Reader.includeDepth at hdepth ⊢
    rw [hscopes] at hdepth
    exact Nat.le_of_succ_le hdepth

/-- A look goes no deeper than the limit. -/
theorem depth_glance (h : Bounded width limit bound s) (line : String) (hidle : s.reader.Idle) :
    (s.glance line).session.reader.includeDepth ≤ limit := by
  cases hinclusion : s.inclusion? line with
  -- no file is entered, so there are as many scopes around as before
  | none =>
    have houter := (glance_apart hinclusion).outer
    have hdepth := h.depth
    unfold Reader.includeDepth at hdepth ⊢
    rwa [houter]
  | some e =>
    -- a file is entered only below the limit
    have hdepth := (inclusion?_bounded hinclusion).1
    have hlimited := h.limited
    obtain ⟨i, way, es, t, -, -, hagain, -, henters, -, hturns⟩ :=
      glance_inclusion hidle.lookAhead hinclusion
    rw [hagain]
    unfold Glance.session
    simp only [hturns.reader]
    cases henters with
    | empty =>
      have hsame : (Way.empty.apply s.reader).includeDepth = s.reader.includeDepth :=
        includeDepth_shifted s.reader
      omega
    | full =>
      unfold Way.apply
      simp only [includeDepth_entered]
      omega

/-- A look at a line keeps the bound, whatever becomes of the line. -/
theorem look {line : String} {rest : List String} (h : Bounded width limit bound s)
    (hidle : s.reader.Idle) (hfront : s.reader.scope.lines = line :: rest)
    (hlook : Look s line (s.glance line)) : Bounded width limit bound (s.glance line).session := by
  obtain ⟨r, es, hturns⟩ := hlook.turns
  have hdepth := h.depth_glance line hidle
  rw [hturns.reader] at hdepth
  refine h.turn hturns hdepth ?_
  rw [← hturns.reader]
  cases hglance : s.glance line with
  -- the line waits, and the work left is the same
  | line text t =>
    rw [hglance] at hlook
    exact Nat.le_of_eq (work_shown hlook)
  -- the line is gone or replaced by something that makes less work
  | again t =>
    rw [hglance] at hlook
    exact Reader.work_le_of_rank (rank_glance h.toWithin hidle hfront hglance hlook)
  -- a directive that is handed over is used up
  | hand actions depth t =>
    rw [hglance] at hlook
    cases hlook with
    | handed i processor target attributes _ _ _ _ hturns =>
      simp only [Glance.session, hturns.reader]
      exact Nat.le_of_lt (Reader.work_shifted_lt width limit hfront)
  | refused e t =>
    rw [hglance] at hlook
    cases hlook with
    | refused i _ _ _ _ _ hturns => exact Nat.le_of_eq (congrArg _ hturns.reader)

/-- Taking a line uses up more than one. -/
theorem take (h : Bounded width limit bound s) (hsteady : s.reader.Steady)
    (hlook : 0 < s.reader.lookAhead) : Bounded width limit bound s.takeFront.2 := by
  obtain ⟨line, rest, hlines⟩ := hsteady.exists_front hlook
  have hless := Reader.work_shifted_lt width limit hlines
  have hbefore := h.work
  refine ⟨⟨?_, ?_, ?_⟩, ?_, ?_⟩
  · rw [doc_takeFront]
    exact h.processors
  · rw [files_takeFront]
    exact h.files
  · have hsame : s.takeFront.2.maxIncludeDepth = s.maxIncludeDepth := by
      unfold Session.maxIncludeDepth
      rw [doc_takeFront]
    rw [hsame]
    exact h.limited
  · rw [reader_takeFront, includeDepth_shifted]
    exact h.depth
  · rw [reader_takeFront, journal_takeFront hlines, Journal.taken_push_taken,
      List.length_append, List.length_singleton]
    omega

end Bounded

/-- Every step of reading keeps the bounds. -/
theorem kept_bounded (width limit bound : Nat) : Kept (Bounded width limit bound) where
  leave s h hidle _ houter := h.leave hidle houter
  meet s line h :=
    { processors := h.processors, files := h.files, limited := h.limited, depth := h.depth
      work := by simpa using h.work }
  look s line rest g h hidle hfront hg hlook := by
    subst hg
    exact hlook.ends h.processors (h.look hidle hfront hlook)
  take s h hsteady hlook := h.take hsteady hlook

/-! ## Ends -/

/-- What comes of some looks comes of more of them. -/
theorem peekLine_le {n m : Nat} {s : Session} (hle : n ≤ m) (h : s.peekLine n ≠ .error .endless) :
    s.peekLine m = s.peekLine n := by
  induction hle with
  | refl => rfl
  | step _ ih => exact (peekLine_mono (by rwa [ih])).trans ih

/-- What reading a line comes to within a bound it comes to within a larger one. -/
theorem readLine_le {n m : Nat} {s : Session} (hle : n ≤ m) (h : s.readLine n ≠ .error .endless) :
    s.readLine m = s.readLine n :=
  takeWith_mono (fun _ => peekLine_le hle) h

/-- And so does reading all lines. -/
theorem readAll_le {n m : Nat} {s : Session} (hle : n ≤ m) (h : s.readAll n ≠ .error .endless) :
    s.readAll m = s.readAll n := by
  induction n generalizing m s with
  | zero => exact absurd rfl h
  | succ n ih =>
    obtain ⟨m, rfl⟩ : ∃ k, m = k + 1 := ⟨m - 1, by omega⟩
    unfold readAll at h ⊢
    have hread : s.readLine (n + 1) ≠ .error .endless := fun hendless => h (by rw [hendless])
    rw [readLine_le hle hread]
    cases hnext : s.readLine (n + 1) with
    | error halt => rfl
    | ok next =>
      rw [hnext] at h
      obtain ⟨line, t⟩ := next
      cases line with
      | none => rfl
      | some line =>
        have hrest : t.readAll n ≠ .error .endless := fun hendless =>
          h (Except.map_eq_error_iff.mpr hendless)
        dsimp only
        rw [ih (Nat.le_of_succ_le_succ hle) hrest]

/-- A line that is found within a bound is found within a larger one. -/
theorem peekLine_eq_ok_of_le {n m : Nat} {s : Session} {found : Option String × Session}
    (hle : n ≤ m) (h : s.peekLine n = .ok found) : s.peekLine m = .ok found :=
  (peekLine_le hle (by simp [h])).trans h

theorem readLine_eq_ok_of_le {n m : Nat} {s : Session} {found : Option String × Session}
    (hle : n ≤ m) (h : s.readLine n = .ok found) : s.readLine m = .ok found :=
  (readLine_le hle (by simp [h])).trans h

theorem readAll_eq_ok_of_le {n m : Nat} {s : Session} {found : List String × Session}
    (hle : n ≤ m) (h : s.readAll n = .ok found) : s.readAll m = .ok found :=
  (readAll_le hle (by simp [h])).trans h

/-- The states that a look for the next line passes through until it ends. -/
inductive Passes : Session → Session → Prop where
  | here (s : Session) : Passes s s
  | leave {s t : Session} (hlook : s.reader.lookAhead = 0) (hlines : s.reader.scope.lines = [])
      (houter : s.reader.outer ≠ []) (h : Passes s.leave t) : Passes s t
  | again {s s' t : Session} {line : String} {rest : List String} (hlook : s.reader.lookAhead = 0)
      (hfront : s.reader.scope.lines = line :: rest)
      (hglance : (s.meet line).glance line = .again s') (h : Passes s' t) : Passes s t

theorem Passes.trans {s t u : Session} (h : Passes s t) (h' : Passes t u) : Passes s u := by
  induction h with
  | here s => exact h'
  | leave hlook hlines houter _ ih => exact .leave hlook hlines houter (ih h')
  | again hlook hfront hglance _ ih => exact .again hlook hfront hglance (ih h')

/-- A look leads to what each state that it passes through leads to. -/
theorem Passes.peekLine {s t : Session} (h : Passes s t) (fuel : Nat) :
    ∃ fuel', s.peekLine fuel' = t.peekLine fuel := by
  induction h with
  | here s => exact ⟨fuel, rfl⟩
  | leave hlook hlines houter _ ih =>
    obtain ⟨fuel', hnext⟩ := ih
    refine ⟨fuel' + 1, ?_⟩
    rw [← hnext, peekLine_succ, if_neg (by omega), hlines]
    simp [houter]
  | again hlook hfront hglance _ ih =>
    obtain ⟨fuel', hnext⟩ := ih
    refine ⟨fuel' + 1, ?_⟩
    rw [← hnext, peekLine_succ, if_neg (by omega), hfront]
    simp only [hglance]
    rfl

/-- What every step keeps holds while a look goes on. -/
theorem Passes.kept {P : Session → Prop} (hkept : Kept P) {s t : Session} (h : Passes s t)
    (hsteady : s.reader.Steady) (hs : P s) : t.reader.Steady ∧ P t := by
  induction h with
  | here s => exact ⟨hsteady, hs⟩
  | leave hlook hlines houter _ ih =>
    have hidle := hsteady.idle (by omega)
    exact ih (Or.inl (idle_leave hidle)) (hkept.leave _ hs hidle hlines houter)
  | @again s s' t line rest hlook hfront hglance _ ih =>
    have hidle := hsteady.idle (by omega)
    have hlooked : Look (s.meet line) line ((s.meet line).glance line) :=
      look_glance (s := s.meet line) hlook hfront
    have hends := hkept.look (s.meet line) line rest _ (hkept.meet s line hs) hidle hfront rfl hlooked
    rw [hglance] at hlooked hends
    exact ih ((hlooked.steady (s := s.meet line) hidle hfront).2.1 rfl) hends

/-- A property that reading keeps and under which it goes on with less after every look that finds
no line. -/
structure Dwindles (width limit : Nat) (P : Session → Prop) : Prop where
  kept : Kept P
  processors : ∀ s, P s → s.doc.options.processors = []
  less : ∀ s line rest s', P s → s.reader.Idle → s.reader.scope.lines = line :: rest →
    s.glance line = .again s' → Look s line (.again s') →
    s'.reader.rank width limit < s.reader.rank width limit

namespace Dwindles

variable {P : Session → Prop}

/-- A look that finds no line and does not end goes on with less. -/
theorem again (hP : Dwindles width limit P) {s s' : Session} {line : String} {rest : List String}
    (h : P s) (hidle : s.reader.Idle) (hfront : s.reader.scope.lines = line :: rest)
    (hglance : (s.meet line).glance line = .again s') :
    P s' ∧ s'.reader.Steady ∧ s'.reader.rank width limit < s.reader.rank width limit := by
  have hmet : P (s.meet line) := hP.kept.meet s line h
  have hlook : Look (s.meet line) line ((s.meet line).glance line) :=
    look_glance (s := s.meet line) hidle.lookAhead hfront
  have hafter : Ends P ((s.meet line).glance line) :=
    hP.kept.look (s.meet line) line rest _ hmet hidle hfront rfl hlook
  rw [hglance] at hlook hafter
  have hsteady : s'.reader.Steady := (hlook.steady (s := s.meet line) hidle hfront).2.1 rfl
  exact ⟨hafter, hsteady, hP.less (s.meet line) line rest s' hmet hidle hfront hglance hlook⟩

/-- Looking for the next line ends: each look that finds none makes the measure smaller. -/
theorem peekLine_ends (hP : Dwindles width limit P) {s : Session} (h : P s)
    (hsteady : s.reader.Steady) : ∃ fuel, s.peekLine fuel ≠ .error .endless := by
  induction hrank : s.reader.rank width limit using Nat.strong_induction_on generalizing s with
  | _ rank ih =>
    subst hrank
    by_cases hlook : 0 < s.reader.lookAhead
    · exact ⟨1, by rw [peekLine_of_held 0 hlook]; exact nofun⟩
    · have hidle := hsteady.idle hlook
      cases hlines : s.reader.scope.lines with
      | nil =>
        by_cases houter : s.reader.outer = []
        · refine ⟨1, ?_⟩
          rw [peekLine_of_nil 0 hidle hlines, if_pos (by simp [houter])]
          exact nofun
        · obtain ⟨fuel, hended⟩ := ih _ (rank_leave hidle houter)
            (hP.kept.leave s h hidle hlines houter) (Or.inl (idle_leave hidle)) rfl
          have hpasses : Passes s s.leave := .leave hidle.lookAhead hlines houter (.here _)
          obtain ⟨fuel', hpeek⟩ := hpasses.peekLine fuel
          exact ⟨fuel', hpeek ▸ hended⟩
      | cons line rest =>
        cases hglance : (s.meet line).glance line with
        | line | refused =>
          refine ⟨1, ?_⟩
          rw [peekLine_of_cons 0 hidle hlines, hglance]
          exact nofun
        | again t =>
          obtain ⟨hafter, hsteady', hless⟩ := hP.again h hidle hlines hglance
          obtain ⟨fuel, hended⟩ := ih _ hless hafter hsteady' rfl
          have hpasses : Passes s t := .again hidle.lookAhead hlines hglance (.here _)
          obtain ⟨fuel', hpeek⟩ := hpasses.peekLine fuel
          exact ⟨fuel', hpeek ▸ hended⟩
        | hand actions depth t =>
          -- there are no processors to hand the directive to
          have hhanded : Look (s.meet line) line (.hand actions depth t) :=
            hglance ▸ look_glance (s := s.meet line) hidle.lookAhead hlines
          cases hhanded with
          | handed i processor target attributes _ _ _ hresolve _ =>
            exact absurd hresolve (resolve_ne_handed (hP.processors s h))

/-- Reading a line ends wherever looking for one does. -/
theorem readLine_ends (hP : Dwindles width limit P) {s : Session} (h : P s)
    (hsteady : s.reader.Steady) : ∃ fuel, s.readLine fuel ≠ .error .endless := by
  obtain ⟨fuel, hended⟩ := hP.peekLine_ends h hsteady
  refine ⟨fuel, ?_⟩
  unfold readLine
  by_cases hlook : 0 < s.reader.lookAhead
  · rw [takeWith_of_held hlook]
    exact nofun
  · rw [takeWith_of_not_held hlook]
    exact fun hendless => hended (Except.map_eq_error_iff.mp hendless)

end Dwindles

theorem dwindles_bounded (width limit bound : Nat) :
    Dwindles width limit (Bounded width limit bound) where
  kept := kept_bounded width limit bound
  processors _ h := h.processors
  less _ _ _ _ h := rank_glance h.toWithin

/-- Taking a line adds one to those taken. -/
theorem length_taken_takeFront {s : Session} (hsteady : s.reader.Steady)
    (hlook : 0 < s.reader.lookAhead) :
    s.takeFront.2.journal.taken.length = s.journal.taken.length + 1 := by
  obtain ⟨line, rest, hlines⟩ := hsteady.exists_front hlook
  rw [journal_takeFront hlines, Journal.taken_push_taken, List.length_append,
    List.length_singleton]

/-- Lines that were taken stay so. -/
theorem kept_taken (n : Nat) :
    Kept fun s => s.doc.options.processors = [] ∧ n ≤ s.journal.taken.length := by
  refine .of_turns (fun s hs => hs.1) ?_ (fun s line hs => by simpa using hs) ?_
  · rintro s r es s' ⟨hprocessors, htaken⟩ hturns
    exact ⟨by rw [hturns.doc]; exact hprocessors, by rw [hturns.taken]; exact htaken⟩
  · rintro s ⟨hprocessors, htaken⟩
    refine ⟨by rw [doc_takeFront]; exact hprocessors, ?_⟩
    cases hlines : s.reader.scope.lines with
    | nil => simpa [takeFront, hlines] using htaken
    | cons line rest =>
      rw [journal_takeFront hlines, Journal.taken_push_taken, List.length_append]
      exact Nat.le_add_right_of_le htaken

/-- Reading a line takes one. -/
theorem taken_readLine {s s' : Session} {fuel : Nat} {line : String}
    (hprocessors : s.doc.options.processors = []) (hsteady : s.reader.Steady)
    (h : s.readLine fuel = .ok (some line, s')) :
    s.journal.taken.length < s'.journal.taken.length := by
  rcases takeWith_cases h with
    ⟨hlook, htook⟩ | ⟨-, b, t, hpeek, ⟨-, hnone, -⟩ | ⟨hfound, htook⟩⟩
  · obtain rfl : s.takeFront.2 = s' := congrArg Prod.snd htook
    rw [length_taken_takeFront hsteady hlook]
    exact Nat.lt_succ_self _
  · cases hnone
  · obtain rfl : t.takeFront.2 = s' := congrArg Prod.snd htook
    obtain ⟨hsteady', hheld⟩ := steady_peekLine hsteady hpeek
    have hkept := ((kept_taken s.journal.taken.length).peekLine hsteady
      ⟨hprocessors, Nat.le_refl _⟩ hpeek).2
    rw [length_taken_takeFront hsteady' (hheld.mp hfound)]
    exact Nat.lt_succ_of_le hkept

/-- Reading line by line comes to an end: there are no more lines than the measure allows. -/
theorem Bounded.readAll_ends {bound : Nat} {s : Session} (h : Bounded width limit bound s)
    (hsteady : s.reader.Steady) : ∃ fuel, s.readAll fuel ≠ .error .endless := by
  -- the induction is on how many lines the bound still allows
  induction hleft : bound - s.journal.taken.length using Nat.strong_induction_on
    generalizing s with
  | _ left ih =>
    subst hleft
    obtain ⟨fuel, hended⟩ := (dwindles_bounded width limit bound).readLine_ends h hsteady
    cases hread : s.readLine fuel with
    -- a look-up is refused, with more looks as well
    | error halt =>
      refine ⟨fuel + 1, fun hendless => hended ?_⟩
      unfold readAll at hendless
      rw [readLine_le (Nat.le_succ fuel) hended, hread] at hendless
      rw [hread]
      exact congrArg _ (Except.error.inj hendless)
    | ok found =>
      obtain ⟨line, t⟩ := found
      cases line with
      -- nothing is left
      | none =>
        refine ⟨fuel + 1, ?_⟩
        unfold readAll
        rw [readLine_le (Nat.le_succ fuel) hended, hread]
        exact nofun
      -- a line is taken, and the lines behind it are fewer
      | some line =>
        have hafter := (kept_bounded width limit bound).readLine hsteady h hread
        have hidle := idle_readLine hsteady hread
        have htaken := taken_readLine h.processors hsteady hread
        have hbefore := h.work
        have hroom := hafter.work
        obtain ⟨fuel', hrest⟩ := ih _ (by omega) hafter (Or.inl hidle) rfl
        refine ⟨max fuel fuel' + 1, ?_⟩
        unfold readAll
        rw [readLine_le (by omega) hended, hread]
        dsimp only
        rw [readAll_le (Nat.le_max_right fuel fuel') hrest]
        exact fun hendless => hrest (Except.map_eq_error_iff.mp hendless)

/-! ## Refusals -/

/-- A look comes to a directive outside of the secure mode, and the system refuses to look up the
file that the directive leads to. The directive stays in front. -/
inductive Refuses (s : Session) (e : FileError) (s' : Session) : Prop where
  | intro {t : Session} {line : String} {rest : List String} {i : Include} {target : String}
      (hpasses : s.Passes t) (hidle : t.reader.Idle)
      (hfront : t.reader.scope.lines = line :: rest)
      (hline : LineKind.ofLine line = .directive i)
      (htarget : (Attribute.substitute? t.targetMissing t.doc.attributes i.target).getD "" = target)
      (hsafe : t.doc.options.safe ≠ .secure)
      (hstat : t.files.stat (Path.normalize (Path.join t.reader.cursor.dir target)) = .error e)
      (hturns : Turns (t.meet line) t.reader [t.reader.found i] s') : Refuses s e s'

/-- What refuses later on the way refuses from the start. -/
theorem Passes.refuses {s t s' : Session} {e : FileError} (h : Passes s t)
    (hrefused : Refuses t e s') : Refuses s e s' := by
  obtain ⟨hpasses, hidle, hfront, hline, htarget, hsafe, hstat, hturns⟩ := hrefused
  exact ⟨h.trans hpasses, hidle, hfront, hline, htarget, hsafe, hstat, hturns⟩

theorem kept_processors : Kept fun s => s.doc.options.processors = [] :=
  .of_turns (fun _ hs => hs) (fun s r es s' hs hturns => by rw [hturns.doc]; exact hs)
    (fun _ _ hs => hs) fun s hs => by rw [doc_takeFront]; exact hs

/-- A refusal leaves the reader where it is, with no line processed. -/
theorem Refuses.idle {s s' : Session} {e : FileError} (h : Refuses s e s') : s'.reader.Idle := by
  obtain ⟨-, hidle, -, -, -, -, -, hturns⟩ := h
  rw [hturns.reader]
  exact hidle

theorem Refuses.processors {s s' : Session} {e : FileError} (h : Refuses s e s')
    (hsteady : s.reader.Steady) (hprocessors : s.doc.options.processors = []) :
    s'.doc.options.processors = [] := by
  obtain ⟨hpasses, -, -, -, -, -, -, hturns⟩ := h
  rw [hturns.doc]
  exact (hpasses.kept kept_processors hsteady hprocessors).2

/-- Without processors, only the file of a directive is refused. -/
theorem refuses_of_peekLine {fuel : Nat} {s s' : Session} {e : FileError}
    (hprocessors : s.doc.options.processors = []) (hsteady : s.reader.Steady)
    (h : s.peekLine fuel = .error (.refused e s')) : Refuses s e s' := by
  induction fuel generalizing s with
  | zero => cases h
  | succ fuel ih =>
    by_cases hlook : 0 < s.reader.lookAhead
    · -- a line that waits is not looked for
      rw [peekLine_of_held fuel hlook] at h
      cases h
    · have hidle := hsteady.idle hlook
      cases hlines : s.reader.scope.lines with
      | nil =>
        rw [peekLine_of_nil fuel hidle hlines] at h
        by_cases houter : s.reader.outer.isEmpty = true
        · -- nothing is left, so nothing is refused
          rw [if_pos houter] at h
          cases h
        · rw [if_neg houter] at h
          -- the line is looked for in the scope around
          have hscopes : s.reader.outer ≠ [] := fun hnil => houter (List.isEmpty_iff.mpr hnil)
          have hpasses : Passes s s.leave := .leave hidle.lookAhead hlines hscopes (.here _)
          exact hpasses.refuses (ih (kept_processors.leave s hprocessors hidle hlines hscopes)
            (Or.inl (idle_leave hidle)) h)
      | cons line rest =>
        rw [peekLine_of_cons fuel hidle hlines] at h
        have hlooked : Look (s.meet line) line ((s.meet line).glance line) :=
          look_glance (s := s.meet line) hidle.lookAhead hlines
        have hends := kept_processors.look (s.meet line) line rest _ hprocessors hidle hlines rfl
          hlooked
        cases hglance : (s.meet line).glance line with
        | line text t =>
          rw [hglance] at h
          cases h
        | again t =>
          -- the line was passed over or replaced, and the refusal comes later
          rw [hglance] at h hlooked hends
          have hpasses : Passes s t := .again hidle.lookAhead hlines hglance (.here _)
          exact hpasses.refuses (ih hends ((hlooked.steady (s := s.meet line) hidle hlines).2.1 rfl) h)
        | hand actions depth t =>
          rw [hglance] at hlooked
          cases hlooked with
          | handed i processor target attributes _ _ _ hresolve _ =>
            exact absurd hresolve (resolve_ne_handed hprocessors)
        | refused e' t =>
          -- the directive in front is the one whose file is refused
          rw [hglance] at h hlooked
          cases h
          cases hlooked with
          | refused i _ _ hline hskip hresolve hturns =>
            have hresolves := resolves (s.meet line) i
            rw [hresolve] at hresolves
            cases hresolves with
            | refused target _ htarget hsafe hstat =>
              exact ⟨.here s, hidle, hlines, hline, htarget, hsafe, hstat, hturns⟩

/-- A refusal while a line is read is one while it is looked for. -/
theorem refuses_of_readLine {fuel : Nat} {s s' : Session} {e : FileError}
    (hprocessors : s.doc.options.processors = []) (hsteady : s.reader.Steady)
    (h : s.readLine fuel = .error (.refused e s')) : Refuses s e s' := by
  unfold readLine at h
  by_cases hlook : 0 < s.reader.lookAhead
  · rw [takeWith_of_held hlook] at h
    cases h
  · rw [takeWith_of_not_held hlook] at h
    exact refuses_of_peekLine hprocessors hsteady (Except.map_eq_error_iff.mp h)

end Session

/-! ## Locks of the caller -/

/-- A document that was edited outside of what is read, with what the caller has locked kept. -/
structure Document.Amended (d d' : Document) : Prop extends Document.Edited d d' where
  locked : d'.locked = d.locked
  kept : ∀ name, d.isLocked name = true →
    Mapping.get? d'.attributes name = Mapping.get? d.attributes name

/-- Documents set attributes in this way. -/
theorem Document.amended_setAttribute (d : Document) (name : String) (value : Option String) :
    d.Amended (d.setAttribute name value) := by
  refine { Scan.Simulation.edited_setAttribute d name value with locked := ?_, kept := ?_ }
  · rw [setAttribute_eq]
  · intro other hlocked
    unfold setAttribute
    split
    · rfl
    · rename_i hfree
      have hother : name ≠ other := by
        rintro rfl
        exact hfree hlocked
      cases value with
      | none => simp [Mapping.get?_erase, hother]
      | some value => simp [Mapping.get?_insert, hother]

/-- Settings of other names change neither a value nor a lock. -/
theorem Document.applySettings_other {settings : Attribute.Settings} {name : String}
    (h : name ∉ Mapping.keys settings) (state : Attributes × List String) :
    Mapping.get? (settings.foldl (fun state entry => applySetting state entry.1 entry.2) state).1
        name = Mapping.get? state.1 name ∧
      (name ∈ state.2 → name ∈
        (settings.foldl (fun state entry => applySetting state entry.1 entry.2) state).2) := by
  induction settings generalizing state with
  | nil => exact ⟨rfl, id⟩
  | cons entry settings ih =>
    obtain ⟨hhead, htail⟩ : name ≠ entry.1 ∧ name ∉ Mapping.keys settings := by
      simpa [Mapping.keys] using h
    obtain ⟨hvalue, hlock⟩ := ih htail (applySetting state entry.1 entry.2)
    have hother : entry.1 ≠ name := fun heq => hhead heq.symm
    have hstep : Mapping.get? (applySetting state entry.1 entry.2).1 name =
        Mapping.get? state.1 name ∧
        (name ∈ state.2 → name ∈ (applySetting state entry.1 entry.2).2) := by
      -- a setting changes its own name only
      unfold applySetting
      split
      · exact ⟨by simp [Mapping.get?_erase, hother], List.mem_cons_of_mem _⟩
      · split
        · exact ⟨by simp [Mapping.get?_insert, hother], id⟩
        · exact ⟨by simp [Mapping.get?_insert, hother], List.mem_cons_of_mem _⟩
    exact ⟨hvalue.trans hstep.1, fun hin => hlock (hstep.2 hin)⟩

/-- A hard setting of the caller has its value and locks its name. -/
theorem Document.applySettings_hard {settings : Attribute.Settings} {name text : String}
    (hkeys : (Mapping.keys settings).Nodup) (hset : Mapping.get? settings name = some (some text))
    (hhard : isSoft text = false) (attributes : Attributes) :
    Mapping.get? (applySettings attributes settings).1 name = some text ∧
      name ∈ (applySettings attributes settings).2 := by
  unfold applySettings
  generalize ((attributes, []) : Attributes × List String) = state
  induction settings generalizing state with
  | nil => cases hset
  | cons entry settings ih =>
    obtain ⟨hfresh, hrest⟩ := List.nodup_cons.mp hkeys
    obtain ⟨key, value⟩ := entry
    by_cases hname : key = name
    · -- the setting itself, which is the last one of this name
      subst hname
      obtain rfl : value = some text := by simpa [Mapping.get?] using hset
      have hhead : applySetting state key (some text) =
          (Mapping.insert state.1 key text, key :: state.2) := by
        simp [applySetting, hhard]
      obtain ⟨hvalue, hlock⟩ := applySettings_other hfresh
        (Mapping.insert state.1 key text, key :: state.2)
      rw [List.foldl_cons, hhead]
      exact ⟨hvalue.trans (Mapping.get?_insert_self _ _ _), hlock List.mem_cons_self⟩
    · -- a setting of another name
      have htail : Mapping.get? settings name = some (some text) := by
        simpa [Mapping.get?, hname] using hset
      exact ih hrest htail _

/-- No name is set twice by a caller. -/
theorem Attribute.Given.nodup_keys_settings (given : Attribute.Given) :
    (Mapping.keys given.settings).Nodup := by
  cases given with
  | nothing => exact List.nodup_nil
  | words text | items values | mapping entries => exact Mapping.nodup_keys_ofList _

namespace Session

/-- A session whose caller has locked an attribute at a value. -/
structure Locks (name text : String) (s : Session) : Prop where
  processors : s.doc.options.processors = []
  locked : s.doc.isLocked name = true
  value : Mapping.get? s.doc.attributes name = some text

/-- Only the options, the locked names and the value matter. -/
theorem Locks.of_doc {name text : String} {s s' : Session} (h : Locks name text s)
    (hoptions : s'.doc.options = s.doc.options) (hlocked : s'.doc.locked = s.doc.locked)
    (hvalue : Mapping.get? s'.doc.attributes name = Mapping.get? s.doc.attributes name) :
    Locks name text s' where
  processors := by rw [hoptions]; exact h.processors
  locked := (Document.isLocked_congr hlocked name).trans h.locked
  value := hvalue.trans h.value

/-- What is locked keeps its value in all that reading does. -/
theorem kept_locks (name text : String) : Kept (Locks name text) := by
  refine .of_turns (fun s hs => hs.processors) ?_ (fun s line hs => hs.of_doc rfl rfl rfl) ?_
  · intro s r es s' hs hturns
    exact hs.of_doc (by rw [hturns.doc]) (by rw [hturns.doc]) (by rw [hturns.doc])
  · intro s hs
    exact hs.of_doc (by rw [doc_takeFront]) (by rw [doc_takeFront]) (by rw [doc_takeFront])

/-- The limit of nested includes of a caller that has locked it. -/
theorem Locks.maxIncludeDepth {text : String} {limit : Int} {s : Session}
    (h : Locks "max-include-depth" text s) (hnumber : Number.readInteger text = .ok limit) :
    s.maxIncludeDepth = limit := by
  unfold Session.maxIncludeDepth
  rw [h.value]
  simp only [hnumber]

/-! ## Driven readers -/

/-- How many lines can be taken of a source. -/
def allowance (width limit : Nat) (source : Source) : Nat :=
  linesWork (cost width limit) source.prepare + 1

section

variable {files : FileTree} {source : Source} {o : LoadOptions} {text : String} {limit : Int}
  (hprocessors : o.processors = [])
  (hlimit : Mapping.get? o.attributes.settings "max-include-depth" = some (some text))
  (hlocked : Document.isSoft text = false)

include hprocessors hlimit hlocked

/-- A limit that is set hard is locked before anything is read. -/
theorem locks_openSource {s : Session} (h : openSource files source o = .ok s) :
    Locks "max-include-depth" text s := by
  obtain ⟨mode, -, rfl⟩ := openSource_eq_ok.mp h
  obtain ⟨hvalue, hlock⟩ := Document.applySettings_hard o.attributes.nodup_keys_settings hlimit
    hlocked _
  exact ⟨hprocessors, List.contains_iff_mem.mpr hlock, hvalue⟩

/-- Before anything is read, the work is within the allowance. -/
theorem bounded_openSource (hnumber : Number.readInteger text = .ok limit) {s : Session}
    (h : openSource files source o = .ok s) :
    Bounded (files.lineCount + 4) limit.toNat
      (allowance (files.lineCount + 4) limit.toNat source) s := by
  have hlocks := locks_openSource hprocessors hlimit hlocked h
  have hmax := hlocks.maxIncludeDepth hnumber
  obtain ⟨mode, -, rfl⟩ := openSource_eq_ok.mp h
  refine ⟨⟨hlocks.processors, Nat.le_refl _, ?_⟩, Nat.zero_le _, Nat.le_of_eq (Nat.zero_add _)⟩
  rw [hmax]
  exact Int.self_le_toNat limit

/-- Every state of a driven reader keeps the locks and the bounds. -/
theorem Driven.bounded (hnumber : Number.readInteger text = .ok limit) {s : Session}
    (h : Driven Document.Amended files source o s) :
    s.reader.Steady ∧ Locks "max-include-depth" text s ∧
      Bounded (files.lineCount + 4) limit.toNat
        (allowance (files.lineCount + 4) limit.toNat source) s := by
  induction h with
  | start h =>
    exact ⟨Or.inl (steady_openSource h), locks_openSource hprocessors hlimit hlocked h,
      bounded_openSource hprocessors hlimit hlocked hnumber h⟩
  | peek fuel _ hrun ih =>
    obtain ⟨hsteady, hlocks, hbounded⟩ := ih
    exact ⟨(steady_peekLine hsteady hrun).1, (kept_locks _ _).peekLine hsteady hlocks hrun,
      (kept_bounded _ _ _).peekLine hsteady hbounded hrun⟩
  | read fuel _ hrun ih =>
    obtain ⟨hsteady, hlocks, hbounded⟩ := ih
    exact ⟨Or.inl (idle_readLine hsteady hrun), (kept_locks _ _).readLine hsteady hlocks hrun,
      (kept_bounded _ _ _).readLine hsteady hbounded hrun⟩
  | @edit s d _ hedit ih =>
    obtain ⟨hsteady, hlocks, hbounded⟩ := ih
    have hr : ({ s with doc := d } : Session).reader = s.reader := hedit.reader
    -- edits leave the reader and what is locked as they are
    have hlocks' : Locks "max-include-depth" text { s with doc := d } :=
      hlocks.of_doc hedit.options hedit.locked (hedit.kept _ hlocks.locked)
    refine ⟨by rw [hr]; exact hsteady, hlocks', ⟨hlocks'.processors, hbounded.files, ?_⟩, ?_, ?_⟩
    · rw [hlocks'.maxIncludeDepth hnumber]
      exact Int.self_le_toNat limit
    · rw [hr]
      exact hbounded.depth
    · rw [hr]
      exact hbounded.work
  | @log s record _ ih =>
    obtain ⟨hsteady, hlocks, hbounded⟩ := ih
    exact ⟨hsteady, hlocks.of_doc rfl rfl rfl,
      { processors := hbounded.processors, files := hbounded.files, limited := hbounded.limited
        depth := hbounded.depth, work := by simpa using hbounded.work }⟩

end

/-- What refuses to be read line by line is a look on the way. -/
theorem Driven.refuses_of_readAll {edits : Document → Document → Prop} {files : FileTree}
    {source : Source} {o : LoadOptions} {fuel : Nat} {s s' : Session} {e : FileError}
    (h : Driven edits files source o s) (hprocessors : s.doc.options.processors = [])
    (hsteady : s.reader.Steady) (hrun : s.readAll fuel = .error (.refused e s')) :
    ∃ t, Driven edits files source o t ∧ t.Refuses e s' := by
  induction fuel generalizing s with
  | zero => cases hrun
  | succ fuel ih =>
    unfold readAll at hrun
    cases hread : s.readLine (fuel + 1) with
    -- the refusal comes with this line
    | error halt =>
      rw [hread] at hrun
      cases hrun
      exact ⟨s, h, refuses_of_readLine hprocessors hsteady hread⟩
    | ok found =>
      obtain ⟨line, t⟩ := found
      rw [hread] at hrun
      cases line with
      | none => cases hrun
      -- or with one behind it
      | some line =>
        exact ih (.read (fuel + 1) h hread) (kept_processors.readLine hsteady hprocessors hread)
          (Or.inl (idle_readLine hsteady hread)) (Except.map_eq_error_iff.mp hrun)

/-- Reading ends, whatever files include each other: no more lines are taken than a bound allows,
each look for the next line has a result, reading line by line reaches the end, and scopes are never
deeper than the limit that the caller has locked, also while a look goes on. Only the system can
stop it, where it refuses to look up the file that a directive leads to. -/
theorem reading_ends {files : FileTree} {source : Source} {o : LoadOptions} {text : String}
    {limit : Int} (hprocessors : o.processors = [])
    (hlimit : Mapping.get? o.attributes.settings "max-include-depth" = some (some text))
    (hlocked : Document.isSoft text = false) (hnumber : Number.readInteger text = .ok limit) :
    ∃ bound, ∀ s, Driven Document.Amended files source o s →
      (∀ t, s.Passes t → (t.reader.includeDepth : Int) ≤ max limit 0) ∧
      s.journal.taken.length ≤ bound ∧
      (∃ fuel, (∃ found, s.peekLine fuel = .ok found) ∨
        ∃ e s', s.peekLine fuel = .error (.refused e s') ∧ s.Refuses e s') ∧
      ∃ fuel, (∃ lines s', s.readAll fuel = .ok (lines, s')) ∨
        ∃ e s', s.readAll fuel = .error (.refused e s') ∧
          ∃ t, Driven Document.Amended files source o t ∧ t.Refuses e s' := by
  refine ⟨allowance (files.lineCount + 4) limit.toNat source, fun s h => ?_⟩
  obtain ⟨hsteady, -, hbounded⟩ := h.bounded hprocessors hlimit hlocked hnumber
  have hwork := hbounded.work
  have hdwindles := dwindles_bounded (files.lineCount + 4) limit.toNat
    (allowance (files.lineCount + 4) limit.toNat source)
  refine ⟨?_, by omega, ?_, ?_⟩
  · -- the limit is not exceeded
    intro t hpasses
    have hdepth := (hpasses.kept hdwindles.kept hsteady hbounded).2.depth
    omega
  · -- a look ends
    obtain ⟨fuel, hended⟩ := hdwindles.peekLine_ends hbounded hsteady
    refine ⟨fuel, ?_⟩
    rcases hpeek : s.peekLine fuel with (_ | ⟨e, s'⟩) | found
    · exact absurd hpeek hended
    · exact Or.inr ⟨e, s', rfl, refuses_of_peekLine hbounded.processors hsteady hpeek⟩
    · exact Or.inl ⟨found, rfl⟩
  · -- reading all lines ends
    obtain ⟨fuel, hended⟩ := hbounded.readAll_ends hsteady
    refine ⟨fuel, ?_⟩
    rcases hread : s.readAll fuel with (_ | ⟨e, s'⟩) | ⟨lines, s'⟩
    · exact absurd hread hended
    · exact Or.inr ⟨e, s', rfl, h.refuses_of_readAll hbounded.processors hsteady hread⟩
    · exact Or.inl ⟨lines, s', rfl⟩

/-- A file that includes itself. -/
def cyclicFiles : FileTree :=
  .ofTexts [("a", "include::a[]\nlast\n")]

/-- A document that includes a file that includes itself: the limit is reached, and reading ends. -/
theorem reading_ends_cyclic :
    let o : LoadOptions := { attributes := .words "max-include-depth=3" }
    Mapping.get? o.attributes.settings "max-include-depth" = some (some "3") ∧
      Document.isSoft "3" = false ∧ Number.readInteger "3" = .ok 3 ∧
      (∃ s, Driven Document.Amended cyclicFiles (.lines ["include::a[]"]) o s ∧
        s.reader.includeDepth = 3) ∧
      ∃ bound, ∀ s, Driven Document.Amended cyclicFiles (.lines ["include::a[]"]) o s →
        (∀ t, s.Passes t → (t.reader.includeDepth : Int) ≤ max 3 0) ∧
        s.journal.taken.length ≤ bound ∧
        (∃ fuel, (∃ found, s.peekLine fuel = .ok found) ∨
          ∃ e s', s.peekLine fuel = .error (.refused e s') ∧ s.Refuses e s') ∧
        ∃ fuel, (∃ lines s', s.readAll fuel = .ok (lines, s')) ∨
          ∃ e s', s.readAll fuel = .error (.refused e s') ∧
            ∃ t, Driven Document.Amended cyclicFiles (.lines ["include::a[]"]) o t ∧
              t.Refuses e s' := by
  intro o
  have hdeep : ∃ s ∈ (openSource cyclicFiles (.lines ["include::a[]"]) o).toOption,
      ∃ found ∈ (s.peekLine 8).toOption, found.2.reader.includeDepth = 3 := by
    decide +kernel
  obtain ⟨s, hs, ⟨line, s'⟩, hpeek, hdepth⟩ := hdeep
  have hopen := eq_ok_of_mem_toOption hs
  have hlimit : Mapping.get? o.attributes.settings "max-include-depth" = some (some "3") := by
    decide +kernel
  have hlocked : Document.isSoft "3" = false := by decide +kernel
  have hnumber : Number.readInteger "3" = .ok 3 := by decide +kernel
  exact ⟨hlimit, hlocked, hnumber,
    ⟨s', .peek 8 (.start hopen) (eq_ok_of_mem_toOption hpeek), hdepth⟩,
    reading_ends rfl hlimit hlocked hnumber⟩

/-- Whether a result is a refusal of the system. -/
def isRefused {α : Type} : Except Halt α → Bool
  | .error (.refused _ _) => true
  | _ => false

theorem eq_refused_of_isRefused {α : Type} {x : Except Halt α} (h : isRefused x = true) :
    ∃ e s, x = .error (.refused e s) := by
  match x with
  | .error (.refused e s) => exact ⟨e, s, rfl⟩
  | .error .endless | .ok _ => cases h

/-- A directory that may not be searched. -/
def closedFiles : FileTree where
  workingDir := ["w"]
  entries := [(["w"], .directory), (["w", "d"], .closed true)]
  clock := 1

/-- A directive into a directory that may not be searched stops the reading, however many looks are
allowed. -/
theorem closed_directory_stops_reading :
    ∃ s, openSource closedFiles (.lines ["include::d/a[]"])
        { attributes := .words "max-include-depth=3" } = .ok s ∧
      ∀ fuel found, s.peekLine fuel ≠ .ok found := by
  have hstops : ∃ s ∈ (openSource closedFiles (.lines ["include::d/a[]"])
      { attributes := .words "max-include-depth=3" }).toOption,
      isRefused (s.peekLine 2) = true := by decide +kernel
  obtain ⟨s, hs, hstops⟩ := hstops
  refine ⟨s, eq_ok_of_mem_toOption hs, fun fuel found hfound => ?_⟩
  obtain ⟨e, s', hpeek⟩ := eq_refused_of_isRefused hstops
  have hrefused := peekLine_le (s := s) (Nat.le_max_right fuel 2) (by rw [hpeek]; exact nofun)
  have hok := peekLine_le (s := s) (Nat.le_max_left fuel 2) (by rw [hfound]; exact nofun)
  rw [hok, hfound, hpeek] at hrefused
  cases hrefused

end Session

end DocFlatten
