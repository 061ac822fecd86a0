import DocFlatten.Proofs.Ending

/-! # Scans end

A scan takes at least one line each time it goes on, and it never puts anything back. So where
reading goes on with less after each look (`Dwindles`), every scan ends, and all bounds but small ones
lead to the same result (`settles_document`).

The result is stated for a family of sessions at once: `Unseen` changes of a session are those that
reading does not notice, and then the scans of all changed sessions end alike.
-/

namespace DocFlatten

open Session

namespace Session

variable {width limit : Nat} {P : Session → Prop}

/-- What is left to be read never gets more. -/
theorem Dwindles.kept_work (hP : Dwindles width limit P) (n : Nat) :
    Kept fun s => P s ∧ s.reader.work width limit ≤ n where
  leave s hs hidle hlines houter := by
    have hless : s.leave.reader.work width limit ≤ s.reader.work width limit :=
      Reader.work_le_of_rank (rank_leave hidle houter)
    exact ⟨hP.kept.leave s hs.1 hidle hlines houter, hless.trans hs.2⟩
  meet s line hs := ⟨hP.kept.meet s line hs.1, hs.2⟩
  look s line rest g hs hidle hfront hg hlook := by
    have hends := hP.kept.look s line rest g hs.1 hidle hfront hg hlook
    cases g with
    | refused => exact trivial
    | line text t => exact ⟨hends, (Nat.le_of_eq (work_shown hlook)).trans hs.2⟩
    | again t =>
      have hless := hP.less s line rest t hs.1 hidle hfront hg.symm hlook
      exact ⟨hends, (Reader.work_le_of_rank hless).trans hs.2⟩
    -- without processors nothing is handed on
    | hand actions depth t =>
      cases hlook with
      | handed i processor target attributes _ _ _ hresolve _ =>
        exact absurd hresolve (resolve_ne_handed (hP.processors s hs.1))
  take s hs hsteady hlook := by
    refine ⟨hP.kept.take s hs.1 hsteady hlook, ?_⟩
    -- a line that is taken has weighed something
    obtain ⟨line, rest, hlines⟩ := hsteady.exists_front hlook
    rw [reader_takeFront]
    exact (Reader.work_shifted_lt width limit hlines).le.trans hs.2

end Session

namespace Scan

variable {α β ι : Type}

/-! ## Results for all but small bounds -/

/-- A look at a session with a property can be refused for a reason. -/
def Refusable (P : Session → Prop) (e : FileError) : Prop :=
  ∃ s fuel s', P s ∧ s.reader.Steady ∧ s.peekLine fuel = .error (.refused e s')

/-- What a step comes to: a result as wanted, unless the system refuses a look. -/
inductive Comes (P : Session → Prop) (Q : α → Session → Prop) :
    Except Halt (α × Session) → Prop where
  | result {a : α} {s' : Session} (h : Q a s') : Comes P Q (.ok (a, s'))
  | refused {e : FileError} (s' : Session) (h : Refusable P e) : Comes P Q (.error (.refused e s'))

/-- For all bounds but small ones a step comes to the same, and it does so in all changed sessions
alike. -/
def Settles (P : Session → Prop) (change : ι → Session → Session) (m : Nat → Step α) (s : Session)
    (Q : α → Session → Prop) : Prop :=
  ∃ enough found, (∀ fuel, enough ≤ fuel → ∀ i,
    m fuel (change i s) = carryFound (change i) found) ∧ Comes P Q found

namespace Settles

variable {P : Session → Prop} {change : ι → Session → Session} {m : Nat → Step α} {s : Session}
  {Q Q' : α → Session → Prop}

/-- A result that is given settles. -/
theorem pure {a : α} (h : Q a s) : Settles P change (fun _ => Pure.pure a) s Q :=
  ⟨0, .ok (a, s), fun _ _ _ => rfl, .result h⟩

/-- Two steps in a row settle if the second one settles after the first. -/
theorem bind {f : Nat → α → Step β} {R : β → Session → Prop} (hm : Settles P change m s Q)
    (hf : ∀ a s', Q a s' → Settles P change (fun fuel => f fuel a) s' R) :
    Settles P change (fun fuel => m fuel >>= f fuel) s R := by
  obtain ⟨enough, _, hrun, hcomes⟩ := hm
  have hbind : ∀ fuel i, (m fuel >>= f fuel) (change i s) =
      (m fuel (change i s) >>= fun found => f fuel found.1 found.2) := fun _ _ => rfl
  cases hcomes with
  -- the first step has a result, and the second one goes on from it
  | @result a s₁ hQ =>
    obtain ⟨enough', found, hrest, hR⟩ := hf a s₁ hQ
    refine ⟨max enough enough', found, fun fuel hfuel i => ?_, hR⟩
    refine (hbind fuel i).trans ?_
    rw [hrun fuel (by omega) i]
    exact hrest fuel (by omega) i
  -- the first step is refused, and so is all of it
  | @refused e s₁ hrefusable =>
    refine ⟨enough, .error (.refused e s₁), fun fuel hfuel i => ?_, .refused s₁ hrefusable⟩
    refine (hbind fuel i).trans ?_
    rw [hrun fuel hfuel i]
    rfl

/-- A choice settles if both branches do. -/
theorem ite {c : Bool} {n : Nat → Step α} (hm : c = true → Settles P change m s Q)
    (hn : c = false → Settles P change n s Q) :
    Settles P change (fun fuel => if c = true then m fuel else n fuel) s Q := by
  cases c with
  | true => exact hm rfl
  | false => exact hn rfl

/-- What a step settles with may be weakened. -/
theorem mono (h : Settles P change m s Q) (hQ : ∀ a s', Q a s' → Q' a s') :
    Settles P change m s Q' := by
  obtain ⟨enough, found, hrun, hcomes⟩ := h
  refine ⟨enough, found, hrun, ?_⟩
  cases hcomes with
  | result h => exact .result (hQ _ _ h)
  | refused s' h => exact .refused s' h

/-- A bound may be larger by one. -/
theorem succ (h : Settles P change m s Q) : Settles P change (fun fuel => m (fuel + 1)) s Q := by
  obtain ⟨enough, found, hrun, hcomes⟩ := h
  exact ⟨enough, found, fun fuel hfuel => hrun (fuel + 1) (by omega), hcomes⟩

/-- A loop uses up one of its bound. -/
theorem of_succ (h : Settles P change (fun fuel => m (fuel + 1)) s Q) :
    Settles P change m s Q := by
  obtain ⟨enough, found, hrun, hcomes⟩ := h
  refine ⟨enough + 1, found, fun fuel hfuel => ?_, hcomes⟩
  obtain ⟨n, rfl⟩ : ∃ n, fuel = n + 1 := ⟨fuel - 1, by omega⟩
  exact hrun n (by omega)

/-- What a step asks of a session is the same in all changed sessions. -/
theorem get {f : Nat → Session → Step α} (hsame : ∀ fuel i, f fuel (change i s) = f fuel s)
    (h : Settles P change (fun fuel => f fuel s) s Q) :
    Settles P change (fun fuel => MonadState.get >>= f fuel) s Q := by
  obtain ⟨enough, found, hrun, hcomes⟩ := h
  refine ⟨enough, found, fun fuel hfuel i => ?_, hcomes⟩
  have hget : (MonadState.get >>= f fuel) (change i s) = f fuel (change i s) (change i s) := rfl
  refine hget.trans ?_
  rw [hsame]
  exact hrun fuel hfuel i

end Settles

/-- Changes of a session that neither reading nor scanning notices. -/
structure Unseen (P : Session → Prop) (change : ι → Session → Session) : Prop where
  doc : ∀ i s, (change i s).doc = s.doc
  peek : ∀ i s fuel, P s → (change i s).peekLine fuel =
    carryFound (change i) (s.peekLine fuel)
  take : ∀ i s, (change i s).takeFront = (s.takeFront.1, change i s.takeFront.2)
  edit : ∀ i s d, s.doc.Edited d → { change i s with doc := d } = change i { s with doc := d }
  log : ∀ i s record, (change i s).log record = change i (s.log record)

/-- A moment of a scan with at most so much left to be read. -/
structure Left (width limit : Nat) (P : Session → Prop) (n : Nat) (s : Session) : Prop where
  steady : s.reader.Steady
  holds : P s
  work : s.reader.work width limit ≤ n

/-- Such a moment at which a line was found. -/
structure LeftHeld (width limit : Nat) (P : Session → Prop) (n : Nat) (line : String)
    (s : Session) : Prop extends Left width limit P n s where
  lookAhead : 0 < s.reader.lookAhead
  head : s.reader.head? = some line

section

variable {width limit : Nat} {P : Session → Prop} {change : ι → Session → Session}
  (harmless : Harmless P) (dwindles : Dwindles width limit P) (unseen : Unseen P change)
  {n : Nat} {line : String} {s : Session}

/-- A bound on what is left may be raised. -/
theorem Left.mono {k : Nat} (h : Left width limit P k s) (hle : k ≤ n) :
    Left width limit P n s :=
  { h with work := h.work.trans hle }

/-! ## Reading -/

include dwindles in
/-- Taking a line that was found leaves less. -/
theorem LeftHeld.takeFront (h : LeftHeld width limit P n line s) :
    s.takeFront.1 = some line ∧ ∃ k < n, Left width limit P k s.takeFront.2 := by
  have hwork := h.work
  obtain ⟨front, rest, hlines⟩ := h.steady.exists_front h.lookAhead
  have hless := Reader.work_shifted_lt width limit hlines
  refine ⟨(takeFront_fst s).trans h.head, s.reader.shifted.work width limit, by omega, ?_, ?_, ?_⟩
  · rw [reader_takeFront]
    exact Or.inl (h.steady.idle_shifted h.lookAhead)
  · exact dwindles.kept.take s h.holds h.steady h.lookAhead
  · rw [reader_takeFront]

include unseen

/-- A look at a line that is held settles with that line. -/
theorem settles_peekHeld (h : LeftHeld width limit P n line s) :
    Settles P change Scan.peek s fun a s' => a = some line ∧ s' = s := by
  refine ⟨1, .ok (some line, s), fun fuel hfuel i => ?_, .result ⟨rfl, rfl⟩⟩
  obtain ⟨fuel, rfl⟩ : ∃ k, fuel = k + 1 := ⟨fuel - 1, by omega⟩
  change (change i s).peekLine (fuel + 1) = _
  rw [unseen.peek i s _ h.holds, peekLine_of_held fuel h.lookAhead, h.head]

include dwindles

/-- A look settles with a line that is held, or without one. -/
theorem settles_peek (h : Left width limit P n s) : Settles P change Scan.peek s fun a s' =>
    (a = none ∧ Left width limit P n s') ∨
      ∃ line, a = some line ∧ LeftHeld width limit P n line s' := by
  obtain ⟨enough, hended⟩ := dwindles.peekLine_ends h.holds h.steady
  refine ⟨enough, s.peekLine enough, fun fuel hfuel i => ?_, ?_⟩
  · change (change i s).peekLine fuel = _
    rw [unseen.peek i s fuel h.holds, peekLine_le hfuel hended]
  · rcases hfound : s.peekLine enough with (_ | ⟨e, s'⟩) | ⟨a, s'⟩
    · -- with enough fuel the look does not run out
      exact absurd hfound hended
    · exact .refused s' ⟨s, enough, s', h.holds, h.steady, hfound⟩
    · obtain ⟨hsteady, hheld⟩ := steady_peekLine h.steady hfound
      obtain ⟨hholds, hwork⟩ :=
        (dwindles.kept_work n).peekLine h.steady ⟨h.holds, h.work⟩ hfound
      have hhead := head_of_peekLine h.steady hfound
      cases a with
      -- no line is left
      | none => exact .result (Or.inl ⟨rfl, hsteady, hholds, hwork⟩)
      -- a line is held
      | some line =>
        exact .result (Or.inr ⟨line, rfl, ⟨hsteady, hholds, hwork⟩, hheld.mp rfl, hhead.symm⟩)

/-- Taking a line that is held settles, with less left. -/
theorem settles_takeHeld (h : LeftHeld width limit P n line s) :
    Settles P change Scan.take s fun _ s' => ∃ k < n, Left width limit P k s' := by
  refine ⟨0, .ok s.takeFront, fun fuel _ i => ?_, .result (h.takeFront dwindles).2⟩
  change takeWith _ (change i s) = _
  have hlook : 0 < (change i s).reader.lookAhead := by
    unfold Session.reader
    rw [unseen.doc]
    exact h.lookAhead
  rw [takeWith_of_held hlook, unseen.take]
  rfl

/-- Taking a line settles, with less left if there was one. -/
theorem settles_take (h : Left width limit P n s) : Settles P change Scan.take s fun a s' =>
    (a = none ∧ Left width limit P n s') ∨
      ∃ line, a = some line ∧ ∃ k < n, Left width limit P k s' := by
  have hlook : ∀ i, (change i s).reader.Steady := by
    intro i
    unfold Session.reader
    rw [unseen.doc]
    exact h.steady
  obtain ⟨enough, _, hrun, hcomes⟩ := settles_peek dwindles unseen h
  cases hcomes with
  -- the look is refused, and nothing is taken
  | @refused e s' hrefusable =>
    refine ⟨enough, .error (.refused e s'), fun fuel hfuel i => ?_, .refused s' hrefusable⟩
    exact readLine_of_refused (hrun fuel hfuel i)
  | @result a s' hpeeked =>
    have hread := fun fuel hfuel i => readLine_of_peekLine (hlook i) (hrun fuel hfuel i)
    rcases hpeeked with ⟨rfl, hleft⟩ | ⟨line, rfl, hheld⟩
    · -- no line is left, so none is taken
      exact ⟨enough, .ok (none, s'), fun fuel hfuel i => (hread fuel hfuel i).1 rfl,
        .result (Or.inl ⟨rfl, hleft⟩)⟩
    · -- the line that is held is taken
      obtain ⟨htext, k, hk, hleft⟩ := hheld.takeFront dwindles
      refine ⟨enough, .ok (some line, s'.takeFront.2), fun fuel hfuel i => ?_,
        .result (Or.inr ⟨line, rfl, k, hk, hleft⟩)⟩
      change (change i s).readLine fuel = _
      rw [(hread fuel hfuel i).2 rfl, unseen.take, htext]
      rfl

/-! ## Editing the document -/

omit dwindles
include harmless

/-- Logging settles. -/
theorem settles_log (h : Left width limit P n s) (record : Log.Record) :
    Settles P change (fun _ => modify fun s => s.log record) s fun _ => Left width limit P n := by
  refine ⟨0, .ok ((), s.log record), fun fuel _ i => ?_,
    .result ⟨h.steady, harmless.log s record h.holds, h.work⟩⟩
  have hlog := unseen.log i s record
  exact congrArg (fun t => Except.ok ((), t)) hlog

/-- Logging several records settles. -/
theorem settles_logAll (h : Left width limit P n s) (records : List Log.Record) :
    Settles P change (fun _ => modify fun s => s.logAll records) s
      fun _ => Left width limit P n := by
  refine ⟨0, .ok ((), s.logAll records), fun fuel _ i => ?_, .result ?_⟩
  · have hsame : (change i s).logAll records = change i (s.logAll records) := by
      clear h
      induction records generalizing s with
      | nil => rfl
      | cons record records ih =>
        change ((change i s).log record).logAll records = change i ((s.log record).logAll records)
        rw [unseen.log, ih]
    exact congrArg (fun t => Except.ok ((), t)) hsame
  · induction records generalizing s with
    | nil => exact h
    | cons record records ih =>
      exact ih ⟨h.steady, harmless.log s record h.holds, h.work⟩

/-- An edit settles. -/
theorem settles_edit (h : Left width limit P n s) {f : Document → Document}
    (hf : ∀ d : Document, d.Edited (f d)) :
    Settles P change (fun _ => modifyDocument f) s fun _ => Left width limit P n := by
  have hreader : ({ s with doc := f s.doc } : Session).reader = s.reader := (hf s.doc).reader
  refine ⟨0, .ok ((), { s with doc := f s.doc }), fun fuel _ i => ?_, .result ⟨?_, ?_, ?_⟩⟩
  · have hedit := unseen.edit i s (f s.doc) (hf s.doc)
    rw [← unseen.doc i s] at hedit
    exact congrArg (fun t => Except.ok ((), t)) (unseen.doc i s ▸ hedit)
  · rw [hreader]
    exact h.steady
  · exact harmless.edit s (f s.doc) h.holds (hf s.doc)
  · rw [hreader]
    exact h.work

/-- Applying an entry settles. -/
theorem settles_applyEntry (h : Left width limit P n s) (entry : Attribute.Entry) :
    Settles P change (fun _ => applyEntry entry) s fun _ => Left width limit P n := by
  have hset : ∀ (value : Option String) (effect : Bool) (t : Session), Left width limit P n t →
      Settles P change (fun _ => do
        modifyDocument fun d => d.setAttribute entry.name value
        return effect) t fun _ => Left width limit P n := by
    intro value effect t ht
    refine .bind (settles_edit harmless unseen ht fun d => ?_) fun _ _ ht' => .pure ht'
    exact Simulation.edited_setAttribute d entry.name value
  refine .get (fun fuel i => by rw [unseen.doc]) ?_
  cases entry with
  | unset name => exact hset _ _ _ h
  | set name value =>
    exact .bind (settles_logAll harmless unseen h _) fun _ _ h' => hset _ _ _ h'

/-! ## The header -/

include dwindles

omit harmless in
/-- Looking for content settles, with a line that is held or without one. -/
theorem settles_skipToContent (h : Left width limit P n s) :
    Settles P change skipToContent s fun a s' =>
      (a = none ∧ Left width limit P n s') ∨
        ∃ line, a = some line ∧ LeftHeld width limit P n line s' := by
  -- on what is left to do: each line that is passed over leaves less
  induction n using Nat.strong_induction_on generalizing s with
  | _ n ih =>
    refine .of_succ (.bind (settles_peek dwindles unseen h).succ ?_)
    rintro _ t (⟨rfl, hleft⟩ | ⟨line, rfl, hheld⟩)
    · exact .pure (Or.inl ⟨rfl, hleft⟩)
    · refine .ite (fun _ => ?_) fun _ => .pure (Or.inr ⟨line, rfl, hheld⟩)
      refine .bind (settles_takeHeld dwindles unseen hheld).succ ?_
      rintro _ u ⟨k, hk, hleft⟩
      refine (ih k hk hleft).mono ?_
      rintro a s' (⟨rfl, hend⟩ | ⟨text, rfl, hend⟩)
      · exact Or.inl ⟨rfl, hend.mono hk.le⟩
      · exact Or.inr ⟨text, rfl, hend.toLeft.mono hk.le, hend.lookAhead, hend.head⟩

/-- Reading the lines of a header settles. -/
theorem settles_headerLines (h : Left width limit P n s) :
    Settles P change headerLines s fun _ => Left width limit P n := by
  -- on what is left to do, as for the lines before the title
  induction n using Nat.strong_induction_on generalizing s with
  | _ n ih =>
    refine .of_succ (.bind (settles_peek dwindles unseen h).succ ?_)
    rintro _ t (⟨rfl, hleft⟩ | ⟨line, rfl, hheld⟩)
    · exact .pure hleft
    · refine .ite (fun _ => .pure hheld.toLeft) fun _ => ?_
      refine .bind (settles_takeHeld dwindles unseen hheld).succ ?_
      rintro _ u ⟨k, hk, hleft⟩
      have hgo : ∀ v, Left width limit P k v →
          Settles P change headerLines v fun _ => Left width limit P n :=
        fun v hv => (ih k hk hv).mono fun _ _ hend => hend.mono hk.le
      refine .ite (fun _ => ?_) fun _ => hgo u hleft
      cases Attribute.Entry.parse? line with
      | none => exact hgo u hleft
      | some entry =>
        refine .bind (settles_applyEntry harmless unseen hleft entry) fun _ v hv => ?_
        refine .ite (fun _ => ?_) fun _ => hgo v hv
        exact .bind (settles_edit harmless unseen hv fun _ => ⟨rfl, rfl, rfl, rfl⟩)
          fun _ w hw => hgo w hw

/-- Reading a header settles. -/
theorem settles_header (h : Left width limit P n s) :
    Settles P change header s fun _ => Left width limit P n := by
  refine .bind (settles_skipToContent dwindles unseen h) ?_
  rintro _ t (⟨rfl, hleft⟩ | ⟨line, rfl, hheld⟩)
  · exact .pure hleft
  · simp only
    -- without a title there is no header
    cases LineShape.documentTitle? line with
    | none => exact .pure hheld.toLeft
    | some title =>
      refine .bind (settles_takeHeld dwindles unseen hheld) ?_
      rintro _ u ⟨k, hk, hu⟩
      refine .bind (settles_edit harmless unseen hu fun _ => ⟨rfl, rfl, rfl, rfl⟩) fun _ v hv => ?_
      exact settles_headerLines harmless dwindles unseen (hv.mono hk.le)

/-! ## The body -/

omit harmless in
/-- Reading the lines of a delimited block settles. -/
theorem settles_delimitedLines (delimiter : String) (h : Left width limit P n s) :
    Settles P change (delimitedLines delimiter) s fun _ => Left width limit P n := by
  induction n using Nat.strong_induction_on generalizing s with
  | _ n ih =>
    refine .of_succ (.bind (settles_take dwindles unseen h).succ ?_)
    rintro _ t (⟨rfl, hleft⟩ | ⟨line, rfl, k, hk, hleft⟩)
    · exact .pure hleft
    · refine .ite (fun _ => .pure (hleft.mono hk.le)) fun _ => ?_
      exact .bind (ih k hk hleft) fun _ _ hend => .pure (hend.mono hk.le)

omit harmless in
/-- Reading the lines of a paragraph settles. -/
theorem settles_paragraphLines (isFirst : Bool) (h : Left width limit P n s) :
    Settles P change (fun fuel => paragraphLines fuel isFirst) s fun _ => Left width limit P n := by
  -- on what is left to do: each line of the paragraph leaves less
  induction n using Nat.strong_induction_on generalizing s isFirst with
  | _ n ih =>
    refine .of_succ (.bind (settles_peek dwindles unseen h).succ ?_)
    rintro _ t (⟨rfl, hleft⟩ | ⟨line, rfl, hheld⟩)
    · exact .pure hleft
    · refine .ite (fun _ => .pure hheld.toLeft) fun _ => ?_
      refine .bind (settles_takeHeld dwindles unseen hheld).succ ?_
      rintro _ u ⟨k, hk, hleft⟩
      exact .bind (ih k hk false hleft) fun _ _ hend => .pure (hend.mono hk.le)

omit harmless in
/-- A paragraph takes its first line. -/
theorem settles_paragraph (hne : line ≠ "") (h : LeftHeld width limit P n line s) :
    Settles P change (fun fuel => paragraphLines fuel true) s
      fun _ s' => ∃ k < n, Left width limit P k s' := by
  refine .of_succ (.bind (settles_peekHeld unseen h).succ ?_)
  rintro _ t ⟨rfl, rfl⟩
  refine .ite (fun hstop => absurd hstop (by simp [hne])) fun _ => ?_
  refine .bind (settles_takeHeld dwindles unseen h).succ ?_
  rintro _ u ⟨k, hk, hleft⟩
  exact .bind (settles_paragraphLines dwindles unseen false hleft)
    fun _ _ hend => .pure ⟨k, hk, hend⟩

omit dwindles in
/-- Adding a block settles. -/
theorem settles_addBlock (h : Left width limit P n s) (context : String) (lines : List String)
    (location : Option Cursor) (level : Option Nat) :
    Settles P change (fun _ => addBlock context lines location level) s
      fun _ => Left width limit P n :=
  settles_edit harmless unseen h fun _ => ⟨rfl, rfl, rfl, rfl⟩

/-- Reading a delimited block settles, with less left. -/
theorem settles_delimitedBlock (h : LeftHeld width limit P n line s) (context : String)
    (location : Option Cursor) :
    Settles P change (fun fuel => delimitedBlock fuel line context location) s
      fun _ s' => ∃ k < n, Left width limit P k s' := by
  have hadd : ∀ lines k t, k < n → Left width limit P k t →
      Settles P change (fun _ => addBlock context lines location none) t
        fun _ s' => ∃ k < n, Left width limit P k s' := fun lines k t hk ht =>
    (settles_addBlock harmless unseen ht context lines location none).mono
      fun _ _ hend => ⟨k, hk, hend⟩
  refine .bind (.get (fun fuel i => ?_) (.pure (Q := fun _ => LeftHeld width limit P n line) h)) ?_
  · unfold Session.reader
    rw [unseen.doc]
  · intro start t ht
    refine .bind (settles_takeHeld dwindles unseen ht) ?_
    rintro first u ⟨k, hk, hu⟩
    refine .bind (settles_delimitedLines dwindles unseen line hu) ?_
    rintro ⟨lines, closed⟩ v hv
    -- a block that is not closed is logged before it is added
    refine .ite (fun _ => ?_) fun _ => hadd _ k v hk hv
    exact .bind (settles_log harmless unseen hv _) fun _ w hw => hadd _ k w hk hw

/-- What starts with a line takes that line. -/
theorem settles_element (h : LeftHeld width limit P n line s) :
    Settles P change (fun fuel => element fuel line) s
      fun _ s' => ∃ k < n, Left width limit P k s' := by
  have htake : Settles P change (fun fuel => do let _ ← Scan.take fuel; Pure.pure ()) s
      fun _ s' => ∃ k < n, Left width limit P k s' :=
    .bind (settles_takeHeld dwindles unseen h) fun _ _ hend => .pure hend
  refine .ite (fun _ => htake) fun hcontent => ?_
  have hne : line ≠ "" := by
    rintro rfl
    simp at hcontent
  cases Attribute.Entry.parse? line with
  | some entry =>
    refine .bind (settles_takeHeld dwindles unseen h) ?_
    rintro _ t ⟨k, hk, hleft⟩
    exact .bind (settles_applyEntry harmless unseen hleft entry) fun _ _ hend =>
      .pure ⟨k, hk, hend⟩
  | none =>
    refine .ite (fun _ => htake) fun _ => ?_
    refine .bind (.get (fun fuel i => ?_)
      (.pure (Q := fun _ => LeftHeld width limit P n line) h)) ?_
    · unfold Session.reader
      rw [unseen.doc]
    · intro location t ht
      -- blocks are added after their lines were taken
      have hadd : ∀ context lines level k u, k < n → Left width limit P k u →
          Settles P change (fun _ => addBlock context lines location level) u
            fun _ s' => ∃ k < n, Left width limit P k s' := fun context lines level k u hk hu =>
        (settles_addBlock harmless unseen hu context lines location level).mono
          fun _ _ hend => ⟨k, hk, hend⟩
      cases LineShape.sectionLevel? line with
      | some level =>
        refine .bind (settles_takeHeld dwindles unseen ht) ?_
        rintro _ u ⟨k, hk, hu⟩
        exact hadd _ _ _ k u hk hu
      | none =>
        cases LineShape.delimited? line with
        | some context => exact settles_delimitedBlock harmless dwindles unseen ht context location
        | none =>
          refine .bind (settles_paragraph dwindles unseen hne ht) ?_
          rintro lines u ⟨k, hk, hu⟩
          exact hadd _ _ _ k u hk hu

/-- Reading the body settles. -/
theorem settles_body (h : Left width limit P n s) :
    Settles P change body s fun _ => Left width limit P n := by
  induction n using Nat.strong_induction_on generalizing s with
  | _ n ih =>
    refine .of_succ (.bind (settles_peek dwindles unseen h).succ ?_)
    rintro _ t (⟨rfl, hleft⟩ | ⟨line, rfl, hheld⟩)
    · exact .pure hleft
    · refine .bind (settles_element harmless dwindles unseen hheld).succ ?_
      rintro _ u ⟨k, hk, hleft⟩
      exact (ih k hk hleft).mono fun _ _ hend => hend.mono hk.le

/-- Where reading goes on with less after each look, every scan ends. -/
theorem settles_document (hsteady : s.reader.Steady) (h : P s) :
    Settles P change document s fun _ => P := by
  have hleft : Left width limit P (s.reader.work width limit) s := ⟨hsteady, h, Nat.le_refl _⟩
  refine .get (fun fuel i => by rw [unseen.doc]) (.ite (fun _ => ?_) fun _ => .pure h)
  refine .bind (settles_header harmless dwindles unseen hleft) fun _ t ht => ?_
  refine .bind (settles_body harmless dwindles unseen ht) fun _ u hu => ?_
  have hmark : ∀ d : Document, d.Edited { d with parsed := true } :=
    fun _ => ⟨rfl, rfl, rfl, rfl⟩
  exact (settles_edit harmless unseen hu hmark).mono fun _ _ hend => hend.holds

end

end Scan

end DocFlatten
