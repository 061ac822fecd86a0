import DocFlatten.Proofs.Moving
import Mathlib.Computability.StateTransition

/-! # A scan step by step

A scan runs four loops inside of each other, each with its own rule for when to stop. For what
happens between two lines, or while a scope is left, the loops are in the way. So this module has
the scan as a machine: a `Moment` is a session and what the scan is in the middle of, and
`Moment.next` does one thing only: it looks at a line, leaves a scope, reacts to the line that was
found, or closes what the end of the document leaves open.

* `Moment.next_cases`: what one step is; `Moment.reaction_found`: what the reaction to a line is;
* `runs_next`: a step is made of moves, and so keeps what reading and editing keep;
* `reaches_document`, `reaches_load`: every scan is a run of the machine, and so is every load;
* `Reaches.load`: a load that ends passes every moment that is reached from its beginning.
-/

namespace DocFlatten

/-- A document with one more block. -/
def Document.withBlock (d : Document) (b : Block) : Document :=
  { d with blocks := d.blocks ++ [b] }

/-- A document with the value of an entry recorded in its header. -/
def Document.withHeader (d : Document) (entry : Attribute.Entry) : Document :=
  let value := match entry with
    | .unset _ => none
    | .set name _ => Mapping.get? d.attributes name
  { d with headerAttributes := Mapping.insert d.headerAttributes entry.name value }

namespace Session

/-- A session with its document edited. -/
def edit (f : Document → Document) (s : Session) : Session :=
  { s with doc := f s.doc }

/-- A session after an attribute entry. -/
def applied (entry : Attribute.Entry) (s : Session) : Session :=
  match entry with
  | .unset name => s.edit (·.setAttribute name none)
  | .set name value =>
    let mode := Attribute.Missing.ofAttributes s.doc.attributes
    (s.logAll (Attribute.substituteLog mode s.doc.attributes value)).edit
      (·.setAttribute name (some ((Attribute.substitute? mode s.doc.attributes value).getD "")))

/-- A session after an attribute entry in the header. -/
def headed (entry : Attribute.Entry) (s : Session) : Session :=
  if s.doc.isLocked entry.name then s.applied entry
  else (s.applied entry).edit (·.withHeader entry)

@[simp] theorem doc_logAll (s : Session) (records : List Log.Record) :
    (s.logAll records).doc = s.doc := by
  induction records generalizing s with
  | nil => rfl
  | cons record records ih => exact ih (s.log record)

@[simp] theorem reader_applied (s : Session) (entry : Attribute.Entry) :
    (s.applied entry).reader = s.reader := by
  cases entry with
  | unset name => exact (Scan.Simulation.edited_setAttribute s.doc name none).reader
  | set name value =>
    refine (Scan.Simulation.edited_setAttribute _ name _).reader.trans ?_
    rw [doc_logAll]
    rfl

end Session

namespace Scan

open Session

/-! ## The machine -/

/-- What a scan is in the middle of. -/
inductive Mode where
  /-- Looking for the title. -/
  | opening
  /-- Below the title. -/
  | heading
  /-- Between two blocks. -/
  | body
  | paragraph (lines : List String) (location : Option Cursor)
  | delimited (delimiter context : String) (start : Cursor) (lines : List String)
    (location : Option Cursor)
  | done

/-- Whether the scan is over. -/
def Mode.isDone : Mode → Bool
  | .done => true
  | _ => false

/-- A session and what its scan is in the middle of. -/
structure Moment where
  mode : Mode
  session : Session

namespace Moment

/-- A line was found while looking for the title. -/
def inOpening (s : Session) (line : String) : Moment :=
  if line == "" || LineShape.isComment line then ⟨.opening, s.taken⟩
  else match LineShape.documentTitle? line with
    | none => ⟨.body, s⟩
    | some title => ⟨.heading, s.taken.edit fun d => { d with title := some title }⟩

/-- A line was found below the title. -/
def inHeading (s : Session) (line : String) : Moment :=
  if line == "" then ⟨.body, s⟩
  else if LineShape.isComment line then ⟨.heading, s.taken⟩
  else match Attribute.Entry.parse? line with
    | none => ⟨.heading, s.taken⟩
    | some entry => ⟨.heading, s.taken.headed entry⟩

/-- A line was found between two blocks. -/
def inBody (s : Session) (line : String) : Moment :=
  if line == "" || LineShape.isComment line then ⟨.body, s.taken⟩
  else match Attribute.Entry.parse? line with
    | some entry => ⟨.body, s.taken.applied entry⟩
    | none =>
      if LineShape.isMetadata line then ⟨.body, s.taken⟩
      else match LineShape.sectionLevel? line with
        | some level =>
          ⟨.body, s.taken.edit (·.withBlock ⟨"section", [line], locationOf s, some level⟩)⟩
        | none =>
          match LineShape.delimited? line with
          | some context => ⟨.delimited line context s.reader.cursor [line] (locationOf s), s.taken⟩
          | none => ⟨.paragraph [line] (locationOf s), s.taken⟩

/-- A line was found in a paragraph. -/
def inParagraph (lines : List String) (location : Option Cursor) (s : Session) (line : String) :
    Moment :=
  if line == "" || LineShape.endsParagraph line then
    ⟨.body, s.edit (·.withBlock ⟨"paragraph", lines, location, none⟩)⟩
  else ⟨.paragraph (lines ++ [line]) location, s.taken⟩

/-- A line was found in a delimited block. -/
def inDelimited (delimiter context : String) (start : Cursor) (lines : List String)
    (location : Option Cursor) (s : Session) (line : String) : Moment :=
  if line == delimiter then
    ⟨.body, s.taken.edit (·.withBlock ⟨context, lines ++ [line], location, none⟩)⟩
  else ⟨.delimited delimiter context start (lines ++ [line]) location, s.taken⟩

/-- A line was found. -/
def found (m : Moment) (line : String) : Moment :=
  match m.mode with
  | .opening => inOpening m.session line
  | .heading => inHeading m.session line
  | .body => inBody m.session line
  | .paragraph lines location => inParagraph lines location m.session line
  | .delimited delimiter context start lines location =>
    inDelimited delimiter context start lines location m.session line
  | .done => m

/-- There are no more lines. -/
def ended (m : Moment) : Moment :=
  match m.mode with
  | .opening | .heading => ⟨.body, m.session⟩
  | .body => ⟨.done, m.session.edit fun d => { d with parsed := true }⟩
  | .paragraph lines location =>
    ⟨.body, m.session.edit (·.withBlock ⟨"paragraph", lines, location, none⟩)⟩
  | .delimited _ context start lines location =>
    ⟨.body, (m.session.log (Log.warning .blocks s!"{start.text}: unterminated {context} block")).edit
      (·.withBlock ⟨context, lines, location, none⟩)⟩
  | .done => m

/-- The moment after one thing has happened. There is none once the scan is done, none if a
processor has to act, and none if the system refuses what a look asks for. -/
def next (m : Moment) : Option Moment :=
  if m.mode.isDone then none
  else if 0 < m.session.reader.lookAhead then some (m.found (m.session.reader.head?.getD ""))
  else match m.session.reader.scope.lines with
    | [] =>
      if m.session.reader.outer.isEmpty then some m.ended
      else some ⟨m.mode, m.session.leave⟩
    | line :: _ =>
      match (m.session.meet line).glance line with
      | .line _ s => some ⟨m.mode, s⟩
      | .again s => some ⟨m.mode, s⟩
      | .hand _ _ _ | .refused _ _ => none

/-- A moment that another one leads to. -/
abbrev Reaches : Moment → Moment → Prop :=
  StateTransition.Reaches next

/-- What can happen next. -/
inductive Next (m : Moment) : Moment → Prop where
  | found (hheld : 0 < m.session.reader.lookAhead) :
    Next m (m.found (m.session.reader.head?.getD ""))
  | ended (hlook : m.session.reader.lookAhead = 0) (hlines : m.session.reader.scope.lines = [])
      (houter : m.session.reader.outer = []) : Next m m.ended
  | leave (hlook : m.session.reader.lookAhead = 0) (hlines : m.session.reader.scope.lines = [])
      (houter : m.session.reader.outer ≠ []) : Next m ⟨m.mode, m.session.leave⟩
  | look {line : String} {rest : List String} {t : Session}
      (hlook : m.session.reader.lookAhead = 0)
      (hfront : m.session.reader.scope.lines = line :: rest)
      (hglance : (∃ text, (m.session.meet line).glance line = .line text t) ∨
        (m.session.meet line).glance line = .again t) : Next m ⟨m.mode, t⟩

/-- A moment that has a next one is not done, and the next one comes by one of the steps. -/
theorem next_cases {m m' : Moment} (h : m.next = some m') : m.mode.isDone = false ∧ Next m m' := by
  unfold next at h
  split at h
  · cases h
  · rename_i hmode
    refine ⟨by simpa using hmode, ?_⟩
    split at h
    · -- a line waits
      cases h
      exact .found ‹_›
    · have hlook : m.session.reader.lookAhead = 0 := by omega
      split at h
      · rename_i hlines
        split at h
        · -- nothing is left
          cases h
          exact .ended hlook hlines (List.isEmpty_iff.mp ‹_›)
        · -- the scope ends
          rename_i houter
          cases h
          refine .leave hlook hlines ?_
          intro hnil
          simp [hnil] at houter
      · -- a line is looked at, and the look neither fails nor hands it over
        rename_i line rest hfront
        split at h
        · cases h
          exact .look hlook hfront (Or.inl ⟨_, ‹_›⟩)
        · cases h
          exact .look hlook hfront (Or.inr ‹_›)
        · cases h
        · cases h

/-! ## Steps -/

section

variable {mode : Mode} {s t : Session}

/-- A line that waits is found. -/
theorem next_found (hmode : mode.isDone = false) (hheld : 0 < s.reader.lookAhead) {line : String}
    (hhead : s.reader.head? = some line) : next ⟨mode, s⟩ = some (found ⟨mode, s⟩ line) := by
  unfold next
  simp only [hmode, hheld, hhead]
  rfl

/-- If nothing is left, the moment ends. -/
theorem next_ended (hmode : mode.isDone = false) (h : Exhausted s.reader) :
    next ⟨mode, s⟩ = some (ended ⟨mode, s⟩) := by
  unfold next
  simp [hmode, h.idle.lookAhead, h.lines, h.outer]

/-- At the end of a scope it is left. -/
theorem next_leave (hmode : mode.isDone = false) (hlook : s.reader.lookAhead = 0)
    (hlines : s.reader.scope.lines = []) (houter : s.reader.outer ≠ []) :
    next ⟨mode, s⟩ = some ⟨mode, s.leave⟩ := by
  unfold next
  simp [hmode, hlook, hlines, houter]

/-- A line in front is looked at. -/
theorem next_look (hmode : mode.isDone = false) (hlook : s.reader.lookAhead = 0) {line : String}
    {rest : List String} (hfront : s.reader.scope.lines = line :: rest)
    (hglance : (∃ text, (s.meet line).glance line = .line text t) ∨
      (s.meet line).glance line = .again t) : next ⟨mode, s⟩ = some ⟨mode, t⟩ := by
  unfold next
  rcases hglance with ⟨text, hglance⟩ | hglance <;> simp [hmode, hlook, hfront, hglance]

end

/-! ## Reactions -/

end Moment

/-- A document with nothing changed but what was found in it: its title, what its header records
and its blocks. -/
structure Retouched (d d' : Document) : Prop extends d.Edited d' where
  attributes : d'.attributes = d.attributes
  locked : d'.locked = d.locked

/-- What a session can be after the reaction to a line: the line is taken or not, only an entry
changes attributes, and what was found is noted. -/
inductive Reaction (s : Session) (line : String) : Session → Prop where
  | left : Reaction s line s
  | taken : Reaction s line s.taken
  | applied {entry : Attribute.Entry} (hentry : Attribute.Entry.parse? line = some entry) :
    Reaction s line (s.taken.applied entry)
  | noted {t : Session} {f : Document → Document} (h : Reaction s line t)
      (hf : Retouched t.doc (f t.doc)) : Reaction s line (t.edit f)

theorem retouched_withBlock (d : Document) (b : Block) : Retouched d (d.withBlock b) :=
  ⟨⟨rfl, rfl, rfl, rfl⟩, rfl, rfl⟩

theorem retouched_withHeader (d : Document) (entry : Attribute.Entry) :
    Retouched d (d.withHeader entry) :=
  ⟨⟨rfl, rfl, rfl, rfl⟩, rfl, rfl⟩

theorem retouched_title (d : Document) (title : Option String) :
    Retouched d { d with title } :=
  ⟨⟨rfl, rfl, rfl, rfl⟩, rfl, rfl⟩

/-- A reaction takes the line in front or leaves it. -/
theorem Reaction.reader {s t : Session} {line : String} (h : Reaction s line t) :
    t.reader = s.reader ∨ t.reader = s.reader.shifted := by
  induction h with
  | left => exact Or.inl rfl
  | taken => exact Or.inr (reader_taken s)
  | applied => exact Or.inr ((reader_applied _ _).trans (reader_taken s))
  | noted _ hf ih => exact ih.imp hf.reader.trans hf.reader.trans

namespace Moment

/-- An entry of a header is taken, applied and noted. -/
theorem reaction_headed {s : Session} {line : String} {entry : Attribute.Entry}
    (h : Attribute.Entry.parse? line = some entry) : Reaction s line (s.taken.headed entry) := by
  unfold Session.headed
  split
  · exact .applied h
  · exact .noted (.applied h) (retouched_withHeader _ entry)

/-- What happens when a line was found, in whatever the scan is in the middle of. -/
theorem reaction_found (m : Moment) (line : String) :
    Reaction m.session line (m.found line).session := by
  -- a block is noted in the document, whatever else happened
  have hblock : ∀ {t : Session}, Reaction m.session line t → ∀ b,
      Reaction m.session line (t.edit (·.withBlock b)) :=
    fun ht b => .noted ht (retouched_withBlock _ b)
  unfold found
  cases m.mode with
  | opening =>
    simp only [inOpening]
    split
    · exact .taken
    · -- what is no title is left to the body
      split
      · exact .left
      · rename_i title _
        exact .noted (f := fun d => { d with title := some title }) .taken (retouched_title _ _)
  | heading =>
    simp only [inHeading]
    split
    · -- an empty line ends the header
      exact .left
    · split
      · exact .taken
      · split
        · exact .taken
        · exact reaction_headed ‹_›
  | body =>
    simp only [inBody]
    split
    · -- comments and empty lines stand between blocks
      exact .taken
    · split
      · exact .applied ‹_›
      · split
        · exact .taken
        · -- otherwise a block starts: a section title is one by itself
          split
          · exact hblock .taken _
          · split
            · exact .taken
            · exact .taken
  | paragraph lines location =>
    simp only [inParagraph]
    split
    · -- the paragraph ends before the line
      exact hblock .left _
    · exact .taken
  | delimited delimiter context start lines location =>
    simp only [inDelimited]
    split
    · -- the block ends with the line
      exact hblock .taken _
    · exact .taken
  | done => exact .left

/-- At the end of the document only what was found is noted. -/
theorem retouched_ended (m : Moment) : Retouched m.session.doc m.ended.session.doc := by
  unfold ended
  cases m.mode with
  | opening | heading | done => exact ⟨⟨rfl, rfl, rfl, rfl⟩, rfl, rfl⟩
  | body => exact ⟨⟨rfl, rfl, rfl, rfl⟩, rfl, rfl⟩
  | paragraph lines location => exact retouched_withBlock _ _
  | delimited delimiter context start lines location => exact retouched_withBlock _ _

end Moment

/-! ## Steps are moves -/

theorem runs_applied (entry : Attribute.Entry) (s : Session) : Runs s (s.applied entry) := by
  cases entry with
  | unset name => exact .single (.edit (Simulation.edited_setAttribute _ _ _))
  | set name value =>
    exact (runs_logAll s _).tail (.edit (Simulation.edited_setAttribute _ _ _))

/-- What becomes of a line is done in steps of a run. -/
theorem Reaction.runs {s t : Session} {line : String} (h : Reaction s line t)
    (hheld : 0 < s.reader.lookAhead) : Runs s t := by
  induction h with
  | left => exact .refl
  | taken => exact .single (.take hheld)
  | applied => exact .head (.take hheld) (runs_applied _ _)
  | noted _ hf ih => exact ih.tail (.edit hf.toEdited)

namespace Moment

variable {m m' : Moment}

theorem runs_ended (m : Moment) : Runs m.session m.ended.session := by
  unfold ended
  cases m.mode with
  | opening | heading | done => exact .refl
  | body => exact .single (.edit ⟨rfl, rfl, rfl, rfl⟩)
  | paragraph lines location => exact .single (.edit (retouched_withBlock _ _).toEdited)
  | delimited delimiter context start lines location =>
    exact .tail (.single (.log _)) (.edit (retouched_withBlock _ _).toEdited)

/-- A step of the machine is made of moves. -/
theorem runs_next (hnext : m.next = some m') : Runs m.session m'.session := by
  obtain ⟨-, hstep⟩ := next_cases hnext
  cases hstep with
  | found hheld => exact (reaction_found m _).runs hheld
  | ended => exact runs_ended m
  | leave hlook hlines houter => exact .single (.leave hlook hlines houter)
  | look hlook hfront hglance => exact .single (.look hlook hfront hglance)

/-- A step with lines left and none of them found is one move. -/
theorem move_of_next (hlook : m.session.reader.lookAhead = 0)
    (hlines : m.session.reader.scope.lines ≠ []) (hnext : m.next = some m') :
    Move m.session m'.session := by
  obtain ⟨-, hstep⟩ := next_cases hnext
  cases hstep with
  | found hheld => omega
  | ended _ hnil | leave _ hnil => exact absurd hnil hlines
  | look hlook hfront hglance => exact .look hlook hfront hglance

/-- What moments lead to is a run of their sessions. -/
theorem Reaches.runs (h : m.Reaches m') : Runs m.session m'.session := by
  induction h with
  | refl => exact .refl
  | tail _ hnext ih => exact ih.trans (runs_next hnext)

end Moment

/-! ## Scans are runs -/

/-- A line was found and waits to be taken. -/
structure Held (s : Session) (line : String) : Prop where
  lookAhead : 0 < s.reader.lookAhead
  head : s.reader.head? = some line

/-- If the look-ahead counts a line, there is one. -/
theorem exists_held {s : Session} (hsound : Sound s) (hlook : 0 < s.reader.lookAhead) :
    ∃ line, Held s line := by
  obtain ⟨line, rest, hlines⟩ := hsound.1.exists_front hlook
  exact ⟨s.reader.shown line, hlook, by simp [Reader.head?, hlines]⟩

/-- Of a line that waits, taking gives what is shown. -/
theorem Held.take {s s' : Session} {line : String} {a : Option String} {fuel : Nat}
    (h : Held s line) (hrun : take fuel s = .ok (a, s')) : a = some line ∧ s' = s.taken := by
  change takeWith _ s = _ at hrun
  rw [takeWith_of_held h.lookAhead] at hrun
  obtain ⟨rfl, rfl⟩ := Prod.mk.inj (Except.ok.inj hrun)
  exact ⟨(takeFront_fst s).trans h.head, rfl⟩

/-- A line that is taken is noted, with the position that the reader had before. -/
theorem Held.noted {s : Session} {line : String} (h : Held s line) :
    ∃ t : Taken, t.shown = line ∧ t.cursor = s.reader.cursor ∧
    s.taken.journal.taken = s.journal.taken ++ [t] := by
  have hhead := h.head
  unfold Reader.head? at hhead
  cases hlines : s.reader.scope.lines with
  | nil => simp [hlines] at hhead
  | cons front rest =>
    refine ⟨⟨front, s.reader.shown front, s.reader.cursor, s.reader.skipping⟩, ?_, rfl, ?_⟩
    · simpa [hlines] using hhead
    · unfold Session.taken
      rw [journal_takeFront hlines, Journal.taken_push_taken]

@[simp] theorem taken_logAll (s : Session) (records : List Log.Record) :
    (s.logAll records).journal.taken = s.journal.taken := by
  induction records generalizing s with
  | nil => rfl
  | cons record records ih => exact (ih (s.log record)).trans (taken_log s record)

@[simp] theorem taken_applied (s : Session) (entry : Attribute.Entry) :
    (s.applied entry).journal.taken = s.journal.taken := by
  cases entry with
  | unset name => rfl
  | set name value => exact taken_logAll s _

@[simp] theorem taken_headed (s : Session) (entry : Attribute.Entry) :
    (s.headed entry).journal.taken = s.journal.taken := by
  unfold Session.headed
  split
  · exact taken_applied s entry
  · exact taken_applied s entry

/-- A scan that takes the line that waits goes on from the session without it. -/
theorem Held.take_bind {α : Type} {s : Session} {line : String} {fuel : Nat} {r : α × Session}
    {k : Option String → Step α} (hheld : Held s line)
    (h : (Scan.take fuel >>= k) s = .ok r) : k (some line) s.taken = .ok r := by
  obtain ⟨a, t, htake, hrest⟩ := bind_eq_ok.mp h
  obtain ⟨rfl, rfl⟩ := hheld.take htake
  exact hrest

/-- Applying an entry gives the session with the entry applied. -/
theorem applyEntry_run {s s' : Session} {entry : Attribute.Entry} {effect : Bool}
    (h : applyEntry entry s = .ok (effect, s')) :
    effect = !s.doc.isLocked entry.name ∧ s' = s.applied entry := by
  cases entry <;> cases h <;> exact ⟨rfl, rfl⟩

/-- A scan of the header that applies an entry goes on from the session with the entry recorded,
unless its attribute is locked. -/
theorem headed_bind {α : Type} {s : Session} {entry : Attribute.Entry} {r : α × Session}
    {k : Step α}
    (h : (applyEntry entry >>= fun effect =>
      if effect = true then recordHeader entry >>= fun _ => k else k) s = .ok r) :
    k (s.headed entry) = .ok r := by
  obtain ⟨effect, t, happly, hrest⟩ := bind_eq_ok.mp h
  obtain ⟨heffect, rfl⟩ := applyEntry_run happly
  unfold Session.headed
  split at hrest
  · rename_i hfree
    rw [if_neg (by simpa [heffect] using hfree)]
    obtain ⟨_, t, hrecord, hrest⟩ := bind_eq_ok.mp hrest
    obtain rfl : (s.applied entry).edit (·.withHeader entry) = t := modify_eq_ok.mp hrecord
    exact hrest
  · rename_i hlocked
    rw [if_pos (by simpa [heffect] using hlocked)]
    exact hrest

namespace Moment

variable {fuel : Nat} {s s' : Session} {m m' m'' : Moment}

theorem Reaches.step (h : m.next = some m') (h' : m'.Reaches m'') : m.Reaches m'' :=
  Relation.ReflTransGen.head h h'

/-- What is reached from a sound moment is sound. -/
theorem Reaches.sound (h : m.Reaches m') (hsound : Sound m.session) : Sound m'.session :=
  harmless_processors.runs hsound h.runs

/-- Looking for a line, one look after the other. -/
theorem reaches_peek {a : Option String} (mode : Mode) (hmode : mode.isDone = false)
    (hsound : Sound s) (h : s.peekLine fuel = .ok (a, s')) :
    Reaches ⟨mode, s⟩ ⟨mode, s'⟩ ∧ (a = none → Exhausted s'.reader) ∧
      ∀ line, a = some line → Held s' line := by
  refine ⟨?_, ?_, ?_⟩
  · induction fuel generalizing s with
    | zero => cases h
    | succ fuel ih =>
      -- each step is sound again, so the rest of the look is a run by induction
      have hgo : ∀ {t : Session}, next ⟨mode, s⟩ = some ⟨mode, t⟩ →
          t.peekLine fuel = .ok (a, s') → Reaches ⟨mode, s⟩ ⟨mode, s'⟩ := by
        intro t hnext hrest
        exact .step hnext (ih (harmless_processors.runs hsound (runs_next hnext)) hrest)
      rcases peekLine_cases hsound.1 h with ⟨-, -, -, rfl⟩ | ⟨-, -, -, -, rfl⟩ |
        ⟨n, hn, hidle, ⟨hlines, houter, hrest⟩ | ⟨line, rest, hfront, hrest⟩⟩
      · exact .refl
      · exact .refl
      · obtain rfl : fuel = n := by omega
        exact hgo (next_leave hmode hidle.lookAhead hlines houter) hrest
      · obtain rfl : fuel = n := by omega
        cases hglance : (s.meet line).glance line with
        | line text t =>
          rw [hglance] at hrest
          obtain ⟨-, rfl⟩ := Prod.mk.inj (Except.ok.inj hrest)
          exact .single (next_look hmode hidle.lookAhead hfront (Or.inl ⟨text, hglance⟩))
        | again t =>
          rw [hglance] at hrest
          exact hgo (next_look hmode hidle.lookAhead hfront (Or.inr hglance)) hrest
        | refused e t =>
          rw [hglance] at hrest
          cases hrest
        | hand actions depth t =>
          have hlooked : Look (s.meet line) line (.hand actions depth t) :=
            hglance ▸ look_glance (s := s.meet line) hidle.lookAhead hfront
          cases hlooked with
          | handed i processor target attributes _ _ _ hresolve _ =>
            exact absurd hresolve (resolve_ne_handed hsound.2)
  · rintro rfl
    exact exhausted_of_peekLine hsound.1 h
  · rintro line rfl
    exact ⟨(steady_peekLine hsound.1 h).2.mp rfl, (head_of_peekLine hsound.1 h).symm⟩

/-- A step in reaction to the line that was found. -/
theorem reaches_found (mode : Mode) {line : String} (hmode : mode.isDone = false)
    (hheld : Held s line) (h : (found ⟨mode, s⟩ line).Reaches m) : Reaches ⟨mode, s⟩ m :=
  .step (next_found hmode hheld.lookAhead hheld.head) h

/-- A line that waits is followed by what it leads to. -/
theorem Reaches.reacts {mode : Mode} {line : String} (h : m.Reaches ⟨mode, s⟩)
    (hmode : mode.isDone = false) (hheld : Held s line) (hfound : found ⟨mode, s⟩ line = m') :
    m.Reaches m' :=
  h.trans (reaches_found mode hmode hheld (hfound ▸ .refl))

/-- Looking for a line, and taking it. -/
theorem reaches_take {a : Option String} (mode : Mode) (hmode : mode.isDone = false)
    (hsound : Sound s) (h : take fuel s = .ok (a, s')) :
    ∃ t, Reaches ⟨mode, s⟩ ⟨mode, t⟩ ∧ ((a = none ∧ s' = t ∧ Exhausted t.reader) ∨
      ∃ line, a = some line ∧ Held t line ∧ s' = t.taken) := by
  by_cases hlook : 0 < s.reader.lookAhead
  · obtain ⟨line, hheld⟩ := exists_held hsound hlook
    obtain ⟨rfl, rfl⟩ := hheld.take h
    exact ⟨s, .refl, Or.inr ⟨line, rfl, hheld, rfl⟩⟩
  · obtain ⟨b, t, hpeek, hcase⟩ := peekLine_of_readLine hlook h
    obtain ⟨hreach, hend, hheld⟩ := reaches_peek mode hmode hsound hpeek
    refine ⟨t, hreach, ?_⟩
    rcases hcase with ⟨rfl, rfl, rfl⟩ | ⟨hsome, htaken⟩
    · exact Or.inl ⟨rfl, rfl, hend rfl⟩
    · obtain ⟨line, rfl⟩ := Option.isSome_iff_exists.mp hsome
      obtain ⟨rfl, rfl⟩ := Prod.mk.inj htaken
      exact Or.inr ⟨line, (takeFront_fst t).trans (hheld line rfl).head, hheld line rfl, rfl⟩

/-! ### The header -/

/-- Skipping to content leads through the opening, to a line of content or the end. -/
theorem reaches_skipToContent {a : Option String} (hsound : Sound s)
    (h : skipToContent fuel s = .ok (a, s')) :
    Reaches ⟨.opening, s⟩ ⟨.opening, s'⟩ ∧ (a = none → Exhausted s'.reader) ∧
      ∀ line, a = some line →
        Held s' line ∧ ¬ (line == "" || LineShape.isComment line) = true := by
  induction fuel generalizing s with
  | zero => cases h
  | succ fuel ih =>
    unfold skipToContent at h
    obtain ⟨front, t, hpeek, hrest⟩ := bind_eq_ok.mp h
    obtain ⟨hlook, hend, hheld⟩ := reaches_peek .opening rfl hsound hpeek
    cases front with
    -- nothing is left
    | none =>
      obtain ⟨rfl, rfl⟩ := pure_eq_ok.mp hrest
      exact ⟨hlook, hend, by simp⟩
    | some line =>
      simp only at hrest
      split at hrest
      · -- an empty line or a comment is skipped
        rename_i hskip
        have hstep : Reaches ⟨.opening, s⟩ ⟨.opening, t.taken⟩ :=
          hlook.reacts rfl (hheld line rfl) (by simp only [found, inOpening, if_pos hskip])
        obtain ⟨hreach, hend'⟩ := ih (hstep.sound hsound) ((hheld line rfl).take_bind hrest)
        exact ⟨hstep.trans hreach, hend'⟩
      · -- a line of content stays in front
        rename_i hcontent
        obtain ⟨rfl, rfl⟩ := pure_eq_ok.mp hrest
        refine ⟨hlook, by simp, ?_⟩
        rintro _ ⟨⟩
        exact ⟨hheld line rfl, hcontent⟩

/-- The lines of a header lead through the heading. -/
theorem reaches_headerLines {u : Unit} (hsound : Sound s) (h : headerLines fuel s = .ok (u, s')) :
    Reaches ⟨.heading, s⟩ ⟨.body, s'⟩ := by
  induction fuel generalizing s with
  | zero => cases h
  | succ fuel ih =>
    unfold headerLines at h
    obtain ⟨front, t, hpeek, hrest⟩ := bind_eq_ok.mp h
    obtain ⟨hlook, hend, hheld⟩ := reaches_peek .heading rfl hsound hpeek
    cases front with
    | none =>
      obtain ⟨-, rfl⟩ := pure_eq_ok.mp hrest
      exact hlook.trans (.single (next_ended rfl (hend rfl)))
    | some line =>
      simp only at hrest
      split at hrest
      · rename_i hblank
        obtain ⟨-, rfl⟩ := pure_eq_ok.mp hrest
        exact hlook.reacts rfl (hheld line rfl) (by simp only [found, inHeading, if_pos hblank])
      · rename_i hline
        have hrest := (hheld line rfl).take_bind hrest
        -- whatever the line does, the loop goes on in the heading
        have hgo : ∀ v, found ⟨.heading, t⟩ line = ⟨.heading, v⟩ →
            headerLines fuel v = .ok (u, s') → Reaches ⟨.heading, s⟩ ⟨.body, s'⟩ := by
          intro v hv hloop
          have hstep : Reaches ⟨.heading, s⟩ ⟨.heading, v⟩ :=
            hlook.reacts rfl (hheld line rfl) hv
          exact hstep.trans (ih (hstep.sound hsound) hloop)
        split at hrest
        · rename_i hcomment
          have hnot : ¬ LineShape.isComment line = true := by simpa using hcomment
          cases hentry : Attribute.Entry.parse? line with
          | none =>
            rw [hentry] at hrest
            exact hgo _ (by simp [found, inHeading, hline, hnot, hentry]) hrest
          | some entry =>
            rw [hentry] at hrest
            exact hgo _ (by simp [found, inHeading, hline, hnot, hentry]) (headed_bind hrest)
        · rename_i hcomment
          have hyes : LineShape.isComment line = true := by simpa using hcomment
          exact hgo _ (by simp [found, inHeading, hline, hyes]) hrest

/-- A header leads from the opening to the body. -/
theorem reaches_header {u : Unit} (hsound : Sound s) (h : header fuel s = .ok (u, s')) :
    Reaches ⟨.opening, s⟩ ⟨.body, s'⟩ := by
  unfold header at h
  obtain ⟨front, t, hskip, hrest⟩ := bind_eq_ok.mp h
  obtain ⟨hlook, hend, hfront⟩ := reaches_skipToContent hsound hskip
  cases front with
  -- the document has no content
  | none =>
    obtain ⟨-, rfl⟩ := pure_eq_ok.mp hrest
    exact hlook.trans (.single (next_ended rfl (hend rfl)))
  | some line =>
    obtain ⟨hheld, hcontent⟩ := hfront line rfl
    simp only at hrest
    cases htitle : LineShape.documentTitle? line with
    -- there is no header
    | none =>
      rw [htitle] at hrest
      obtain ⟨-, rfl⟩ := pure_eq_ok.mp hrest
      exact hlook.reacts rfl hheld (by simp only [found, inOpening, if_neg hcontent, htitle])
    -- the title starts a header
    | some title =>
      rw [htitle] at hrest
      obtain ⟨_, w, hedit, hrest⟩ := bind_eq_ok.mp (hheld.take_bind hrest)
      obtain rfl := modify_eq_ok.mp hedit
      have hstep : Reaches ⟨.opening, s⟩
          ⟨.heading, t.taken.edit fun d => { d with title := some title }⟩ :=
        hlook.reacts rfl hheld (by simp only [found, inOpening, if_neg hcontent, htitle])
      exact hstep.trans (reaches_headerLines (hstep.sound hsound) hrest)

/-! ### The body -/

/-- A delimited block is closed by its delimiter, unless the document ends first. -/
theorem reaches_delimitedLines {delimiter : String} (context : String) (start : Cursor)
    (location : Option Cursor) (before : List String) {lines : List String} {closed : Bool}
    (hsound : Sound s)
    (h : delimitedLines delimiter fuel s = .ok ((lines, closed), s')) :
    (closed = true ∧ Reaches ⟨.delimited delimiter context start before location, s⟩
      ⟨.body, s'.edit (·.withBlock ⟨context, before ++ lines, location, none⟩)⟩) ∨
    (closed = false ∧ Exhausted s'.reader ∧
      Reaches ⟨.delimited delimiter context start before location, s⟩
        ⟨.delimited delimiter context start (before ++ lines) location, s'⟩) := by
  induction fuel generalizing s before lines with
  | zero => cases h
  | succ fuel ih =>
    unfold delimitedLines at h
    obtain ⟨front, u, htake, hrest⟩ := bind_eq_ok.mp h
    obtain ⟨t, hreach, ⟨rfl, rfl, hend⟩ | ⟨line, rfl, hheld, rfl⟩⟩ :=
      reaches_take (.delimited delimiter context start before location) rfl hsound htake
    · -- nothing is left before the delimiter
      obtain ⟨hpair, rfl⟩ := pure_eq_ok.mp hrest
      cases hpair
      refine Or.inr ⟨rfl, hend, ?_⟩
      rw [List.append_nil]
      exact hreach
    · simp only at hrest
      split at hrest
      · -- the delimiter ends the block
        rename_i hclosing
        obtain ⟨hpair, rfl⟩ := pure_eq_ok.mp hrest
        cases hpair
        exact Or.inl ⟨rfl, hreach.reacts rfl hheld
          (by simp only [found, inDelimited, if_pos hclosing])⟩
      · -- the line is one of the block
        rename_i hinside
        obtain ⟨⟨others, ending⟩, v, hloop, hrest⟩ := bind_eq_ok.mp hrest
        obtain ⟨hpair, rfl⟩ := pure_eq_ok.mp hrest
        cases hpair
        have hstep : Reaches ⟨.delimited delimiter context start before location, s⟩
            ⟨.delimited delimiter context start (before ++ [line]) location, t.taken⟩ :=
          hreach.reacts rfl hheld (by simp only [found, inDelimited, if_neg hinside])
        have happend : before ++ line :: others = before ++ [line] ++ others := by simp
        rw [happend]
        rcases ih _ (hstep.sound hsound) hloop with ⟨hclosed, hrun⟩ | ⟨hopen, hend, hrun⟩
        · exact Or.inl ⟨hclosed, hstep.trans hrun⟩
        · exact Or.inr ⟨hopen, hend, hstep.trans hrun⟩

/-- The lines of a paragraph lead to the body, with the paragraph as a block. -/
theorem reaches_paragraphLines {location : Option Cursor} {before lines : List String}
    (hsound : Sound s) (h : paragraphLines fuel false s = .ok (lines, s')) :
    Reaches ⟨.paragraph before location, s⟩
      ⟨.body, s'.edit (·.withBlock ⟨"paragraph", before ++ lines, location, none⟩)⟩ := by
  induction fuel generalizing s before lines with
  | zero => cases h
  | succ fuel ih =>
    unfold paragraphLines at h
    obtain ⟨front, t, hpeek, hrest⟩ := bind_eq_ok.mp h
    obtain ⟨hlook, hend, hheld⟩ :=
      reaches_peek (.paragraph before location) rfl hsound hpeek
    cases front with
    -- the paragraph ends with the document
    | none =>
      obtain ⟨rfl, rfl⟩ := pure_eq_ok.mp hrest
      refine hlook.trans (.single ?_)
      rw [List.append_nil]
      exact next_ended rfl (hend rfl)
    | some line =>
      simp only at hrest
      split at hrest
      · -- the line ends the paragraph and stays in front
        rename_i hstop
        obtain ⟨rfl, rfl⟩ := pure_eq_ok.mp hrest
        have hstop' : (line == "" || LineShape.endsParagraph line) = true := by simpa using hstop
        exact hlook.reacts rfl (hheld line rfl)
          (by simp only [found, inParagraph, if_pos hstop', List.append_nil])
      · -- the line is one of the paragraph
        rename_i hinside
        obtain ⟨others, v, hloop, hrest⟩ := bind_eq_ok.mp ((hheld line rfl).take_bind hrest)
        obtain ⟨rfl, rfl⟩ := pure_eq_ok.mp hrest
        have hinside' : ¬ (line == "" || LineShape.endsParagraph line) = true := by
          simpa using hinside
        have hstep : Reaches ⟨.paragraph before location, s⟩
            ⟨.paragraph (before ++ [line]) location, t.taken⟩ :=
          hlook.reacts rfl (hheld line rfl) (by simp only [found, inParagraph, if_neg hinside'])
        have happend : before ++ (some line).getD "" :: others = before ++ [line] ++ others := by
          simp
        rw [happend]
        exact hstep.trans (ih (hstep.sound hsound) hloop)

/-- A block whose first line is its delimiter. -/
theorem reaches_delimitedBlock {u : Unit} {line context : String} {location : Option Cursor}
    (hsound : Sound s.taken) (hheld : Held s line)
    (h : delimitedBlock fuel line context location s = .ok (u, s')) :
    Reaches ⟨.delimited line context s.reader.cursor [line] location, s.taken⟩ ⟨.body, s'⟩ := by
  unfold delimitedBlock at h
  obtain ⟨start, t, hcursor, hrest⟩ := bind_eq_ok.mp h
  obtain ⟨rfl, rfl⟩ : s.reader.cursor = start ∧ s = t := by
    cases hcursor
    exact ⟨rfl, rfl⟩
  -- the delimiter is the first line of the block
  have hfirst : (given (some line)).getD line = line := by
    simp only [given, Option.filter]
    split <;> rfl
  obtain ⟨⟨lines, closed⟩, v, hloop, hrest⟩ := bind_eq_ok.mp (hheld.take_bind hrest)
  simp only [hfirst] at hrest
  rcases reaches_delimitedLines context s.reader.cursor location [line] hsound hloop with
    ⟨rfl, hrun⟩ | ⟨rfl, hend, hrun⟩
  · -- the block has an end
    obtain rfl := modify_eq_ok.mp hrest
    exact hrun
  · -- it has none, so it ends with the document, which is logged
    obtain ⟨_, w, hlog, hrest⟩ := bind_eq_ok.mp hrest
    obtain rfl := modify_eq_ok.mp hlog
    obtain rfl := modify_eq_ok.mp hrest
    exact hrun.trans (.single (next_ended rfl hend))

/-- A paragraph whose first line is taken whatever it is. -/
theorem reaches_paragraph {lines : List String} {line : String} {location : Option Cursor}
    (hsound : Sound s.taken) (hheld : Held s line) (hne : line ≠ "")
    (h : paragraphLines fuel true s = .ok (lines, s')) :
    Reaches ⟨.paragraph [line] location, s.taken⟩
      ⟨.body, s'.edit (·.withBlock ⟨"paragraph", lines, location, none⟩)⟩ := by
  cases fuel with
  | zero => cases h
  | succ fuel =>
    unfold paragraphLines at h
    obtain ⟨front, t, hpeek, hrest⟩ := bind_eq_ok.mp h
    obtain ⟨rfl, rfl⟩ : some line = front ∧ s = t := by
      have hsame : s.peekLine (fuel + 1) = .ok (front, t) := hpeek
      rw [peekLine_of_held fuel hheld.lookAhead, hheld.head] at hsame
      exact Prod.mk.inj (Except.ok.inj hsame)
    have hinside : ¬ (line == "" || !true && LineShape.endsParagraph line) = true := by simp [hne]
    simp only [if_neg hinside] at hrest
    obtain ⟨others, v, hloop, hrest⟩ := bind_eq_ok.mp (hheld.take_bind hrest)
    obtain ⟨rfl, rfl⟩ := pure_eq_ok.mp hrest
    exact reaches_paragraphLines hsound hloop

/-- An element is the reaction to its first line, and what comes of that. -/
theorem reaches_inBody {u : Unit} {line : String} (hsound : Sound s) (hheld : Held s line)
    (h : element fuel line s = .ok (u, s')) : (inBody s line).Reaches ⟨.body, s'⟩ := by
  have htaken : Sound s.taken := harmless_processors.runs hsound (.single (.take hheld.lookAhead))
  unfold element at h
  unfold inBody
  split at h
  · -- a blank line or a comment
    rename_i hskip
    have hrest := hheld.take_bind h
    obtain ⟨-, rfl⟩ := pure_eq_ok.mp hrest
    rw [if_pos hskip]
    exact .refl
  · rename_i hcontent
    rw [if_neg hcontent]
    cases hentry : Attribute.Entry.parse? line with
    | some entry =>
      rw [hentry] at h
      obtain ⟨effect, v, happly, hrest⟩ := bind_eq_ok.mp (hheld.take_bind h)
      obtain ⟨-, rfl⟩ := applyEntry_run happly
      obtain ⟨-, rfl⟩ := pure_eq_ok.mp hrest
      exact .refl
    | none =>
      rw [hentry] at h
      simp only at h ⊢
      split at h
      · -- metadata of a block
        rename_i hmetadata
        have hrest := hheld.take_bind h
        obtain ⟨-, rfl⟩ := pure_eq_ok.mp hrest
        rw [if_pos hmetadata]
        exact .refl
      · -- a block begins, and its position is that of the reader before the line is taken
        rename_i hmetadata
        rw [if_neg hmetadata]
        obtain ⟨location, t, hlocation, hrest⟩ := bind_eq_ok.mp h
        obtain ⟨rfl, rfl⟩ : locationOf s = location ∧ s = t := by
          cases hlocation
          exact ⟨rfl, rfl⟩
        cases hlevel : LineShape.sectionLevel? line with
        | some level =>
          rw [hlevel] at hrest
          obtain rfl := modify_eq_ok.mp (hheld.take_bind hrest)
          exact .refl
        | none =>
          rw [hlevel] at hrest
          cases hdelimited : LineShape.delimited? line with
          | some context =>
            rw [hdelimited] at hrest
            exact reaches_delimitedBlock htaken hheld hrest
          | none =>
            rw [hdelimited] at hrest
            have hne : line ≠ "" := by
              rintro rfl
              simp at hcontent
            obtain ⟨lines, t, hloop, hrest⟩ := bind_eq_ok.mp hrest
            obtain rfl := modify_eq_ok.mp hrest
            exact reaches_paragraph htaken hheld hne hloop

/-- An element leads from the body back to it. -/
theorem reaches_element {u : Unit} {line : String} (hsound : Sound s) (hheld : Held s line)
    (h : element fuel line s = .ok (u, s')) : Reaches ⟨.body, s⟩ ⟨.body, s'⟩ :=
  reaches_found .body rfl hheld (reaches_inBody hsound hheld h)

/-- The body leads to its end. -/
theorem reaches_body {u : Unit} (hsound : Sound s) (h : body fuel s = .ok (u, s')) :
    Reaches ⟨.body, s⟩ ⟨.body, s'⟩ ∧ Exhausted s'.reader := by
  induction fuel generalizing s with
  | zero => cases h
  | succ fuel ih =>
    unfold body at h
    obtain ⟨front, t, hpeek, hrest⟩ := bind_eq_ok.mp h
    obtain ⟨hlook, hend, hheld⟩ := reaches_peek .body rfl hsound hpeek
    cases front with
    | none =>
      obtain ⟨-, rfl⟩ := pure_eq_ok.mp hrest
      exact ⟨hlook, hend rfl⟩
    | some line =>
      obtain ⟨_, v, helement, hrest⟩ := bind_eq_ok.mp hrest
      have hstep : Reaches ⟨.body, s⟩ ⟨.body, v⟩ :=
        hlook.trans (reaches_element (hlook.sound hsound) (hheld line rfl) helement)
      obtain ⟨hreach, hexhausted⟩ := ih (hstep.sound hsound) hrest
      exact ⟨hstep.trans hreach, hexhausted⟩

/-- Every scan is a run of the machine. -/
theorem reaches_document {u : Unit} (hsound : Sound s) (hparsed : s.doc.parsed = false)
    (h : document fuel s = .ok (u, s')) : Reaches ⟨.opening, s⟩ ⟨.done, s'⟩ := by
  unfold document at h
  obtain ⟨t, t', hget, hrest⟩ := bind_eq_ok.mp h
  obtain ⟨rfl, rfl⟩ := get_eq_ok.mp hget
  rw [hparsed] at hrest
  simp only [Bool.not_false, if_true] at hrest
  obtain ⟨_, v, hheader, hrest⟩ := bind_eq_ok.mp hrest
  obtain ⟨_, w, hbody, hedit⟩ := bind_eq_ok.mp hrest
  have hstep := reaches_header hsound hheader
  obtain ⟨hreach, hend⟩ := reaches_body (hstep.sound hsound) hbody
  obtain rfl := modify_eq_ok.mp hedit
  exact hstep.trans (hreach.trans (.single (next_ended rfl hend)))

/-! ### Loading -/

/-- Loading a document is a run of the machine from where its source is opened. -/
theorem reaches_load {files : FileTree} {source : Source} {o : LoadOptions}
    (hopen : openSource files source o = .ok s) (hprocessors : o.processors = [])
    (h : load fuel files source o = .ok s') : Reaches ⟨.opening, s⟩ ⟨.done, s'⟩ := by
  have hparsed : s.doc.parsed = false := by
    obtain ⟨mode, -, rfl⟩ := openSource_eq_ok.mp hopen
    rfl
  obtain ⟨s₁, hopen', hscan⟩ := load_eq_ok.mp h
  obtain rfl : s = s₁ := Except.ok.inj (hopen.symm.trans hopen')
  exact reaches_document (sound_openSource hopen hprocessors) hparsed (scan_eq_ok.mp hscan)

/-- A finished load has passed every moment that can be reached. -/
theorem Reaches.load {files : FileTree} {source : Source} {o : LoadOptions}
    (hreach : Reaches ⟨.opening, s⟩ m) (hopen : openSource files source o = .ok s)
    (hprocessors : o.processors = []) (h : Session.load fuel files source o = .ok s') :
    m.Reaches ⟨.done, s'⟩ := by
  rcases StateTransition.reaches_total hreach (reaches_load hopen hprocessors h) with
    hafter | hbefore
  · exact hafter
  · -- nothing follows the end of a scan
    rcases Relation.ReflTransGen.cases_head hbefore with rfl | ⟨next, hnext, -⟩
    · exact .refl
    · cases hnext

/-! ### Driven readers -/

/-- Looking for a line is a run. -/
theorem runs_peekLine {a : Option String} (hsound : Sound s) (h : s.peekLine fuel = .ok (a, s')) :
    Runs s s' :=
  (reaches_peek .body rfl hsound h).1.runs

/-- Reading a line is a run. -/
theorem runs_readLine {a : Option String} (hsound : Sound s) (h : s.readLine fuel = .ok (a, s')) :
    Runs s s' := by
  obtain ⟨t, hreach, ⟨-, rfl, -⟩ | ⟨line, -, hheld, rfl⟩⟩ := reaches_take .body rfl hsound h
  · exact hreach.runs
  · exact hreach.runs.tail (.take hheld.lookAhead)

/-- Whoever drives a reader moves it. -/
theorem runs_driven {files : FileTree} {source : Source} {o : LoadOptions}
    (hopen : openSource files source o = .ok s) (hprocessors : o.processors = [])
    (h : Driven Document.Edited files source o s') : Runs s s' := by
  induction h with
  | start hopen' =>
    obtain rfl : s = _ := Except.ok.inj (hopen.symm.trans hopen')
    exact .refl
  | peek fuel _ hrun ih =>
    exact ih.trans (runs_peekLine (harmless_processors.runs
      (sound_openSource hopen hprocessors) ih) hrun)
  | read fuel _ hrun ih =>
    exact ih.trans (runs_readLine (harmless_processors.runs
      (sound_openSource hopen hprocessors) ih) hrun)
  | edit d _ hedit ih => exact ih.tail (.edit hedit)
  | log record _ ih => exact ih.tail (.log record)

end Moment

end Scan

end DocFlatten
