import DocFlatten.Proofs.Entering
import DocFlatten.Proofs.Moments

/-! # How blocks are gathered

A scan puts a block together over many steps: it begins with a line that was found between two
blocks, grows while lines are taken, and is added to the document when it is closed. Where it
begins is decided once; the rest of the steps only carry that along.

* `Gathers`: what a step does to the blocks and to the one that is open (`gathers_next`);
* `Gathered`: all blocks begin in some moment that was reached, the open one as well.
-/

namespace DocFlatten

namespace Scan

open Session

/-- The lines of the block that is open, and where it starts. -/
def Mode.open? : Mode → Option (List String × Option Cursor)
  | .paragraph lines location => some (lines, location)
  | .delimited _ _ _ lines location => some (lines, location)
  | .opening | .heading | .body | .done => none

namespace Moment

/-- The blocks that are closed. -/
def blocks (m : Moment) : List Block :=
  m.session.doc.blocks

/-- What a step does to the blocks that are closed and to the one that is open. -/
inductive Gathers (m m' : Moment) : Prop where
  | idle (hopen : m'.mode.open? = none) (hblocks : m'.blocks = m.blocks)
  /-- A line that is a block for itself. -/
  | single {line : String} {b : Block} (hmode : m.mode = .body) (hheld : Held m.session line)
      (hlines : b.lines = [line]) (hlocation : b.location = locationOf m.session)
      (hopen : m'.mode.open? = none) (hblocks : m'.blocks = m.blocks ++ [b])
  /-- The first line of a block. -/
  | begun {line : String} (hmode : m.mode = .body) (hheld : Held m.session line)
      (hopen : m'.mode.open? = some ([line], locationOf m.session))
      (hblocks : m'.blocks = m.blocks)
  | grown {lines : List String} {location : Option Cursor} (more : List String)
      (hbefore : m.mode.open? = some (lines, location))
      (hopen : m'.mode.open? = some (lines ++ more, location)) (hblocks : m'.blocks = m.blocks)
  | closed {lines : List String} {location : Option Cursor} {b : Block} (more : List String)
      (hbefore : m.mode.open? = some (lines, location)) (hlines : b.lines = lines ++ more)
      (hlocation : b.location = location) (hopen : m'.mode.open? = none)
      (hblocks : m'.blocks = m.blocks ++ [b])

variable {m m' : Moment}

/-! ## Steps -/

/-- If neither the mode nor the blocks change, nothing is gathered. -/
theorem Gathers.stay (hmode : m'.mode = m.mode) (hblocks : m'.blocks = m.blocks) :
    Gathers m m' := by
  cases hopen : m.mode.open? with
  | none => exact .idle (by rw [hmode, hopen]) hblocks
  | some block => exact .grown [] hopen (by rw [hmode, hopen, List.append_nil]) hblocks

/-- Taking a line adds no block. -/
theorem blocks_taken (s : Session) : s.taken.doc.blocks = s.doc.blocks := by
  unfold Session.taken
  rw [doc_takeFront]

/-- Setting an attribute adds no block. -/
theorem blocks_setAttribute (d : Document) (name : String) (value : Option String) :
    (d.setAttribute name value).blocks = d.blocks := by
  rw [Document.setAttribute_eq]

theorem blocks_applied (s : Session) (entry : Attribute.Entry) :
    (s.applied entry).doc.blocks = s.doc.blocks := by
  cases entry with
  | unset name => exact blocks_setAttribute _ _ _
  | set name value => exact (blocks_setAttribute _ _ _).trans (by rw [doc_logAll])

theorem blocks_headed (s : Session) (entry : Attribute.Entry) :
    (s.headed entry).doc.blocks = s.doc.blocks := by
  unfold Session.headed
  split
  · exact blocks_applied s entry
  · exact blocks_applied s entry

/-- Looking for the title and reading the header gather nothing. -/
theorem gathers_inOpening (s : Session) (line : String) :
    Gathers ⟨.opening, s⟩ (inOpening s line) := by
  unfold inOpening
  split
  · exact .idle rfl (blocks_taken s)
  · split
    · exact .idle rfl rfl
    · exact .idle rfl (blocks_taken s)

/-- A header adds no block. -/
theorem gathers_inHeading (s : Session) (line : String) :
    Gathers ⟨.heading, s⟩ (inHeading s line) := by
  unfold inHeading
  split
  · exact .idle rfl rfl
  · split
    · exact .idle rfl (blocks_taken s)
    · split
      · exact .idle rfl (blocks_taken s)
      · exact .idle rfl ((blocks_headed _ _).trans (blocks_taken s))

/-- In the body a line starts a block or stands between blocks. -/
theorem gathers_inBody {s : Session} {line : String} (hheld : Held s line) :
    Gathers ⟨.body, s⟩ (inBody s line) := by
  unfold inBody
  split
  · -- a blank line or a comment
    exact .idle rfl (blocks_taken s)
  · split
    · -- an attribute entry
      exact .idle rfl ((blocks_applied _ _).trans (blocks_taken s))
    · split
      · -- the title of a block
        exact .idle rfl (blocks_taken s)
      · split
        · -- a section
          exact .single rfl hheld rfl rfl rfl (congrArg (· ++ _) (blocks_taken s))
        · split
          · -- the first line of a delimited block
            exact .begun rfl hheld rfl (blocks_taken s)
          · -- the first line of a paragraph
            exact .begun rfl hheld rfl (blocks_taken s)

/-- A paragraph gathers its line or is added as a block. -/
theorem gathers_inParagraph (lines : List String) (location : Option Cursor) (s : Session)
    (line : String) :
    Gathers ⟨.paragraph lines location, s⟩ (inParagraph lines location s line) := by
  unfold inParagraph
  split
  · exact .closed [] rfl (List.append_nil _).symm rfl rfl rfl
  · exact .grown [line] rfl rfl (blocks_taken s)

/-- A delimited block gathers its line or is added. -/
theorem gathers_inDelimited (delimiter context : String) (start : Cursor) (lines : List String)
    (location : Option Cursor) (s : Session) (line : String) :
    Gathers ⟨.delimited delimiter context start lines location, s⟩
      (inDelimited delimiter context start lines location s line) := by
  unfold inDelimited
  split
  · exact .closed [line] rfl rfl rfl rfl (congrArg (· ++ _) (blocks_taken s))
  · exact .grown [line] rfl rfl (blocks_taken s)

/-- Whatever a line is, it goes on gathering or adds a block. -/
theorem gathers_found {line : String} (hheld : Held m.session line) :
    Gathers m (m.found line) := by
  rcases m with ⟨mode, s⟩
  cases mode with
  | opening => exact gathers_inOpening s line
  | heading => exact gathers_inHeading s line
  | body => exact gathers_inBody hheld
  | paragraph lines location => exact gathers_inParagraph lines location s line
  | delimited delimiter context start lines location =>
    exact gathers_inDelimited delimiter context start lines location s line
  | done => exact .stay rfl rfl

/-- The end of the document closes the block that is open. -/
theorem gathers_ended (m : Moment) : Gathers m m.ended := by
  rcases m with ⟨mode, s⟩
  cases mode with
  | opening | heading | body | done => exact .idle rfl rfl
  | paragraph lines location | delimited delimiter context start lines location =>
    exact .closed [] rfl (List.append_nil _).symm rfl rfl rfl

/-- A step goes on gathering or adds a block. -/
theorem gathers_next (hsound : Sound m.session) (hnext : m.next = some m') : Gathers m m' := by
  obtain ⟨-, hstep⟩ := next_cases hnext
  cases hstep with
  | found hlook =>
    obtain ⟨line, hheld⟩ := exists_held hsound hlook
    rw [hheld.head]
    exact gathers_found hheld
  | ended => exact gathers_ended m
  | leave _ _ houter =>
    obtain ⟨scope, outer, hscopes⟩ := List.exists_cons_of_ne_nil houter
    refine .stay rfl ?_
    unfold blocks
    rw [(turns_leave hscopes).doc]
  | look hlook hfront hglance =>
    obtain ⟨r, es, hturns⟩ := turns_look hlook hfront hglance
    refine .stay rfl ?_
    unfold blocks
    rw [hturns.doc]
    rfl

/-! ## Runs -/

/-- A block with some lines and some location begins, after some other blocks. -/
structure Begins (before : List Block) (lines : List String) (location : Option Cursor)
    (m : Moment) : Prop where
  mode : m.mode = .body
  blocks : m.blocks = before
  held : ∃ line, Held m.session line ∧ lines.head? = some line
  location : location = locationOf m.session

/-- A block that was begun stays at its place when others follow. -/
theorem Begins.append {before : List Block} {lines : List String} {location : Option Cursor}
    (h : Begins before lines location m) (more : List String) :
    Begins before (lines ++ more) location m := by
  obtain ⟨line, hheld, hhead⟩ := h.held
  refine ⟨h.mode, h.blocks, ⟨line, hheld, ?_⟩, h.location⟩
  rw [List.head?_append, hhead, Option.some_or]

/-- All blocks have begun in a moment between the start and now. -/
structure Gathered (start m : Moment) : Prop where
  closed : ∀ before b after, m.blocks = before ++ b :: after →
    ∃ begin, start.Reaches begin ∧ Begins before b.lines b.location begin
  opened : ∀ lines location, m.mode.open? = some (lines, location) →
    ∃ begin, start.Reaches begin ∧ Begins m.blocks lines location begin

namespace Gathered

variable {start : Moment}

/-- A block is added that has begun in some moment. -/
theorem add {b : Block} (h : Gathered start m)
    (hadded : ∃ begin, start.Reaches begin ∧ Begins m.blocks b.lines b.location begin)
    (hopen : m'.mode.open? = none) (hblocks : m'.blocks = m.blocks ++ [b]) :
    Gathered start m' := by
  refine ⟨?_, by simp [hopen]⟩
  intro before b' after hsplit
  rw [hblocks] at hsplit
  rcases List.eq_nil_or_concat after with rfl | ⟨after', last, rfl⟩
  · -- the block that was added
    obtain ⟨rfl, rfl⟩ : m.blocks = before ∧ b = b' := by simpa using hsplit
    exact hadded
  · -- a block from before
    rw [List.concat_eq_append, ← List.cons_append, ← List.append_assoc] at hsplit
    obtain ⟨hbefore, -⟩ := List.append_inj' hsplit rfl
    exact h.closed before b' after' hbefore

/-- What was gathered up to a moment is gathered up to the next one. -/
theorem step (h : Gathered start m) (hreach : start.Reaches m) (hgathers : Gathers m m') :
    Gathered start m' := by
  cases hgathers with
  | idle hopen hblocks =>
    refine ⟨?_, by simp [hopen]⟩
    rw [hblocks]
    exact h.closed
  | single hmode hheld hlines hlocation hopen hblocks =>
    refine h.add ⟨m, hreach, hmode, rfl, ⟨_, hheld, ?_⟩, hlocation⟩ hopen hblocks
    rw [hlines, List.head?_cons]
  | begun hmode hheld hopen hblocks =>
    refine ⟨?_, ?_⟩
    · rw [hblocks]
      exact h.closed
    · intro lines location hsome
      rw [hopen] at hsome
      cases hsome
      exact ⟨m, hreach, hmode, hblocks.symm, ⟨_, hheld, rfl⟩, rfl⟩
  | grown more hbefore hopen hblocks =>
    refine ⟨?_, ?_⟩
    · rw [hblocks]
      exact h.closed
    · intro lines location hsome
      rw [hopen] at hsome
      cases hsome
      -- the open block began at an earlier moment, and has only got longer since
      obtain ⟨begin, hbegin, hstarts⟩ := h.opened _ _ hbefore
      rw [hblocks]
      exact ⟨begin, hbegin, hstarts.append more⟩
  | closed more hbefore hlines hlocation hopen hblocks =>
    obtain ⟨begin, hbegin, hstarts⟩ := h.opened _ _ hbefore
    refine h.add ⟨begin, hbegin, ?_⟩ hopen hblocks
    rw [hlines, hlocation]
    exact hstarts.append more

end Gathered

/-- Whatever is gathered has begun on the way, if there was nothing at the start. -/
theorem Reaches.gathered {start : Moment} (h : start.Reaches m) (hsound : Sound start.session)
    (hopen : start.mode.open? = none) (hblocks : start.blocks = []) : Gathered start m := by
  induction h with
  | refl => exact ⟨by simp [hblocks], by simp [hopen]⟩
  | tail hbefore hnext ih =>
    exact ih.step hbefore (gathers_next (Reaches.sound hbefore hsound) hnext)

end Moment

end Scan

end DocFlatten
