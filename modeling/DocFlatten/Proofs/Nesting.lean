import DocFlatten.Proofs.Accounting
import DocFlatten.Proofs.Peeking
import DocFlatten.Proofs.Skipping

/-! # What nested conditionals mean

A reader keeps a flat stack of open conditionals and one flag that says whether it skips. Of a source
whose blocks are well nested this amounts to a recursion over its structure:

* `Passage`: lines that are taken apart into texts, single-line conditionals and blocks, and what they
  evaluate to (`Passage.evaluate`); whatever is well nested is a passage (`exists_passage`);
* `ReadsTo`, `Reaches`: reading line by line to the end, and reading on to a point of the source, where
  the reader faces the lines after it (`Facing`);
* `Passage.skipped`, `Passage.read`: a reader that skips comes through a passage with nothing but blank
  lines, and one that reads comes through it with what the passage evaluates to.

`nested_blocks_evaluate` has all of it.
-/

namespace DocFlatten

open DocFlatten.Text DocFlatten.Replacement

/-! ## Passages -/

namespace Conditional

/-- Whether a conditional that is no `endif` opens a block. -/
def isBlock (c : Conditional) : Bool :=
  c.keyword == .ifeval || c.text.getD "" == ""

/-- Whether a conditional opens a block. -/
def opens (c : Conditional) : Bool :=
  c.keyword != .endif && c.isBlock

/-- Whether a conditional is a single line, with a text that is no include directive. -/
def isSingle (c : Conditional) : Bool :=
  c.keyword != .endif && !c.isBlock &&
    match LineKind.ofLine (stripEnd (c.text.getD "")) with
    | .directive _ => false
    | _ => true

/-- Whether a conditional is an `endif` without a text that closes a block with the given target, in
lower case. -/
def closes (c : Conditional) (target : String) : Bool :=
  c.keyword == .endif && c.text == none && (c.target == "" || lower c.target == target)

theorem of_opens {c : Conditional} (h : c.opens = true) :
    c.keyword ≠ .endif ∧ c.isBlock = true := by
  simpa [opens] using h

theorem of_isSingle {c : Conditional} (h : c.isSingle = true) :
    c.keyword ≠ .endif ∧ c.isBlock = false := by
  simp only [isSingle, Bool.and_eq_true, bne_iff_ne, ne_eq, Bool.not_eq_eq_eq_not,
    Bool.not_true] at h
  exact h.1

/-- Whether a conditional skips what it stands for; attribute names are compared in lower case. -/
def skipsIn (c : Conditional) (attributes : Attributes) : Except Condition.Error Bool :=
  Condition.skips attributes { c with target := lower c.target }

end Conditional

/-- The structure of lines whose blocks are well nested. -/
inductive Passage where
  | done
  | text (line : String) (hline : LineKind.ofLine line = .plain) (rest : Passage)
  | single (line : String) (c : Conditional) (hline : LineKind.ofLine line = .conditional c)
      (hsingle : c.isSingle = true) (rest : Passage)
  | block (opening : String) (c : Conditional) (hopening : LineKind.ofLine opening = .conditional c)
      (hopens : c.opens = true) (body : Passage) (closing : String) (e : Conditional)
      (hclosing : LineKind.ofLine closing = .conditional e)
      (hcloses : e.closes (lower c.target) = true) (rest : Passage)

namespace Passage

/-- The lines that have this structure. -/
def lines : Passage → List String
  | done => []
  | text line _ rest => line :: rest.lines
  | single line _ _ _ rest => line :: rest.lines
  | block opening _ _ _ body closing _ _ _ rest =>
    opening :: body.lines ++ closing :: rest.lines

/-- What the structure means: a text is itself, a single-line conditional is its text and a block is
its body, unless the condition skips them. No condition inside a block that is skipped is
evaluated. -/
def evaluate (attributes : Attributes) : Passage → Except Condition.Error (List String)
  | done => return []
  | text line _ rest => do
    let after ← rest.evaluate attributes
    return line :: after
  | single _ c _ _ rest => do
    let skip ← c.skipsIn attributes
    let after ← rest.evaluate attributes
    return (if skip then [] else [stripEnd (c.text.getD "")]) ++ after
  | block _ c _ _ body _ _ _ _ rest => do
    let skip ← c.skipsIn attributes
    let inner ← (if skip then .ok [] else body.evaluate attributes)
    let after ← rest.evaluate attributes
    return inner ++ after

/-- The lines of a passage that starts with a block begin with the line that opens it. -/
theorem lines_block_append (opening : String) (c : Conditional)
    (hopening : LineKind.ofLine opening = .conditional c) (hopens : c.opens = true)
    (body : Passage) (closing : String) (e : Conditional)
    (hclosing : LineKind.ofLine closing = .conditional e)
    (hcloses : e.closes (lower c.target) = true) (rest : Passage) (tail : List String) :
    (block opening c hopening hopens body closing e hclosing hcloses rest).lines ++ tail =
      opening :: (body.lines ++ closing :: (rest.lines ++ tail)) := by
  simp [lines]

end Passage

/-- Whether lines close the blocks with the given targets, innermost first, and those that they open,
one inside the other. Neither include directives nor directives behind a backslash are among them. -/
def areNested : List String → List String → Bool
  | opened, [] => opened.isEmpty
  | opened, line :: rest =>
    match LineKind.ofLine line with
    | .plain => areNested opened rest
    | .conditional c =>
      if c.opens then areNested (lower c.target :: opened) rest
      else if c.isSingle then areNested opened rest
      else match opened with
        | target :: outer => c.closes target && areNested outer rest
        | [] => false
    | _ => false

/-- Nothing is left outside of every block; inside of one its end is, and nested lines after it. -/
def AreAtEnd : List String → List String → Prop
  | [], rest => rest = []
  | target :: outer, rest => ∃ closing e more, rest = closing :: more ∧
      LineKind.ofLine closing = .conditional e ∧ e.closes target = true ∧
      areNested outer more = true

/-- Nested lines are a passage, and then the end of the innermost block and what follows it. -/
theorem areNested_split {lines opened : List String} (h : areNested opened lines = true) :
    ∃ (p : Passage) (rest : List String), lines = p.lines ++ rest ∧ AreAtEnd opened rest := by
  induction hlength : lines.length using Nat.strong_induction_on generalizing lines opened with
  | _ n ih =>
    subst hlength
    cases lines with
    | nil =>
      refine ⟨.done, [], rfl, ?_⟩
      have hempty : opened = [] := by simpa [areNested] using h
      rw [hempty]
      rfl
    | cons line rest =>
      unfold areNested at h
      cases hkind : LineKind.ofLine line with
      | escapedConditional | escapedInclude | directive i => simp [hkind] at h
      | plain =>
        simp only [hkind] at h
        obtain ⟨p, tail, hlines, htail⟩ := ih _ (by simp) h rfl
        exact ⟨.text line hkind p, tail, congrArg (line :: ·) hlines, htail⟩
      | conditional c =>
        simp only [hkind] at h
        by_cases hopens : c.opens = true
        · rw [if_pos hopens] at h
          obtain ⟨body, _, hlines, closing, e, more, rfl, hclosing, hcloses, hmore⟩ :=
            ih _ (by simp) h rfl
          -- behind the block the lines are nested as before it
          have hshorter : more.length < (line :: rest).length := by
            rw [hlines]
            simp only [List.length_cons, List.length_append]
            omega
          obtain ⟨p, tail, hafter, htail⟩ := ih _ hshorter hmore rfl
          refine ⟨.block line c hkind hopens body closing e hclosing hcloses p, tail, ?_, htail⟩
          rw [hlines, hafter]
          simp [Passage.lines]
        · rw [if_neg hopens] at h
          by_cases hsingle : c.isSingle = true
          · rw [if_pos hsingle] at h
            obtain ⟨p, tail, hlines, htail⟩ := ih _ (by simp) h rfl
            exact ⟨.single line c hkind hsingle p, tail, congrArg (line :: ·) hlines, htail⟩
          · rw [if_neg hsingle] at h
            cases opened with
            | nil => cases h
            | cons target outer =>
              obtain ⟨hcloses, hrest⟩ := Bool.and_eq_true_iff.mp h
              exact ⟨.done, line :: rest, rfl, line, c, rest, rfl, hkind, hcloses, hrest⟩

/-- Lines that are nested are those of a passage. -/
theorem exists_passage {lines : List String} (h : areNested [] lines = true) :
    ∃ p : Passage, p.lines = lines := by
  obtain ⟨p, rest, hlines, rfl⟩ := areNested_split h
  exact ⟨p, by simp [hlines]⟩

namespace Session

/-! ## Reading to the end -/

/-- Reading line by line gives lines, and is at its end in a session. -/
def ReadsTo (s : Session) (lines : List String) (t : Session) : Prop :=
  ∃ fuel, s.readAll fuel = .ok (lines, t)

/-- If there is nothing to take, all lines are read. -/
theorem ReadsTo.done {s t : Session} (h : s.Takes none t) : s.ReadsTo [] t := by
  obtain ⟨fuel, hread⟩ := h
  refine ⟨fuel + 1, ?_⟩
  unfold readAll
  rw [readLine_eq_ok_of_le (Nat.le_succ fuel) hread]

/-- A line that is taken comes before those that are read then. -/
theorem ReadsTo.more {s t u : Session} {line : String} {lines : List String}
    (h : s.Takes (some line) t) (hrest : t.ReadsTo lines u) : s.ReadsTo (line :: lines) u := by
  obtain ⟨fuel, hread⟩ := h
  obtain ⟨fuel', hreads⟩ := hrest
  refine ⟨max fuel fuel' + 1, ?_⟩
  unfold readAll
  rw [readLine_eq_ok_of_le (by omega) hread]
  simp only
  rw [readAll_eq_ok_of_le (Nat.le_max_right fuel fuel') hreads]
  rfl

/-- A session that takes what another one takes reads to the same end. -/
theorem ReadsTo.of_takes {s t u : Session} {lines : List String}
    (h : ∀ line v, t.Takes line v → s.Takes line v) (hreads : t.ReadsTo lines u) :
    s.ReadsTo lines u := by
  obtain ⟨fuel, hreads⟩ := hreads
  cases fuel with
  | zero => cases hreads
  | succ fuel =>
    unfold readAll at hreads
    -- the first line that reading gives is the one that is taken, and then the others follow
    cases hread : t.readLine (fuel + 1) with
    | error halt =>
      rw [hread] at hreads
      cases hreads
    | ok found =>
      rw [hread] at hreads
      obtain ⟨line, v⟩ := found
      have htakes := h line v ⟨fuel + 1, hread⟩
      cases line with
      | none =>
        cases hreads
        exact .done htakes
      | some line =>
        obtain ⟨⟨rest, w⟩, hrest, hsame⟩ := Except.map_eq_ok_iff.mp hreads
        cases hsame
        exact .more htakes ⟨fuel, hrest⟩

/-- Reading goes on from one session to another, and delivers lines meanwhile. -/
def LeadsTo (s : Session) (delivered : List String) (t : Session) : Prop :=
  ∀ lines u, t.ReadsTo lines u → s.ReadsTo (delivered ++ lines) u

/-- What leads on delivers the lines of both parts. -/
theorem LeadsTo.trans {s t u : Session} {delivered delivered' : List String}
    (h : s.LeadsTo delivered t) (h' : t.LeadsTo delivered' u) :
    s.LeadsTo (delivered ++ delivered') u := by
  intro lines v hreads
  rw [List.append_assoc]
  exact h _ _ (h' _ _ hreads)

/-- A line that is taken is delivered. -/
theorem LeadsTo.of_takes {s t : Session} {line : String} (h : s.Takes (some line) t) :
    s.LeadsTo [line] t :=
  fun _ _ hreads => .more h hreads

/-- A look that finds no line delivers none. -/
theorem LeadsTo.of_again {s t : Session} {line : String} {rest : List String}
    (hidle : s.reader.Idle) (hfront : s.reader.scope.lines = line :: rest)
    (hglance : (s.meet line).glance line = .again t) (hcovered : t.reader.Covered) :
    s.LeadsTo [] t := by
  intro lines u hreads
  have hpeeks : ∀ found w, t.Peeks found w → s.Peeks found w := by
    rintro found w ⟨fuel, hfound⟩
    have hpasses : Passes s t := .again hidle.lookAhead hfront hglance (.here t)
    obtain ⟨fuel', hsame⟩ := hpasses.peekLine fuel
    exact ⟨fuel', hsame.trans hfound⟩
  exact hreads.of_takes fun _ _ htakes =>
    .of_peeks (by simp [hidle.lookAhead]) hcovered hpeeks htakes

/-! ## Facing lines -/

/-- A reader in the outermost scope in front of some lines, none of which was looked at, inside the
given conditionals. -/
def facing (lines : List String) (cursor : Cursor) (opened : List OpenConditional) : Reader :=
  { scope := { lines, cursor }, outer := [], lookAhead := 0, unescape := false
    conditionals := opened, skipping := skippingAfter opened, frame := 0 }

theorem idle_facing (lines : List String) (cursor : Cursor) (opened : List OpenConditional) :
    (facing lines cursor opened).Idle :=
  ⟨rfl, rfl⟩

theorem shifted_facing (line : String) (rest : List String) (cursor : Cursor)
    (opened : List OpenConditional) :
    (facing (line :: rest) cursor opened).shifted = facing rest cursor.next opened :=
  (idle_facing _ _ _).shifted_eq rfl

/-- A session that faces some lines and in which nothing was logged. -/
structure Facing (attributes : Attributes) (lines : List String) (opened : List OpenConditional)
    (s : Session) : Prop where
  reader : ∃ cursor, s.reader = facing lines cursor opened
  attributes : s.doc.attributes = attributes
  records : s.journal.records = []

/-- Reading on delivers some lines and then faces others. -/
def Reaches (attributes : Attributes) (s : Session) (delivered lines : List String)
    (opened : List OpenConditional) : Prop :=
  ∃ t, s.LeadsTo delivered t ∧ Facing attributes lines opened t

variable {attributes : Attributes} {line : String} {lines rest : List String} {c : Conditional}
  {opened opened' : List OpenConditional} {s : Session}

/-- A session that faces the lines reaches them without delivering any. -/
theorem Facing.reaches (h : Facing attributes lines opened s) :
    Reaches attributes s [] lines opened :=
  ⟨s, fun _ _ hreads => hreads, h⟩

/-- What is reached later is reached from the start, with more lines delivered. -/
theorem LeadsTo.reaches {delivered delivered' : List String} {t : Session}
    (h : s.LeadsTo delivered t) (h' : Reaches attributes t delivered' lines opened) :
    Reaches attributes s (delivered ++ delivered') lines opened := by
  obtain ⟨u, hleads, hfacing⟩ := h'
  exact ⟨u, h.trans hleads, hfacing⟩

namespace Facing

theorem idle (h : Facing attributes lines opened s) : s.reader.Idle := by
  obtain ⟨cursor, hreader⟩ := h.reader
  rw [hreader]
  exact idle_facing _ _ _

/-- The lines are those in front. -/
theorem front (h : Facing attributes lines opened s) : s.reader.scope.lines = lines := by
  obtain ⟨cursor, hreader⟩ := h.reader
  rw [hreader]
  rfl

theorem skipping (h : Facing attributes lines opened s) :
    s.reader.skipping = skippingAfter opened := by
  obtain ⟨cursor, hreader⟩ := h.reader
  rw [hreader]
  rfl

theorem conditionals (h : Facing attributes lines opened s) :
    s.reader.conditionals = opened := by
  obtain ⟨cursor, hreader⟩ := h.reader
  rw [hreader]
  rfl

/-- A line that is met is still in front. -/
theorem meet (h : Facing attributes lines opened s) (line : String) :
    Facing attributes lines opened (s.meet line) :=
  ⟨h.reader, h.attributes, (Journal.records_push_looked _ _).trans h.records⟩

/-- The conditionals that are open have changed. -/
theorem withConditionals (h : Facing attributes lines opened s) {f : Reader → Reader}
    (hf : ∀ cursor, f (facing lines cursor opened) = facing lines cursor opened') :
    Facing attributes lines opened' (s.withReader f) := by
  obtain ⟨cursor, hreader⟩ := h.reader
  refine ⟨⟨cursor, ?_⟩, h.attributes, h.records⟩
  rw [reader_withReader, hreader, hf]

/-! ## One line -/

/-- A line that is taken. -/
theorem reaches_taken (h : Facing attributes (line :: rest) opened s) {t : Session} {text : String}
    (htakes : s.Takes (some text) t) (hdoc : t.doc = { s.doc with reader := s.reader.shifted })
    (hrecords : t.journal.records = s.journal.records) :
    Reaches attributes s [text] rest opened := by
  obtain ⟨cursor, hreader⟩ := h.reader
  refine ⟨t, .of_takes htakes, ⟨cursor.next, ?_⟩, ?_, hrecords.trans h.records⟩
  · rw [← shifted_facing, ← hreader]
    unfold Session.reader at hdoc ⊢
    rw [hdoc]
  · rw [hdoc]
    exact h.attributes

/-- A text outside of blocks that are skipped. -/
theorem reaches_text (h : Facing attributes (line :: rest) opened s)
    (hread : skippingAfter opened = false) (hline : LineKind.ofLine line = .plain) :
    Reaches attributes s [line] rest opened := by
  obtain ⟨t, htakes, -, hdoc, hrecords⟩ := takes_of_isInert h.idle (h.skipping.trans hread) h.front
    (by simp [isInert, hline])
  rw [contentOf_of_not_isEscaped (by simp [isEscaped, hline])] at htakes
  exact h.reaches_taken htakes hdoc hrecords

/-- A text inside of a block that is skipped: only a blank line is delivered. -/
theorem reaches_passed (h : Facing attributes (line :: rest) opened s)
    (hskip : skippingAfter opened = true) (hline : LineKind.ofLine line = .plain) :
    ∃ blanks, (∀ blank ∈ blanks, blank = "") ∧ Reaches attributes s blanks rest opened := by
  by_cases hblank : line = ""
  · subst hblank
    have hglance : (s.meet "").glance "" = .line "" ((s.meet "").withReader fun r =>
        { r.hold with unescape := s.reader.unescape }) := rfl
    obtain ⟨t, htakes, -, hdoc, hrecords⟩ := takes_of_glance h.idle h.front hglance
      (by rw [h.idle.plain]; rfl)
    exact ⟨[""], by simp, h.reaches_taken htakes hdoc hrecords⟩
  · have hpassed : isPassedOver line = true := by simp [isPassedOver, hblank, hline]
    have hglance := glance_passed (s := s.meet line) (h.skipping.trans hskip) hpassed
    obtain ⟨cursor, hreader⟩ := h.reader
    have hafter : ((s.meet line).withReader Reader.shifted).reader =
        facing rest cursor.next opened := by
      rw [reader_withReader, reader_meet, hreader, shifted_facing]
    refine ⟨[], by simp, _, .of_again h.idle h.front hglance ?_, ⟨_, hafter⟩, h.attributes,
      (h.meet line).records⟩
    rw [hafter]
    exact .of_idle (idle_facing _ _ _)

/-- A conditional whose line is used up. -/
theorem reaches_decided (h : Facing attributes (line :: rest) opened s)
    (opened' : List OpenConditional) (hline : LineKind.ofLine line = .conditional c)
    (hdecide : ∀ m, Facing attributes (line :: rest) opened m →
      ∃ w, m.decide c = (true, w) ∧ Facing attributes (line :: rest) opened' w) :
    Reaches attributes s [] rest opened' := by
  obtain ⟨w, hdecided, hw⟩ := hdecide _ (h.meet line)
  obtain ⟨cursor, hreader⟩ := hw.reader
  obtain ⟨event, hprocess⟩ : ∃ event, (s.meet line).processConditional c =
      (w.report event).withReader Reader.shifted := by
    unfold processConditional
    rw [hdecided]
    exact ⟨_, rfl⟩
  -- a decided conditional is used up, so the lines behind it are faced
  have hglance : (s.meet line).glance line = .again ((w.report event).withReader Reader.shifted) := by
    rw [← hprocess]
    exact glance_conditional hline
  have hafter : ((w.report event).withReader Reader.shifted).reader =
      facing rest cursor.next opened' := by
    rw [reader_withReader, reader_report, hreader, shifted_facing]
  refine ⟨_, .of_again h.idle h.front hglance ?_, ⟨_, hafter⟩, hw.attributes,
    (Journal.records_push_event _ _).trans hw.records⟩
  rw [hafter]
  exact .of_idle (idle_facing _ _ _)

/-! ## Decisions -/

/-- Inside of a block that is skipped a block is opened that is skipped as well, and a single line is
passed over. -/
theorem decide_skipped {m : Session} (h : Facing attributes lines opened m)
    (hskip : skippingAfter opened = true) (hend : c.keyword ≠ .endif) :
    ∃ w, m.decide c = (true, w) ∧ Facing attributes lines
      (if c.isBlock then ⟨lower c.target, true, true⟩ :: opened else opened) w := by
  have hdecide := decide_of_skipping (c := c) (by simpa using hend) (h.skipping.trans hskip)
  cases hblock : c.isBlock with
  | true =>
    unfold Conditional.isBlock at hblock
    rw [if_pos hblock] at hdecide
    exact ⟨_, hdecide, h.withConditionals fun _ => rfl⟩
  | false =>
    unfold Conditional.isBlock at hblock
    rw [if_neg (by simp [hblock])] at hdecide
    exact ⟨_, hdecide, h⟩

/-- Outside of blocks that are skipped, a block is opened that is skipped if its condition says so. -/
theorem decide_opened {m : Session} (h : Facing attributes lines opened m)
    (hread : skippingAfter opened = false) (hopens : c.opens = true) {skip : Bool}
    (hskips : c.skipsIn attributes = .ok skip) :
    ∃ w, m.decide c = (true, w) ∧
      Facing attributes lines (⟨lower c.target, skip, skip⟩ :: opened) w := by
  obtain ⟨hend, hblock⟩ := Conditional.of_opens hopens
  refine ⟨m.openConditional (lower c.target) skip skip, ?_, h.withConditionals fun _ => rfl⟩
  unfold Conditional.isBlock at hblock
  unfold Conditional.skipsIn at hskips
  rw [decide_of_reading (by simp [hend]) (h.skipping.trans hread), h.attributes, hskips]
  simp only [hblock, if_true]

/-- A single line outside of blocks that are skipped leaves its text, unless its condition says that
it skips. -/
theorem decide_single {m : Session} (h : Facing attributes lines opened m)
    (hread : skippingAfter opened = false) (hsingle : c.isSingle = true) {skip : Bool}
    (hskips : c.skipsIn attributes = .ok skip) :
    m.decide c = if skip then (true, m) else (false, m.keepText (c.text.getD "")) := by
  obtain ⟨hend, hblock⟩ := Conditional.of_isSingle hsingle
  unfold Conditional.isBlock at hblock
  unfold Conditional.skipsIn at hskips
  rw [decide_of_reading (by simp [hend]) (h.skipping.trans hread), h.attributes, hskips]
  simp only [hblock, Bool.false_eq_true, if_false]

/-- The end of a block takes back what opening it has set. -/
theorem decide_closed {m : Session} {top : OpenConditional}
    (h : Facing attributes lines (top :: opened) m) (hcloses : c.closes top.target = true) :
    ∃ w, m.decide c = (true, w) ∧ Facing attributes lines opened w := by
  obtain ⟨⟨hend, htext⟩, htarget⟩ : (c.keyword == .endif ∧ c.text = none) ∧
      (c.target = "" ∨ lower c.target = top.target) := by
    simpa [Conditional.closes] using hcloses
  have hmatch : (lower c.target == "" || lower c.target == top.target) = true := by
    rcases htarget with hempty | hsame
    · rw [hempty]
      rfl
    · simp [hsame]
  refine ⟨m.withReader fun r => { r with
    conditionals := opened, skipping := (opened.head?.map (·.skipping)).getD false }, ?_,
    h.withConditionals fun _ => rfl⟩
  rw [decide_of_endif hend, htext]
  unfold closeConditional
  rw [if_neg (by decide), h.conditionals]
  simp only [hmatch, if_true]

/-- What faces lines, except that the one in front is a text that waits, delivers the text. -/
theorem reaches_waiting {w : Session} {text : String} {cursor : Cursor}
    (hreader : w.reader = ((facing (line :: rest) cursor opened).setHead text).hold)
    (hattributes : w.doc.attributes = attributes) (hrecords : w.journal.records = []) :
    w.reader.Covered ∧ Reaches attributes w [text] rest opened := by
  have hfront : w.reader.scope.lines = text :: rest := by rw [hreader]; rfl
  have hheld : 0 < w.reader.lookAhead := by rw [hreader]; exact Nat.one_pos
  -- the reader has the text in front, and taking it leads to the lines behind
  have hcovered : w.reader.Covered := by
    rw [hreader]
    exact ⟨by simp [Reader.hold, Reader.setHead, facing], fun h => by cases h⟩
  have htaken : w.takeFront.1 = some text := by
    rw [takeFront_fst, Reader.head?, hfront, hreader]
    rfl
  have htakes := takes_of_held hheld
  rw [htaken] at htakes
  have hshifted : w.reader.shifted = facing rest cursor.next opened := by
    rw [hreader]
    rfl
  refine ⟨hcovered, w.takeFront.2, .of_takes htakes,
    ⟨cursor.next, by rw [reader_takeFront, hshifted]⟩, ?_, ?_⟩
  · rw [doc_takeFront]
    exact hattributes
  · rw [journal_takeFront hfront, Journal.records_push_taken, hrecords]

/-- A single line that leaves its text: unless the text may be an include directive it is not looked
at again, and if it is looked at it turns out to be content. -/
theorem reaches_kept (h : Facing attributes (line :: rest) opened s)
    (hread : skippingAfter opened = false) (hline : LineKind.ofLine line = .conditional c)
    (hsingle : c.isSingle = true) (hskips : c.skipsIn attributes = .ok false) :
    Reaches attributes s [stripEnd (c.text.getD "")] rest opened := by
  obtain ⟨text, htext⟩ : ∃ text, c.text.getD "" = text := ⟨_, rfl⟩
  have hcontent : ∀ i, LineKind.ofLine (stripEnd text) ≠ .directive i := by
    intro i hi
    simp [Conditional.isSingle, htext, hi] at hsingle
  have hm := h.meet line
  -- the text of a conditional stands in its place
  obtain ⟨event, hprocess⟩ : ∃ event, (s.meet line).processConditional c =
      ((s.meet line).keepText text).report event := by
    unfold processConditional
    rw [hm.decide_single hread hsingle hskips, htext]
    exact ⟨_, rfl⟩
  obtain ⟨w, hw⟩ : ∃ w, w = ((s.meet line).keepText text).report event := ⟨_, rfl⟩
  have hglance : (s.meet line).glance line = .again w := by
    rw [glance_conditional hline, hprocess, hw]
  have hrecords : w.journal.records = [] := by
    rw [hw]
    exact (Journal.records_push_event _ _).trans hm.records
  have hattributes : w.doc.attributes = attributes := by rw [hw]; exact h.attributes
  obtain ⟨cursor, hreader⟩ := h.reader
  have hkept : w.reader = (facing (line :: rest) cursor opened).keeping text := by
    rw [hw, ← hreader]
    rfl
  rw [htext]
  unfold Reader.keeping at hkept
  split at hkept
  · -- the text is looked at again
    rename_i hinclude
    have hfacing : Facing attributes (stripEnd text :: rest) opened w :=
      ⟨⟨cursor, hkept⟩, hattributes, hrecords⟩
    have hplain : LineKind.ofLine (stripEnd text) = .plain := by
      rcases LineKind.of_startsWith_include (startsWith_include_stripEnd hinclude) with
        hplain | ⟨i, hi⟩
      · exact hplain
      · exact absurd hi (hcontent i)
    exact (LeadsTo.of_again h.idle h.front hglance (.of_idle hfacing.idle)).reaches
      (hfacing.reaches_text hread hplain)
  · -- the text waits to be taken
    obtain ⟨hcovered, hreaches⟩ := reaches_waiting hkept hattributes hrecords
    exact (LeadsTo.of_again h.idle h.front hglance hcovered).reaches hreaches

end Facing

end Session

/-! ## Reading a passage -/

namespace Passage

open Session

variable {attributes : Attributes} {tail : List String} {opened : List OpenConditional}
  {s : Session}

/-- A reader that skips comes through a passage with nothing but blank lines, and evaluates no
condition on the way. -/
theorem skipped (p : Passage) (hskip : skippingAfter opened = true)
    (h : Facing attributes (p.lines ++ tail) opened s) :
    ∃ blanks, (∀ blank ∈ blanks, blank = "") ∧ Reaches attributes s blanks tail opened := by
  induction p generalizing tail opened s with
  | done => exact ⟨[], by simp, h.reaches⟩
  -- a line of text in a skipped region delivers an empty line at most
  | text line hline rest ih =>
    obtain ⟨blanks, hblanks, t, hleads, ht⟩ := h.reaches_passed hskip hline
    obtain ⟨others, hothers, hrest⟩ := ih hskip ht
    exact ⟨blanks ++ others, List.forall_mem_append.mpr ⟨hblanks, hothers⟩, hleads.reaches hrest⟩
  | single line c hline hsingle rest ih =>
    -- a conditional in one line is decided without its condition
    obtain ⟨hend, hblock⟩ := Conditional.of_isSingle hsingle
    obtain ⟨t, hleads, ht⟩ := h.reaches_decided opened hline fun m hm => by
      simpa [hblock] using hm.decide_skipped hskip hend
    obtain ⟨blanks, hblanks, hrest⟩ := ih hskip ht
    exact ⟨blanks, hblanks, hleads.reaches hrest⟩
  | block opening c hopening hopens body closing e hclosing hcloses rest ihBody ihRest =>
    -- so is one that opens a block; its lines are skipped until it is closed
    obtain ⟨hend, hblock⟩ := Conditional.of_opens hopens
    rw [lines_block_append] at h
    obtain ⟨t, hleads, ht⟩ := h.reaches_decided
      (⟨lower c.target, true, true⟩ :: opened) hopening fun m hm => by
        simpa [hblock] using hm.decide_skipped hskip hend
    obtain ⟨blanks, hblanks, u, hbody, hu⟩ := ihBody rfl ht
    obtain ⟨v, hclosed, hv⟩ := hu.reaches_decided opened hclosing fun m hm => hm.decide_closed hcloses
    obtain ⟨others, hothers, hrest⟩ := ihRest hskip hv
    exact ⟨blanks ++ others, List.forall_mem_append.mpr ⟨hblanks, hothers⟩,
      hleads.reaches (hbody.reaches (hclosed.reaches hrest))⟩

/-- A reader that does not skip comes through a passage with what it evaluates to, up to blank
lines. -/
theorem read (p : Passage) {out : List String} (hout : p.evaluate attributes = .ok out)
    (hread : skippingAfter opened = false) (h : Facing attributes (p.lines ++ tail) opened s) :
    ∃ delivered, delivered.filter (· != "") = out.filter (· != "") ∧
      Reaches attributes s delivered tail opened := by
  induction p generalizing out tail opened s with
  | done =>
    cases hout
    exact ⟨[], rfl, h.reaches⟩
  | text line hline rest ih =>
    obtain ⟨after, hafter, hout⟩ := Except.bind_eq_ok_iff.mp hout
    cases hout
    obtain ⟨t, hleads, ht⟩ := h.reaches_text hread hline
    obtain ⟨delivered, hsame, hrest⟩ := ih hafter hread ht
    refine ⟨line :: delivered, ?_, hleads.reaches hrest⟩
    rw [List.filter_cons, List.filter_cons, hsame]
  | single line c hline hsingle rest ih =>
    obtain ⟨skip, hskips, hout⟩ := Except.bind_eq_ok_iff.mp hout
    obtain ⟨after, hafter, hout⟩ := Except.bind_eq_ok_iff.mp hout
    cases hout
    cases skip with
    | true =>
      obtain ⟨t, hleads, ht⟩ := h.reaches_decided opened hline fun m hm =>
        ⟨m, by simpa using hm.decide_single hread hsingle hskips, hm⟩
      obtain ⟨delivered, hsame, hrest⟩ := ih hafter hread ht
      exact ⟨delivered, hsame, hleads.reaches hrest⟩
    | false =>
      obtain ⟨t, hleads, ht⟩ := h.reaches_kept hread hline hsingle hskips
      obtain ⟨delivered, hsame, hrest⟩ := ih hafter hread ht
      refine ⟨[stripEnd (c.text.getD "")] ++ delivered, ?_, hleads.reaches hrest⟩
      rw [List.filter_append, hsame, ← List.filter_append]
      rfl
  | block opening c hopening hopens body closing e hclosing hcloses rest ihBody ihRest =>
    obtain ⟨skip, hskips, hout⟩ := Except.bind_eq_ok_iff.mp hout
    obtain ⟨inner, hinner, hout⟩ := Except.bind_eq_ok_iff.mp hout
    obtain ⟨after, hafter, hout⟩ := Except.bind_eq_ok_iff.mp hout
    cases hout
    rw [lines_block_append] at h
    obtain ⟨t, hleads, ht⟩ := h.reaches_decided
      (⟨lower c.target, skip, skip⟩ :: opened) hopening fun m hm =>
        hm.decide_opened hread hopens hskips
    -- the body is read or skipped as its condition says
    obtain ⟨delivered, hsame, u, hbody, hu⟩ : ∃ delivered,
        delivered.filter (· != "") = inner.filter (· != "") ∧
        Reaches attributes t delivered (closing :: (rest.lines ++ tail))
          (⟨lower c.target, skip, skip⟩ :: opened) := by
      cases skip with
      | true =>
        cases hinner
        obtain ⟨blanks, hblanks, hbody⟩ := body.skipped rfl ht
        refine ⟨blanks, ?_, hbody⟩
        simpa using hblanks
      | false => exact ihBody hinner rfl ht
    obtain ⟨v, hclosed, hv⟩ := hu.reaches_decided opened hclosing fun m hm => hm.decide_closed hcloses
    obtain ⟨others, hothers, hrest⟩ := ihRest hafter hread hv
    refine ⟨delivered ++ others, ?_, hleads.reaches (hbody.reaches (hclosed.reaches hrest))⟩
    rw [List.filter_append, List.filter_append, hsame, hothers]

end Passage

/-- Nested conditionals mean what their structure says. A source whose blocks are well nested, without
include directives and directives behind a backslash, is a passage. If all conditions that count can
be decided, reading it line by line ends, and delivers what the passage evaluates to, up to blank
lines; then all blocks are closed, nothing is skipped, and nothing was logged, so no other condition
was decided either. -/
theorem nested_blocks_evaluate {files : FileTree} {source : Source} {o : LoadOptions} {s : Session}
    (hopen : Session.openSource files source o = .ok s)
    (hnested : areNested [] source.prepare = true) :
    (∃ p : Passage, p.lines = source.prepare) ∧
    ∀ (p : Passage) (out : List String), p.lines = source.prepare →
      p.evaluate s.doc.attributes = .ok out →
      ∃ delivered t, s.ReadsTo delivered t ∧
        delivered.filter (· != "") = out.filter (· != "") ∧
        t.reader.conditionalDepth = 0 ∧ t.reader.skipping = false ∧ t.journal.records = [] := by
  refine ⟨exists_passage hnested, fun p out hlines hout => ?_⟩
  -- before anything is read the session faces all lines
  have hfacing : Session.Facing s.doc.attributes (p.lines ++ []) [] s := by
    obtain ⟨mode, -, rfl⟩ := Session.openSource_eq_ok.mp hopen
    rw [hlines, List.append_nil]
    exact ⟨⟨_, rfl⟩, rfl, rfl⟩
  obtain ⟨delivered, hsame, t, hleads, ht⟩ := p.read hout rfl hfacing
  obtain ⟨cursor, hreader⟩ := ht.reader
  -- behind the passage nothing is left, so reading ends there
  have hend : Session.Exhausted t.reader := ⟨ht.idle, ht.front, by rw [hreader]; rfl⟩
  have hdone : t.ReadsTo [] t := .done <|
    (Session.takes_of_peeks (by simp [ht.idle.lookAhead]) (Session.peeks_of_exhausted hend)).1 rfl
  have hreads := hleads [] t hdone
  rw [List.append_nil] at hreads
  exact ⟨delivered, t, hreads, hsame, by rw [hreader]; rfl, by rw [hreader]; rfl, ht.records⟩

/-- A block that is skipped, with another one inside whose condition is malformed, and a line that
is kept. -/
def malformedBlock : Passage :=
  .text "one" (by decide)
    (.block "ifdef::X[]" ⟨.ifdef, "X", none, none⟩ (by decide) (by decide)
      (.block "ifeval::[broken]" ⟨.ifeval, "", none, some "broken"⟩ (by decide) (by decide)
        (.text "" (by decide) .done) "endif::[]" ⟨.endif, "", none, none⟩ (by decide)
        (by decide) .done)
      "endif::x[]" ⟨.endif, "x", none, none⟩ (by decide) (by decide +kernel)
      (.single "ifndef::x[kept ]" ⟨.ifndef, "x", none, some "kept "⟩ (by decide)
        (by decide +kernel) .done))

/-- The malformed condition is passed over. -/
theorem nested_blocks_evaluate_malformed :
    malformedBlock.lines = ["one", "ifdef::X[]", "ifeval::[broken]", "", "endif::[]", "endif::x[]",
        "ifndef::x[kept ]"] ∧
      ∃ s, Session.openSource (.ofTexts []) (.lines malformedBlock.lines) {} = .ok s ∧
        areNested [] (Source.lines malformedBlock.lines).prepare = true ∧
        malformedBlock.evaluate s.doc.attributes = .ok ["one", "kept"] ∧
        ∃ delivered t, s.ReadsTo delivered t ∧
          delivered.filter (· != "") = ["one", "kept"].filter (· != "") ∧
          t.reader.conditionalDepth = 0 ∧ t.reader.skipping = false ∧ t.journal.records = [] := by
  have hopened : ∃ s ∈ (Session.openSource (.ofTexts []) (.lines malformedBlock.lines) {}).toOption,
      ["one", "kept"] ∈ (malformedBlock.evaluate s.doc.attributes).toOption := by
    decide +kernel
  have hnested : areNested [] (Source.lines malformedBlock.lines).prepare = true := by decide +kernel
  have hprepared : (Source.lines malformedBlock.lines).prepare = malformedBlock.lines := by
    decide +kernel
  obtain ⟨s, hs, hout⟩ := hopened
  have hopen := eq_ok_of_mem_toOption hs
  have hevaluates := eq_ok_of_mem_toOption hout
  exact ⟨by decide, s, hopen, hnested, hevaluates,
    (nested_blocks_evaluate hopen hnested).2 malformedBlock _ hprepared.symm hevaluates⟩

end DocFlatten
