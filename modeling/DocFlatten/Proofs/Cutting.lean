import DocFlatten.Proofs.Concluding
import DocFlatten.Proofs.Gathering
import DocFlatten.Proofs.Peeking

/-! # Scans lose and repeat no lines

A scan takes lines in four loops, each with its own rule for when to stop, and what it takes ends up in
the header, in a block, or in neither. It is a cut through the lines that were taken:

* `IsHeader`, `IsBetween`, `IsRun`: the lines of a header, a line that belongs to no block, and the
  lines of a block, which starts where its first line was;
* `Cut`: lines that are runs of blocks, in the order of the blocks, and single lines between them;
* `CutsAt`: what has been taken at some moment of a scan is cut up as far as the scan has got; every
  step keeps that (`cutsAt_next`), and at the end all is cut up;
* `NotesTaken`: the journal has the lines that reading has returned, and no others.

`scan_cuts_taken` has all of it.
-/

namespace DocFlatten

namespace Scan

open Session

/-! ## Cuts -/

/-- A line that is skipped on the way to the title. -/
def IsLeading (line : String) : Prop :=
  line = "" ∨ LineShape.isComment line = true

/-- The lines of a header: blank lines and comments, and then, if there is a title, the lines from it
up to a blank one. -/
inductive IsHeader : (titled : Bool) → List String → Prop where
  | untitled {leading : List String} (hleading : ∀ line ∈ leading, IsLeading line) :
    IsHeader false leading
  | titled {leading below : List String} {line title : String}
      (hleading : ∀ line ∈ leading, IsLeading line)
      (htitle : LineShape.documentTitle? line = some title) (hbelow : ∀ line ∈ below, line ≠ "") :
    IsHeader true (leading ++ line :: below)

/-- A line at which a header is over: a blank one below the title, and without a title one that is
neither skipped nor a title. -/
def EndsHeader (titled : Bool) (line : String) : Prop :=
  if titled then line = "" else ¬ IsLeading line ∧ LineShape.documentTitle? line = none

/-- A line that belongs to no block: it is blank, a comment or an attribute entry, or it tells the
attributes or the title of the block after it. -/
inductive IsBetween (line : String) : Prop where
  | blank (h : line = "")
  | comment (h : LineShape.isComment line = true)
  | entry {entry : Attribute.Entry} (h : Attribute.Entry.parse? line = some entry)
  | attributes (h : LineShape.isBlockAttributes line = true)
  | title (h : LineShape.isBlockTitle line = true)

/-- Lines that were taken one after the other, as the lines of a block. The first one starts a block,
and where it was, just before it was taken, is where the block is located. -/
structure IsRun (sourcemap : Bool) (run : List Taken) (lines : List String)
    (location : Option Cursor) : Prop where
  starts : ∃ first ∈ run.head?, ¬ IsBetween first.shown ∧
    location = if sourcemap then some first.cursor else none
  lines : lines = run.map (·.shown)

/-- Lines that are cut into the runs of some blocks and single lines between them. -/
inductive Cut (sourcemap : Bool) : List Taken → List Block → Prop where
  | nil : Cut sourcemap [] []
  | between {t : Taken} {rest : List Taken} {blocks : List Block} (ht : IsBetween t.shown)
      (hrest : Cut sourcemap rest blocks) : Cut sourcemap (t :: rest) blocks
  | block {run rest : List Taken} {b : Block} {blocks : List Block}
      (hrun : IsRun sourcemap run b.lines b.location) (hrest : Cut sourcemap rest blocks) :
    Cut sourcemap (run ++ rest) (b :: blocks)

/-- All lines that were taken are cut into those of the header and those of the body. -/
def IsCut (sourcemap : Bool) (taken : List Taken) (blocks : List Block) : Prop :=
  ∃ titled header body, taken = header ++ body ∧ IsHeader titled (header.map (·.shown)) ∧
    (∀ t ∈ body.head?, EndsHeader titled t.shown) ∧ Cut sourcemap body blocks

variable {sourcemap : Bool}

/-- Lines that follow on each other give their blocks one after the other. -/
theorem Cut.append {taken taken' : List Taken} {blocks blocks' : List Block}
    (h : Cut sourcemap taken blocks) (h' : Cut sourcemap taken' blocks') :
    Cut sourcemap (taken ++ taken') (blocks ++ blocks') := by
  induction h with
  | nil => exact h'
  | between ht hrest ih => exact .between ht ih
  | block hrun hrest ih =>
    rw [List.append_assoc, List.cons_append]
    exact .block hrun ih

/-- A line more makes the run longer; it starts where it did. -/
theorem IsRun.append {run : List Taken} {lines : List String} {location : Option Cursor}
    (h : IsRun sourcemap run lines location) (t : Taken) :
    IsRun sourcemap (run ++ [t]) (lines ++ [t.shown]) location := by
  obtain ⟨first, hfirst, hstarts⟩ := h.starts
  constructor
  · refine ⟨first, ?_, hstarts⟩
    rw [List.head?_append, Option.mem_def.mp hfirst]
    rfl
  · rw [h.lines, List.map_append]
    rfl

theorem IsRun.ne_nil {run : List Taken} {lines : List String} {location : Option Cursor}
    (h : IsRun sourcemap run lines location) : run ≠ [] := by
  rintro rfl
  obtain ⟨first, hfirst, -⟩ := h.starts
  cases hfirst

theorem isLeading_iff {line : String} :
    (line == "" || LineShape.isComment line) = true ↔ IsLeading line := by
  unfold IsLeading
  rw [Bool.or_eq_true, beq_iff_eq]

/-- What may stand before a header may stand between blocks too. -/
theorem IsLeading.isBetween {line : String} (h : IsLeading line) : IsBetween line :=
  h.elim .blank .comment

/-- A line that describes the block after it belongs to no block. -/
theorem isBetween_of_isMetadata {line : String} (h : LineShape.isMetadata line = true) :
    IsBetween line := by
  unfold LineShape.isMetadata at h
  rcases Bool.or_eq_true_iff.mp h with hattributes | htitle
  · exact .attributes hattributes
  · exact .title htitle

/-- What is none of the lines between blocks starts a block. -/
theorem not_isBetween {line : String} (hleading : ¬ IsLeading line)
    (hentry : Attribute.Entry.parse? line = none) (hmetadata : ¬ LineShape.isMetadata line = true) :
    ¬ IsBetween line := by
  intro h
  cases h with
  | blank h => exact hleading (Or.inl h)
  | comment h => exact hleading (Or.inr h)
  | entry h =>
    rw [hentry] at h
    cases h
  | attributes h => exact hmetadata (by rw [LineShape.isMetadata, h, Bool.true_or])
  | title h => exact hmetadata (by rw [LineShape.isMetadata, h, Bool.or_true])

/-! ## What is taken -/

section

variable {s s' : Session} {line : String}

/-- What was taken stays taken. -/
theorem harmless_taken (before : List Taken) : Harmless fun s => before <+: s.journal.taken := by
  refine harmless_of_turns ?_ (fun s d hs _ => hs) ?_ ?_
  · intro s r es s' hs hturns
    rw [hturns.taken]
    exact hs
  · intro s line hs
    rw [taken_meet]
    exact hs
  · intro s hs
    cases hlines : s.reader.scope.lines with
    | nil => simpa [takeFront, hlines] using hs
    | cons line rest =>
      rw [journal_takeFront hlines, Journal.taken_push_taken]
      exact hs.trans (List.prefix_append _ _)

/-! ## Below the header -/

/-- The lines that were taken are those of a header and those of the body so far. Once the header is
over, a line that ends it comes next, or nothing does. -/
structure Below (s : Session) (titled : Bool) (header body : List Taken) : Prop where
  taken : s.journal.taken = header ++ body
  header : IsHeader titled (header.map (·.shown))
  next : ∀ t ∈ body.head?, EndsHeader titled t.shown
  ahead : body = [] → Exhausted s.reader ∨ ∃ line, Held s line ∧ EndsHeader titled line

variable {titled : Bool} {header body : List Taken} {lines : List String} {location : Option Cursor}

/-- Only the reader and the lines taken matter. -/
theorem Below.of_reader (h : Below s titled header body) (hreader : s'.reader = s.reader)
    (htaken : s'.journal.taken = s.journal.taken) : Below s' titled header body := by
  refine ⟨htaken.trans h.taken, h.header, h.next, ?_⟩
  intro hnil
  rcases h.ahead hnil with hend | ⟨line, hheld, hends⟩
  · left
    rw [hreader]
    exact hend
  · right
    refine ⟨line, ⟨?_, ?_⟩, hends⟩
    · rw [hreader]
      exact hheld.lookAhead
    · rw [hreader]
      exact hheld.head

/-- What comes next does not matter any more once something was taken. -/
theorem Below.of_ne_nil (h : Below s titled header body) (hbody : body ≠ [])
    (htaken : s'.journal.taken = s.journal.taken) : Below s' titled header body :=
  ⟨htaken.trans h.taken, h.header, h.next, fun hnil => absurd hnil hbody⟩

/-- A line that is taken comes at the end of the body. -/
theorem Below.take (h : Below s titled header body) (hheld : Held s line)
    (htaken : s'.journal.taken = s.taken.journal.taken) : ∃ t : Taken, t.shown = line ∧
      t.cursor = s.reader.cursor ∧ Below s' titled header (body ++ [t]) := by
  obtain ⟨t, hshown, hcursor, hnoted⟩ := hheld.noted
  refine ⟨t, hshown, hcursor, ?_, h.header, ?_, ?_⟩
  · rw [htaken, hnoted, h.taken, List.append_assoc]
  · intro first hfirst
    cases hbody : body with
    | cons first' rest =>
      rw [hbody] at hfirst
      exact h.next first (by rw [hbody]; exact hfirst)
    | nil =>
      -- the first line of the body is the one that ended the header
      rw [hbody] at hfirst
      obtain rfl : t = first := Option.some.inj hfirst
      rcases h.ahead hbody with hend | ⟨line', hheld', hends⟩
      · have hidle := hend.idle.lookAhead
        have hlook := hheld.lookAhead
        omega
      · obtain rfl : line = line' := Option.some.inj (hheld.head.symm.trans hheld'.head)
        rw [hshown]
        exact hends
  · intro hnil
    simp at hnil

/-- Between two blocks, what has been taken below the header is cut. -/
def BetweenBlocks (sourcemap : Bool) (s : Session) : Prop :=
  ∃ titled header body, Below s titled header body ∧ Cut sourcemap body s.doc.blocks

/-- Inside of a block, what has been taken before it is cut, and what comes after that is the run of
the block so far. -/
def InsideBlock (sourcemap : Bool) (lines : List String) (location : Option Cursor) (s : Session) :
    Prop :=
  ∃ titled header body run, Below s titled header (body ++ run) ∧ IsRun sourcemap run lines location ∧
    Cut sourcemap body s.doc.blocks

/-- A line between blocks is taken and belongs to none. -/
theorem BetweenBlocks.take (h : BetweenBlocks sourcemap s) (hheld : Held s line)
    (hline : IsBetween line) (htaken : s'.journal.taken = s.taken.journal.taken)
    (hblocks : s'.doc.blocks = s.doc.blocks) : BetweenBlocks sourcemap s' := by
  obtain ⟨titled, header, body, hbelow, hcut⟩ := h
  obtain ⟨t, rfl, -, hbelow'⟩ := hbelow.take hheld htaken
  refine ⟨titled, header, body ++ [t], hbelow', ?_⟩
  rw [hblocks, ← List.append_nil s.doc.blocks]
  exact hcut.append (.between hline .nil)

/-- A block is begun with the line in front. -/
theorem BetweenBlocks.begin (h : BetweenBlocks sourcemap s) (hheld : Held s line)
    (hline : ¬ IsBetween line) (hsourcemap : s.doc.options.sourcemap = sourcemap)
    (htaken : s'.journal.taken = s.taken.journal.taken) (hblocks : s'.doc.blocks = s.doc.blocks) :
    InsideBlock sourcemap [line] (locationOf s) s' := by
  obtain ⟨titled, header, body, hbelow, hcut⟩ := h
  obtain ⟨t, rfl, hcursor, hbelow'⟩ := hbelow.take hheld htaken
  refine ⟨titled, header, body, [t], hbelow', ⟨⟨t, rfl, hline, ?_⟩, rfl⟩, ?_⟩
  · unfold locationOf
    rw [hsourcemap, hcursor]
  · rw [hblocks]
    exact hcut

/-- A line of a block is taken and is its last one now. -/
theorem InsideBlock.take (h : InsideBlock sourcemap lines location s) (hheld : Held s line)
    (htaken : s'.journal.taken = s.taken.journal.taken) (hblocks : s'.doc.blocks = s.doc.blocks) :
    InsideBlock sourcemap (lines ++ [line]) location s' := by
  obtain ⟨titled, header, body, run, hbelow, hrun, hcut⟩ := h
  obtain ⟨t, rfl, -, hbelow'⟩ := hbelow.take hheld htaken
  refine ⟨titled, header, body, run ++ [t], ?_, hrun.append t, ?_⟩
  · rw [← List.append_assoc]
    exact hbelow'
  · rw [hblocks]
    exact hcut

/-- Whatever else happens to the document, the block goes on. -/
theorem InsideBlock.keep (h : InsideBlock sourcemap lines location s)
    (htaken : s'.journal.taken = s.journal.taken) (hblocks : s'.doc.blocks = s.doc.blocks) :
    InsideBlock sourcemap lines location s' := by
  obtain ⟨titled, header, body, run, hbelow, hrun, hcut⟩ := h
  have hne : body ++ run ≠ [] := List.append_ne_nil_of_right_ne_nil _ hrun.ne_nil
  refine ⟨titled, header, body, run, hbelow.of_ne_nil hne htaken, hrun, ?_⟩
  rw [hblocks]
  exact hcut

/-- A block is closed with the lines that were taken for it. -/
theorem InsideBlock.close {b : Block} (h : InsideBlock sourcemap lines location s)
    (htaken : s'.journal.taken = s.journal.taken) (hblocks : s'.doc.blocks = s.doc.blocks ++ [b])
    (hlines : b.lines = lines) (hlocation : b.location = location) : BetweenBlocks sourcemap s' := by
  obtain ⟨titled, header, body, run, hbelow, hrun, hcut⟩ := h
  have hne : body ++ run ≠ [] := List.append_ne_nil_of_right_ne_nil _ hrun.ne_nil
  refine ⟨titled, header, body ++ run, hbelow.of_ne_nil hne htaken, ?_⟩
  have hlast : Cut sourcemap (run ++ []) [b] := by
    refine .block ?_ .nil
    rw [hlines, hlocation]
    exact hrun
  rw [List.append_nil] at hlast
  rw [hblocks]
  exact hcut.append hlast

end

/-! ## Steps -/

/-- What has been taken so far, by what the scan is in the middle of. -/
def CutsAt (sourcemap : Bool) (m : Moment) : Prop :=
  match m.mode with
  | .opening => (∀ t ∈ m.session.journal.taken, IsLeading t.shown) ∧ m.session.doc.blocks = []
  | .heading => IsHeader true (m.session.journal.taken.map (·.shown)) ∧ m.session.doc.blocks = []
  | .body | .done => BetweenBlocks sourcemap m.session
  | .paragraph lines location | .delimited _ _ _ lines location =>
    InsideBlock sourcemap lines location m.session

namespace Moment

variable {s : Session} {line : String} {m m' : Moment}

/-- When the header is over, nothing of the body was taken. -/
theorem between_of_header {titled : Bool} (hheader : IsHeader titled (s.journal.taken.map (·.shown)))
    (hblocks : s.doc.blocks = [])
    (hahead : Exhausted s.reader ∨ ∃ line, Held s line ∧ EndsHeader titled line) :
    BetweenBlocks sourcemap s := by
  refine ⟨titled, s.journal.taken, [], ⟨(List.append_nil _).symm, hheader, ?_, fun _ => hahead⟩, ?_⟩
  · intro t ht
    cases ht
  · rw [hblocks]
    exact .nil

/-- Lines that may stand before a header make one without a title. -/
theorem isHeader_of_leading (h : ∀ t ∈ s.journal.taken, IsLeading t.shown) :
    IsHeader false (s.journal.taken.map (·.shown)) := by
  refine .untitled ?_
  intro line hline
  obtain ⟨t, ht, rfl⟩ := List.mem_map.mp hline
  exact h t ht

/-- The opening goes on, a title starts a header, and anything else is looked at as the body. -/
theorem cutsAt_inOpening (h : CutsAt sourcemap ⟨.opening, s⟩) (hheld : Held s line) :
    CutsAt sourcemap (inOpening s line) := by
  obtain ⟨hleading, hblocks⟩ := h
  obtain ⟨t, hshown, -, hnoted⟩ := hheld.noted
  unfold inOpening
  split
  · rename_i hskip
    refine ⟨?_, (blocks_taken s).trans hblocks⟩
    intro t' ht'
    rw [hnoted] at ht'
    rcases List.mem_append.mp ht' with hbefore | hlast
    · exact hleading t' hbefore
    · rw [List.mem_singleton.mp hlast, hshown]
      exact isLeading_iff.mp hskip
  · rename_i hcontent
    have hnot : ¬ IsLeading line := fun hlead => hcontent (isLeading_iff.mpr hlead)
    split
    · rename_i htitle
      exact between_of_header (isHeader_of_leading hleading) hblocks
        (Or.inr ⟨line, hheld, hnot, htitle⟩)
    · rename_i title htitle
      -- the title comes behind all lines that were skipped
      refine ⟨?_, (blocks_taken s).trans hblocks⟩
      show IsHeader true (s.taken.journal.taken.map (·.shown))
      rw [hnoted, List.map_append, List.map_singleton, hshown]
      cases isHeader_of_leading hleading with
      | untitled hbefore => exact .titled hbefore htitle nofun

/-- A header goes on with entries and comments, and ends at an empty line or at the body. -/
theorem cutsAt_inHeading (h : CutsAt sourcemap ⟨.heading, s⟩) (hheld : Held s line) :
    CutsAt sourcemap (inHeading s line) := by
  obtain ⟨hheader, hblocks⟩ := h
  obtain ⟨t, hshown, -, hnoted⟩ := hheld.noted
  unfold inHeading
  split
  · rename_i hblank
    exact between_of_header hheader hblocks (Or.inr ⟨line, hheld, beq_iff_eq.mp hblank⟩)
  · rename_i hline
    -- any other line is taken, and belongs to the header
    have hgrown : ∀ s', s'.journal.taken = s.taken.journal.taken → s'.doc.blocks = s.doc.blocks →
        CutsAt sourcemap ⟨.heading, s'⟩ := by
      intro s' htaken hsame
      refine ⟨?_, hsame.trans hblocks⟩
      show IsHeader true (s'.journal.taken.map (·.shown))
      rw [htaken, hnoted, List.map_append, List.map_singleton, hshown]
      generalize s.journal.taken.map (·.shown) = before at hheader ⊢
      cases hheader with
      | titled hleading htitle hbelow =>
        rw [List.append_assoc, List.cons_append]
        refine .titled hleading htitle ?_
        intro other hother
        rcases List.mem_append.mp hother with hbefore | hlast
        · exact hbelow other hbefore
        · rw [List.mem_singleton.mp hlast]
          simpa using hline
    split
    · exact hgrown s.taken rfl (blocks_taken s)
    · split
      · exact hgrown s.taken rfl (blocks_taken s)
      · exact hgrown _ (taken_headed _ _) ((blocks_headed _ _).trans (blocks_taken s))

/-- In the body a line stands between blocks or starts one. -/
theorem cutsAt_inBody (h : BetweenBlocks sourcemap s) (hheld : Held s line)
    (hsourcemap : s.doc.options.sourcemap = sourcemap) : CutsAt sourcemap (inBody s line) := by
  unfold inBody
  split
  · rename_i hskip
    exact h.take hheld (isLeading_iff.mp hskip).isBetween rfl (blocks_taken s)
  · rename_i hcontent
    split
    · rename_i entry hentry
      exact h.take hheld (.entry hentry) (taken_applied _ _)
        ((blocks_applied _ _).trans (blocks_taken s))
    · rename_i hentry
      split
      · rename_i hmetadata
        exact h.take hheld (isBetween_of_isMetadata hmetadata) rfl (blocks_taken s)
      · -- anything else starts a block, and the line is its first one
        rename_i hmetadata
        have hline : ¬ IsBetween line :=
          not_isBetween (fun hlead => hcontent (isLeading_iff.mpr hlead)) hentry hmetadata
        have hbegun : InsideBlock sourcemap [line] (locationOf s) s.taken :=
          h.begin hheld hline hsourcemap rfl (blocks_taken s)
        split
        · -- a section title is a block for itself
          exact hbegun.close rfl rfl rfl rfl
        · split
          · -- a delimiter starts a block of its kind
            exact hbegun
          · -- and any other line a paragraph
            exact hbegun

/-- A paragraph goes on until something else starts. -/
theorem cutsAt_inParagraph {lines : List String} {location : Option Cursor}
    (h : InsideBlock sourcemap lines location s) (hheld : Held s line) :
    CutsAt sourcemap (inParagraph lines location s line) := by
  unfold inParagraph
  split
  · -- the line that stops the paragraph is left in front
    exact h.close rfl rfl rfl rfl
  · exact h.take hheld rfl (blocks_taken s)

/-- A block goes on until its delimiter. -/
theorem cutsAt_inDelimited {delimiter context : String} {start : Cursor} {lines : List String}
    {location : Option Cursor} (h : InsideBlock sourcemap lines location s) (hheld : Held s line) :
    CutsAt sourcemap (inDelimited delimiter context start lines location s line) := by
  have hgrown : InsideBlock sourcemap (lines ++ [line]) location s.taken :=
    h.take hheld rfl (blocks_taken s)
  unfold inDelimited
  split
  · exact hgrown.close rfl rfl rfl rfl
  · exact hgrown

/-- Whatever a line is, the lines taken before it stay cut. -/
theorem cutsAt_found (h : CutsAt sourcemap m) (hheld : Held m.session line)
    (hsourcemap : m.session.doc.options.sourcemap = sourcemap) : CutsAt sourcemap (m.found line) := by
  rcases m with ⟨mode, s⟩
  cases mode with
  | opening => exact cutsAt_inOpening h hheld
  | heading => exact cutsAt_inHeading h hheld
  | body => exact cutsAt_inBody h hheld hsourcemap
  | paragraph lines location => exact cutsAt_inParagraph h hheld
  | delimited delimiter context start lines location => exact cutsAt_inDelimited h hheld
  | done => exact h

/-- The end of the document closes the header or the block that is open. -/
theorem cutsAt_ended (h : CutsAt sourcemap m) (hend : Exhausted m.session.reader) :
    CutsAt sourcemap m.ended := by
  rcases m with ⟨mode, s⟩
  cases mode with
  | opening => exact between_of_header (isHeader_of_leading h.1) h.2 (Or.inl hend)
  | heading => exact between_of_header h.1 h.2 (Or.inl hend)
  | body =>
    obtain ⟨titled, header, body, hbelow, hcut⟩ := h
    exact ⟨titled, header, body, hbelow.of_reader rfl rfl, hcut⟩
  | paragraph lines location => exact InsideBlock.close h rfl rfl rfl rfl
  | delimited delimiter context start lines location =>
    exact InsideBlock.close h (taken_log s _) rfl rfl rfl
  | done => exact h

/-- Going on to look for a line changes nothing. -/
theorem cutsAt_stay {s' : Session} (h : CutsAt sourcemap m) (hlook : m.session.reader.lookAhead = 0)
    (hleft : ¬ Exhausted m.session.reader) (htaken : s'.journal.taken = m.session.journal.taken)
    (hblocks : s'.doc.blocks = m.session.doc.blocks) : CutsAt sourcemap ⟨m.mode, s'⟩ := by
  have hbetween : BetweenBlocks sourcemap m.session → BetweenBlocks sourcemap s' := by
    rintro ⟨titled, header, body, hbelow, hcut⟩
    have hbody : body ≠ [] := by
      intro hnil
      -- a scan that has just left the header has found a line, or the end: it does not look
      rcases hbelow.ahead hnil with hend | ⟨line, hheld, -⟩
      · exact hleft hend
      · have := hheld.lookAhead
        omega
    refine ⟨titled, header, body, hbelow.of_ne_nil hbody htaken, ?_⟩
    rw [hblocks]
    exact hcut
  rcases m with ⟨mode, s⟩
  cases mode with
  | opening =>
    refine ⟨?_, hblocks.trans h.2⟩
    show ∀ t ∈ s'.journal.taken, IsLeading t.shown
    rw [htaken]
    exact h.1
  | heading =>
    refine ⟨?_, hblocks.trans h.2⟩
    show IsHeader true (s'.journal.taken.map (·.shown))
    rw [htaken]
    exact h.1
  | body => exact hbetween h
  | paragraph lines location => exact InsideBlock.keep h htaken hblocks
  | delimited delimiter context start lines location => exact InsideBlock.keep h htaken hblocks
  | done => exact hbetween h

/-- A step keeps the lines taken cut into header and blocks. -/
theorem cutsAt_next (hsound : Sound m.session)
    (hsourcemap : m.session.doc.options.sourcemap = sourcemap) (h : CutsAt sourcemap m)
    (hnext : m.next = some m') : CutsAt sourcemap m' := by
  obtain ⟨-, hstep⟩ := next_cases hnext
  cases hstep with
  | found hlook =>
    obtain ⟨line, hheld⟩ := exists_held hsound hlook
    rw [hheld.head]
    exact cutsAt_found h hheld hsourcemap
  | ended hlook hlines houter =>
    exact cutsAt_ended h ⟨hsound.1.idle (by omega), hlines, houter⟩
  | leave hlook hlines houter =>
    obtain ⟨scope, outer, hscopes⟩ := List.exists_cons_of_ne_nil houter
    have hturns := turns_leave hscopes
    -- leaving a scope takes no line
    refine cutsAt_stay h hlook (fun hend => houter hend.outer) hturns.taken ?_
    rw [hturns.doc]
  | look hlook hfront hglance =>
    obtain ⟨r, es, hturns⟩ := turns_look hlook hfront hglance
    -- a look takes no line either, and as there is one nothing has ended
    refine cutsAt_stay h hlook ?_ (hturns.taken.trans (taken_meet _ _)) ?_
    · intro hend
      rw [hend.lines] at hfront
      cases hfront
    · rw [hturns.doc]
      rfl

/-! ## Runs -/

/-- In every moment of a scan that began with nothing taken, what has been taken is cut up as far as
the scan has got. -/
theorem Reaches.cutsAt {start : Session} (h : Reaches ⟨.opening, start⟩ m) (hsound : Sound start)
    (htaken : start.journal.taken = []) (hblocks : start.doc.blocks = []) :
    CutsAt start.doc.options.sourcemap m := by
  induction h with
  | refl =>
    refine ⟨?_, hblocks⟩
    intro t ht
    rw [htaken] at ht
    cases ht
  | @tail m m' hbefore hnext ih =>
    -- the options stay what they were, so all blocks are located or none is
    have hoptions : m.session.doc.options = start.doc.options :=
      ((harmless_reads start.doc.sourceLines start.doc.options).runs ⟨hsound.1, rfl, rfl⟩
        (Reaches.runs hbefore)).2.2
    exact cutsAt_next (Reaches.sound hbefore hsound) (congrArg (·.sourcemap) hoptions) ih hnext

/-- Whatever is in front between two blocks, the reaction to it takes it. -/
theorem taken_inBody (s : Session) (line : String) :
    (inBody s line).session.journal.taken = s.taken.journal.taken := by
  unfold inBody
  split
  · rfl
  · split
    · exact taken_applied _ _
    · split
      · rfl
      · split
        · rfl
        · split
          · rfl
          · rfl

end Moment

/-- Every element takes its first line, and then maybe more. -/
theorem element_takes {fuel : Nat} {s s' : Session} {u : Unit} {line : String} (hsound : Sound s)
    (hheld : Held s line) (h : element fuel line s = .ok (u, s')) :
    ∃ (first : Taken) (more : List Taken), first.shown = line ∧
      s'.journal.taken = s.journal.taken ++ first :: more := by
  obtain ⟨first, hshown, -, hnoted⟩ := hheld.noted
  -- the reaction takes the line, and whatever the element does after that takes none back
  have hreach := Moment.reaches_inBody hsound hheld h
  have hsteady : (Moment.inBody s line).session.reader.Steady :=
    (harmless_processors.runs hsound
      ((Moment.reaction_found ⟨.body, s⟩ line).runs hheld.lookAhead)).1
  have htaken := (Moment.taken_inBody s line).trans hnoted
  have hprefix : s.journal.taken ++ [first] <+: (Moment.inBody s line).session.journal.taken := by
    rw [htaken]
  obtain ⟨more, hmore⟩ := ((harmless_taken (s.journal.taken ++ [first])).runs ⟨hsteady, hprefix⟩
    (Moment.Reaches.runs hreach)).2
  refine ⟨first, more, hshown, ?_⟩
  rw [← hmore, List.append_assoc, List.singleton_append]

end Scan

namespace Session

open Scan

/-! ## Reading and scanning -/

/-- The journal has the lines that reading returns: looking for a line takes none, and taking one adds
it, with the position that the reader has once the line is found. -/
structure NotesTaken (t : Session) : Prop where
  look : ∀ found u, t.Peeks found u → u.journal.taken = t.journal.taken
  nothing : ∀ u, t.Takes none u → u.journal.taken = t.journal.taken
  line : ∀ line u, t.Takes (some line) u → ∃ (v : Session) (taken : Taken), t.Peeks (some line) v ∧
    taken.shown = line ∧ taken.cursor = v.reader.cursor ∧
    u.journal.taken = t.journal.taken ++ [taken]

/-- Taking is looking and then, if a line was found, taking it off. -/
theorem Takes.found {t u : Session} {found : Option String} (hsound : Sound t)
    (h : t.Takes found u) : ∃ v, t.Peeks found v ∧
      (found = none ∧ u = v ∨ ∃ line, found = some line ∧ Held v line ∧ u = v.taken) := by
  by_cases hlook : 0 < t.reader.lookAhead
  · -- a line waits already
    obtain ⟨line, hheld⟩ := exists_held hsound hlook
    obtain ⟨rfl, rfl⟩ := (takes_of_held hlook).unique h
    refine ⟨t, ?_, Or.inr ⟨line, ?_, hheld, rfl⟩⟩
    · rw [takeFront_fst]
      exact peeks_of_held hlook
    · rw [takeFront_fst, hheld.head]
  · -- it has to be looked for first
    obtain ⟨found', v, hpeeks, ⟨rfl, rfl, rfl⟩ | ⟨hsome, htaken⟩⟩ := h.peeks hlook
    · exact ⟨u, hpeeks, Or.inl ⟨rfl, rfl⟩⟩
    · obtain ⟨line, rfl⟩ := Option.isSome_iff_exists.mp hsome
      obtain ⟨fuel, hfound⟩ := hpeeks
      have hheld := (Moment.reaches_peek .body rfl hsound hfound).2.2 line rfl
      have hfirst : found = some line := by
        rw [← hheld.head, ← takeFront_fst, htaken]
      have hsecond : u = v.taken := by
        unfold Session.taken
        rw [htaken]
      exact ⟨v, ⟨fuel, hfirst ▸ hfound⟩, Or.inr ⟨line, hfirst, hheld, hsecond⟩⟩

/-- Taking and peeking note the lines they give. -/
theorem notesTaken {t : Session} (hsound : Sound t) : NotesTaken t := by
  have hlook : ∀ found u, t.Peeks found u → u.journal.taken = t.journal.taken := by
    rintro found u ⟨fuel, hfound⟩
    exact (unmoved_peekLine hsound.2 hsound.1 hfound).taken
  refine ⟨hlook, ?_, ?_⟩
  · intro u htakes
    obtain ⟨v, hpeeks, ⟨-, rfl⟩ | ⟨line, hline, -⟩⟩ := htakes.found hsound
    · exact hlook _ _ hpeeks
    · cases hline
  · intro line u htakes
    obtain ⟨v, hpeeks, ⟨hnone, -⟩ | ⟨line', hline, hheld, rfl⟩⟩ := htakes.found hsound
    · cases hnone
    · cases hline
      obtain ⟨taken, hshown, hcursor, hnoted⟩ := hheld.noted
      refine ⟨v, taken, hpeeks, hshown, hcursor, ?_⟩
      rw [hnoted, hlook _ _ hpeeks]

/-- A scan loses no line and repeats none. Let no processors act on includes. Loading ends, since every
element of the body takes the line that it begins with, and then maybe more; only the system can keep it
from its result, by refusing to look up the file of an include. The lines that were taken
are, in their order, those of the header, and then the runs of the blocks in the order of these blocks,
with single lines between them that are blank, comments, attribute entries, or tell the attributes or
the title of a block. No run is empty, and a block that is located is where the reader was just before
the first line of its run was taken. -/
theorem scan_cuts_taken {files : FileTree} {source : Source} {o : LoadOptions} {mode : SafeMode}
    (hmode : SafeMode.ofValue o.safe = .ok mode) (hprocessors : o.processors = []) :
    (∃ enough loaded, (∀ fuel, enough ≤ fuel → load fuel files source o = loaded) ∧
      ((∃ s, loaded = .ok s) ∨ ∃ e journal, loaded = .error (.refused e journal))) ∧
    (∀ start, openSource files source o = .ok start → Sound start ∧ start.journal.taken = []) ∧
    (∀ t, Sound t → NotesTaken t) ∧
    (∀ fuel t line u, Sound t → Held t line → element fuel line t = .ok ((), u) →
      ∃ (first : Taken) (more : List Taken), first.shown = line ∧
        u.journal.taken = t.journal.taken ++ first :: more) ∧
    ∀ fuel s, load fuel files source o = .ok s →
      IsCut o.sourcemap s.journal.taken s.doc.blocks := by
  refine ⟨?_, ?_, fun t => notesTaken, fun fuel t line u => element_takes, ?_⟩
  · obtain ⟨enough, loaded, hload, -, hrefusal⟩ := load_ends files source hmode hprocessors
    refine ⟨enough, loaded, hload, ?_⟩
    -- loading ends, in a document or a refusal
    cases loaded with
    | error e =>
      obtain ⟨cause, journal, rfl⟩ := hrefusal e rfl
      exact Or.inr ⟨cause, journal, rfl⟩
    | ok s => exact Or.inl ⟨s, rfl⟩
  · intro start hopen
    -- before anything is read there is nothing to cut
    refine ⟨sound_openSource hopen hprocessors, ?_⟩
    obtain ⟨mode', -, rfl⟩ := openSource_eq_ok.mp hopen
    rfl
  · intro fuel s hload
    -- a document that was loaded was reached step by step from there
    obtain ⟨start, hopen, -⟩ := load_eq_ok.mp hload
    have hreach := Moment.reaches_load hopen hprocessors hload
    have hsound := sound_openSource hopen hprocessors
    obtain ⟨mode', -, rfl⟩ := openSource_eq_ok.mp hopen
    obtain ⟨titled, header, body, hbelow, hcut⟩ := hreach.cutsAt hsound rfl rfl
    exact ⟨titled, header, body, hbelow.taken, hbelow.header, hbelow.next, hcut⟩

/-- A document with a header and a paragraph that goes on in another file. -/
def goingOnSource : Source :=
  .lines ["// note", "= Title", ":x: 1", "", ".Caption", "one", "include::a.adoc[]"]

/-- A paragraph that goes on in another file and stops before a delimiter, and a block without an
end. -/
theorem scan_cuts_taken_unterminated :
    SafeMode.ofValue .null = .ok .safe ∧
      ∃ s ∈ (load 30 (.ofTexts [("a.adoc", "two\n----\ncode\n")]) goingOnSource
          { sourcemap := true }).toOption,
        s.journal.taken.map (·.shown) =
          ["// note", "= Title", ":x: 1", "", ".Caption", "one", "two", "----", "code"] ∧
        s.doc.blocks.map (·.lines) = [["one", "two"], ["----", "code"]] ∧
        IsCut true s.journal.taken s.doc.blocks := by
  have hmode : SafeMode.ofValue .null = .ok .safe := by decide
  have hrun : ∃ s ∈ (load 30 (.ofTexts [("a.adoc", "two\n----\ncode\n")]) goingOnSource
        { sourcemap := true }).toOption,
      s.journal.taken.map (·.shown) =
        ["// note", "= Title", ":x: 1", "", ".Caption", "one", "two", "----", "code"] ∧
      s.doc.blocks.map (·.lines) = [["one", "two"], ["----", "code"]] := by
    decide +kernel
  obtain ⟨s, hs, htaken, hblocks⟩ := hrun
  obtain ⟨-, -, -, -, hcut⟩ := @scan_cuts_taken (.ofTexts [("a.adoc", "two\n----\ncode\n")])
    goingOnSource { sourcemap := true } .safe hmode rfl
  exact ⟨hmode, s, hs, htaken, hblocks, hcut 30 s (eq_ok_of_mem_toOption hs)⟩

end Session

end DocFlatten
