import DocFlatten.Proofs.Moments

/-! # Documents line by line

What a scan makes of a document depends on the lines that it takes, not on where they come from and
not on the reader. So it can be told from these lines alone:

* `Stage`: what a scan is in the middle of, as far as lines decide about that;
* `Stage.outline`: the document that lines make of another one, taken one after the other;
* `load_outline`: every load ends with the outline of the lines that it has taken.

An empty line in between is not seen in the outline if it falls where nothing begins or ends
(`Stage.passes`, `outline_sifted`). At the end empty lines only make a last block longer that has no
end (`outline_append_blank`).
-/

namespace DocFlatten

/-- A document after an attribute entry. -/
def Document.applied (entry : Attribute.Entry) (d : Document) : Document :=
  match entry with
  | .unset name => d.setAttribute name none
  | .set name value =>
    let mode := Attribute.Missing.ofAttributes d.attributes
    d.setAttribute name (some ((Attribute.substitute? mode d.attributes value).getD ""))

/-- A document after an attribute entry in the header. -/
def Document.headed (entry : Attribute.Entry) (d : Document) : Document :=
  if d.isLocked entry.name then d.applied entry else (d.applied entry).withHeader entry

/-- A document after a line between two blocks, apart from a block that it begins. -/
def Document.noting (line : String) (d : Document) : Document :=
  if line == "" || LineShape.isComment line then d
  else match Attribute.Entry.parse? line with
    | some entry => d.applied entry
    | none =>
      if LineShape.isMetadata line then d
      else match LineShape.sectionLevel? line with
        | some level => d.withBlock ⟨"section", [line], none, some level⟩
        | none => d

/-- What a scan is in the middle of, whatever the positions are. -/
inductive Stage where
  | opening
  | heading
  | body
  | paragraph (lines : List String)
  | delimited (delimiter context : String) (lines : List String)
  | done

namespace Stage

/-- What a line between two blocks begins. -/
def beginning (line : String) : Stage :=
  if line == "" || LineShape.isComment line then .body
  else match Attribute.Entry.parse? line with
    | some _ => .body
    | none =>
      if LineShape.isMetadata line then .body
      else match LineShape.sectionLevel? line with
        | some _ => .body
        | none =>
          match LineShape.delimited? line with
          | some context => .delimited line context [line]
          | none => .paragraph [line]

/-- The stage after a line was taken. -/
def after (stage : Stage) (line : String) : Stage :=
  match stage with
  | .opening =>
    if line == "" || LineShape.isComment line then .opening
    else match LineShape.documentTitle? line with
      | none => beginning line
      | some _ => .heading
  | .heading => if line == "" then .body else .heading
  | .body => beginning line
  | .paragraph lines =>
    if line == "" || LineShape.endsParagraph line then beginning line
    else .paragraph (lines ++ [line])
  | .delimited delimiter context lines =>
    if line == delimiter then .body else .delimited delimiter context (lines ++ [line])
  | .done => .done

/-- The document after a line was taken. -/
def effect (stage : Stage) (line : String) (d : Document) : Document :=
  match stage with
  | .opening =>
    if line == "" || LineShape.isComment line then d
    else match LineShape.documentTitle? line with
      | none => d.noting line
      | some title => { d with title := some title }
  | .heading =>
    if line == "" || LineShape.isComment line then d
    else match Attribute.Entry.parse? line with
      | none => d
      | some entry => d.headed entry
  | .body => d.noting line
  | .paragraph lines =>
    if line == "" || LineShape.endsParagraph line then
      (d.withBlock ⟨"paragraph", lines, none, none⟩).noting line
    else d
  | .delimited delimiter context lines =>
    if line == delimiter then d.withBlock ⟨context, lines ++ [line], none, none⟩ else d
  | .done => d

/-- The document at the end: a block that is open is closed. -/
def close (stage : Stage) (d : Document) : Document :=
  match stage with
  | .opening | .heading | .body => { d with parsed := true }
  | .paragraph lines =>
    { d.withBlock ⟨"paragraph", lines, none, none⟩ with parsed := true }
  | .delimited _ context lines =>
    { d.withBlock ⟨context, lines, none, none⟩ with parsed := true }
  | .done => d

/-- The document that lines make of another one. -/
def outline : Stage → List String → Document → Document
  | stage, [], d => stage.close d
  | stage, line :: rest, d => (stage.after line).outline rest (stage.effect line d)

end Stage

/-! ## Documents of the same content -/

/-- A block without its position. -/
def Block.bare (b : Block) : Block :=
  { b with location := none }

/-- Blocks are alike exactly if they are the same but for positions. -/
theorem Block.alike_iff {b b' : Block} :
    Block.Alike (fun _ _ => True) b b' ↔ b.bare = b'.bare := by
  rcases b with ⟨context, lines, location, level⟩
  rcases b' with ⟨context', lines', location', level'⟩
  constructor
  · rintro ⟨rfl, rfl, rfl, -⟩
    rfl
  · intro h
    cases h
    exact ⟨rfl, rfl, rfl, trivial⟩

theorem Block.forall₂_alike_iff {blocks blocks' : List Block} :
    List.Forall₂ (Block.Alike fun _ _ => True) blocks blocks' ↔
      blocks.map Block.bare = blocks'.map Block.bare := by
  have hrelation : Block.Alike (fun _ _ => True) = fun b b' => b.bare = b'.bare :=
    funext fun _ => funext fun _ => propext Block.alike_iff
  rw [← List.forall₂_eq_eq_eq, List.forall₂_map_left_iff, List.forall₂_map_right_iff, hrelation]

/-- Where blocks start plays no part in whether they differ at the end. -/
theorem Block.AlikeButEnd.congr {blocks blocks' others others' : List Block}
    (h : Block.AlikeButEnd (fun _ _ => True) blocks others)
    (hblocks : blocks.map Block.bare = blocks'.map Block.bare)
    (hothers : others.map Block.bare = others'.map Block.bare) :
    Block.AlikeButEnd (fun _ _ => True) blocks' others' := by
  rcases h with hsame | ⟨init, b, blanks, rfl, hblank, hsame⟩
  · exact Or.inl (Block.forall₂_alike_iff.mpr
      (hblocks.symm.trans ((Block.forall₂_alike_iff.mp hsame).trans hothers)))
  · rw [List.map_append, eq_comm, List.map_eq_append_iff] at hblocks
    obtain ⟨init', last, rfl, hinit, hlast⟩ := hblocks
    obtain ⟨⟨context, lines, location, level⟩, rfl, hb'⟩ := List.map_eq_singleton_iff.mp hlast
    -- the last block has the same lines more than the other one
    obtain ⟨rfl, rfl, -, rfl⟩ := Block.mk.inj hb'
    refine Or.inr ⟨init', { b with location }, blanks, rfl, hblank, ?_⟩
    rw [Block.forall₂_alike_iff] at hsame ⊢
    rw [← hothers, ← hsame, List.map_append, List.map_append, hinit]
    rfl

namespace Document

variable {d d' : Document}

/-- Documents of the same content, wherever their blocks start. -/
abbrev Resembles : Document → Document → Prop :=
  Document.Alike fun _ _ => True

/-- Documents of the same content differ at their ends as others of theirs do. -/
theorem Matches.butEnd_congr {e e' : Document} (h : d.AlikeButEnd (fun _ _ => True) e)
    (hd : d.Resembles d') (he : e.Resembles e') : d'.AlikeButEnd (fun _ _ => True) e' := by
  refine ⟨?_, ?_, ?_, ?_, ?_, h.blocks.congr (Block.forall₂_alike_iff.mp hd.blocks)
    (Block.forall₂_alike_iff.mp he.blocks)⟩
  · rw [he.attributes, h.attributes, hd.attributes]
  · rw [he.locked, h.locked, hd.locked]
  · rw [he.parsed, h.parsed, hd.parsed]
  · rw [he.title, h.title, hd.title]
  · rw [he.headerAttributes, h.headerAttributes, hd.headerAttributes]

theorem resembles_self (d : Document) : d.Resembles d :=
  ⟨rfl, rfl, rfl, rfl, rfl, Block.forall₂_alike_iff.mpr rfl⟩

/-- An entry that is applied keeps documents alike. -/
theorem resembles_applied (h : d.Resembles d') (entry : Attribute.Entry) :
    (d.applied entry).Resembles (d'.applied entry) := by
  cases entry with
  | unset name => exact Scan.Simulation.alike_setAttribute h name none
  | set name value =>
    unfold Document.applied
    simp only [h.attributes]
    exact Scan.Simulation.alike_setAttribute h name _

/-- So does noting it in the header. -/
theorem resembles_withHeader (h : d.Resembles d') (entry : Attribute.Entry) :
    (d.withHeader entry).Resembles (d'.withHeader entry) := by
  refine ⟨h.attributes, h.locked, h.parsed, h.title, ?_, h.blocks⟩
  simp only [withHeader, h.headerAttributes, h.attributes]

theorem resembles_headed (h : d.Resembles d') (entry : Attribute.Entry) :
    (d.headed entry).Resembles (d'.headed entry) := by
  unfold Document.headed
  rw [isLocked_congr h.locked]
  split
  · exact resembles_applied h entry
  · exact resembles_withHeader (resembles_applied h entry) entry

/-- A block may start anywhere. -/
theorem resembles_withBlock (h : d.Resembles d') (context : String) (lines : List String)
    (location location' : Option Cursor) (level : Option Nat) :
    (d.withBlock ⟨context, lines, location, level⟩).Resembles
      (d'.withBlock ⟨context, lines, location', level⟩) :=
  ⟨h.attributes, h.locked, h.parsed, h.title, h.headerAttributes,
    List.rel_append h.blocks (.cons ⟨rfl, rfl, rfl, trivial⟩ .nil)⟩

/-- And so does a title. -/
theorem resembles_title (h : d.Resembles d') (title : Option String) :
    ({ d with title } : Document).Resembles { d' with title } :=
  ⟨h.attributes, h.locked, h.parsed, rfl, h.headerAttributes, h.blocks⟩

theorem resembles_parsed (h : d.Resembles d') :
    ({ d with parsed := true } : Document).Resembles { d' with parsed := true } :=
  ⟨h.attributes, h.locked, rfl, h.title, h.headerAttributes, h.blocks⟩

end Document

namespace Session

@[simp] theorem doc_applied (s : Session) (entry : Attribute.Entry) :
    (s.applied entry).doc = s.doc.applied entry := by
  cases entry with
  | unset name => rfl
  | set name value =>
    unfold Session.applied Session.edit Document.applied
    simp only [doc_logAll]

@[simp] theorem doc_headed (s : Session) (entry : Attribute.Entry) :
    (s.headed entry).doc = s.doc.headed entry := by
  unfold Session.headed Document.headed
  split
  · exact doc_applied s entry
  · unfold Session.edit
    rw [doc_applied]

end Session

namespace Scan

open Session

/-- The stage of a scan. -/
def Mode.stage : Mode → Stage
  | .opening => .opening
  | .heading => .heading
  | .body => .body
  | .paragraph lines _ => .paragraph lines
  | .delimited delimiter context _ lines _ => .delimited delimiter context lines
  | .done => .done

namespace Moment

/-- A reaction to a line of a document in the outline: the line is left, or it is taken. In either
case the rest goes on as it would have. -/
structure Outlines (s : Session) (stage : Stage) (line : String) (d : Document) (m : Moment)
    (d' : Document) : Prop where
  doc : d'.Resembles m.session.doc
  rest : m.session.reader = s.reader ∧ m.session.journal.taken = s.journal.taken ∧
      (∀ rest, stage.outline (line :: rest) d = m.mode.stage.outline (line :: rest) d') ∨
    m.session.journal.taken = s.taken.journal.taken ∧
      ∀ rest, stage.outline (line :: rest) d = m.mode.stage.outline rest d'

section

variable {s : Session} {line : String} {d : Document}

/-- Taking a line keeps documents alike. -/
theorem resembles_taken (h : d.Resembles s.doc) : d.Resembles s.taken.doc := by
  unfold Session.taken
  rw [doc_takeFront]
  exact ⟨h.attributes, h.locked, h.parsed, h.title, h.headerAttributes, h.blocks⟩

/-- In the opening a line is taken, starts the header, or is left to the body. -/
theorem outlines_inOpening (h : d.Resembles s.doc) :
    ∃ d', Outlines s .opening line d (inOpening s line) d' := by
  unfold inOpening
  split
  · rename_i hskip
    refine ⟨d, resembles_taken h, Or.inr ⟨rfl, fun rest => ?_⟩⟩
    simp only [Stage.outline, Stage.after, Stage.effect, if_pos hskip, Mode.stage]
  · rename_i hcontent
    split
    · rename_i htitle
      refine ⟨d, h, Or.inl ⟨rfl, rfl, fun rest => ?_⟩⟩
      simp only [Stage.outline, Stage.after, Stage.effect, if_neg hcontent, htitle, Mode.stage]
    · rename_i title htitle
      refine ⟨_, Document.resembles_title (resembles_taken h) (some title),
        Or.inr ⟨rfl, fun rest => ?_⟩⟩
      simp only [Stage.outline, Stage.after, Stage.effect, if_neg hcontent, htitle, Mode.stage]

/-- In a header a line is taken, or it ends the header and is left to the body. -/
theorem outlines_inHeading (h : d.Resembles s.doc) :
    ∃ d', Outlines s .heading line d (inHeading s line) d' := by
  unfold inHeading
  split
  · -- the empty line is left in front and ends the header
    rename_i hblank
    refine ⟨d, h, Or.inl ⟨rfl, rfl, fun rest => ?_⟩⟩
    obtain rfl : line = "" := by simpa using hblank
    rfl
  · rename_i hline
    have hafter : Stage.heading.after line = .heading := by
      simp only [Stage.after, if_neg hline]
    split
    · -- a comment changes nothing
      rename_i hcomment
      refine ⟨d, resembles_taken h, Or.inr ⟨rfl, fun rest => ?_⟩⟩
      simp [Stage.outline, hafter, Stage.effect, hcomment, Mode.stage]
    · rename_i hcomment
      have hcontent : ¬ (line == "" || LineShape.isComment line) = true := by
        simp [hline, hcomment]
      split
      · -- neither does a line that is no entry
        rename_i hentry
        refine ⟨d, resembles_taken h, Or.inr ⟨rfl, fun rest => ?_⟩⟩
        simp only [Stage.outline, hafter, Stage.effect, if_neg hcontent, hentry, Mode.stage]
      · -- an entry is applied and noted
        rename_i entry hentry
        refine ⟨d.headed entry, ?_, Or.inr ⟨taken_headed _ entry, fun rest => ?_⟩⟩
        · rw [doc_headed]
          exact Document.resembles_headed (resembles_taken h) entry
        · simp only [Stage.outline, hafter, Stage.effect, if_neg hcontent, hentry, Mode.stage]

/-- In the body a line is taken, and it may start a block. -/
theorem outlines_inBody (h : d.Resembles s.doc) :
    ∃ d', Outlines s .body line d (inBody s line) d' := by
  unfold inBody
  split
  · rename_i hskip
    refine ⟨d, resembles_taken h, Or.inr ⟨rfl, fun rest => ?_⟩⟩
    simp only [Stage.outline, Stage.after, Stage.effect, Stage.beginning, Document.noting,
      if_pos hskip, Mode.stage]
  · rename_i hcontent
    split
    · rename_i entry hentry
      refine ⟨d.applied entry, ?_, Or.inr ⟨taken_applied _ entry, fun rest => ?_⟩⟩
      · rw [doc_applied]
        exact Document.resembles_applied (resembles_taken h) entry
      · simp only [Stage.outline, Stage.after, Stage.effect, Stage.beginning, Document.noting,
          if_neg hcontent, hentry, Mode.stage]
    · rename_i hentry
      split
      · rename_i hmetadata
        refine ⟨d, resembles_taken h, Or.inr ⟨rfl, fun rest => ?_⟩⟩
        simp only [Stage.outline, Stage.after, Stage.effect, Stage.beginning, Document.noting,
          if_neg hcontent, hentry, if_pos hmetadata, Mode.stage]
      · rename_i hmetadata
        split
        · rename_i level hlevel
          refine ⟨d.withBlock ⟨"section", [line], none, some level⟩,
            Document.resembles_withBlock (resembles_taken h) _ _ _ _ _,
            Or.inr ⟨rfl, fun rest => ?_⟩⟩
          simp only [Stage.outline, Stage.after, Stage.effect, Stage.beginning, Document.noting,
            if_neg hcontent, hentry, if_neg hmetadata, hlevel, Mode.stage]
        · rename_i hlevel
          -- the line begins a block, which is noted when it is closed
          have heffect : Stage.body.effect line d = d := by
            simp only [Stage.effect, Document.noting, if_neg hcontent, hentry, if_neg hmetadata,
              hlevel]
          split
          · rename_i context hdelimited
            refine ⟨d, resembles_taken h, Or.inr ⟨rfl, fun rest => ?_⟩⟩
            simp only [Stage.outline, heffect, Stage.after, Stage.beginning, if_neg hcontent, hentry,
              if_neg hmetadata, hlevel, hdelimited, Mode.stage]
          · rename_i hdelimited
            refine ⟨d, resembles_taken h, Or.inr ⟨rfl, fun rest => ?_⟩⟩
            simp only [Stage.outline, heffect, Stage.after, Stage.beginning, if_neg hcontent, hentry,
              if_neg hmetadata, hlevel, hdelimited, Mode.stage]

/-- In a paragraph a line is taken, or it ends the paragraph and is left to the body. -/
theorem outlines_inParagraph (h : d.Resembles s.doc) (lines : List String)
    (location : Option Cursor) :
    ∃ d', Outlines s (.paragraph lines) line d (inParagraph lines location s line) d' := by
  unfold inParagraph
  split
  · rename_i hstop
    refine ⟨d.withBlock ⟨"paragraph", lines, none, none⟩,
      Document.resembles_withBlock h _ _ _ _ _, Or.inl ⟨rfl, rfl, fun rest => ?_⟩⟩
    simp only [Stage.outline, Stage.after, Stage.effect, if_pos hstop, Mode.stage]
  · rename_i hinside
    refine ⟨d, resembles_taken h, Or.inr ⟨rfl, fun rest => ?_⟩⟩
    simp only [Stage.outline, Stage.after, Stage.effect, if_neg hinside, Mode.stage]

/-- In a delimited block every line is taken. -/
theorem outlines_inDelimited (h : d.Resembles s.doc) (delimiter context : String) (start : Cursor)
    (lines : List String) (location : Option Cursor) :
    ∃ d', Outlines s (.delimited delimiter context lines) line d
      (inDelimited delimiter context start lines location s line) d' := by
  unfold inDelimited
  split
  · rename_i hclosing
    refine ⟨d.withBlock ⟨context, lines ++ [line], none, none⟩,
      Document.resembles_withBlock (resembles_taken h) _ _ _ _ _, Or.inr ⟨rfl, fun rest => ?_⟩⟩
    simp only [Stage.outline, Stage.after, Stage.effect, if_pos hclosing, Mode.stage]
  · rename_i hinside
    refine ⟨d, resembles_taken h, Or.inr ⟨rfl, fun rest => ?_⟩⟩
    simp only [Stage.outline, Stage.after, Stage.effect, if_neg hinside, Mode.stage]

/-- Whatever the scan is in the middle of, a line is reacted to as in the outline. -/
theorem outlines_found {m : Moment} (h : d.Resembles m.session.doc) (line : String) :
    ∃ d', Outlines m.session m.mode.stage line d (m.found line) d' := by
  unfold found
  cases hmode : m.mode with
  | opening => exact outlines_inOpening h
  | heading => exact outlines_inHeading h
  | body => exact outlines_inBody h
  | paragraph lines location => exact outlines_inParagraph h lines location
  | delimited delimiter context start lines location =>
    exact outlines_inDelimited h delimiter context start lines location
  | done => exact ⟨d, h, Or.inl ⟨rfl, rfl, fun rest => by rw [hmode]⟩⟩

/-- At the end of the document an open block is closed as in the outline. -/
theorem outline_ended {m : Moment} (h : d.Resembles m.session.doc) :
    ∃ d', d'.Resembles m.ended.session.doc ∧
      m.mode.stage.outline [] d = m.ended.mode.stage.outline [] d' := by
  unfold ended
  cases hmode : m.mode with
  | opening | heading => exact ⟨d, h, rfl⟩
  | body => exact ⟨_, Document.resembles_parsed h, rfl⟩
  | paragraph lines location =>
    exact ⟨_, Document.resembles_withBlock h "paragraph" lines none location none, rfl⟩
  | delimited delimiter context start lines location =>
    exact ⟨_, Document.resembles_withBlock h context lines none location none, rfl⟩
  | done => exact ⟨d, h, by rw [hmode]⟩

end

/-! ## Loads -/

/-- Lines that may be taken from now on: the first one is the one that waits, if one does, and there
is none at the end of the document. -/
structure Awaits (s : Session) (rest : List String) : Prop where
  front : 0 < s.reader.lookAhead → rest.head? = s.reader.head?
  last : Exhausted s.reader → rest = []

/-- A moment of a scan that began with a document `d₀`: what was taken and what may be taken make the
same document in the outline as what may be taken makes of the document so far. -/
def Outlined (d₀ : Document) (m : Moment) : Prop :=
  ∃ d, d.Resembles m.session.doc ∧ ∀ rest, Awaits m.session rest →
    Stage.opening.outline (m.session.journal.taken.map (·.shown) ++ rest) d₀ =
      m.mode.stage.outline rest d

/-- Looking for a line changes nothing. -/
theorem Outlined.unmoved {d₀ : Document} {m : Moment} {s : Session} (h : Outlined d₀ m)
    (hmoves : Unmoved m.session s) (hlook : m.session.reader.lookAhead = 0)
    (hleft : ¬ Exhausted m.session.reader) : Outlined d₀ ⟨m.mode, s⟩ := by
  obtain ⟨d, hd, houtline⟩ := h
  refine ⟨d, ?_, fun rest _ => ?_⟩
  · rw [hmoves.doc]
    exact ⟨hd.attributes, hd.locked, hd.parsed, hd.title, hd.headerAttributes, hd.blocks⟩
  · rw [hmoves.taken]
    exact houtline rest ⟨fun hpos => by omega, fun hend => absurd hend hleft⟩

/-- A step of a scan is one of the outline. -/
theorem Outlined.next {d₀ : Document} {m m' : Moment} (h : Outlined d₀ m) (hsound : Sound m.session)
    (hnext : m.next = some m') : Outlined d₀ m' := by
  obtain ⟨-, hstep⟩ := next_cases hnext
  cases hstep with
  | leave hlook hlines houter =>
    exact h.unmoved (unmoved_leave houter) hlook fun hend => houter hend.outer
  | @look line rest t hlook hfront hglance =>
    -- a look takes no line and changes nothing of the content
    have hmet : Unmoved m.session (m.session.meet line) := .meet _ line
    have hends := unmoved_look (s := m.session.meet line) hsound.2
      (look_glance hlook hfront)
    have hmoves : Unmoved m.session t := by
      rcases hglance with ⟨text, hglance⟩ | hglance
      · rw [hglance] at hends
        exact hmet.trans hends
      · rw [hglance] at hends
        exact hmet.trans hends
    refine h.unmoved hmoves hlook fun hend => ?_
    rw [hend.lines] at hfront
    cases hfront
  | ended hlook hlines houter =>
    -- the end of the lines closes what is open
    obtain ⟨d, hd, houtline⟩ := h
    obtain ⟨d', hd', hended⟩ := outline_ended hd
    have hend : Exhausted m.session.reader := ⟨hsound.1.idle (by omega), hlines, houter⟩
    have hreader : m.ended.session.reader = m.session.reader := (retouched_ended m).reader
    have htaken : m.ended.session.journal.taken = m.session.journal.taken := by
      unfold Moment.ended
      cases m.mode with
      | delimited => exact taken_log _ _
      | _ => rfl
    refine ⟨d', hd', fun rest hrest => ?_⟩
    obtain rfl := hrest.last (hreader ▸ hend)
    rw [htaken, ← hended]
    exact houtline [] ⟨fun hpos => by omega, fun _ => rfl⟩
  | found hheld =>
    -- a line is found: either it still waits, or it is taken and is the next one of the outline
    obtain ⟨d, hd, houtline⟩ := h
    obtain ⟨line, hline⟩ := exists_held hsound hheld
    rw [hline.head, Option.getD_some]
    obtain ⟨d', hd', hrest⟩ := outlines_found hd line
    have hmore : ∀ rest, Awaits m.session (line :: rest) := fun rest =>
      ⟨fun _ => hline.head.symm, fun hend => by have := hend.idle.lookAhead; omega⟩
    refine ⟨d', hd', fun rest hawaits => ?_⟩
    rcases hrest with ⟨hreader, htaken, hgo⟩ | ⟨htaken, hgo⟩
    · -- the line still waits
      have hfirst : rest.head? = some line := by
        rw [hawaits.front (by rw [hreader]; exact hheld), hreader]
        exact hline.head
      obtain ⟨rest, rfl⟩ := List.head?_eq_some_iff.mp hfirst
      rw [htaken, houtline _ (hmore rest), hgo]
    · obtain ⟨t, ht, -, hnoted⟩ := hline.noted
      have hsame := houtline _ (hmore rest)
      rw [hgo] at hsame
      rw [htaken, hnoted, List.map_append, List.map_singleton, ht, List.append_assoc]
      exact hsame

/-- What is outlined at a moment is outlined at all later ones. -/
theorem Outlined.reaches {d₀ : Document} {m m' : Moment} (h : Outlined d₀ m)
    (hsound : Sound m.session) (hreach : m.Reaches m') : Outlined d₀ m' := by
  induction hreach with
  | refl => exact h
  | tail hreach hnext ih => exact ih.next (Reaches.sound hreach hsound) hnext

end Moment

end Scan

namespace Session

open Scan

/-- A loaded document is the outline of the lines that were taken, wherever its blocks start. -/
theorem load_outline {fuel : Nat} {files : FileTree} {source : Source} {o : LoadOptions}
    {s s₀ : Session} {d₀ : Document} (hopen : openSource files source o = .ok s₀)
    (hprocessors : o.processors = []) (h : load fuel files source o = .ok s)
    (hd₀ : d₀.Resembles s₀.doc) :
    (Stage.opening.outline (s.journal.taken.map (·.shown)) d₀).Resembles s.doc := by
  have hstart : Moment.Outlined d₀ ⟨.opening, s₀⟩ := by
    refine ⟨d₀, hd₀, fun rest _ => ?_⟩
    obtain ⟨mode, -, rfl⟩ := openSource_eq_ok.mp hopen
    rfl
  obtain ⟨d, hd, houtline⟩ := hstart.reaches (sound_openSource hopen hprocessors)
    (Moment.reaches_load hopen hprocessors h)
  have hend := exhausted_load h
  have hlook : s.reader.lookAhead = 0 := hend.idle.lookAhead
  have hall := houtline [] ⟨fun hpos => by simp [hlook] at hpos, fun _ => rfl⟩
  rw [List.append_nil] at hall
  rw [hall]
  exact hd

end Session

/-! ## Empty lines -/

namespace Stage

variable {stage : Stage} {d : Document}

/-- Whether an empty line changes nothing, if the given line comes next. It ends a header and a
paragraph, unless these end there anyway, and it is a line of a delimited block. -/
def passes : Stage → (next : Option String) → Bool
  | .opening, _ | .body, _ | .done, _ => true
  | .heading, next => next.all (· == "")
  | .paragraph _, next => next.all fun line => line == "" || LineShape.endsParagraph line
  | .delimited _ _ _, _ => false

/-- An empty line that passes is not seen in the outline. -/
theorem outline_blank {rest : List String} (h : stage.passes rest.head? = true) :
    stage.outline ("" :: rest) d = stage.outline rest d := by
  cases stage with
  | opening | body | done => rfl
  | heading =>
    cases rest with
    | nil => rfl
    | cons line rest =>
      obtain rfl : line = "" := by simpa [passes] using h
      rfl
  | paragraph lines =>
    cases rest with
    | nil => rfl
    | cons line rest =>
      -- the paragraph ends at the next line as well
      have hstop : (line == "" || LineShape.endsParagraph line) = true := h
      change (beginning line).outline rest _ = _
      simp only [outline, after, effect, if_pos hstop]
      rfl
  | delimited delimiter context lines => cases h

/-- Whether all lines that were taken inside of false conditionals are empty and pass. -/
def sifts : Stage → List Taken → Bool
  | _, [] => true
  | stage, t :: rest =>
    (!t.skipping || t.spelled == "" &&
        stage.passes ((rest.find? fun next => !next.skipping).map (·.shown))) &&
      (stage.after t.shown).sifts rest

/-- Then the outline is that of the other lines. -/
theorem outline_sifted {lines : List Taken} (h : stage.sifts lines = true)
    (hshown : ∀ t ∈ lines, t.spelled = "" → t.shown = "") :
    stage.outline (lines.map (·.shown)) d =
      stage.outline ((lines.filter fun t => !t.skipping).map (·.shown)) d := by
  induction lines generalizing stage d with
  | nil => rfl
  | cons t rest ih =>
    unfold sifts at h
    obtain ⟨hline, hrest⟩ := Bool.and_eq_true_iff.mp h
    have hrest' := ih (d := stage.effect t.shown d) hrest fun u hu =>
      hshown u (List.mem_cons_of_mem t hu)
    rw [List.map_cons, outline, hrest']
    cases hskip : t.skipping with
    | false =>
      -- a line that stays
      rw [List.filter_cons_of_pos (by simp [hskip])]
      rfl
    | true =>
      -- an empty line that passes
      rw [hskip, Bool.not_true, Bool.false_or, Bool.and_eq_true, beq_iff_eq] at hline
      rw [List.filter_cons_of_neg (by simp [hskip]), hshown t List.mem_cons_self hline.1]
      refine outline_blank ?_
      rw [List.head?_map, List.head?_filter]
      exact hline.2

/-- A stage that an empty line does not end, if it is one of a delimited block. -/
def Proper : Stage → Prop
  | .delimited delimiter _ _ => delimiter ≠ ""
  | _ => True

/-- A stage that a line begins is proper, since an empty line opens no delimited block. -/
theorem proper_beginning (line : String) : (beginning line).Proper := by
  unfold beginning
  split
  · trivial
  · rename_i hcontent
    split
    · trivial
    · split
      · trivial
      · split
        · trivial
        · split
          · rintro rfl
            exact hcontent rfl
          · trivial

/-- A stage after a proper one is proper. -/
theorem Proper.after (h : stage.Proper) (line : String) : (stage.after line).Proper := by
  cases stage with
  | opening =>
    simp only [Stage.after]
    split
    · trivial
    · split
      · exact proper_beginning line
      · trivial
  | heading =>
    simp only [Stage.after]
    split <;> trivial
  | body => exact proper_beginning line
  | paragraph lines =>
    simp only [Stage.after]
    split
    · exact proper_beginning line
    · trivial
  | delimited delimiter context lines =>
    simp only [Stage.after]
    split
    · trivial
    · exact h
  | done => trivial

/-- Where an empty line passes, any number of them does at the end. -/
theorem outline_replicate (hlast : stage.passes none = true) (hmore : stage.passes (some "") = true)
    (n : Nat) : stage.outline (List.replicate n "") d = stage.outline [] d := by
  induction n with
  | zero => rfl
  | succ n ih =>
    rw [List.replicate_succ, outline_blank, ih]
    cases n with
    | zero => exact hlast
    | succ n => exact hmore

/-- An open block that is delimited takes all of them. -/
theorem outline_delimited {delimiter : String} (h : delimiter ≠ "") (context : String)
    (lines : List String) (n : Nat) :
    (Stage.delimited delimiter context lines).outline (List.replicate n "") d =
      (Stage.delimited delimiter context (lines ++ List.replicate n "")).close d := by
  have hinside : ¬ ("" == delimiter) = true := by
    rw [beq_iff_eq]
    exact h.symm
  induction n generalizing lines with
  | zero => simp [outline]
  | succ n ih =>
    rw [List.replicate_succ, outline]
    simp only [after, effect, if_neg hinside]
    rw [ih, List.append_assoc]
    rfl

/-- Empty lines at the end belong to a delimited block that is open, and to nothing otherwise. -/
theorem outline_blanks (h : stage.Proper) {blanks : List String}
    (hblank : ∀ line ∈ blanks, line = "") :
    (stage.outline blanks d).AlikeButEnd (fun _ _ => True) (stage.outline [] d) := by
  obtain ⟨n, rfl⟩ : ∃ n, blanks = List.replicate n "" :=
    ⟨_, List.eq_replicate_of_mem hblank⟩
  cases stage with
  | opening | heading | body | paragraph lines | done =>
    rw [outline_replicate rfl rfl]
    exact (Document.resembles_self _).butEnd
  | delimited delimiter context lines =>
    rw [outline_delimited h]
    exact ⟨rfl, rfl, rfl, rfl, rfl, Or.inr ⟨d.blocks, ⟨context, lines, none, none⟩, _, rfl, hblank,
      Block.forall₂_alike_iff.mpr rfl⟩⟩

/-- Empty lines at the end of a document make at most its last block longer. -/
theorem outline_append_blank (h : stage.Proper) {lines blanks : List String}
    (hblank : ∀ line ∈ blanks, line = "") :
    (stage.outline (lines ++ blanks) d).AlikeButEnd (fun _ _ => True) (stage.outline lines d) := by
  induction lines generalizing stage d with
  | nil => exact outline_blanks h hblank
  | cons line rest ih => exact ih (h.after line)

end Stage

end DocFlatten
