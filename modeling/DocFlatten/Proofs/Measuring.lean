import DocFlatten.Proofs.Entering

/-! # A measure of reading

Neither the lines that are left to be read nor the depth of scopes alone gets smaller at each step,
since a directive brings in further lines, and files may include themselves or each other. A measure
has to combine both. It weighs every line with what may come of it: a line at some depth counts for as
many lines as a directive can bring in from there on (`cost`), a scope counts one for its
end, and a conditional counts one more than other lines, since its text may be a directive.

* `FileTree.lineCount_readText`, `Selection.length_ofAttributes`: how many lines a directive can
  bring in;
* `rank_glance`: a look that does not find a line makes the measure smaller, as long as the limit of
  nested includes that it reckons with holds (`Within`), or if it enters no file (`rank_apart`);
* `rank_leave`: so does leaving a scope.
-/

namespace DocFlatten

open DocFlatten.Text

/-! ## Sizes of files -/

/-- How many lines a file has. -/
def Content.lineCount (c : Content) : Nat :=
  match FileTree.textOf c with
  | .ok s => (Source.text s).prepare.length
  | .error _ => 0

/-- How many lines an entry of a directory has. -/
def FileNode.lineCount : FileNode → Nat
  | .file c _ => c.lineCount
  | .directory | .device | .closed _ => 0

/-- How many lines all files have together. -/
def FileTree.lineCount (files : FileTree) : Nat :=
  files.entries.foldr (fun entry n => entry.2.lineCount + n) 0

/-- The lines of a file are among those of the tree. -/
theorem FileTree.lineCount_node {files : FileTree} {place : List String} {node : FileNode}
    (h : files.node? place = some node) : node.lineCount ≤ files.lineCount := by
  have hmem : ∀ (entries : List (List String × FileNode)) (entry : List String × FileNode),
      entry ∈ entries →
        entry.2.lineCount ≤ entries.foldr (fun entry n => entry.2.lineCount + n) 0 := by
    intro entries entry hentry
    induction entries with
    | nil => cases hentry
    | cons first rest ih =>
      rw [List.foldr_cons]
      rcases List.mem_cons.mp hentry with rfl | hrest
      · exact Nat.le_add_right _ _
      · exact Nat.le_add_left_of_le (ih hrest)
  unfold FileTree.node? at h
  split at h
  · cases h
    exact Nat.zero_le _
  · obtain ⟨entry, hfind, rfl⟩ := Option.map_eq_some_iff.mp h
    exact hmem _ _ (List.mem_of_find?_eq_some hfind)

/-- No file that can be read has more lines than all files together. -/
theorem FileTree.lineCount_readText {files : FileTree} {path text : String}
    (h : files.readText path = .ok text) :
    (Source.text text).prepare.length ≤ files.lineCount := by
  unfold FileTree.readText at h
  split at h
  · cases h
  · rename_i c hcontent
    -- the content is the text of a file or data that is written as one
    have hcount : c.lineCount = (Source.text text).prepare.length := by
      unfold Content.lineCount
      cases htext : FileTree.textOf c with
      | error e =>
        rw [htext] at h
        cases h
      | ok s =>
        rw [htext] at h
        cases h
        rfl
    rw [← hcount]
    unfold FileTree.content at hcontent
    split at hcontent
    · cases hcontent
    · split at hcontent
      · -- a file of the tree
        rename_i c' stamp hnode
        cases hcontent
        exact FileTree.lineCount_node hnode
      · cases hcontent
        exact Nat.zero_le _
      · cases hcontent
      · cases hcontent
      · cases hcontent

namespace Selection

/-- Tags keep some of the lines. -/
theorem length_keep (rule : TagRule) (regions : Regions) (numbered : List (String × Nat)) :
    (rule.keep regions numbered).length ≤ numbered.length := by
  induction numbered generalizing regions with
  | nil => exact Nat.le_refl _
  | cons line rest ih =>
    unfold TagRule.keep
    split
    · exact Nat.le_succ_of_le (ih _)
    · split
      · exact Nat.succ_le_succ (ih _)
      · exact Nat.le_succ_of_le (ih _)

/-- Tags select some of the lines. -/
theorem length_byTags (attributes : Attributes) (path : String) (lines : List String) :
    (byTags attributes path lines).1.lines.length ≤ lines.length := by
  have hnumbered : (numbered lines).length = lines.length := List.length_zipIdx
  unfold byTags
  split
  · exact Nat.le_refl _
  · simp only
    split
    · exact Nat.le_refl _
    · simp only [ofKept, List.length_map]
      exact hnumbered ▸ length_keep _ _ _

/-- A selection only leaves lines out. -/
theorem length_ofAttributes (attributes : Attributes) (path : String) (lines : List String) :
    (ofAttributes attributes path lines).1.lines.length ≤ lines.length := by
  have hnumbered : (numbered lines).length = lines.length := List.length_zipIdx
  unfold ofAttributes
  split
  · exact length_byTags _ _ _
  · simp only
    split
    · exact length_byTags _ _ _
    · simp only [ofKept, List.length_map, inRangesOnly]
      exact hnumbered ▸ List.length_filter_le _ _

end Selection

/-! ## The measure -/

/-- How many steps a directive may lead to, given how many scopes may still be entered, if no scope
has more than `width` lines. -/
def cost (width : Nat) : (budget : Nat) → Nat
  | 0 => 1
  | budget + 1 => width * (cost width budget + 1) + 2

/-- Even a line that leads nowhere is some work. -/
theorem cost_pos (width budget : Nat) : 0 < cost width budget := by
  cases budget <;> simp [cost]

/-- Whether a line is a conditional. -/
def isConditional (line : String) : Bool :=
  match LineKind.ofLine line with
  | .conditional _ => true
  | _ => false

/-- What one line counts, given what a directive counts. -/
def lineWork (unit : Nat) (line : String) : Nat :=
  unit + (isConditional line).toNat

/-- What some lines count. -/
def linesWork (unit : Nat) : List String → Nat
  | [] => 0
  | line :: lines => lineWork unit line + linesWork unit lines

/-- What scopes count, the innermost first. -/
def scopesWork (width limit : Nat) : List Scope → Nat
  | [] => 0
  | scope :: outer =>
    linesWork (cost width (limit - outer.length)) scope.lines + 1 + scopesWork width limit outer

@[simp] theorem linesWork_nil (unit : Nat) : linesWork unit [] = 0 := rfl

@[simp] theorem linesWork_cons (unit : Nat) (line : String) (lines : List String) :
    linesWork unit (line :: lines) = lineWork unit line + linesWork unit lines := rfl

theorem lineWork_of_not {line : String} (unit : Nat) (h : isConditional line = false) :
    lineWork unit line = unit := by
  simp [lineWork, h]

/-- A line is its share of work, and a conditional one more for its text. -/
theorem lineWork_le (unit : Nat) (line : String) :
    unit ≤ lineWork unit line ∧ lineWork unit line ≤ unit + 1 := by
  have := Bool.toNat_le (isConditional line)
  unfold lineWork
  omega

/-- Lines are at most their number of shares, each with one for a text. -/
theorem linesWork_le (unit : Nat) (lines : List String) :
    linesWork unit lines ≤ lines.length * (unit + 1) := by
  induction lines with
  | nil => simp
  | cons line lines ih =>
    have := (lineWork_le unit line).2
    rw [linesWork_cons, List.length_cons, Nat.succ_mul]
    omega

namespace Reader

variable (width limit : Nat) (r : Reader)

/-- What a directive in front counts. -/
def unit : Nat :=
  cost width (limit - r.includeDepth)

/-- What is left to be read counts. -/
def work : Nat :=
  scopesWork width limit (r.scope :: r.outer)

/-- What is left until the next line is found counts. -/
def rank : Nat :=
  2 * r.work width limit + (if r.lookAhead = 0 then 1 else 0)

/-- The work is that of the scope, of its end and of the scopes around. -/
theorem work_eq : r.work width limit =
    linesWork (r.unit width limit) r.scope.lines + 1 + scopesWork width limit r.outer := rfl

variable {width limit r}

/-- Only the lines and the scopes around matter. -/
theorem work_congr {r' : Reader} (hlines : r'.scope.lines = r.scope.lines)
    (houter : r'.outer = r.outer) : r'.work width limit = r.work width limit := by
  rw [work_eq, work_eq, hlines, houter]
  unfold unit includeDepth
  rw [houter]

/-- The rank goes down with the work, or by a line that waits. -/
theorem rank_lt {r' : Reader} (hidle : r.Idle)
    (h : r'.work width limit < r.work width limit ∨
      0 < r'.lookAhead ∧ r'.work width limit ≤ r.work width limit) :
    r'.rank width limit < r.rank width limit := by
  unfold rank
  rw [if_pos hidle.lookAhead]
  rcases h with hless | ⟨hheld, hle⟩
  · split <;> omega
  · rw [if_neg (by omega)]
    omega

/-- A lower rank is no more work. -/
theorem work_le_of_rank {r' : Reader} (h : r'.rank width limit < r.rank width limit) :
    r'.work width limit ≤ r.work width limit := by
  unfold rank at h
  split at h <;> split at h <;> omega

section Lines

variable (width limit) {line : String} {rest : List String}

/-- Taking a line takes away what it counts. -/
theorem work_shifted (hfront : r.scope.lines = line :: rest) :
    r.shifted.work width limit + lineWork (r.unit width limit) line = r.work width limit := by
  rw [work_eq, work_eq, shifted_of_lines hfront, hfront, linesWork_cons]
  unfold unit includeDepth
  simp only
  omega

/-- A line that is used up is less work. -/
theorem work_shifted_lt (hfront : r.scope.lines = line :: rest) :
    r.shifted.work width limit < r.work width limit := by
  have hwork := work_shifted width limit hfront
  have hpos : 0 < r.unit width limit := cost_pos _ _
  have hline := (lineWork_le (r.unit width limit) line).1
  omega

/-- Another line in the place of the line in front. -/
theorem work_setHead (text : String) (hfront : r.scope.lines = line :: rest) :
    (r.setHead text).work width limit + lineWork (r.unit width limit) line =
      r.work width limit + lineWork (r.unit width limit) text := by
  have hset : (r.setHead text).work width limit =
      linesWork (r.unit width limit) (text :: rest) + 1 + scopesWork width limit r.outer := by
    rw [work_eq]
    unfold setHead
    simp only [hfront, List.tail_cons]
    rfl
  rw [hset, work_eq, hfront, linesWork_cons, linesWork_cons]
  omega

/-- A line that is put in front is more work by its share. -/
theorem work_unshift (text : String) :
    (r.unshift text).work width limit =
      r.work width limit + lineWork (r.unit width limit) text := by
  have hset : (r.unshift text).work width limit =
      linesWork (r.unit width limit) (text :: r.scope.lines) + 1 +
        scopesWork width limit r.outer := rfl
  rw [hset, work_eq, linesWork_cons]
  omega

end Lines

/-- The share of a line depends on how many scopes are around. -/
theorem unit_shifted : r.shifted.unit width limit = r.unit width limit := by
  unfold unit
  rw [Session.includeDepth_shifted]

/-- Entering some lines in the place of a directive, if a scope may still be entered. -/
theorem work_entered {line : String} {rest lines : List String} (cursor : Cursor) (frame : Nat)
    (hfront : r.scope.lines = line :: rest) (hdepth : r.includeDepth < limit)
    (hlength : lines.length ≤ width) :
    (r.shifted.entered lines cursor frame).work width limit < r.work width limit := by
  have hshifted := work_shifted width limit hfront
  have hline := (lineWork_le (r.unit width limit) line).1
  -- there is room for one more scope, so the share of a line covers a file of lines one level below
  obtain ⟨budget, hbudget⟩ : ∃ budget, limit - r.includeDepth = budget + 1 :=
    ⟨limit - r.includeDepth - 1, by omega⟩
  have hunit : r.unit width limit = width * (cost width budget + 1) + 2 := by
    unfold unit
    rw [hbudget]
    rfl
  have hinner : (r.shifted.entered lines cursor frame).work width limit =
      linesWork (cost width budget) lines + 1 + r.shifted.work width limit := by
    have hinside := Session.includeDepth_entered r lines cursor frame
    have hless : limit - (r.shifted.entered lines cursor frame).includeDepth = budget := by omega
    rw [work_eq]
    unfold unit
    rw [hless]
    rfl
  -- all lines of the file are less than the share of the directive
  have hlines := linesWork_le (cost width budget) lines
  have hwide : lines.length * (cost width budget + 1) ≤ width * (cost width budget + 1) :=
    Nat.mul_le_mul_right _ hlength
  omega

end Reader

namespace Session

/-! ## One look -/

/-- The lines of a file that is entered with what is added around them. -/
theorem Inclusion.Enters.length_le {e : Inclusion} {s : Session} {lines : List String}
    {cursor : Cursor} {frame : Nat} (h : Inclusion.Enters e s (.entered lines cursor frame)) :
    lines.length ≤ e.selection.lines.length + 4 := by
  have hprepared : e.lines.length = e.selection.lines.length := by
    simp [Inclusion.lines, Source.prepare]
  cases h with
  | full hfull hentered =>
    rw [hentered, ← hprepared]
    unfold scopeOf
    split
    · simp [framed]
    · simp

/-- A directive is followed only above the limit, and not into more lines than all files have. -/
theorem inclusion?_bounded {s : Session} {line : String} {e : Inclusion}
    (h : s.inclusion? line = some e) : (s.reader.includeDepth : Int) < s.maxIncludeDepth ∧
      e.selection.lines.length ≤ s.files.lineCount := by
  obtain ⟨i, -, -, hresolve⟩ := inclusion?_eq_some h
  obtain ⟨hdepth, -, text, hread, hselection⟩ := resolve_entered hresolve
  refine ⟨hdepth, ?_⟩
  calc e.selection.lines.length
      ≤ (Source.text text).prepare.length := by
        rw [hselection]
        exact Selection.length_ofAttributes _ _ _
    _ ≤ s.files.lineCount := FileTree.lineCount_readText hread

variable {width limit : Nat}

/-- A look that shows a line leaves what is left to be read as it is. -/
theorem work_shown {s s' : Session} {line text : String}
    (hlook : Look s line (.line text s')) :
    s'.reader.work width limit = s.reader.work width limit := by
  cases hlook with
  | plain _ hturns | escaped _ hturns | kept i _ _ _ _ hturns =>
    rw [hturns.reader]
    exact Reader.work_congr rfl rfl

/-- The text that is kept of a conditional counts no more than the conditional, and less if it has
to be looked at again. -/
theorem rank_keeping {r : Reader} {line : String} {rest : List String} {c : Conditional}
    (text : String) (hidle : r.Idle) (hfront : r.scope.lines = line :: rest)
    (hline : LineKind.ofLine line = .conditional c) :
    (r.keeping text).rank width limit < r.rank width limit := by
  have hwork := Reader.work_setHead width limit (stripEnd text) hfront
  have hconditional : lineWork (r.unit width limit) line = r.unit width limit + 1 := by
    simp [lineWork, isConditional, hline]
  unfold Reader.keeping
  split
  · rename_i hinclude
    have hplain : isConditional (stripEnd text) = false := by
      unfold isConditional
      rcases LineKind.of_startsWith_include (startsWith_include_stripEnd hinclude) with
        hkind | ⟨i, hkind⟩ <;> rw [hkind]
    rw [lineWork_of_not _ hplain] at hwork
    exact Reader.rank_lt hidle (Or.inl (by omega))
  · have hle := (lineWork_le (r.unit width limit) (stripEnd text)).2
    have hheld : ((r.setHead (stripEnd text)).hold).work width limit =
        (r.setHead (stripEnd text)).work width limit := Reader.work_congr rfl rfl
    refine Reader.rank_lt hidle (Or.inr ⟨?_, by omega⟩)
    simp [Reader.hold]

/-- What a session needs so that the measure works: no processors, and neither files with more
lines nor a greater limit than the measure reckons with. -/
structure Within (width limit : Nat) (s : Session) : Prop where
  processors : s.doc.options.processors = []
  files : s.files.lineCount + 4 ≤ width
  limited : s.maxIncludeDepth ≤ limit

/-- A conditional that is used up, or leaves a text, makes the measure smaller. -/
theorem rank_ruled {r r' : Reader} {line : String} {rest : List String} {c : Conditional}
    {consumed : Bool} (hidle : r.Idle) (hfront : r.scope.lines = line :: rest)
    (hline : LineKind.ofLine line = .conditional c) (hruled : Ruled r c consumed r') :
    (if consumed then r'.shifted else r').rank width limit < r.rank width limit := by
  -- neither the open conditionals nor skipping count
  have hused : ∀ conditionals skipping,
      ({ r with conditionals, skipping } : Reader).shifted.rank width limit <
        r.rank width limit := by
    intro conditionals skipping
    have hless := Reader.work_shifted_lt width limit (r := { r with conditionals, skipping }) hfront
    exact Reader.rank_lt hidle (Or.inl hless)
  cases hruled with
  | idle => exact hused r.conditionals r.skipping
  | opened target skip skipping => exact hused _ _
  | closed top others => exact hused _ _
  | kept text => exact rank_keeping text hidle hfront hline

/-- A directive that is followed into a file makes the measure smaller. -/
theorem rank_inclusion {s s' : Session} {line : String} {rest : List String} {e : Inclusion}
    (h : Within width limit s) (hidle : s.reader.Idle)
    (hfront : s.reader.scope.lines = line :: rest) (hglance : s.glance line = .again s')
    (hinclusion : s.inclusion? line = some e) :
    s'.reader.rank width limit < s.reader.rank width limit := by
  have hless := Reader.work_shifted_lt width limit hfront
  have hlimited := h.limited
  have hwidth := h.files
  obtain ⟨hdepth, hlines⟩ := inclusion?_bounded hinclusion
  obtain ⟨i, way, es, t, -, -, hagain, -, henters, -, hturns⟩ :=
    glance_inclusion hidle.lookAhead hinclusion
  rw [hglance] at hagain
  cases hagain
  rw [hturns.reader]
  cases henters with
  | empty =>
    -- the directive is used up, and nothing is put there
    have hsame : ({ s.reader.shifted with frame := 0 } : Reader).work width limit =
        s.reader.shifted.work width limit := Reader.work_congr rfl rfl
    exact Reader.rank_lt hidle (Or.inl (Nat.lt_of_le_of_lt (Nat.le_of_eq hsame) hless))
  | full hfull hentered =>
    -- the lines of the file are no more than the share of the directive
    have hlength := (Inclusion.Enters.full hfull hentered).length_le
    exact Reader.rank_lt hidle (Or.inl (Reader.work_entered _ _ hfront (by omega) (by omega)))

/-- A directive that is followed, but not into a file, makes the measure smaller. -/
theorem rank_followed {r r' : Reader} {line : String} {rest : List String} {d : Include}
    {es : List Event} (hidle : r.Idle) (hfront : r.scope.lines = line :: rest)
    (hline : LineKind.ofLine line = .directive d) (hfollowed : Followed r d es r')
    (houter : r'.outer = r.outer) : r'.rank width limit < r.rank width limit := by
  have hless := Reader.work_shifted_lt width limit hfront
  cases hfollowed with
  | kept =>
    -- the line is the same, but it waits now
    have hheld : r.hold.work width limit = r.work width limit := Reader.work_congr rfl rfl
    exact Reader.rank_lt hidle (Or.inr ⟨by simp [Reader.hold], Nat.le_of_eq hheld⟩)
  | gone ends frame =>
    -- the line is used up
    have hsame : ({ r.shifted with frame } : Reader).work width limit =
        r.shifted.work width limit := Reader.work_congr rfl rfl
    exact Reader.rank_lt hidle (Or.inl (Nat.lt_of_le_of_lt (Nat.le_of_eq hsame) hless))
  | replaced text hplain =>
    -- neither the directive nor what replaces it is a conditional, so both are the same work
    have hcontent : isConditional text = false := by simp [isConditional, hplain]
    have hdirective : isConditional line = false := by simp [isConditional, hline]
    have hshifted := Reader.work_shifted width limit hfront
    have hback := Reader.work_unshift width limit (r := r.shifted) text
    rw [Reader.unit_shifted, lineWork_of_not _ hcontent] at hback
    rw [lineWork_of_not _ hdirective] at hshifted
    exact Reader.rank_lt hidle (Or.inr ⟨by simp [Reader.unshift, Reader.advance], by omega⟩)
  | entered lines cursor frame =>
    -- a file is entered only if the scopes around change
    have hdeeper := includeDepth_entered r lines cursor frame
    unfold Reader.includeDepth at hdeeper
    rw [houter] at hdeeper
    omega

/-- A look that neither finds a line nor enters a file makes the measure smaller, whatever the
limit. -/
theorem rank_apart {s s' : Session} {line : String} {rest : List String}
    (hidle : s.reader.Idle) (hfront : s.reader.scope.lines = line :: rest)
    (hglance : s.glance line = .again s') (hlook : Look s line (.again s'))
    (hnone : s.inclusion? line = none) :
    s'.reader.rank width limit < s.reader.rank width limit := by
  have houter : s'.reader.outer = s.reader.outer := by
    have hapart := (glance_apart hnone).outer
    rwa [hglance] at hapart
  cases hlook with
  | passed _ _ _ hturns =>
    rw [hturns.reader]
    exact Reader.rank_lt hidle (Or.inl (Reader.work_shifted_lt width limit hfront))
  | conditional c consumed r _ hline _ hruled hturns =>
    rw [hturns.reader]
    exact rank_ruled hidle hfront hline hruled
  | followed d es r _ hline _ hfollowed hturns =>
    rw [hturns.reader] at houter ⊢
    exact rank_followed hidle hfront hline hfollowed houter

/-- A look that does not find a line makes the measure smaller. -/
theorem rank_glance {s s' : Session} {line : String} {rest : List String}
    (h : Within width limit s) (hidle : s.reader.Idle)
    (hfront : s.reader.scope.lines = line :: rest) (hglance : s.glance line = .again s')
    (hlook : Look s line (.again s')) :
    s'.reader.rank width limit < s.reader.rank width limit := by
  cases hinclusion : s.inclusion? line with
  | some e => exact rank_inclusion h hidle hfront hglance hinclusion
  | none => exact rank_apart hidle hfront hglance hlook hinclusion

/-- Leaving a scope makes the measure smaller. -/
theorem rank_leave {s : Session} (hidle : s.reader.Idle) (houter : s.reader.outer ≠ []) :
    s.leave.reader.rank width limit < s.reader.rank width limit := by
  cases hscopes : s.reader.outer with
  | nil => exact absurd hscopes houter
  | cons scope outer =>
    rw [(turns_leave hscopes).reader]
    refine Reader.rank_lt hidle (Or.inl ?_)
    have hinner : ({ s.reader with scope, outer, lookAhead := 0 } : Reader).work width limit =
        scopesWork width limit s.reader.outer := by
      rw [hscopes]
      rfl
    rw [hinner, Reader.work_eq]
    omega

end Session

end DocFlatten
