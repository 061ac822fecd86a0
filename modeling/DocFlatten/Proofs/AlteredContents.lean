import DocFlatten.Proofs.Looking
import Mathlib.Data.List.Forall2

/-! # Altered contents

Contents that differ in changed lines only, all of the kind that a false conditional hides:

* `Altered`: two such contents, and readers of them, which every step of reading keeps so;
* `AlteredLine`: two lines of a file, which selections keep or leave out together, so that two
  files are altered whatever is included of them (`FileTree.alike_of_lines`);
* `AlteredTree`: file trees with altered files (`AlteredTree.alike`).
-/

namespace DocFlatten

open DocFlatten.Selection

variable {changed : Cursor → String → Prop}

/-! ## Altered contents -/

/-- Contents that start at a position and differ in changed lines, of a kind that is passed over
inside a false conditional. -/
inductive Altered (changed : Cursor → String → Prop) :
    Cursor → List String → List String → Prop where
  | nil (cursor : Cursor) : Altered changed cursor [] []
  | same {cursor : Cursor} (line : String) {rest rest' : List String}
      (h : Altered changed cursor.next rest rest') :
    Altered changed cursor (line :: rest) (line :: rest')
  | other {cursor : Cursor} {line line' : String} {rest rest' : List String}
      (hline : isPassedOver line = true) (hline' : isPassedOver line' = true)
      (hchanged : changed cursor line) (h : Altered changed cursor.next rest rest') :
    Altered changed cursor (line :: rest) (line' :: rest')

namespace Altered

theorem refl (cursor : Cursor) (lines : List String) : Altered changed cursor lines lines := by
  induction lines generalizing cursor with
  | nil => exact .nil cursor
  | cons line rest ih => exact .same line (ih cursor.next)

/-- The same lines may follow on altered ones. -/
theorem append {cursor : Cursor} {lines lines' : List String}
    (h : Altered changed cursor lines lines') (tail : List String) :
    Altered changed cursor (lines ++ tail) (lines' ++ tail) := by
  induction h with
  | nil cursor => exact .refl cursor tail
  | same line _ ih => exact .same line ih
  | other hline hline' hchanged _ ih => exact .other hline hline' hchanged ih

/-- The lines that a level offset adds are never changed. -/
theorem framing : Session.Framing (Altered changed) where
  refl := Altered.refl
  nil_iff h := by
    cases h with
    -- an alteration neither adds lines to empty contents nor leaves none
    | nil => exact Iff.rfl
    | same | other => simp
  framed {cursor lines lines'} offset previous h := by
    -- the two lines in front move the position back to the first line
    have hback : ({ cursor with lineno := cursor.lineno - 2 } : Cursor).next.next = cursor := by
      unfold Cursor.next
      cases cursor
      simp only [Cursor.mk.injEq, true_and]
      omega
    have hinner : Altered changed ({ cursor with lineno := cursor.lineno - 2 } : Cursor).next.next
        lines lines' := by
      rw [hback]
      exact h
    exact .same _ (.same _ (hinner.append _))

end Altered

/-- Scopes at one position whose lines differ in changed ones. -/
def Scope.Altered (changed : Cursor → String → Prop) (scope scope' : Scope) : Prop :=
  scope'.cursor = scope.cursor ∧ DocFlatten.Altered changed scope.cursor scope.lines scope'.lines

/-- Readers whose lines differ in changed ones, but not in a line that waits to be taken. -/
structure Reader.Altered (changed : Cursor → String → Prop) (r r' : Reader) : Prop where
  scope : r.scope.Altered changed r'.scope
  outer : List.Forall₂ (Scope.Altered changed) r.outer r'.outer
  lookAhead : r'.lookAhead = r.lookAhead
  unescape : r'.unescape = r.unescape
  conditionals : r'.conditionals = r.conditionals
  skipping : r'.skipping = r.skipping
  front : 0 < r.lookAhead → r'.scope.lines.head? = r.scope.lines.head?

namespace Reader.Altered

variable {r r' : Reader}

theorem includeDepth (h : r.Altered changed r') : r'.includeDepth = r.includeDepth :=
  h.outer.length_eq.symm

/-- Altered lines run out together. -/
theorem lines_eq_nil_iff (h : r.Altered changed r') : r'.scope.lines = [] ↔ r.scope.lines = [] :=
  (Altered.framing.nil_iff h.scope.2).symm

theorem outer_eq_nil_iff (h : r.Altered changed r') : r'.outer = [] ↔ r.outer = [] := by
  have hboth := h.outer
  constructor
  · intro hnil
    rw [hnil] at hboth
    exact List.forall₂_nil_right_iff.mp hboth
  · intro hnil
    rw [hnil] at hboth
    exact List.forall₂_nil_left_iff.mp hboth

/-- A line that waits to be taken is the same for both readers. -/
theorem head_of_held (h : r.Altered changed r') (hlook : 0 < r.lookAhead) : r'.head? = r.head? := by
  unfold Reader.head? Reader.shown
  rw [h.front hlook, h.unescape]

/-- The cursor and the look-ahead are the same, so both readers are idle. -/
theorem idle (h : r.Altered changed r') (hidle : r.Idle) : r'.Idle :=
  ⟨h.lookAhead.trans hidle.lookAhead, h.unescape.trans hidle.plain⟩

theorem steady (h : r.Altered changed r') (hsteady : r.Steady) : r'.Steady := by
  rcases hsteady with hidle | ⟨hone, hfront⟩
  · exact Or.inl (h.idle hidle)
  · exact Or.inr ⟨h.lookAhead.trans hone, fun hnil => hfront (h.lines_eq_nil_iff.mp hnil)⟩

/-- A line that is used up is used up on both sides. -/
theorem shifted (h : r.Altered changed r') (hlook : r.lookAhead ≤ 1) :
    r.shifted.Altered changed r'.shifted := by
  rcases r with ⟨⟨lines, cursor⟩, outer, lookAhead, unescape, conditionals, skipping, frame⟩
  rcases r' with ⟨⟨lines', cursor'⟩, outer', lookAhead', unescape', conditionals', skipping', frame'⟩
  rcases h with ⟨⟨hcursor, hlines⟩, houter, hsame, hunescape, hconditionals, hskipping, -⟩
  simp only at hcursor hlines houter hsame hunescape hconditionals hskipping hlook
  subst hcursor hsame hunescape hconditionals hskipping
  have hnone : ¬ 0 < lookAhead' - 1 := by omega
  cases hlines with
  | nil =>
    exact ⟨⟨rfl, .nil _⟩, houter, rfl, rfl, rfl, rfl, fun hpos => absurd hpos hnone⟩
  | same line h =>
    exact ⟨⟨rfl, h⟩, houter, rfl, rfl, rfl, rfl, fun hpos => absurd hpos hnone⟩
  | other hline hline' hchanged h =>
    exact ⟨⟨rfl, h⟩, houter, rfl, rfl, rfl, rfl, fun hpos => absurd hpos hnone⟩

/-- The line in front is counted as processed, if it is the same in both readers. -/
theorem hold (h : r.Altered changed r') (hfront : r'.scope.lines.head? = r.scope.lines.head?) :
    r.hold.Altered changed r'.hold :=
  { h with
    lookAhead := congrArg (· + 1) h.lookAhead
    front := fun _ => hfront }

/-- A line behind a backslash is only held if it is the same on both sides. -/
theorem escape (h : r.Altered changed r') (hfront : r'.scope.lines.head? = r.scope.lines.head?) :
    Reader.Altered changed { r.hold with unescape := true } { r'.hold with unescape := true } :=
  { h.hold hfront with unescape := rfl }

/-- The same text may stand in front of both. -/
theorem setHead (h : r.Altered changed r') (text : String) :
    (r.setHead text).Altered changed (r'.setHead text) := by
  have htail : DocFlatten.Altered changed r.scope.cursor.next r.scope.lines.tail
      r'.scope.lines.tail := by
    have hlines := h.scope.2
    generalize r.scope.lines = lines at hlines ⊢
    generalize r'.scope.lines = lines' at hlines ⊢
    cases hlines with
    | nil => exact .nil _
    | same line h => exact h
    | other hline hline' hchanged h => exact h
  exact { h with scope := ⟨h.scope.1, .same text htail⟩, front := fun _ => rfl }

/-- A text that a conditional keeps is the same on both sides. -/
theorem keeping (h : r.Altered changed r') (text : String) :
    (r.keeping text).Altered changed (r'.keeping text) := by
  unfold Reader.keeping
  split
  · exact h.setHead _
  · exact (h.setHead _).hold rfl

/-- What a conditional decides is applied to both readers. -/
theorem ruled (h : r.Altered changed r') (ruling : Ruling) :
    (ruling.apply r).Altered changed (ruling.apply r') := by
  cases ruling with
  | set conditionals skipping => exact { h with conditionals := rfl, skipping := rfl }
  | keep text => exact h.keeping text

/-- A line that is put in front is put in front of both. -/
theorem unshift (h : r.Altered changed r') (text : String) :
    (r.unshift text).Altered changed (r'.unshift text) := by
  have hback : ({ r.scope.cursor with lineno := r.scope.cursor.lineno + -1 } : Cursor).next =
      r.scope.cursor := by
    cases hcursor : r.scope.cursor
    simp only [Cursor.next, Cursor.mk.injEq, true_and]
    omega
  rcases h.scope with ⟨hcursor, hlines⟩
  refine { h with
    scope := ⟨?_, ?_⟩
    lookAhead := congrArg (· + 1) h.lookAhead
    front := fun _ => rfl }
  · simp only [Reader.unshift, Reader.advance, hcursor]
  · refine .same text ?_
    rw [show (r.unshift text).scope.cursor.next = r.scope.cursor from hback]
    exact hlines

/-- A file is entered with altered lines. -/
theorem entered (h : r.Altered changed r') {lines lines' : List String} {cursor : Cursor}
    (hlines : DocFlatten.Altered changed cursor lines lines') (frame : Nat) :
    (r.entered lines cursor frame).Altered changed (r'.entered lines' cursor frame) :=
  { h with
    scope := ⟨rfl, hlines⟩
    outer := .cons h.scope h.outer
    lookAhead := rfl
    front := fun hlook => absurd hlook (Nat.lt_irrefl 0) }

/-- What an include directive changes, in two sessions that may enter altered contents. -/
theorem way (h : r.Altered changed r') (hlook : r.lookAhead ≤ 1) {way way' : Way}
    (hway : Way.Alike (DocFlatten.Altered changed) way way') :
    (way.apply r).Altered changed (way'.apply r') := by
  have hshifted := h.shifted hlook
  cases hway with
  | vanished => exact hshifted
  | empty => exact { hshifted with }
  | replaced text => exact hshifted.unshift text
  | entered lines lines' cursor frame hlines => exact hshifted.entered hlines frame

end Reader.Altered

/-! ## Altered files -/

/-- Two lines of a file, the second one in the place of the first one: if they differ, the first one
is changed, wherever it is. What a file is selected by stays. -/
structure AlteredLine (changed : Cursor → String → Prop) (path line line' : String) : Prop where
  altered : line' = line ∨ isPassedOver line = true ∧ isPassedOver line' = true ∧
    ∀ cursor : Cursor, cursor.file = some path → changed cursor line
  marker : Marker.ofLine? line' = Marker.ofLine? line
  trimmed : Text.stripEnd line = line
  trimmed' : Text.stripEnd line' = line'

/-- Altered lines with their numbers. -/
def AlteredAt (changed : Cursor → String → Prop) (path : String) (line line' : String × Nat) :
    Prop :=
  AlteredLine changed path line.1 line'.1 ∧ line'.2 = line.2

/-- Lines that are altered one by one are altered as the contents of a file. -/
theorem altered_of_lines {path : String} {lines lines' : List String}
    (h : List.Forall₂ (AlteredLine changed path) lines lines') {cursor : Cursor}
    (hfile : cursor.file = some path) :
    Altered changed cursor (Source.lines lines).prepare (Source.lines lines').prepare := by
  change Altered changed cursor (lines.map Text.stripEnd) (lines'.map Text.stripEnd)
  induction h generalizing cursor with
  | nil => exact .nil cursor
  | cons hline _ ih =>
    have hrest := @ih cursor.next hfile
    rw [List.map_cons, List.map_cons, hline.trimmed, hline.trimmed']
    rcases hline.altered with rfl | ⟨hold, hnew, hchanged⟩
    · exact .same _ hrest
    · exact .other hold hnew (hchanged cursor hfile) hrest

/-- Numbering altered lines keeps them in pairs. -/
theorem alteredAt_numbered {path : String} {lines lines' : List String}
    (h : List.Forall₂ (AlteredLine changed path) lines lines') :
    List.Forall₂ (AlteredAt changed path) (numbered lines) (numbered lines') := by
  unfold numbered
  generalize 1 = n
  induction h generalizing n with
  | nil => exact .nil
  | cons hline _ ih => exact .cons ⟨hline, rfl⟩ (ih (n + 1))

/-- Ranges choose lines by number, so they choose altered lines in pairs. -/
theorem alteredAt_inRangesOnly {path : String} (ranges : List Range)
    {lines lines' : List (String × Nat)}
    (h : List.Forall₂ (AlteredAt changed path) lines lines') :
    List.Forall₂ (AlteredAt changed path) (inRangesOnly ranges lines)
      (inRangesOnly ranges lines') := by
  unfold inRangesOnly
  induction h with
  | nil => exact .nil
  | cons hline _ ih =>
    rw [List.filter_cons, List.filter_cons, hline.2]
    split
    · exact .cons hline ih
    · exact ih

/-- Tags choose lines by the markers, which are not altered. -/
theorem alteredAt_keep {path : String} (rule : TagRule) (regions : Regions)
    {lines lines' : List (String × Nat)}
    (h : List.Forall₂ (AlteredAt changed path) lines lines') :
    List.Forall₂ (AlteredAt changed path) (rule.keep regions lines)
      (rule.keep regions lines') := by
  induction h generalizing regions with
  | nil => exact .nil
  | cons hline _ ih =>
    unfold TagRule.keep
    rw [hline.1.marker]
    split
    · exact ih _
    · split
      · exact .cons hline (ih _)
      · exact ih _

/-- What is selected of altered lines: as many lines from the same place on. -/
structure AlteredSelection (changed : Cursor → String → Prop) (path : String)
    (selection selection' : Selection) : Prop where
  lineno : selection'.lineno = selection.lineno
  isPartial : selection'.isPartial = selection.isPartial
  lines : List.Forall₂ (AlteredLine changed path) selection.lines selection'.lines

/-- The lines that are kept are altered ones with the same first number. -/
theorem alteredSelection_ofKept {path : String} {kept kept' : List (String × Nat)}
    (h : List.Forall₂ (AlteredAt changed path) kept kept') :
    AlteredSelection changed path (Selection.ofKept kept) (Selection.ofKept kept') := by
  refine ⟨?_, rfl, ?_⟩
  · cases h with
    | nil => rfl
    | cons hline _ => simp [Selection.ofKept, hline.2]
  · unfold Selection.ofKept
    simp only
    induction h with
    | nil => exact .nil
    | cons hline _ ih => exact .cons hline.1 ih

/-- Tags select altered lines of altered files. -/
theorem alteredSelection_byTags {path : String} (attributes : Attributes) (shown : String)
    {lines lines' : List String} (h : List.Forall₂ (AlteredLine changed path) lines lines') :
    AlteredSelection changed path (Selection.byTags attributes shown lines).1
      (Selection.byTags attributes shown lines').1 := by
  unfold Selection.byTags
  split
  · exact ⟨rfl, rfl, h⟩
  · split
    · exact ⟨rfl, rfl, h⟩
    · exact alteredSelection_ofKept (alteredAt_keep _ [] (alteredAt_numbered h))

/-- Attributes select altered lines of altered files. -/
theorem alteredSelection_ofAttributes {path : String} (attributes : Attributes) (shown : String)
    {lines lines' : List String} (h : List.Forall₂ (AlteredLine changed path) lines lines') :
    AlteredSelection changed path (Selection.ofAttributes attributes shown lines).1
      (Selection.ofAttributes attributes shown lines').1 := by
  unfold Selection.ofAttributes
  split
  · exact alteredSelection_byTags attributes shown h
  · split
    · exact alteredSelection_byTags attributes shown h
    · exact alteredSelection_ofKept (alteredAt_inRangesOnly _ (alteredAt_numbered h))

/-- Files whose lines are altered are altered whatever is selected of them. -/
theorem FileTree.alike_of_lines {files files' : FileTree}
    (hworking : files'.workingDir = files.workingDir)
    (hfile : ∀ path, files'.isFile path = files.isFile path)
    (hread : ∀ path, files'.readText path = files.readText path ∨
      ∃ text text', files.readText path = .ok text ∧ files'.readText path = .ok text' ∧
        List.Forall₂ (AlteredLine changed path) (Source.text text).prepare
          (Source.text text').prepare) :
    FileTree.Alike (Altered changed) files files' where
  workingDir := hworking
  isFile := hfile
  read path hpath := by
    -- for every path the text is the same, or altered line by line
    rcases hread path with hsame | ⟨text, text', hs, ht, hlines⟩
    · rw [hsame]
      exact (FileTree.Alike.refl Altered.refl files).read path hpath
    · refine Or.inr ⟨text, text', hs, ht, ?_⟩
      intro attributes shownPath
      have hselection := alteredSelection_ofAttributes attributes shownPath hlines
      refine ⟨hselection.lineno, hselection.isPartial, ?_⟩
      intro cursor hcursor _
      exact altered_of_lines hselection.lines hcursor

/-! ## Altered trees -/

/-- What two trees have at a place: the same, or two files that can be read, of which the second one
is altered. -/
inductive AlteredNode (changed : Cursor → String → Prop) :
    Option FileNode → Option FileNode → Prop where
  | same (node : Option FileNode) : AlteredNode changed node node
  | file {c c' : Content} {text text' : String} (stamp stamp' : Nat)
      (hc : FileTree.textOf c = .ok text) (hc' : FileTree.textOf c' = .ok text')
      (h : ∀ path, List.Forall₂ (AlteredLine changed path) (Source.text text).prepare
        (Source.text text').prepare) :
    AlteredNode changed (some (.file c stamp)) (some (.file c' stamp'))

/-- Trees with entries at the same places, some of which are altered files. -/
structure AlteredTree (changed : Cursor → String → Prop) (files files' : FileTree) : Prop where
  workingDir : files'.workingDir = files.workingDir
  node : ∀ place, AlteredNode changed (files.node? place) (files'.node? place)

namespace AlteredTree

variable {files files' : FileTree}

/-- Trees are altered if their entries are, one by one. -/
theorem of_entries (hworking : files'.workingDir = files.workingDir)
    (h : List.Forall₂ (fun entry entry' => entry'.1 = entry.1 ∧
      AlteredNode changed (some entry.2) (some entry'.2)) files.entries files'.entries) :
    AlteredTree changed files files' := by
  refine ⟨hworking, fun place => ?_⟩
  unfold FileTree.node?
  split
  · -- the root is a directory in both trees
    exact .same _
  · generalize files.entries = entries at h ⊢
    generalize files'.entries = entries' at h ⊢
    induction h with
    | nil => exact .same none
    | @cons entry entry' _ _ hentry _ ih =>
      rw [List.find?_cons, List.find?_cons, hentry.1]
      cases entry.1 == place with
      -- the entry is the one that is looked for
      | true => exact hentry.2
      -- the entry is another one
      | false => exact ih

/-- A step of a look-up does not read contents. -/
theorem step (h : AlteredTree changed files files') (path : String) (place : List String)
    (part : String) : files'.step path place part = files.step path place part := by
  have hnode := h.node place
  unfold FileTree.step
  generalize files.node? place = node at hnode ⊢
  generalize files'.node? place = node' at hnode ⊢
  cases hnode <;> rfl

theorem follow (h : AlteredTree changed files files') (path : String) (place parts : List String) :
    files'.follow path place parts = files.follow path place parts := by
  induction parts generalizing place with
  | nil => rfl
  | cons part parts ih =>
    unfold FileTree.follow
    rw [h.step]
    cases files.step path place part with
    | error e => rfl
    | ok next =>
      have hnode := h.node next
      simp only [ih]
      generalize files.node? next = node at hnode ⊢
      generalize files'.node? next = node' at hnode ⊢
      cases hnode <;> rfl

/-- What is found at a path is at the same place in both trees. -/
theorem locate (h : AlteredTree changed files files') (path : String) :
    files'.locate path = files.locate path := by
  unfold FileTree.locate
  rw [h.follow, h.workingDir]

theorem isFile (h : AlteredTree changed files files') (path : String) :
    files'.isFile path = files.isFile path := by
  unfold FileTree.isFile FileTree.stat
  rw [h.locate]
  cases files.locate path with
  | error e => cases e <;> rfl
  | ok place =>
    have hnode := h.node place
    dsimp only
    generalize files.node? place = node at hnode ⊢
    generalize files'.node? place = node' at hnode ⊢
    cases hnode with
    | same => rfl
    | file => split <;> rfl

/-- Trees of altered files are alike, whatever is included of them. -/
theorem alike (h : AlteredTree changed files files') :
    FileTree.Alike (Altered changed) files files' := by
  refine FileTree.alike_of_lines h.workingDir h.isFile fun path => ?_
  unfold FileTree.readText FileTree.content
  rw [h.locate]
  cases files.locate path with
  | error e => exact Or.inl rfl
  | ok place =>
    have hnode := h.node place
    dsimp only
    generalize files.node? place = node at hnode ⊢
    generalize files'.node? place = node' at hnode ⊢
    cases hnode with
    | same => exact Or.inl rfl
    | @file c c' text text' stamp stamp' hc hc' hlines =>
      exact Or.inr ⟨text, text', by simp [hc], by simp [hc'], hlines path⟩

end AlteredTree

end DocFlatten
