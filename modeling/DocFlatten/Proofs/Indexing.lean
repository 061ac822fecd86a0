import DocFlatten.Proofs.Absorbing
import DocFlatten.Proofs.Shadowing
import DocFlatten.Proofs.Vetting

/-! # Indices are in step with the reader

A tracker computes the index of a line from its number and from an offset that is fixed when a scope is
entered. The number starts where the selection of lines starts, minus the lines added in front; it moves
on with each line that is taken, moves back with each line that is put in front again, and is kept for
each scope that is left for an include. All drops and places rest on the index being right, and so it is
(`indices_in_step`): the lines that a reader has left of a scope are those of the node from the index on.

* `Tree.Faces`: how the scope being read stands to its node; the line in front may be another one;
* `Tree.GoesOn`, `Tree.Around`: how the scopes around it stand to the nodes above;
* `Tracker.Aligned`: both of them, which every step of reading keeps;
* `Session.Indexed`: what holds whenever a line was looked for or taken.
-/

namespace DocFlatten

namespace Replacement

/-! ## Nodes without their drops -/

/-- A node without its drops: all of it that stays as it was when the node was created. -/
def Node.bare (n : Node) : Node :=
  { n with drops := [] }

namespace Tree

variable {t t' : Tree} {source : List String} {id i : Nat} {scope : Scope}

/-- Adding drops keeps what a node is without them. -/
theorem AddsDrops.keeps_bare (h : t.AddsDrops t') : t.Keeps Node.bare t' :=
  (h.alike fun _ _ => rfl).keeps

/-- Then the lines of a node are the same. -/
theorem Keeps.linesOf_eq (h : t.Keeps Node.bare t') {n : Node} (hn : t.node? id = some n)
    (source : List String) : t'.linesOf source id = t.linesOf source id := by
  obtain ⟨n', hn', hsame⟩ := h id n hn
  have hlines : n'.bare.lines = n.bare.lines := by rw [hsame]
  change n'.lines = n.lines at hlines
  simp [linesOf, hn, hn', hlines]

/-- And so is where it stands. -/
theorem Keeps.siteOf?_eq (h : t.Keeps Node.bare t') {site : Site} (hsite : t.siteOf? id = some site) :
    t'.siteOf? id = some site := by
  obtain ⟨n, hn, hs⟩ := Option.bind_eq_some_iff.mp hsite
  obtain ⟨n', hn', hsame⟩ := h id n hn
  have hsite' : n'.bare.site? = n.bare.site? := congrArg Node.site? hsame
  unfold siteOf?
  rw [hn']
  exact hsite'.trans hs

/-! ## Scopes and nodes -/

/-- A scope that stands at line `i` of a node: this is the index of its position, and it has just
the lines of the node that are left from there, except that the one in front may be another one. -/
structure Faces (t : Tree) (source : List String) (id : Nat) (scope : Scope) (i : Nat) : Prop where
  index : ∃ n, t.node? id = some n ∧ n.indexOf scope.cursor.lineno = i
  le : i ≤ (t.linesOf source id).length
  count : scope.lines.length = (t.linesOf source id).length - i
  behind : scope.lines.tail = (t.linesOf source id).drop (i + 1)

/-- A scope that goes on at line `i` of a node: it has the lines of the node from there on. -/
structure GoesOn (t : Tree) (source : List String) (id : Nat) (scope : Scope) (i : Nat) : Prop where
  index : ∃ n, t.node? id = some n ∧ n.indexOf scope.cursor.lineno = i
  le : i ≤ (t.linesOf source id).length
  lines : scope.lines = (t.linesOf source id).drop i

/-- What goes on at an index faces the line there. -/
theorem GoesOn.faces (h : t.GoesOn source id scope i) : t.Faces source id scope i where
  index := h.index
  le := h.le
  count := by rw [h.lines, List.length_drop]
  behind := by rw [h.lines, List.tail_drop]

/-- Nodes keep their lines and their offsets, so scopes stay where they stand. -/
theorem Faces.keeps (h : t.Faces source id scope i) (hkeeps : t.Keeps Node.bare t') :
    t'.Faces source id scope i := by
  obtain ⟨⟨n, hn, hindex⟩, hle, hcount, hbehind⟩ := h
  obtain ⟨n', hn', hsame⟩ := hkeeps id n hn
  have hindex' : n'.bare.indexOf scope.cursor.lineno = n.bare.indexOf scope.cursor.lineno := by
    rw [hsame]
  rw [← hkeeps.linesOf_eq hn source] at hle hcount hbehind
  exact ⟨⟨n', hn', hindex'.trans hindex⟩, hle, hcount, hbehind⟩

theorem GoesOn.keeps (h : t.GoesOn source id scope i) (hkeeps : t.Keeps Node.bare t') :
    t'.GoesOn source id scope i := by
  obtain ⟨n, hn, -⟩ := h.index
  have hfaces := h.faces.keeps hkeeps
  exact ⟨hfaces.index, hfaces.le, h.lines.trans (by rw [hkeeps.linesOf_eq hn])⟩

/-- Once the line in front is taken, nothing but lines of the node is left. -/
theorem Faces.shifted {r : Reader} (h : t.Faces source id r.scope i) {line : String}
    {rest : List String} (hfront : r.scope.lines = line :: rest) :
    t.GoesOn source id r.shifted.scope (i + 1) := by
  obtain ⟨⟨n, hn, hindex⟩, hle, hcount, hbehind⟩ := h
  rw [hfront] at hcount hbehind
  rw [List.length_cons] at hcount
  rw [Reader.shifted_of_lines hfront]
  refine ⟨⟨n, hn, ?_⟩, by omega, hbehind⟩
  simp only [Node.indexOf, Reader.cursor] at hindex ⊢
  omega

/-- Putting another line in front does not change where a scope stands. -/
theorem Faces.replace (h : t.Faces source id scope i) {line : String} {rest : List String}
    (hfront : scope.lines = line :: rest) (text : String) :
    t.Faces source id { scope with lines := text :: rest } i := by
  obtain ⟨hindex, hle, hcount, hbehind⟩ := h
  rw [hfront] at hcount hbehind
  exact ⟨hindex, hle, hcount, hbehind⟩

/-- Where nothing is left, nothing is in front that could be another line. -/
theorem Faces.goesOn_of_nil (h : t.Faces source id scope i) (hnil : scope.lines = []) :
    t.GoesOn source id scope i := by
  refine ⟨h.index, h.le, ?_⟩
  have hcount := h.count
  rw [hnil, List.length_nil] at hcount
  rw [hnil, List.drop_of_length_le (by omega)]

/-- The scopes around the one that is read, out to the document, with the nodes above the node of that
one. Each goes on at the line after the include that is being read. -/
inductive Around (t : Tree) (source : List String) :
    Nat → List TrackedScope → List Scope → Prop where
  | document : Around t source 0 [] []
  | inside {c p i : Nat} {directive : String} {scopes : List TrackedScope} {scope : Scope}
      {outer : List Scope} (hsite : t.siteOf? c = some ⟨p, i, directive⟩)
      (hscope : t.GoesOn source p scope (i + 1)) (h : Around t source p scopes outer) :
    Around t source c (⟨c, outer.length + 1⟩ :: scopes) (scope :: outer)

namespace Around

variable {c : Nat} {scopes : List TrackedScope} {outer : List Scope}

/-- The nodes around stay aligned with the scopes around. -/
theorem keeps (h : t.Around source c scopes outer) (hkeeps : t.Keeps Node.bare t') :
    t'.Around source c scopes outer := by
  induction h with
  | document => exact .document
  | inside hsite hscope _ ih => exact .inside (hkeeps.siteOf?_eq hsite) (hscope.keeps hkeeps) ih

/-- The innermost scope that is tracked has the depth of the reader. -/
theorem depth_eq (h : t.Around source c scopes outer) :
    ∀ scope ∈ scopes.head?, scope.depth = outer.length := by
  cases h with
  | document => simp
  | inside => simp

end Around

end Tree

/-! ## Trackers and readers -/

namespace Tracker

/-- A tracker that knows of no include without an outcome, whose active node is that of the scope being
read and whose tracked scopes are those around it. -/
structure Aligned (source : List String) (k : Tracker) (r : Reader) : Prop where
  pending : k.pending = none
  here : ∃ i, k.tree.Faces source k.active r.scope i
  around : k.tree.Around source k.active k.scopes r.outer

/-- Leaving the innermost scope that is tracked, whether conditionals are kept or not. -/
theorem onScopeEnd_inside {k : Tracker} {c p : Nat} {i depth after : Int} {directive : String}
    {scopes : List TrackedScope} (hsite : k.tree.siteOf? c = some ⟨p, i, directive⟩)
    (hscopes : k.scopes = ⟨c, depth⟩ :: scopes) (hdepth : after < depth) :
    (k.onScopeEnd after).active = p ∧ (k.onScopeEnd after).scopes = scopes := by
  obtain ⟨n, hn, hs⟩ := Option.bind_eq_some_iff.mp hsite
  have hparent : n.parent = some p := (Node.site?_eq_some_iff.mp hs).1
  rw [onScopeEnd_of_lt hscopes hdepth hn]
  simp only [hparent, Option.getD_some]
  split <;> exact ⟨rfl, rfl⟩

namespace Aligned

variable {source : List String} {k k' : Tracker} {r r' : Reader}

/-- Only the scope and those around it matter. -/
theorem congr (h : Aligned source k r) (hscope : r'.scope = r.scope) (houter : r'.outer = r.outer) :
    Aligned source k r' where
  pending := h.pending
  here := by rw [hscope]; exact h.here
  around := by rw [houter]; exact h.around

/-- Whatever happens to a tree, scopes stay where they stand as long as nodes do. -/
theorem keeps (h : Aligned source k r) (hkeeps : k.tree.Keeps Node.bare k'.tree)
    (hpending : k'.pending = none) (hactive : k'.active = k.active) (hscopes : k'.scopes = k.scopes) :
    Aligned source k' r := by
  obtain ⟨i, hhere⟩ := h.here
  refine ⟨hpending, ⟨i, ?_⟩, ?_⟩
  · rw [hactive]
    exact hhere.keeps hkeeps
  · rw [hactive, hscopes]
    exact h.around.keeps hkeeps

/-- The line in front is taken. -/
theorem shifted (h : Aligned source k r) {line : String} {rest : List String}
    (hfront : r.scope.lines = line :: rest) : Aligned source k r.shifted := by
  obtain ⟨i, hhere⟩ := h.here
  refine ⟨h.pending, ⟨i + 1, (hhere.shifted hfront).faces⟩, ?_⟩
  rw [r.outer_shifted]
  exact h.around

/-- Another line is put in front. -/
theorem replace (h : Aligned source k r) {line text : String} {rest : List String}
    (hfront : r.scope.lines = line :: rest) (hscope : r'.scope = { r.scope with lines := text :: rest })
    (houter : r'.outer = r.outer) : Aligned source k r' := by
  obtain ⟨i, hhere⟩ := h.here
  refine ⟨h.pending, ⟨i, ?_⟩, ?_⟩
  · rw [hscope]
    exact hhere.replace hfront text
  · rw [houter]
    exact h.around

/-- Whatever a conditional does, its line is taken or another one is put in front. -/
theorem conditional (h : Aligned source k r) {line : String} {rest : List String}
    (hfront : r.scope.lines = line :: rest) {c : Conditional} {consumed : Bool}
    (hruled : Ruled r c consumed r') :
    Aligned source (k.observe (c.event r r' consumed)).1 (if consumed then r'.shifted else r') := by
  have hbeside : Beside k (k.observe (c.event r r' consumed)).1 := beside_onConditional k _
  have hkeeps : k.tree.Keeps Node.bare (k.observe (c.event r r' consumed)).1.tree :=
    (addsDrops_onConditional k _).keeps_bare
  have hobserved : Aligned source (k.observe (c.event r r' consumed)).1 r :=
    h.keeps hkeeps (hbeside.pending.trans h.pending) hbeside.active hbeside.scopes
  have htaken : ∀ after : Reader, after.scope = r.scope → after.outer = r.outer →
      Aligned source (k.observe (c.event r r' consumed)).1 after.shifted := by
    intro after hscope houter
    exact (hobserved.congr hscope houter).shifted (by rw [hscope]; exact hfront)
  cases hruled with
  -- the line of the directive is used up
  | idle | opened | closed => exact htaken _ rfl rfl
  -- the text of the conditional stands in the place of its line
  | kept text =>
    have hscope := r.scope_keeping text
    rw [hfront] at hscope
    exact hobserved.replace hfront hscope (r.outer_keeping text)

/-- An include directive and its outcome are recorded for the line that the reader stands at. -/
theorem observeAll_found (h : Aligned source k r) {i : Nat}
    (hhere : k.tree.Faces source k.active r.scope i) (d : Include) {ends : List Event}
    (hends : AreEnds r.includeDepth ends) (o : Outcome) :
    k.observeAll (r.found d :: ends ++ [.includeResolved o]) = k.including i d.line o := by
  have hindex : k.activeNode.indexOf r.cursor.lineno = i := by
    obtain ⟨n, hn, hindex⟩ := hhere.index
    unfold activeNode
    rw [hn]
    exact hindex
  have hdepth : ∀ scope ∈ k.scopes.head?, scope.depth ≤ r.includeDepth := fun scope hscope =>
    Int.le_of_eq (h.around.depth_eq scope hscope)
  have hobserve := observeAll_include ⟨d, r.cursor.lineno⟩ o h.pending hdepth hends
  rwa [hindex] at hobserve

/-- A directive that leaves some lines, or none, but no scope. -/
theorem attach (h : Aligned source k r) (position : Int) (directive : String) (left : List String) :
    Aligned source { k with tree := k.tree.attach k.active position directive left 0 } r :=
  h.keeps (Tree.keeps_attach _ _ _ _ _ _ _) h.pending rfl rfl

/-- A scope that is entered stands at its first line, and the one around it goes on at the line after
the directive. The offset of the new node undoes what is added in front. -/
theorem enter (h : Aligned source k r) {line : String} {rest : List String}
    (hfront : r.scope.lines = line :: rest) {i : Nat}
    (hhere : k.tree.Faces source k.active r.scope i) (directive : String) (lines : List String)
    (cursor : Cursor) (frame : Nat) :
    Aligned source (k.including i directive
        (.entered lines (cursor.lineno + frame) frame (r.includeDepth + 1)))
      (r.shifted.entered lines cursor frame) := by
  have hkeeps := Tree.keeps_attach k.tree Node.bare k.active i directive lines
    (cursor.lineno + frame - 1 - frame)
  obtain ⟨n, hn, -⟩ := hhere.index
  have hsize : 0 < k.tree.size := Nat.zero_lt_of_lt (Tree.lt_size_of_node? hn)
  have hlines := k.tree.linesOf_attach_self k.active i directive lines
    (cursor.lineno + frame - 1 - frame) source hsize
  refine ⟨h.pending, ⟨0, Tree.GoesOn.faces ⟨⟨_, Tree.node?_attach_self _ _ _ _ _ _, ?_⟩, ?_, ?_⟩⟩, ?_⟩
  · -- the first line of the content has index zero
    simp only [Node.indexOf, Tree.newNode, Reader.entered]
    omega
  · exact Nat.zero_le _
  · exact hlines.symm
  · -- the scope around it goes on after the directive
    have haround := Tree.Around.inside (Tree.siteOf?_attach_self _ _ _ _ _ _)
      ((hhere.shifted hfront).keeps hkeeps) (h.around.keeps hkeeps)
    simpa [including, Reader.entered, Reader.includeDepth] using haround

/-- However an include directive is followed, the tracker follows. -/
theorem followed (h : Aligned source k r) {line : String} {rest : List String}
    (hfront : r.scope.lines = line :: rest) {d : Include} {es : List Event}
    (hfollowed : Followed r d es r') : Aligned source (k.observeAll es) r' := by
  obtain ⟨i, hhere⟩ := h.here
  have hnone : AreEnds r.includeDepth [] := fun e he => by cases he
  cases hfollowed with
  | kept =>
    -- the line stays as it is, and its node holds it
    have hobserve := h.observeAll_found hhere d hnone (.replaced d.line r.includeDepth)
    simp only [List.nil_append, List.cons_append] at hobserve
    rw [hobserve]
    exact (h.attach i d.line [d.line]).congr rfl rfl
  | gone ends frame hends =>
    -- the line is gone, and its node holds nothing
    rw [h.observeAll_found hhere d hends]
    exact ((h.attach i d.line []).shifted hfront).congr rfl rfl
  | replaced text =>
    -- the replacement stands in front, and the node holds it
    have hobserve := h.observeAll_found hhere d hnone (.replaced text r.includeDepth)
    simp only [List.nil_append, List.cons_append] at hobserve
    rw [hobserve]
    have hscope : (r.shifted.unshift text).scope = { r.scope with lines := text :: rest } := by
      rw [Reader.shifted_of_lines hfront]
      simp only [Reader.unshift, Reader.advance, Reader.cursor, Int.add_neg_cancel_right]
    exact (h.attach i d.line [text]).replace hfront hscope r.outer_shifted
  | entered lines cursor frame ends _ hends =>
    -- the file is entered, and its node is the active one now
    rw [h.observeAll_found hhere d hends]
    exact h.enter hfront hhere d.line lines cursor frame

/-- Leaving a scope goes on in the one around it, at the line after the include. -/
theorem leave (h : Aligned source k r) {scope : Scope} {outer : List Scope}
    (houter : r.outer = scope :: outer) :
    Aligned source (k.onScopeEnd outer.length) { r with scope, outer, lookAhead := 0 } := by
  have hkeeps := (addsDrops_onScopeEnd k outer.length).keeps_bare
  have hpending := (pending_onScopeEnd k outer.length).trans h.pending
  have haround := h.around
  rw [houter] at haround
  generalize hscopes : k.scopes = scopes at haround
  generalize k.active = active at haround
  cases haround with
  | @inside _ p i _ _ _ _ hsite hscope haround =>
    have hshallower : (outer.length : Int) < outer.length + 1 := by omega
    obtain ⟨hactive, hrest⟩ := onScopeEnd_inside hsite hscopes hshallower
    refine ⟨hpending, ⟨i + 1, ?_⟩, ?_⟩
    · rw [hactive]
      exact hscope.faces.keeps hkeeps
    · rw [hactive, hrest]
      exact haround.keeps hkeeps

end Aligned

end Tracker

end Replacement

open DocFlatten.Replacement

namespace Session

/-! ## Driven readers -/

/-- A session with which the tracker that has followed it is aligned, after every step of reading. -/
structure Aligned (preserve : Bool) (s : Session) : Prop where
  processors : s.doc.options.processors = []
  aligned : (s.tracker preserve).Aligned s.doc.sourceLines s.reader

namespace Aligned

variable {preserve : Bool} {s s' : Session} {r : Reader} {es : List Event}

/-- A turn stays aligned if the tracker does over its events. -/
theorem turn (h : s.Aligned preserve) (hturns : Turns s r es s')
    (haligned : ((s.tracker preserve).observeAll es).Aligned s.doc.sourceLines r) :
    s'.Aligned preserve := by
  constructor
  · rw [hturns.doc]
    exact h.processors
  · rw [hturns.tracker, hturns.reader, hturns.doc]
    exact haligned

/-- Nothing is reported, and all lines stay. -/
theorem silent (h : s.Aligned preserve) (hturns : Turns s r [] s') (hscope : r.scope = s.reader.scope)
    (houter : r.outer = s.reader.outer) : s'.Aligned preserve :=
  h.turn hturns (h.aligned.congr hscope houter)

/-- A look at a line stays aligned, whatever becomes of the line. -/
theorem look {line : String} {rest : List String} {g : Glance} (h : s.Aligned preserve)
    (hfront : s.reader.scope.lines = line :: rest) (hlook : Look s line g) :
    Ends (Aligned preserve) g := by
  cases hlook with
  | plain s' hturns => exact h.silent hturns rfl rfl
  | escaped s' hturns => exact h.silent hturns rfl rfl
  | passed s' _ _ hturns => exact h.turn hturns (h.aligned.shifted hfront)
  | conditional c consumed r s' _ _ hruled hturns =>
    exact h.turn hturns (h.aligned.conditional hfront hruled)
  | kept i s' _ _ _ hturns => exact h.turn hturns (h.aligned.followed hfront .kept)
  | followed i es r s' _ _ hfollowed hturns =>
    exact h.turn hturns (h.aligned.followed hfront hfollowed)
  | handed i processor target attributes s' _ _ hresolve hturns =>
    exact absurd hresolve (resolve_ne_handed h.processors)
  | refused => exact trivial

/-- Taking a line goes on to the next one. -/
theorem takeFront (h : s.Aligned preserve) {line : String} {rest : List String}
    (hfront : s.reader.scope.lines = line :: rest) : s.takeFront.2.Aligned preserve := by
  constructor
  · rw [doc_takeFront]
    exact h.processors
  · rw [tracker_takeFront, reader_takeFront, doc_takeFront]
    exact h.aligned.shifted hfront

end Aligned

/-- Reading and scanning keep a tracker aligned with its reader. -/
theorem harmless_aligned (preserve : Bool) : Scan.Harmless (Aligned preserve) where
  reading :=
    { leave := fun s h _ _ houter => by
        obtain ⟨scope, outer, hscopes⟩ := List.exists_cons_of_ne_nil houter
        exact h.turn (turns_leave hscopes) (h.aligned.leave hscopes)
      meet := fun s line h => by
        refine ⟨h.processors, ?_⟩
        rw [tracker_meet]
        exact h.aligned
      look := fun s line rest g h _ hfront _ hlook => h.look hfront hlook
      take := fun s h hsteady hlook => by
        obtain ⟨line, rest, hfront⟩ := hsteady.exists_front hlook
        exact h.takeFront hfront }
  edit s d h hedit := by
    have hr : ({ s with doc := d } : Session).reader = s.reader := hedit.reader
    constructor
    · simp only [hedit.options]
      exact h.processors
    · rw [hr]
      simp only [hedit.sourceLines]
      exact h.aligned
  log s record h := by
    refine ⟨h.processors, ?_⟩
    rw [tracker_log]
    exact h.aligned

/-- Before anything is read, all lines of the document are left. -/
theorem aligned_openSource {files : FileTree} {source : Source} {o : LoadOptions} {s : Session}
    (preserve : Bool) (hprocessors : o.processors = []) (h : openSource files source o = .ok s) :
    s.Aligned preserve ∧ (s.tracker preserve).tree.GoesOn s.doc.sourceLines
      (s.tracker preserve).active s.reader.scope 0 := by
  obtain ⟨mode, -, rfl⟩ := openSource_eq_ok.mp h
  have hgoes : (Tracker.start preserve).tree.GoesOn source.prepare (Tracker.start preserve).active
      (start files (.initial files.workingDir source o mode)).reader.scope 0 :=
    ⟨⟨_, rfl, rfl⟩, Nat.zero_le _, rfl⟩
  exact ⟨⟨hprocessors, ⟨rfl, ⟨0, hgoes.faces⟩, .document⟩⟩, hgoes⟩

/-- What a session and the tracker that has followed it agree on whenever a line was looked for or
taken. The scope being read stands at some line of the active node, and only a line that waits to be
taken may be another one than the node's. The scopes around it go on after the includes being read. -/
structure Indexed (preserve : Bool) (s : Session) : Prop where
  here : ∃ i : Nat,
    (s.tracker preserve).tree.Faces s.doc.sourceLines (s.tracker preserve).active s.reader.scope i ∧
      (s.reader.lookAhead = 0 → (s.tracker preserve).tree.GoesOn s.doc.sourceLines
        (s.tracker preserve).active s.reader.scope i)
  around : (s.tracker preserve).tree.Around s.doc.sourceLines (s.tracker preserve).active
    (s.tracker preserve).scopes s.reader.outer

namespace Indexed

variable {preserve : Bool} {s : Session}

/-- Where reading goes on, the index is that of the line in front. -/
theorem of_goesOn (h : s.Aligned preserve) {i : Nat}
    (hgoes : (s.tracker preserve).tree.GoesOn s.doc.sourceLines (s.tracker preserve).active
      s.reader.scope i) : s.Indexed preserve :=
  ⟨⟨i, hgoes.faces, fun _ => hgoes⟩, h.aligned.around⟩

/-- A line waits to be taken. -/
theorem of_held (h : s.Aligned preserve) (hlook : 0 < s.reader.lookAhead) : s.Indexed preserve := by
  obtain ⟨i, hhere⟩ := h.aligned.here
  exact ⟨⟨i, hhere, fun hnone => by omega⟩, h.aligned.around⟩

/-- The document has come to its end. -/
theorem of_exhausted (h : s.Aligned preserve) (hend : Exhausted s.reader) : s.Indexed preserve := by
  obtain ⟨i, hhere⟩ := h.aligned.here
  exact of_goesOn h (hhere.goesOn_of_nil hend.lines)

/-- A line that has waited was taken. -/
theorem takeFront (h : s.Aligned preserve) (hsteady : s.reader.Steady)
    (hlook : 0 < s.reader.lookAhead) : s.takeFront.2.Indexed preserve := by
  obtain ⟨line, rest, hfront⟩ := hsteady.exists_front hlook
  obtain ⟨i, hhere⟩ := h.aligned.here
  refine of_goesOn (h.takeFront hfront) (i := i + 1) ?_
  rw [tracker_takeFront, reader_takeFront, doc_takeFront]
  exact hhere.shifted hfront

end Indexed

section

variable {files : FileTree} {source : Source} {o : LoadOptions} {s : Session}

/-- In every state that a reader is driven to, tracker and reader are aligned. -/
theorem Driven.aligned (preserve : Bool) (hprocessors : o.processors = [])
    (h : Driven Document.Edited files source o s) : s.reader.Steady ∧ s.Aligned preserve :=
  h.of_harmless (harmless_aligned preserve) fun _ hopen =>
    (aligned_openSource preserve hprocessors hopen).1

/-- By induction on how the reader is driven: what a look has found waits to be taken, and what is
left behind a line that is taken are lines of the node. -/
theorem Driven.indexed (preserve : Bool) (hprocessors : o.processors = [])
    (h : Driven Document.Edited files source o s) : s.Indexed preserve := by
  induction h with
  | @start s hopen =>
    obtain ⟨haligned, hgoes⟩ := aligned_openSource preserve hprocessors hopen
    exact .of_goesOn haligned hgoes
  | @peek s s' a fuel h hrun _ =>
    obtain ⟨hsteady, -⟩ := h.aligned preserve hprocessors
    obtain ⟨-, haligned⟩ := (Driven.peek fuel h hrun).aligned preserve hprocessors
    cases a with
    | none => exact .of_exhausted haligned (exhausted_of_peekLine hsteady hrun)
    | some line => exact .of_held haligned ((steady_peekLine hsteady hrun).2.mp rfl)
  | @read s s' a fuel h hrun _ =>
    obtain ⟨hsteady, haligned⟩ := h.aligned preserve hprocessors
    -- a line that waits is taken at once, any other one is looked for first
    by_cases hlook : 0 < s.reader.lookAhead
    · have htook := Indexed.takeFront haligned hsteady hlook
      rw [readLine, takeWith_of_held hlook] at hrun
      rwa [Except.ok.inj hrun] at htook
    · obtain ⟨b, t, hpeek, ⟨rfl, -, rfl⟩ | ⟨hfound, htaken⟩⟩ := Scan.peekLine_of_readLine hlook hrun
      · obtain ⟨-, haligned'⟩ := (Driven.peek fuel h hpeek).aligned preserve hprocessors
        exact .of_exhausted haligned' (exhausted_of_peekLine hsteady hpeek)
      · obtain ⟨hsteady', haligned'⟩ := (Driven.peek fuel h hpeek).aligned preserve hprocessors
        have hwaits := (steady_peekLine hsteady hpeek).2.mp hfound
        have htook := Indexed.takeFront haligned' hsteady' hwaits
        rwa [htaken] at htook
  | @edit s d _ hedit ih =>
    have hr : ({ s with doc := d } : Session).reader = s.reader := hedit.reader
    constructor
    · rw [hr, hedit.sourceLines]
      exact ih.here
    · rw [hr, hedit.sourceLines]
      exact ih.around
  | log record _ ih =>
    constructor
    · rw [tracker_log]
      exact ih.here
    · rw [tracker_log]
      exact ih.around

end

/-- The indices of a tracker are in step with its reader, whether conditionals are kept or not: in every
state of a driven reader, and so in every loaded document. -/
theorem indices_in_step {files : FileTree} {source : Source} {o : LoadOptions}
    (hprocessors : o.processors = []) (preserve : Bool) :
    (∀ s, Driven Document.Edited files source o s → Indexed preserve s) ∧
      ∀ fuel s, load fuel files source o = .ok s → Indexed preserve s := by
  constructor
  · intro s h
    exact h.indexed preserve hprocessors
  · intro fuel s h
    exact (driven_load h).indexed preserve hprocessors

/-- A file with a conditional on its second line. -/
def conditionalFile : FileTree :=
  .ofTexts [("a.adoc", "one\nifndef::x[kept]\nthree\nfour\n")]

/-- A document that includes part of the file, with lines added around. -/
def framedDocument : Source :=
  .lines ["include::a.adoc[lines=2..3,leveloffset=1]", "last"]

/-- A reader of the document at the text of the conditional, which has the index 2 in its scope. -/
theorem indices_in_step_framed :
    ({} : LoadOptions).processors = [] ∧
    ∃ s, Driven Document.Edited conditionalFile framedDocument {} s ∧ s.reader.includeDepth = 1 ∧
      (s.tracker false).activeNode.indexOf s.reader.cursor.lineno = 2 ∧
      s.reader.head? = some "kept" ∧ Indexed false s := by
  have hkept : ∃ s ∈ (openSource conditionalFile framedDocument {}).toOption,
      ∃ first ∈ (s.readLine 4).toOption, ∃ second ∈ (first.2.readLine 4).toOption,
      ∃ third ∈ (second.2.peekLine 4).toOption,
        third.2.reader.includeDepth = 1 ∧
        (third.2.tracker false).activeNode.indexOf third.2.reader.cursor.lineno = 2 ∧
        third.2.reader.head? = some "kept" := by
    decide +kernel
  obtain ⟨s, hs, ⟨_, s₁⟩, hfirst, ⟨_, s₂⟩, hsecond, ⟨_, s₃⟩, hthird, hdepth, hindex, hhead⟩ := hkept
  have hdriven : Driven Document.Edited conditionalFile framedDocument {} s₃ :=
    .peek 4 (.read 4 (.read 4 (.start (eq_ok_of_mem_toOption hs)) (eq_ok_of_mem_toOption hfirst))
      (eq_ok_of_mem_toOption hsecond)) (eq_ok_of_mem_toOption hthird)
  exact ⟨rfl, s₃, hdriven, hdepth, hindex, hhead, (indices_in_step rfl false).1 s₃ hdriven⟩

end Session

end DocFlatten
