import DocFlatten.Proofs.Residue

/-! # Every include finds its place

Replay puts an include only where its directive still stands. Nothing but the source can take it
away from there: no conditional and no end of a scope removes a recorded place, and what is attached
stands where it is attached. So if the source is not changed before the replay, every include that
was recorded is put in its place (`every_include_placed`), unless the text of a single-line
conditional ends in white space: the directive is read without the blanks but recorded with them
(`trailing_blank_misplaced`).

* `MoreDrops`: trees that differ in drops only, and have no fewer;
* `Tree.AllStand`: every include of a tree stands in its place;
* `EveryPlaced`: a replay puts every include in its place; `placedBelow`: the includes that it puts in
  their places, which are those that stand (`mem_placedBelow`).
-/

namespace DocFlatten.Replacement

/-! ## Places stay -/

/-- A tree that differs from another one only in having more drops. -/
structure MoreDrops (t t' : Tree) : Prop where
  size : t'.size = t.size
  site : ∀ c, t'.siteOf? c = t.siteOf? c
  lines : ∀ source c, t'.linesOf source c = t.linesOf source c
  drops : ∀ c, ∀ d ∈ t.dropsOf c, d ∈ t'.dropsOf c

namespace MoreDrops

theorem refl (t : Tree) : MoreDrops t t :=
  ⟨rfl, fun _ => rfl, fun _ _ => rfl, fun _ _ hd => hd⟩

/-- Drops that are added in two steps are added. -/
theorem trans {t u v : Tree} (h : MoreDrops t u) (h' : MoreDrops u v) : MoreDrops t v where
  size := h'.size.trans h.size
  site c := (h'.site c).trans (h.site c)
  lines source c := (h'.lines source c).trans (h.lines source c)
  drops c d hd := h'.drops c d (h.drops c d hd)

theorem addDrops (t : Tree) (id : Nat) (drops : List Drop) :
    MoreDrops t (t.addDrops id drops) where
  size := t.size_addDrops id drops
  site := t.siteOf?_addDrops id drops
  lines source c := t.linesOf_addDrops id drops source c
  drops c d hd := by
    unfold Tree.dropsOf at hd ⊢
    rw [Tree.node?_addDrops]
    split
    · cases hn : t.node? c with
      | none => simp [hn] at hd
      | some n =>
        simp only [hn, Option.map_some, Option.getD_some] at hd ⊢
        exact List.mem_append_left _ hd
    · exact hd

/-- A tree that only gets drops has more of them. -/
theorem of_addsDrops {t t' : Tree} (h : t.AddsDrops t') : MoreDrops t t' := by
  induction h with
  | refl => exact refl t
  | add _ id drops ih => exact ih.trans (.addDrops _ id drops)

theorem stands {t t' : Tree} (h : MoreDrops t t') {source : List String} {c : Nat}
    (hstands : Stands t source c) : Stands t' source c := by
  obtain ⟨p, i, directive, line, hsite, hline, hstand⟩ := hstands
  refine ⟨p, i, directive, line, (h.site c).trans hsite, (h.lines source p).symm ▸ hline, ?_⟩
  simp only [standsAt, Bool.or_eq_true, beq_iff_eq, List.contains_iff_mem] at hstand ⊢
  exact hstand.imp_right (h.drops p _)

end MoreDrops

/-- Every include stands in its place. -/
def Tree.AllStand (t : Tree) (source : List String) : Prop :=
  ∀ c, 0 < c → c < t.size → Stands t source c

/-- More drops leave all nodes standing. -/
theorem MoreDrops.allStand {t t' : Tree} (h : MoreDrops t t') {source : List String}
    (hall : t.AllStand source) : t'.AllStand source := by
  intro c hpos hlt
  rw [h.size] at hlt
  exact h.stands (hall c hpos hlt)

/-- What is attached to a line where its directive stands, stands there; all others stay. -/
theorem Tree.AllStand.attach {t : Tree} {source : List String} (h : t.AllStand source)
    (hsound : t.Sound) {a i : Nat} (ha : a < t.size) {line directive : String}
    (hline : (t.linesOf source a)[i]? = some line)
    (hstands : standsAt (t.dropsOf a) i line directive = true) (lines : List String)
    (offset : Int) : (t.attach a i directive lines offset).AllStand source := by
  -- attaching a node changes neither lines nor drops of the others
  have hsame : ∀ p < t.size,
      (t.attach a i directive lines offset).linesOf source p = t.linesOf source p ∧
        (t.attach a i directive lines offset).dropsOf p = t.dropsOf p := fun p hp =>
    ⟨t.linesOf_attach_of_lt _ _ _ _ _ source hp, t.dropsOf_attach_of_lt _ _ _ _ _ hp⟩
  intro c hpos hlt
  rw [Tree.size_attach] at hlt
  by_cases hc : c < t.size
  · -- a node from before
    obtain ⟨p, j, directive', line', hsite, hline', hstands'⟩ := h c hpos hc
    have hp : p < t.size := Nat.lt_trans (hsound.parent_lt hsite) hc
    refine ⟨p, j, directive', line', ?_, ?_, ?_⟩
    · rw [Tree.siteOf?_attach_of_lt _ _ _ _ _ _ hc, hsite]
    · rw [(hsame p hp).1, hline']
    · rw [(hsame p hp).2, hstands']
  · -- the node that is attached
    obtain rfl : c = t.size := by omega
    refine ⟨a, i, directive, line, Tree.siteOf?_attach_self .., ?_, ?_⟩
    · rw [(hsame a ha).1, hline]
    · rw [(hsame a ha).2, hstands]

namespace Tracker

/-- Conditionals only add drops. -/
theorem moreDrops_onConditional (k : Tracker) (e : ConditionalEvent) :
    MoreDrops k.tree (k.onConditional e).1.tree :=
  .of_addsDrops (addsDrops_onConditional k e)

/-- The end of a scope only adds drops. -/
theorem moreDrops_onScopeEnd (k : Tracker) (depth : Int) :
    MoreDrops k.tree (k.onScopeEnd depth).tree :=
  .of_addsDrops (addsDrops_onScopeEnd k depth)

/-- The end of the document only adds drops. -/
theorem moreDrops_finish (k : Tracker) (rootLines : Nat) :
    MoreDrops k.tree (k.finish rootLines).tree :=
  .of_addsDrops (addsDrops_finish k rootLines)

end Tracker

/-! ## The account gives the place -/

namespace Accounted

variable {source : List String} {k : Tracker} {r : Reader} {delivered : List String}
  {out : Nat → List String} {i e : Nat} {rest : List String}

/-- Following an include keeps that all includes stand in their places. -/
theorem allStand_follow (h : Accounted source k r delivered out i e) (hidle : r.Idle)
    (hskip : r.skipping = false) {directive : Include}
    (hlines : r.scope.lines = directive.line :: rest) {es : List Event} {r' : Reader}
    (hfollowed : Followed r directive es r') (hall : k.tree.AllStand source) :
    (k.observeAll es).tree.AllStand source := by
  obtain ⟨o, hobserved⟩ := Tracker.observeAll_followed h.pending h.recorded.path h.lineno hfollowed
  obtain ⟨lines, offset, htree⟩ := Tracker.tree_including k i directive.line o
  obtain ⟨original, hline, -, -, -, -, hstands⟩ := h.stands_of_reading hidle hskip hlines
  rw [hobserved, htree]
  exact hall.attach h.recorded.sound h.recorded.lt_size hline hstands lines offset

end Accounted

/-! ## Replays -/

/-- Whether the include with a number can be put into its parent now. -/
def isPlaced (t : Tree) (id : Nat) : Bool :=
  match t.node? id with
  | none => false
  | some node =>
    match t.parentOf? node with
    | none => false
    | some parent => (placeIn parent node).isOk

/-- Every include below a number is put in its place when the replay reaches it. -/
def EveryPlaced (t : Tree) : Nat → Prop
  | 0 => True
  | id + 1 => (0 < id → isPlaced t id = true) ∧ EveryPlaced (replayNode t id).1 id

instance decidableEveryPlaced : (t : Tree) → (m : Nat) → Decidable (EveryPlaced t m)
  | _, 0 => inferInstanceAs (Decidable True)
  | t, id + 1 =>
    have := decidableEveryPlaced (replayNode t id).1 id
    inferInstanceAs (Decidable ((0 < id → isPlaced t id = true) ∧ _))

/-- The includes below a number that a replay puts in their places. -/
def placedBelow (t : Tree) : Nat → List Nat
  | 0 => []
  | id + 1 => if isPlaced t id then id :: placedBelow (replayNode t id).1 id
    else placedBelow (replayNode t id).1 id

section Placed

variable {t u : Tree} {source : List String} {out : Nat → List String} {m : Nat}
  (hsound : t.Sound) (htidy : t.Tidy source)

include hsound htidy

/-- When the replay reaches an include, it can be put into its parent exactly if it stands. -/
theorem isPlaced_iff_stands (h : PartlyReplayed t source out (m + 1) u) (hpos : 0 < m)
    (hlt : m < t.size) : isPlaced u m = true ↔ Stands t source m := by
  obtain ⟨s, node, parent, hsite, -, ⟨hnode, hnodeSite, -⟩, hparent, hparentFilled⟩ :=
    h.exists_parent hsound hpos hlt
  have hnodeParent : node.parent = some s.parent := (Node.site?_eq_some_iff.mp hnodeSite).1
  have hisPlaced : isPlaced u m = (placeIn parent node).isOk := by
    simp [isPlaced, hnode, Tree.parentOf?, hnodeParent, hparent]
  rw [hisPlaced]
  rcases placeIn_eq htidy hsite hparentFilled hnodeSite with
    ⟨hnot, record, herror⟩ | ⟨i, line, hi, hline, hstands, place, hplace, -⟩
  · rw [herror]
    exact iff_of_false Bool.false_ne_true hnot
  · rw [hplace]
    refine iff_of_true rfl ⟨s.parent, i, s.directive, line, ?_, hline, hstands⟩
    rw [hsite, ← hi]

variable (hout : ∀ c, 0 < c → c < t.size → out c = t.yields source out c)

include hout

/-- A replay puts those includes in their places that stand. -/
theorem mem_placedBelow (h : PartlyReplayed t source out m u) (hle : m ≤ t.size) {c : Nat}
    (hpos : 0 < c) : c ∈ placedBelow u m ↔ c < m ∧ Stands t source c := by
  induction m generalizing u with
  | zero => simp [placedBelow]
  | succ m ih =>
    unfold placedBelow
    rcases Nat.eq_zero_or_pos m with rfl | hm
    · -- the document itself is not placed
      have hnone : ¬ c < 0 + 1 := by omega
      simp only [hnone, false_and, iff_false]
      split
      · simpa [placedBelow] using Nat.ne_of_gt hpos
      · simp [placedBelow]
    · have hplaced := isPlaced_iff_stands hsound htidy h hm hle
      have hbelow := ih (partlyReplayed_replayNode h hsound htidy (hout m hm hle) hm hle) (by omega)
      by_cases hc : c = m
      · -- the node that is put into place next
        subst hc
        by_cases hstands : Stands t source c
        · simp [hplaced.mpr hstands, hstands]
        · have hnot : isPlaced u c = false := by
            rw [← Bool.not_eq_true, hplaced]
            exact hstands
          rw [if_neg (by simp [hnot]), hbelow]
          simp [hstands]
      · -- a node before it
        have hlt : c < m + 1 ↔ c < m := by omega
        rw [hlt, ← hbelow]
        split
        · simp [hc]
        · exact Iff.rfl

/-- A replay of a tree in which every include stands puts every include in its place. -/
theorem everyPlaced_of_allStand (hall : t.AllStand source) (h : PartlyReplayed t source out m u)
    (hle : m ≤ t.size) : EveryPlaced u m := by
  induction m generalizing u with
  | zero => trivial
  | succ m ih =>
    rcases Nat.eq_zero_or_pos m with rfl | hm
    · exact ⟨fun hpos => absurd hpos (Nat.lt_irrefl 0), trivial⟩
    · refine ⟨fun _ => ?_, ih (partlyReplayed_replayNode h hsound htidy (hout m hm hle) hm hle)
        (by omega)⟩
      exact (isPlaced_iff_stands hsound htidy h hm hle).mpr (hall m hm hle)

end Placed

end DocFlatten.Replacement

namespace DocFlatten

open DocFlatten.Replacement

namespace Session

/-! ## Sessions -/

/-- A session in account of which every include stands, as long as the texts that were kept do
not end in white space. -/
structure Placed (s : Session) : Prop where
  processors : s.doc.options.processors = []
  account : InAccount s
  stand : TextsTrimmed s.journal.events → (s.tracker false).tree.AllStand s.doc.sourceLines

/-- A turn keeps nodes placed if the tracker does over its events. -/
theorem Placed.turn {s s' : Session} {r : Reader} {es : List Event} (h : Placed s)
    (hturns : Turns s r es s') (haccount : InAccount s')
    (hstep : TextsTrimmed s.journal.events →
      (s.tracker false).tree.AllStand s.doc.sourceLines →
      ((s.tracker false).observeAll es).tree.AllStand s.doc.sourceLines) : Placed s' where
  processors := by
    rw [hturns.doc]
    exact h.processors
  account := haccount
  stand htrimmed := by
    have hlines : s'.doc.sourceLines = s.doc.sourceLines := by rw [hturns.doc]
    rw [hturns.events] at htrimmed
    rw [hlines, hturns.tracker]
    exact hstep htrimmed.of_append.1 (h.stand htrimmed.of_append.1)

/-- A look at a line keeps nodes placed, whatever becomes of the line. -/
theorem Placed.look {s : Session} {line : String} {rest : List String} {g : Glance}
    (h : Placed s) (hidle : s.reader.Idle) (hfront : s.reader.scope.lines = line :: rest)
    (hlook : Look s line g) : Ends Placed g := by
  have haccount := h.account.look hidle hfront hlook
  cases hlook with
  | plain s' hturns => exact h.turn hturns haccount fun _ hall => hall
  | escaped s' hturns => exact h.turn hturns haccount fun _ hall => hall
  | passed s' _ _ hturns => exact h.turn hturns haccount fun _ hall => hall
  | conditional c consumed r s' _ _ _ hturns =>
    exact h.turn hturns haccount fun _ hall => (Tracker.moreDrops_onConditional _ _).allStand hall
  | kept d s' hkind hskip _ hturns =>
    refine h.turn hturns haccount fun htrimmed hall => ?_
    obtain ⟨out, i, e, haccounted⟩ := h.account.2 htrimmed
    have hline := LineKind.line_of_directive hkind
    exact haccounted.allStand_follow hidle hskip (by rw [hline]; exact hfront) .kept hall
  | followed d es r s' hkind hskip hfollowed hturns =>
    refine h.turn hturns haccount fun htrimmed hall => ?_
    obtain ⟨out, i, e, haccounted⟩ := h.account.2 htrimmed
    have hline := LineKind.line_of_directive hkind
    exact haccounted.allStand_follow hidle hskip (by rw [hline]; exact hfront) hfollowed hall
  | handed d processor target attributes s' hkind hskip hresolve hturns =>
    exact absurd hresolve (resolve_ne_handed h.processors)
  | refused => exact trivial

/-- Reading and scanning keep every include in its place. -/
theorem harmless_placed : Scan.Harmless Placed where
  reading :=
    { leave := fun s h hidle hlines houter => by
        have haccount := harmless_inAccount.reading.leave s h.account hidle hlines houter
        cases hs : s.reader.outer with
        | nil => exact absurd hs houter
        | cons scope outer =>
          exact h.turn (turns_leave hs) haccount fun _ hall =>
            (Tracker.moreDrops_onScopeEnd _ _).allStand hall
      meet := fun s line h => by
        refine ⟨h.processors, h.account.meet line, fun htrimmed => ?_⟩
        rw [events_meet] at htrimmed
        rw [tracker_meet]
        exact h.stand htrimmed
      look := fun s line rest g h hidle hfront _ hlook => h.look hidle hfront hlook
      take := fun s h hsteady hlook => by
        refine ⟨by rw [doc_takeFront]; exact h.processors, h.account.take hsteady hlook, ?_⟩
        rw [events_takeFront, tracker_takeFront, doc_takeFront]
        exact h.stand }
  edit s d h hedit :=
    { processors := by simp only [hedit.options]; exact h.processors
      account := harmless_inAccount.edit s d h.account hedit
      stand := by simp only [hedit.sourceLines]; exact h.stand }
  log s record h :=
    { processors := h.processors
      account := harmless_inAccount.log s record h.account
      stand := by
        rw [events_log, tracker_log]
        exact h.stand }

/-- Every include of a document that was read without processors stands where it was recorded. -/
theorem allStand_finishedTree {fuel : Nat} {files : FileTree} {source : Source} {o : LoadOptions}
    {s : Session} (h : load fuel files source o = .ok s) (hprocessors : o.processors = [])
    (htrimmed : TextsTrimmed s.journal.events) :
    s.finishedTree.AllStand s.doc.sourceLines := by
  obtain ⟨hplaced, -⟩ := load_keeps harmless_placed h fun s₀ hopen => by
    have haccount := inAccount_openSource hopen (by simp [hprocessors])
    obtain ⟨mode, -, rfl⟩ := openSource_eq_ok.mp hopen
    refine ⟨hprocessors, haccount, ?_⟩
    intro _ c hpos hlt
    have hsize : (Tracker.start false).tree.size = 1 := rfl
    change c < (Tracker.start false).tree.size at hlt
    omega
  exact (Tracker.moreDrops_finish _ _).allStand (hplaced.stand htrimmed)

end Session

/-! ## The lines of a reduction -/

/-- If the source is not changed before the replay, every include that was recorded is put in its
place, as long as no text of a single-line conditional ends in white space. Then an include
directive is left only where the limit of nested includes kept it. -/
theorem every_include_placed {fuel : Nat} {files : FileTree} {source : Source} {o : LoadOptions}
    {s : Session} (h : Session.load fuel files source o = .ok s) (hprocessors : o.processors = [])
    (htrimmed : TextsTrimmed s.journal.events) :
    let tracker := ((Tracker.start false).follow s.journal).1.finish s.doc.sourceLines.length
    EveryPlaced (tracker.tree.withSource s.doc.sourceLines) tracker.tree.size ∧
      ∀ line ∈ (replay tracker.tree s.doc.sourceLines).lines, ∀ i,
        LineKind.ofLine line = .directive i →
          ∃ depth, .includeResolved (.replaced line depth) ∈ s.journal.events := by
  intro tracker
  obtain ⟨hlines, -⟩ := Session.replay_finishedTree h (by simp [hprocessors]) htrimmed
  obtain ⟨haccount, hend⟩ := Session.load_keeps Session.harmless_inAccount h fun s₀ hopen =>
    Session.inAccount_openSource hopen (by simp [hprocessors])
  obtain ⟨out, i, e, haccounted⟩ := haccount.2 htrimmed
  obtain ⟨hrecorded, -⟩ := haccounted.finish hend.idle hend.lines hend.outer
  constructor
  · -- all nodes stand, so the replay puts all of them into place
    exact everyPlaced_of_allStand hrecorded.sound hrecorded.tidy
      (fun c hpos hlt => hrecorded.closed c hpos hlt (by simp))
      (Session.allStand_finishedTree h hprocessors htrimmed)
      (partlyReplayed_withSource hrecorded.sound) (Nat.le_refl _)
  · -- a line of the replay was delivered, and what is delivered has been looked at
    intro line hline
    have hlines' : (replay tracker.tree s.doc.sourceLines).lines =
        if s.finishedTree.isTrivial then s.delivered else trimEmptyEnd s.delivered := hlines
    rw [hlines'] at hline
    have hdelivered : line ∈ s.delivered := by
      split at hline
      · exact hline
      · exact (List.rdropWhile_prefix _ _).mem hline
    obtain ⟨-, shown, hresidual⟩ := Session.residual_delivered h hprocessors line hdelivered
    exact hresidual.directive

/-- Two files, one of which includes the other by the text of a conditional. -/
def nestingFiles : FileTree :=
  .ofTexts [("a.adoc", "one\nifndef::x[include::b.adoc[]]\n"), ("b.adoc", "two\n")]

/-- An include in an included file, and one in a single-line conditional. -/
theorem every_include_placed_nested :
    ∃ s, Session.load 30 nestingFiles (.lines ["include::a.adoc[]", "three"]) {} = .ok s ∧
      TextsTrimmed s.journal.events ∧ s.finishedTree.size = 3 ∧
      EveryPlaced (s.finishedTree.withSource s.doc.sourceLines) s.finishedTree.size := by
  have hload : ∃ s ∈ (Session.load 30 nestingFiles (.lines ["include::a.adoc[]", "three"])
      {}).toOption, TextsTrimmed s.journal.events ∧ s.finishedTree.size = 3 := by
    decide +kernel
  obtain ⟨s, hs, htrimmed, hsize⟩ := hload
  have hs' := eq_ok_of_mem_toOption hs
  exact ⟨s, hs', htrimmed, hsize, (every_include_placed hs' rfl htrimmed).1⟩

/-- A blank behind the include directive in a single-line conditional: the file is read, but the
directive is not found again and stays in the reduced lines. -/
theorem trailing_blank_misplaced :
    ∃ s ∈ (Session.load 20 (.ofTexts [("a.adoc", "a\n")]) (.lines ["ifdef::flag[include::a.adoc[] ]"])
        { attributes := .words "flag" }).toOption,
      s.delivered = ["a"] ∧ s.finishedTree.size = 2 ∧
      ¬ EveryPlaced (s.finishedTree.withSource s.doc.sourceLines) s.finishedTree.size ∧
      (replay s.finishedTree s.doc.sourceLines).lines = ["include::a.adoc[] "] := by
  decide +kernel

end DocFlatten
