import DocFlatten.Proofs.Looking
import DocFlatten.Proofs.Recording

/-! # What a tracker makes of events

A tracker follows a journal by its events alone. An include directive and its outcome come to one
new node, whatever scopes were left again in between; the end of a tracked scope moves an open
region on to the scope around it.
-/

namespace DocFlatten.Replacement

/-- A tree that differs from another one by drops that were added to its nodes. -/
inductive Tree.AddsDrops (t : Tree) : Tree → Prop where
  | refl : AddsDrops t t
  | add {t' : Tree} (h : AddsDrops t t') (id : Nat) (drops : List Drop) :
    AddsDrops t (t'.addDrops id drops)

theorem Tree.AddsDrops.one (t : Tree) (id : Nat) (drops : List Drop) :
    t.AddsDrops (t.addDrops id drops) :=
  .add .refl id drops

/-- Adding drops and adding more of them is adding drops. -/
theorem Tree.AddsDrops.trans {t t' t'' : Tree} (h : t.AddsDrops t') (h' : t'.AddsDrops t'') :
    t.AddsDrops t'' := by
  induction h' with
  | refl => exact h
  | add _ id drops ih => exact ih.add id drops

namespace Tracker

/-- A tracker after some events. -/
def observeAll (k : Tracker) (es : List Event) : Tracker :=
  es.foldl (fun k e => (k.observe e).1) k

@[simp] theorem observeAll_nil (k : Tracker) : k.observeAll [] = k := rfl

@[simp] theorem observeAll_cons (k : Tracker) (e : Event) (es : List Event) :
    k.observeAll (e :: es) = (k.observe e).1.observeAll es := rfl

@[simp] theorem observeAll_append (k : Tracker) (es es' : List Event) :
    k.observeAll (es ++ es') = (k.observeAll es).observeAll es' :=
  List.foldl_append

/-- Only the events of a journal change a tracker. -/
theorem follow_fst (k : Tracker) (j : Journal) : (k.follow j).1 = k.observeAll j.events := by
  unfold follow Journal.events
  generalize hstate : ((k, []) : Tracker × List Log.Record) = state
  have hk : k = state.1 := by rw [← hstate]
  rw [hk]
  clear hstate hk
  induction j.toList generalizing state with
  | nil => rfl
  | cons entry rest ih =>
    cases entry with
    | event e => exact ih _
    | record r => exact ih _
    | taken t => exact ih _
    | looked l => exact ih _

/-- The offset of the active node is the one that the tree has. -/
theorem offset_activeNode (k : Tracker) : k.activeNode.offset = k.tree.offsetOf k.active := by
  unfold activeNode Tree.offsetOf
  cases k.tree.node? k.active <;> rfl

/-- The index of a line in the active node is its number without what stands before. -/
theorem indexOf_activeNode {k : Tracker} {lineno i : Int}
    (h : lineno = i + 1 + k.tree.offsetOf k.active) : k.activeNode.indexOf lineno = i := by
  unfold Node.indexOf
  rw [offset_activeNode]
  omega

/-! ## Drops -/

/-- What a conditional can do to a tracker: open regions end, or one begins in the active node, and
then lines are dropped. -/
inductive Notes (k : Tracker) : Tracker → Prop where
  | skips (openSkips : List OpenSkip)
      (hnodes : ∀ skip ∈ openSkips, skip ∈ k.openSkips ∨ skip.node = k.active) :
    Notes k { k with openSkips }
  | drops {k' : Tracker} (h : Notes k k') (id : Nat) (drops : List Drop) :
    Notes k (k'.addDrops id drops)

theorem Notes.refl (k : Tracker) : Notes k k :=
  .skips k.openSkips fun _ hskip => Or.inl hskip

/-- What is noted only adds drops. -/
theorem Notes.addsDrops {k k' : Tracker} (h : Notes k k') : k.tree.AddsDrops k'.tree := by
  induction h with
  | skips => exact .refl
  | drops _ id drops ih => exact ih.add id drops

/-- Closing a skip notes its end. -/
theorem notes_closeSkip (k : Tracker) (index depth : Int) :
    Notes k (k.closeSkip index depth).1 := by
  -- regions that are left open were open before
  have hsub : ∀ skip ∈ k.openSkips.dropWhile (fun skip => skip.depth > depth),
      skip ∈ k.openSkips := fun skip hskip => (List.dropWhile_sublist _).subset hskip
  unfold closeSkip
  split
  · exact .drops (.skips [] (by simp)) _ _
  · rename_i skip rest heq
    rw [heq] at hsub
    have hrest : Notes k { k with openSkips := rest } :=
      .skips rest fun skip hskip => Or.inl (hsub skip (List.mem_cons_of_mem _ hskip))
    dsimp only
    split
    · exact hrest.drops _ _
    · exact (hrest.drops _ _).drops _ _

/-- A conditional is noted in the active node. -/
theorem notes_onConditional (k : Tracker) (e : ConditionalEvent) :
    Notes k (k.onConditional e).1 := by
  have hdrops : ∀ drops, Notes k (k.addDrops k.active drops) := (Notes.refl k).drops k.active
  unfold onConditional
  split
  · exact .refl k
  · dsimp only
    split
    · split
      · exact notes_closeSkip k _ _
      · exact hdrops _
    · split
      · split
        · refine .skips _ (List.forall_mem_cons.mpr ⟨Or.inr rfl, fun _ hskip => Or.inl hskip⟩)
        · exact hdrops _
      · split <;> exact hdrops _

/-- A conditional only adds drops. -/
theorem addsDrops_onConditional (k : Tracker) (e : ConditionalEvent) :
    k.tree.AddsDrops (k.onConditional e).1.tree :=
  (notes_onConditional k e).addsDrops

/-- Leaving the innermost scope that is tracked. -/
theorem onScopeEnd_of_lt {k : Tracker} {scope : TrackedScope} {rest : List TrackedScope}
    {depth : Int} {left : Node} (hscopes : k.scopes = scope :: rest) (hdepth : depth < scope.depth)
    (hleft : k.tree.node? scope.node = some left) :
    k.onScopeEnd depth =
      let outside := { k with scopes := rest, active := left.parent.getD 0 }
      if k.preserve then outside else outside.carrySkips left (left.parent.getD 0) := by
  unfold onScopeEnd
  simp only [hscopes, hleft]
  rw [if_neg (by omega)]

/-- The cases of the end of a scope: nothing that is tracked is left, or the innermost scope is. -/
theorem onScopeEnd_cases (k : Tracker) (depth : Int) :
    k.onScopeEnd depth = k ∨
      ∃ scope rest left, k.scopes = scope :: rest ∧ k.tree.node? scope.node = some left ∧
        (k.onScopeEnd depth = { k with scopes := rest, active := left.parent.getD 0 } ∨
          k.onScopeEnd depth = Tracker.carrySkips
            { k with scopes := rest, active := left.parent.getD 0 } left (left.parent.getD 0)) := by
  cases hscopes : k.scopes with
  -- there is no scope to end
  | nil =>
    left
    unfold onScopeEnd
    rw [hscopes]
  | cons scope rest =>
    by_cases hdepth : depth < scope.depth
    · -- a scope whose node is not in the tree is not left
      cases hleft : k.tree.node? scope.node with
      | none =>
        left
        unfold onScopeEnd
        simp only [hscopes, hleft, ite_self]
      -- the scope is left, and skips that are open in it go on around it
      | some left =>
        refine Or.inr ⟨scope, rest, left, rfl, hleft, ?_⟩
        rw [onScopeEnd_of_lt hscopes hdepth hleft]
        dsimp only
        split
        · exact Or.inl rfl
        · exact Or.inr rfl
    · -- the scope lies further out and goes on
      left
      unfold onScopeEnd
      rw [hscopes]
      exact if_pos (by omega)

/-- Regions that move on to the scope around leave drops behind. -/
theorem addsDrops_carrySkips (k : Tracker) (child : Node) (parent : Nat) :
    k.tree.AddsDrops (k.carrySkips child parent).tree := by
  have hfold : ∀ (skips : List OpenSkip) (state : Tree × List OpenSkip),
      k.tree.AddsDrops state.1 →
        k.tree.AddsDrops (skips.foldl (carrySkip child parent) state).1 := by
    intro skips
    induction skips with
    | nil => exact fun state h => h
    | cons skip skips ih =>
      intro state h
      refine ih _ ?_
      unfold carrySkip
      split
      · exact h.add _ _
      · exact h
  exact hfold _ _ .refl

/-- The end of a scope only adds drops. -/
theorem addsDrops_onScopeEnd (k : Tracker) (depth : Int) :
    k.tree.AddsDrops (k.onScopeEnd depth).tree := by
  rcases k.onScopeEnd_cases depth with hend | ⟨scope, rest, left, -, -, hend | hend⟩ <;> rw [hend]
  · exact .refl
  · exact .refl
  · exact addsDrops_carrySkips _ _ _

/-- Deleting the rest of the lines only adds drops. -/
theorem addsDrops_deleteRest (rootLines : Int) (fuel : Nat) (t : Tree) (id : Nat) (start : Int) :
    t.AddsDrops (deleteRest rootLines fuel t id start) := by
  induction fuel generalizing t id start with
  | zero => exact .refl
  | succ fuel ih =>
    unfold deleteRest
    split
    · exact .refl
    · dsimp only
      split
      · exact .one _ _ _
      · exact (Tree.AddsDrops.one _ _ _).trans (ih _ _ _)

/-- The end of the document only adds drops. -/
theorem addsDrops_finish (k : Tracker) (rootLines : Nat) :
    k.tree.AddsDrops (k.finish rootLines).tree := by
  unfold finish
  split
  · exact .refl
  · dsimp only
    generalize k.tree = t
    induction k.openSkips generalizing t with
    | nil => exact .refl
    | cons skip skips ih => exact (addsDrops_deleteRest _ _ _ _ _).trans (ih _)

/-! ## Includes -/

/-- A tracker after an include directive at a line of the active node had an outcome. -/
def including (k : Tracker) (i : Int) (directive : String) : Outcome → Tracker
  | .entered lines lineno frame depth =>
    { k with
      tree := k.tree.attach k.active i directive lines (lineno - 1 - frame)
      scopes := ⟨k.tree.size, depth⟩ :: k.scopes
      active := k.tree.size }
  | .replaced line _ => { k with tree := k.tree.attach k.active i directive [line] 0 }
  | .vanished _ => { k with tree := k.tree.attach k.active i directive [] 0 }

/-- Leaving a scope that is not the tracked one. -/
theorem onScopeEnd_of_le {k : Tracker} {depth : Int}
    (h : ∀ scope ∈ k.scopes.head?, scope.depth ≤ depth) : k.onScopeEnd depth = k := by
  unfold onScopeEnd
  cases hs : k.scopes with
  | nil => rfl
  | cons scope rest => exact if_pos (h scope (by rw [hs]; rfl))

/-- Scopes that are left again inside an include do not matter. -/
theorem observeAll_ends {k : Tracker} {depth : Nat} {ends : List Event}
    (hscopes : ∀ scope ∈ k.scopes.head?, scope.depth ≤ depth) (hends : AreEnds depth ends) :
    k.observeAll ends = k := by
  induction ends with
  | nil => rfl
  | cons e ends ih =>
    obtain ⟨before, after, rfl, hafter⟩ := hends e List.mem_cons_self
    have hsame : k.onScopeEnd after = k :=
      onScopeEnd_of_le fun scope hscope => Int.le_trans (hscopes scope hscope) hafter
    rw [observeAll_cons]
    simp only [observe, hsame]
    exact ih fun e he => hends e (List.mem_cons_of_mem _ he)

/-- An include that is found and resolved becomes a node. -/
theorem observeAll_include {k : Tracker} {depth : Nat} {ends : List Event} (e : IncludeEvent)
    (o : Outcome) (hpending : k.pending = none)
    (hscopes : ∀ scope ∈ k.scopes.head?, scope.depth ≤ depth) (hends : AreEnds depth ends) :
    k.observeAll (.includeFound e :: ends ++ [.includeResolved o]) =
      k.including (k.activeNode.indexOf e.lineno) e.directive.line o := by
  have hkept : (k.onInclude e).observeAll ends = k.onInclude e := observeAll_ends hscopes hends
  have hsame : { k with pending := none } = k := by rw [← hpending]
  rw [List.cons_append, observeAll_cons, observeAll_append]
  simp only [observe, hkept, observeAll_cons, observeAll_nil]
  cases o <;> simp only [onInclude, onResolved, including] <;> rw [← hpending]

/-- An include directive at line `i` of the scope being read, and its outcome. -/
theorem observeAll_resolved {k : Tracker} {source : List String} {r : Reader} {i : Nat}
    (hpending : k.pending = none) (hpath : Enclosed k.tree source k.active k.scopes r.outer)
    (hlineno : r.cursor.lineno = i + 1 + k.tree.offsetOf k.active) (d : Include)
    {ends : List Event} (hends : AreEnds r.includeDepth ends) (o : Outcome) :
    k.observeAll (r.found d :: ends ++ [.includeResolved o]) = k.including i d.line o := by
  have hdepth : ∀ scope ∈ k.scopes.head?, scope.depth ≤ r.includeDepth := fun scope hscope =>
    Int.le_of_eq (hpath.depth_eq scope hscope)
  have hobserve := observeAll_include ⟨d, r.cursor.lineno⟩ o hpending hdepth hends
  rwa [indexOf_activeNode hlineno] at hobserve

/-- However an include directive is followed, its events come to one outcome. -/
theorem observeAll_followed {k : Tracker} {source : List String} {r r' : Reader} {i : Nat}
    (hpending : k.pending = none) (hpath : Enclosed k.tree source k.active k.scopes r.outer)
    (hlineno : r.cursor.lineno = i + 1 + k.tree.offsetOf k.active) {d : Include}
    {es : List Event} (h : Followed r d es r') :
    ∃ o, k.observeAll es = k.including i d.line o := by
  have hobserve : ∀ (ends : List Event) (o : Outcome), AreEnds r.includeDepth ends →
      k.observeAll (r.found d :: ends ++ [.includeResolved o]) = k.including i d.line o :=
    fun ends o hends => observeAll_resolved hpending hpath hlineno d hends o
  have hnone : AreEnds r.includeDepth [] := fun e he => by cases he
  cases h with
  | kept => exact ⟨_, hobserve [] _ hnone⟩
  | replaced => exact ⟨_, hobserve [] _ hnone⟩
  | gone ends frame hends => exact ⟨_, hobserve ends _ hends⟩
  | entered lines cursor frame ends hlines hends => exact ⟨_, hobserve ends _ hends⟩

/-- An outcome attaches one node. -/
theorem tree_including (k : Tracker) (i : Int) (directive : String) (o : Outcome) :
    ∃ lines offset,
      (k.including i directive o).tree = k.tree.attach k.active i directive lines offset := by
  cases o with
  | entered lines lineno frame depth => exact ⟨lines, _, rfl⟩
  | replaced line depth => exact ⟨[line], 0, rfl⟩
  | vanished depth => exact ⟨[], 0, rfl⟩

/-! ## Ends of scopes -/

/-- Of two nodes, only one stands at a site. -/
theorem node_eq_of_siteOf? {t : Tree} (hsound : t.Sound) {c p i : Nat} {directive : String}
    (hsite : t.siteOf? c = some ⟨p, i, directive⟩) (source : List String) :
    ∃ n, t.node? c = some n ∧ n.id = c ∧ n.parent = some p ∧ n.resume = i + 1 ∧
      (n.lines.length : Int) = (t.linesOf source c).length := by
  unfold Tree.siteOf? at hsite
  obtain ⟨n, hn, hs⟩ := Option.bind_eq_some_iff.mp hsite
  have hpos : 0 < c := by
    have := hsound.parent_lt (c := c) (s := ⟨p, i, directive⟩) (by simp [Tree.siteOf?, hn, hs])
    simp only at this
    omega
  obtain ⟨ls, hls⟩ := hsound.texts c n hpos hn
  obtain ⟨hparent, hposition, -⟩ := Node.site?_eq_some_iff.mp hs
  refine ⟨n, hn, hsound.named c n hn, hparent, by simp [Node.resume, hposition], ?_⟩
  simp [Tree.linesOf, Nat.ne_of_gt hpos, hn, hls]

/-- Leaving the tracked scope when nothing is skipped or conditionals are kept. -/
theorem onScopeEnd_plain {k : Tracker} {c p i : Nat} {depth after : Int} {directive : String}
    {scopes : List TrackedScope} (hsound : k.tree.Sound)
    (hsite : k.tree.siteOf? c = some ⟨p, i, directive⟩) (hscopes : k.scopes = ⟨c, depth⟩ :: scopes)
    (hdepth : after < depth) (hskips : k.openSkips = []) :
    k.onScopeEnd after = { k with scopes, active := p } := by
  obtain ⟨n, hn, -, hparent, -, -⟩ := node_eq_of_siteOf? hsound hsite []
  rw [onScopeEnd_of_lt hscopes hdepth hn]
  simp only [hparent, Option.getD_some]
  split
  · rfl
  · simp [carrySkips, hskips]

/-- Leaving the tracked scope inside a skipped region. -/
theorem onScopeEnd_skip {k : Tracker} {c p i start : Nat} {depth after skipDepth : Int}
    {directive : String} {scopes : List TrackedScope} (hpreserve : k.preserve = false)
    (hsound : k.tree.Sound) (hsite : k.tree.siteOf? c = some ⟨p, i, directive⟩)
    (hscopes : k.scopes = ⟨c, depth⟩ :: scopes) (hdepth : after < depth)
    (hskips : k.openSkips = [⟨c, start, skipDepth⟩]) (source : List String) :
    k.onScopeEnd after =
      { k with
        tree := k.tree.addDrops c (deleteRange start (k.tree.linesOf source c).length)
        scopes, active := p, openSkips := [⟨p, i + 1, skipDepth⟩] } := by
  obtain ⟨n, hn, hid, hparent, hresume, hlength⟩ := node_eq_of_siteOf? hsound hsite source
  rw [onScopeEnd_of_lt hscopes hdepth hn]
  simp only [hparent, Option.getD_some, hpreserve]
  simp [carrySkips, carrySkip, hskips, hid, hresume, hlength]

end Tracker

end DocFlatten.Replacement

namespace DocFlatten.Session

open DocFlatten.Replacement

/-- The tracker that has followed a session. -/
def tracker (preserve : Bool) (s : Session) : Tracker :=
  ((Tracker.start preserve).follow s.journal).1

/-- The tracker is what the events make of a new one. -/
theorem tracker_eq (preserve : Bool) (s : Session) :
    s.tracker preserve = (Tracker.start preserve).observeAll s.journal.events :=
  Tracker.follow_fst _ _

/-- Only the events matter to the tracker. -/
theorem tracker_of_events {s s' : Session} (h : s'.journal.events = s.journal.events)
    (preserve : Bool) : s'.tracker preserve = s.tracker preserve := by
  rw [tracker_eq, tracker_eq, h]

@[simp] theorem tracker_meet (preserve : Bool) (s : Session) (line : String) :
    (s.meet line).tracker preserve = s.tracker preserve :=
  tracker_of_events (events_meet s line) preserve

@[simp] theorem tracker_log (preserve : Bool) (s : Session) (record : Log.Record) :
    (s.log record).tracker preserve = s.tracker preserve :=
  tracker_of_events (events_log s record) preserve

@[simp] theorem tracker_takeFront (preserve : Bool) (s : Session) :
    s.takeFront.2.tracker preserve = s.tracker preserve :=
  tracker_of_events (events_takeFront s) preserve

/-- In a turn the tracker sees the events of the turn. -/
theorem Turns.tracker {s s' : Session} {r : Reader} {es : List Event} (h : Turns s r es s')
    (preserve : Bool) : s'.tracker preserve = (s.tracker preserve).observeAll es := by
  rw [tracker_eq, tracker_eq, h.events, Tracker.observeAll_append]

end DocFlatten.Session
