import DocFlatten.Proofs.Following
import DocFlatten.Proofs.Unfolding

/-! # Trackers that are used in any way

The functions of a tracker and of a replay are total: where a number names no node they do nothing or
take a default. A caller who looks nodes up by number, walks up from parent to parent or writes to a
line needs that this never happens. Here every function stands a second time with its lookups checked,
so that it stops with a `Fault` instead, and is shown never to stop: whatever a tracker is told, in any
order, it comes to the same as the function that runs. Only lookups right behind a test of their own
are left as they are, as in `applyDrop` and `lineAt?`.

* `Fault`: what a lookup can fail with, and a walk up that does not end;
* `Tracker.observeAll?`, `Tracker.finish?`, `replay?`: the checked functions;
* `Tree.Ordered`, `Tracker.Orderly`: the numbers in a tree and in a tracker name nodes, parents come
  before their children, and the scopes around a scope before it;
* `Tree.Keeps`: nodes that exist stay as they are, so far as a view of them shows; `Tree.Alike`: no
  nodes have come to them either;
* `Tracker.Follows`: a tracker in order that has kept the nodes of another one. Every event leads to one
  (`Tracker.Orderly.observe`), and so do all events together (`Tracker.Orderly.observeAll`).

Only a replay gives nodes other lines.
-/

namespace DocFlatten.Replacement

/-! ## Checked functions -/

/-- Why a checked function stops. -/
inductive Fault where
  | unknownNode (id : Nat)
  | unknownParent (e : UnknownParent)
  | unknownLine (position : Option Int)
  | unknownDrop (drop : Drop)
  /-- A walk from parent to parent comes by more nodes than there are. -/
  | endless
  deriving Repr, DecidableEq

/-- The node with a number, which has to exist. -/
def Tree.fetch (t : Tree) (id : Nat) : Except Fault Node :=
  match t.node? id with
  | some n => .ok n
  | none => .error (.unknownNode id)

namespace Tracker

/-- End the last open skipped region, where the node that it is in has to exist. -/
def closeSkip? (k : Tracker) (node : Node) (index depth : Int) :
    Except Fault (Tracker × List Log.Record) :=
  match k.openSkips.dropWhile fun skip => skip.depth > depth with
  | [] =>
    .ok (({ k with openSkips := [] }).addDrops node.id [.delete index],
      [Log.debug .conditionals s!"No open skip region to close at index {index}"])
  | skip :: rest =>
    let k := { k with openSkips := rest }
    if skip.node == node.id then
      .ok (k.addDrops node.id (deleteRange skip.start (index + 1)), [])
    else do
      let opener ← k.tree.fetch skip.node
      .ok ((k.addDrops opener.id (deleteRange skip.start opener.lines.length)).addDrops
        node.id (deleteRange 0 (index + 1)), [])

/-- Record a conditional in the active node, which has to exist. -/
def onConditional? (k : Tracker) (e : ConditionalEvent) : Except Fault (Tracker × List Log.Record) :=
  if k.preserve || (e.skippingBefore && e.skippingAfter) then .ok (k, [])
  else do
    let node ← k.tree.fetch k.active
    let index := node.indexOf e.lineno
    if e.depthAfter < e.depthBefore then
      if e.skippingBefore then k.closeSkip? node index e.depthBefore
      else .ok (k.addDrops node.id [.delete index], [])
    else if e.depthAfter > e.depthBefore then
      if e.skippingAfter then
        .ok ({ k with openSkips := ⟨node.id, index, e.depthAfter⟩ :: k.openSkips }, [])
      else .ok (k.addDrops node.id [.delete index], [])
    else match e.retained, e.directive.text with
      | true, some text => .ok (k.addDrops node.id [.overwrite index text], [])
      | _, _ => .ok (k.addDrops node.id [.delete index], [])

/-- Note an include directive of the active node, which has to exist. -/
def onInclude? (k : Tracker) (e : IncludeEvent) : Except Fault Tracker := do
  let node ← k.tree.fetch k.active
  .ok { k with pending := some {
      parent := node.id
      position := node.indexOf e.lineno
      directive := e.directive.line } }

/-- Record the outcome of an include directive, where the node that it was in has to exist. -/
def onResolved? (k : Tracker) (o : Outcome) : Except Fault (Tracker × List Log.Record) :=
  match k.pending with
  | none => .ok (k, [Log.debug .includes "Include resolved without a recorded directive; ignoring"])
  | some p =>
    let k := { k with pending := none }
    let attach (lines : List String) (offset : Int) : Except Fault Tree :=
      (k.tree.attach? p.parent p.position p.directive lines offset).mapError .unknownParent
    match o with
    | .entered lines lineno frame depth => do
      let id := k.tree.size
      let tree ← attach lines (lineno - 1 - frame)
      .ok ({ k with tree, scopes := ⟨id, depth⟩ :: k.scopes, active := id }, [])
    | .replaced line _ => do
      let tree ← attach [line] 0
      .ok ({ k with tree }, [])
    | .vanished _ => do
      let tree ← attach [] 0
      .ok ({ k with tree }, [])

/-- Note the end of a scope, where its node and the parent of that node have to exist. -/
def onScopeEnd? (k : Tracker) (depthAfter : Int) : Except Fault Tracker :=
  match k.scopes with
  | [] => .ok k
  | scope :: rest =>
    if depthAfter ≥ scope.depth then .ok k
    else do
      let left ← k.tree.fetch scope.node
      let k := { k with scopes := rest, active := left.parent.getD 0 }
      if k.preserve then .ok k
      else match left.parent with
        | none => .ok k
        | some id => do
          let parent ← k.tree.fetch id
          .ok (k.carrySkips left parent.id)

/-- Follow an event. -/
def observeOne? (k : Tracker) : Event → Except Fault (Tracker × List Log.Record)
  | .conditional e => k.onConditional? e
  | .includeFound e => do
    let k ← k.onInclude? e
    .ok (k, [])
  | .includeResolved o => k.onResolved? o
  | .scopeEnd _ depthAfter => do
    let k ← k.onScopeEnd? depthAfter
    .ok (k, [])

/-- Follow some events. -/
def observeAll? (k : Tracker) : List Event → Except Fault Tracker
  | [] => .ok k
  | e :: es => do
    let (k, _) ← k.observeOne? e
    k.observeAll? es

/-- Delete the rest of a scope and of the scopes around it, all of which have to exist. -/
def deleteRest? (rootLines : Int) : (fuel : Nat) → Tree → Nat → Int → Except Fault Tree
  | 0, _, _, _ => .error .endless
  | fuel + 1, t, id, start => do
    let node ← t.fetch id
    let last := if node.isRoot then rootLines else node.lines.length
    let t := t.addDrops node.id (deleteRange start last)
    match node.parent with
    | none => .ok t
    | some parent => deleteRest? rootLines fuel t parent node.resume

/-- Delete what is still skipped at the end of the document. -/
def finish? (k : Tracker) (rootLines : Nat) : Except Fault Tracker :=
  if k.preserve then .ok k
  else do
    let tree ← k.openSkips.foldlM
      (fun t skip => deleteRest? rootLines t.size t skip.node skip.start) k.tree
    .ok { k with tree, openSkips := [] }

end Tracker

/-- Put the lines of a settled node into its parent, where the line for them has to exist, and so has
an overwrite that goes. -/
def putInto? (place : Place) (node parent : Node) : Except Fault Node := do
  let drops ← match place with
    | .directive => .ok parent.drops
    | .overwrite drop =>
      if drop ∈ parent.drops then .ok (parent.drops.erase drop) else .error (.unknownDrop drop)
  match node.position with
  | none => .error (.unknownLine none)
  | some position =>
    if 0 ≤ position ∧ position < parent.lines.length then
      .ok { parent with drops, lines := parent.lines.set position.toNat (.block node.lines) }
    else .error (.unknownLine position)

/-- Settle one node, which has to exist together with its parent. -/
def replayNode? (t : Tree) (id : Nat) : Except Fault (Tree × List Log.Record) := do
  let node ← t.fetch id
  match node.parent with
  | none => .ok (t.modify id Node.settled, (mergeDrops node.drops).2)
  | some parentId =>
    let parent ← t.fetch parentId
    match placeIn parent node with
    | .error record => .ok (t, [record])
    | .ok place =>
      let parent ← putInto? place node.settled parent
      .ok ((t.modify id Node.settled).modify parentId fun _ => parent, (mergeDrops node.drops).2)

/-- Settle all nodes with smaller numbers, from the last one to the first. -/
def replayBelow? (t : Tree) : Nat → Except Fault (Tree × List Log.Record)
  | 0 => .ok (t, [])
  | id + 1 => do
    let (t, records) ← replayNode? t id
    let (t, further) ← replayBelow? t id
    .ok (t, records ++ further)

/-- The reduced lines of a document, whose node has to exist. -/
def replay? (t : Tree) (source : List String) : Except Fault Replayed := do
  let document ← t.fetch 0
  if t.size == 1 && document.drops.isEmpty then .ok { tree := t, lines := source, log := [] }
  else
    let (tree, log) ← replayBelow? (t.withSource source) t.size
    let document ← tree.fetch 0
    .ok { tree, lines := trimEmptyEnd (flattenAll document.lines), log }

/-! ## Trees in order -/

/-- What makes a node the one that it is: its number, its parent, the line of the parent that it came
from and the directive there. -/
def Node.identity (n : Node) : Nat × Option Nat × Option Int × Option String :=
  (n.id, n.parent, n.position, n.directive)

/-- What is known of a node once it is created; only its drops are recorded later. -/
def Node.content (n : Node) : (Nat × Option Nat × Option Int × Option String) × List Fragment :=
  (n.identity, n.lines)

namespace Tree

/-- Numbers are indices, the document has no parent, and any other node comes after its parent. -/
structure Ordered (t : Tree) : Prop where
  root : ∃ n, t.node? 0 = some n ∧ n.parent = none
  named : ∀ id n, t.node? id = some n → n.id = id
  parent : ∀ id n, 0 < id → t.node? id = some n → ∃ p < id, n.parent = some p

/-- The nodes of a tree are still there in another one, and look the same in a view. -/
def Keeps {α : Type} (view : Node → α) (t t' : Tree) : Prop :=
  ∀ id n, t.node? id = some n → ∃ n', t'.node? id = some n' ∧ view n' = view n

variable {t t' t'' : Tree} {α : Type} {view : Node → α}

theorem Keeps.refl (view : Node → α) (t : Tree) : t.Keeps view t :=
  fun _ n hn => ⟨n, hn, rfl⟩

theorem Keeps.trans (h : t.Keeps view t') (h' : t'.Keeps view t'') : t.Keeps view t'' := by
  intro id n hn
  obtain ⟨n', hn', hsame⟩ := h id n hn
  obtain ⟨n'', hn'', hsame'⟩ := h' id n' hn'
  exact ⟨n'', hn'', hsame'.trans hsame⟩

/-- A tree that keeps the nodes of another one is no smaller. -/
theorem Keeps.size_le (h : t.Keeps view t') : t.size ≤ t'.size := by
  by_contra hlt
  obtain ⟨n, hn⟩ := exists_node (Nat.lt_of_not_le hlt)
  obtain ⟨n', hn', -⟩ := h _ n hn
  exact Nat.lt_irrefl _ (lt_size_of_node? hn')

/-- A tree with one more node keeps the others. -/
theorem keeps_attach (t : Tree) (view : Node → α) (parent : Nat) (position : Int)
    (directive : String) (lines : List String) (offset : Int) :
    t.Keeps view (t.attach parent position directive lines offset) :=
  fun _ n hn => ⟨n, by rw [node?_attach_of_lt _ _ _ _ _ _ (lt_size_of_node? hn), hn], rfl⟩

/-- Trees with the same nodes, which look the same in a view. -/
structure Alike (view : Node → α) (t t' : Tree) : Prop where
  keeps : t.Keeps view t'
  size : t'.size = t.size

namespace Alike

theorem refl (view : Node → α) (t : Tree) : t.Alike view t :=
  ⟨.refl view t, rfl⟩

theorem trans (h : t.Alike view t') (h' : t'.Alike view t'') : t.Alike view t'' :=
  ⟨h.keeps.trans h'.keeps, h'.size.trans h.size⟩

/-- A change that the view does not show. -/
theorem modify (t : Tree) (id : Nat) {f : Node → Node} (hf : ∀ n, view (f n) = view n) :
    t.Alike view (t.modify id f) := by
  refine ⟨fun c n hn => ?_, size_modify _ _ _⟩
  rw [node?_modify]
  split
  · exact ⟨f n, by rw [hn]; rfl, hf n⟩
  · exact ⟨n, hn, rfl⟩

/-- Nodes with the same content are the same nodes. -/
theorem identity (h : t.Alike Node.content t') : t.Alike Node.identity t' := by
  refine ⟨fun id n hn => ?_, h.size⟩
  obtain ⟨n', hn', hsame⟩ := h.keeps id n hn
  exact ⟨n', hn', congrArg Prod.fst hsame⟩

end Alike

/-- Drops that are added change nothing in a view that does not show them. -/
theorem AddsDrops.alike (h : t.AddsDrops t') (hview : ∀ n drops, view { n with drops } = view n) :
    t.Alike view t' := by
  induction h with
  | refl => exact .refl view t
  | add _ id drops ih => exact ih.trans (.modify _ id fun n => hview n _)

/-- Drops change nothing of what nodes contain. -/
theorem alike_addDrops (t : Tree) (id : Nat) (drops : List Drop) :
    t.Alike Node.content (t.addDrops id drops) :=
  .modify t id fun _ => rfl

namespace Ordered

/-- There is always the document. -/
theorem size_pos (h : t.Ordered) : 0 < t.size := by
  obtain ⟨n, hn, -⟩ := h.root
  exact lt_size_of_node? hn

/-- The order of a tree is in the identities of its nodes. -/
theorem of_alike (h : t.Ordered) (halike : t.Alike Node.identity t') : t'.Ordered := by
  obtain ⟨hkeeps, hsize⟩ := halike
  -- the sizes are the same, so a node of the second tree was one of the first
  have hback : ∀ id n', t'.node? id = some n' →
      ∃ n, t.node? id = some n ∧ n'.id = n.id ∧ n'.parent = n.parent := by
    intro id n' hn'
    obtain ⟨n, hn⟩ := exists_node (hsize ▸ lt_size_of_node? hn')
    obtain ⟨n'', hn'', hsame⟩ := hkeeps id n hn
    cases hn'.symm.trans hn''
    simp only [Node.identity, Prod.mk.injEq] at hsame
    exact ⟨n, hn, hsame.1, hsame.2.1⟩
  refine ⟨?_, fun id n' hn' => ?_, fun id n' hpos hn' => ?_⟩
  · obtain ⟨n', hn'⟩ := exists_node (hsize ▸ h.size_pos)
    obtain ⟨n, hn, -, hparent⟩ := hback 0 n' hn'
    obtain ⟨document, hdocument, hnone⟩ := h.root
    cases hdocument.symm.trans hn
    exact ⟨n', hn', hparent.trans hnone⟩
  · obtain ⟨n, hn, hid, -⟩ := hback id n' hn'
    exact hid.trans (h.named id n hn)
  · obtain ⟨n, hn, -, hparent⟩ := hback id n' hn'
    obtain ⟨p, hlt, hp⟩ := h.parent id n hpos hn
    exact ⟨p, hlt, hparent.trans hp⟩

/-- Drops leave the nodes in order. -/
theorem addDrops (h : t.Ordered) (id : Nat) (drops : List Drop) : (t.addDrops id drops).Ordered :=
  h.of_alike (alike_addDrops t id drops).identity

/-- A new node has the next number, and so comes after its parent. -/
theorem attach (h : t.Ordered) {parent : Nat} (hparent : parent < t.size) (position : Int)
    (directive : String) (lines : List String) (offset : Int) :
    (t.attach parent position directive lines offset).Ordered := by
  -- a node is one that was there before, or the new one
  have hcases : ∀ id n, (t.attach parent position directive lines offset).node? id = some n →
      t.node? id = some n ∨
        (id = t.size ∧ n = t.newNode parent position directive lines offset) := by
    intro id n hn
    have hlt := lt_size_of_node? hn
    rw [size_attach] at hlt
    rcases Nat.lt_succ_iff_lt_or_eq.mp hlt with hold | rfl
    · exact .inl ((node?_attach_of_lt _ _ _ _ _ _ hold).symm.trans hn)
    · rw [node?_attach_self] at hn
      exact .inr ⟨rfl, (Option.some.inj hn).symm⟩
  refine ⟨?_, fun id n hn => ?_, fun id n hpos hn => ?_⟩
  · obtain ⟨n, hn, hnone⟩ := h.root
    exact ⟨n, (node?_attach_of_lt _ _ _ _ _ _ h.size_pos).trans hn, hnone⟩
  · rcases hcases id n hn with hold | ⟨rfl, rfl⟩
    · exact h.named id n hold
    · rfl
  · rcases hcases id n hn with hold | ⟨rfl, rfl⟩
    · exact h.parent id n hpos hold
    · exact ⟨parent, hparent, rfl⟩

/-- A node with a parent comes after it. -/
theorem parent_lt (h : t.Ordered) {id p : Nat} {n : Node} (hn : t.node? id = some n)
    (hparent : n.parent = some p) : p < id := by
  rcases Nat.eq_zero_or_pos id with rfl | hpos
  · obtain ⟨document, hdocument, hnone⟩ := h.root
    cases hdocument.symm.trans hn
    cases hparent.symm.trans hnone
  · obtain ⟨p', hlt, hp'⟩ := h.parent id n hpos hn
    cases hparent.symm.trans hp'
    exact hlt

/-- A number below the size is the number of a node, which bears it. -/
theorem fetch_eq (h : t.Ordered) {id : Nat} (hid : id < t.size) :
    ∃ n, t.node? id = some n ∧ t.fetch id = .ok n ∧ n.id = id := by
  obtain ⟨n, hn⟩ := exists_node hid
  exact ⟨n, hn, by simp [fetch, hn], h.named id n hn⟩

end Ordered

/-- A sound tree has its nodes in order. -/
theorem Sound.ordered (h : t.Sound) : t.Ordered where
  root := h.root
  named := h.named
  parent id n hpos hn := by
    obtain ⟨s, hs, hlt⟩ := h.site id n hpos hn
    exact ⟨s.parent, hlt, (Node.site?_eq_some_iff.mp hs).1⟩

end Tree

/-! ## Trackers in order -/

namespace Tracker

/-- The numbers that a tracker holds name nodes, and a scope comes after the scopes around it. -/
structure Orderly (k : Tracker) : Prop where
  tree : k.tree.Ordered
  active : k.active < k.tree.size
  scopes : ∀ scope ∈ k.scopes, 0 < scope.node ∧ scope.node < k.tree.size
  /-- The innermost scope is the first one of the list. -/
  rising : k.scopes.Pairwise fun inner outer => outer.node < inner.node
  openSkips : ∀ skip ∈ k.openSkips, skip.node < k.tree.size
  pending : ∀ p ∈ k.pending, p.parent < k.tree.size

/-- A tracker in order in which the nodes of another one are unchanged. -/
structure Follows (k k' : Tracker) : Prop where
  orderly : k'.Orderly
  keeps : k.tree.Keeps Node.content k'.tree

variable {k k' k'' : Tracker}

/-- A tracker starts orderly. -/
theorem orderly_start (preserve : Bool) : (start preserve).Orderly where
  tree := (recorded_empty [] fun _ => []).1.sound.ordered
  active := Nat.one_pos
  scopes := by simp [start]
  rising := .nil
  openSkips := by simp [start]
  pending := by simp [start]

namespace Orderly

theorem refl (h : k.Orderly) : k.Follows k := ⟨h, .refl _ _⟩

/-- A tracker stays in order with other lines and drops in its tree. -/
theorem withTree (h : k.Orderly) {t : Tree} (halike : k.tree.Alike Node.identity t) :
    { k with tree := t }.Orderly where
  tree := h.tree.of_alike halike
  active := halike.size ▸ h.active
  scopes := halike.size ▸ h.scopes
  rising := h.rising
  openSkips := halike.size ▸ h.openSkips
  pending := halike.size ▸ h.pending

end Orderly

namespace Follows

theorem trans (h : k.Follows k') (h' : k'.Follows k'') : k.Follows k'' :=
  ⟨h'.orderly, h.keeps.trans h'.keeps⟩

/-- A tracker that has followed still does when drops are added. -/
theorem addDrops (h : k.Follows k') (id : Nat) (drops : List Drop) :
    k.Follows (k'.addDrops id drops) where
  orderly := h.orderly.withTree (Tree.alike_addDrops _ id drops).identity
  keeps := h.keeps.trans (Tree.alike_addDrops _ id drops).keeps

/-- A tracker that has followed still does when regions are opened or closed. -/
theorem withSkips (h : k.Follows k') {openSkips : List OpenSkip}
    (hskips : ∀ skip ∈ openSkips, skip.node < k'.tree.size) :
    k.Follows { k' with openSkips } :=
  ⟨{ h.orderly with openSkips := hskips }, h.keeps⟩

end Follows

/-! ### What follows an event is in order -/

namespace Orderly

/-- A conditional is followed. -/
theorem onConditional (h : k.Orderly) (e : ConditionalEvent) :
    k.Follows (k.onConditional e).1 := by
  have hnotes := notes_onConditional k e
  generalize (k.onConditional e).1 = k' at hnotes
  induction hnotes with
  | skips openSkips hnodes =>
    refine h.refl.withSkips fun skip hskip => ?_
    rcases hnodes skip hskip with hold | hnew
    · exact h.openSkips skip hold
    · exact hnew ▸ h.active
  | drops _ id drops ih => exact ih.addDrops id drops

/-- An include that is found is followed. -/
theorem onInclude (h : k.Orderly) (e : IncludeEvent) : k.Follows (k.onInclude e) where
  orderly := { h with pending := fun p hp => by cases hp; exact h.active }
  keeps := .refl _ _

/-- A new node below one that exists, noted include or not. -/
theorem attach (h : k.Orderly) {parent : Nat} (hparent : parent < k.tree.size) (position : Int)
    (directive : String) (lines : List String) (offset : Int) :
    k.Follows { k with
      pending := none, tree := k.tree.attach parent position directive lines offset } where
  orderly :=
    { tree := h.tree.attach hparent position directive lines offset
      active := by simpa using Nat.lt_succ_of_lt h.active
      scopes := fun scope hscope => by
        simpa using (h.scopes scope hscope).imp_right Nat.lt_succ_of_lt
      rising := h.rising
      openSkips := fun skip hskip => by simpa using Nat.lt_succ_of_lt (h.openSkips skip hskip)
      pending := by simp }
  keeps := Tree.keeps_attach _ _ _ _ _ _ _

/-- The scope of a new node comes after all scopes before. -/
theorem enter (h : k.Orderly) {parent : Nat} (hparent : parent < k.tree.size) (position : Int)
    (directive : String) (lines : List String) (offset depth : Int) :
    k.Follows { k with
      pending := none, tree := k.tree.attach parent position directive lines offset
      scopes := ⟨k.tree.size, depth⟩ :: k.scopes, active := k.tree.size } := by
  have hattach := h.attach hparent position directive lines offset
  have hnew : k.tree.size < (k.tree.attach parent position directive lines offset).size := by simp
  refine ⟨{ hattach.orderly with
    active := hnew
    scopes := List.forall_mem_cons.mpr ⟨⟨h.tree.size_pos, hnew⟩, hattach.orderly.scopes⟩
    rising := .cons (fun scope hscope => (h.scopes scope hscope).2) h.rising }, hattach.keeps⟩

/-- An include that is resolved is followed. -/
theorem onResolved (h : k.Orderly) (o : Outcome) : k.Follows (k.onResolved o).1 := by
  unfold Tracker.onResolved
  split
  · exact h.refl
  · rename_i p hpending
    have hparent : p.parent < k.tree.size := h.pending p hpending
    cases o with
    | entered lines lineno frame depth => exact h.enter hparent _ _ _ _ _
    | replaced line depth => exact h.attach hparent _ _ _ _
    | vanished depth => exact h.attach hparent _ _ _ _

/-- Carrying open regions on to the parent is followed. -/
theorem carrySkips (h : k.Orderly) (child : Node) {parent : Nat} (hparent : parent < k.tree.size) :
    k.Follows (k.carrySkips child parent) := by
  -- the regions that were seen so far are in place, whatever regions are to come
  have hstep : ∀ state : Tree × List OpenSkip,
      k.Follows { k with tree := state.1, openSkips := state.2 } → ∀ skip ∈ k.openSkips.reverse,
      k.Follows { k with
        tree := (carrySkip child parent state skip).1
        openSkips := (carrySkip child parent state skip).2 } := by
    intro state hstate skip hskip
    have hlt : ∀ {id}, id < k.tree.size → id < state.1.size := fun hid =>
      Nat.lt_of_lt_of_le hid hstate.keeps.size_le
    unfold carrySkip
    split
    · refine (hstate.addDrops child.id _).withSkips (List.forall_mem_cons.mpr ⟨?_, ?_⟩)
      · simpa [Tracker.addDrops] using hlt hparent
      · simpa [Tracker.addDrops] using hstate.orderly.openSkips
    · exact hstate.withSkips (List.forall_mem_cons.mpr
        ⟨hlt (h.openSkips skip (List.mem_reverse.mp hskip)), hstate.orderly.openSkips⟩)
  exact List.foldlRecOn (motive := fun state : Tree × List OpenSkip =>
    k.Follows { k with tree := state.1, openSkips := state.2 }) _ _
    (h.refl.withSkips fun skip hskip => by cases hskip) hstep

/-- The scope that is left has a parent, and that exists. -/
theorem exists_left (h : k.Orderly) {scope : TrackedScope} {rest : List TrackedScope}
    (hscopes : k.scopes = scope :: rest) :
    ∃ left p, k.tree.node? scope.node = some left ∧ left.parent = some p ∧ p < k.tree.size := by
  obtain ⟨hpos, hlt⟩ := h.scopes scope (by simp [hscopes])
  obtain ⟨left, hleft⟩ := Tree.exists_node hlt
  obtain ⟨p, hp, hparent⟩ := h.tree.parent _ _ hpos hleft
  exact ⟨left, p, hleft, hparent, hp.trans hlt⟩

/-- What is left when the innermost scope is left. -/
theorem leave (h : k.Orderly) {scope : TrackedScope} {rest : List TrackedScope} {active : Nat}
    (hscopes : k.scopes = scope :: rest) (hactive : active < k.tree.size) :
    k.Follows { k with scopes := rest, active } where
  orderly := { h with
    active := hactive
    scopes := fun outer houter => h.scopes outer (by simp [hscopes, houter])
    rising := (List.pairwise_cons.mp (hscopes ▸ h.rising)).2 }
  keeps := .refl _ _

/-- The end of a file is followed. -/
theorem onScopeEnd (h : k.Orderly) (depthAfter : Int) : k.Follows (k.onScopeEnd depthAfter) := by
  rcases k.onScopeEnd_cases depthAfter with hend | ⟨scope, rest, left, hscopes, hleft, hend⟩
  · rw [hend]
    exact h.refl
  · obtain ⟨left', p, hleft', hparent, hp⟩ := h.exists_left hscopes
    obtain rfl : left = left' := Option.some.inj (hleft.symm.trans hleft')
    have hleave := h.leave hscopes hp
    rw [hparent, Option.getD_some] at hend
    rcases hend with hend | hend <;> rw [hend]
    · exact hleave
    · exact hleave.trans (hleave.orderly.carrySkips left hp)

/-- An event is followed. -/
theorem observe (h : k.Orderly) (e : Event) : k.Follows (k.observe e).1 := by
  cases e with
  | conditional e => exact h.onConditional e
  | includeFound e => exact h.onInclude e
  | includeResolved o => exact h.onResolved o
  | scopeEnd before after => exact h.onScopeEnd after

/-- Events are followed. -/
theorem observeAll (h : k.Orderly) (es : List Event) : k.Follows (k.observeAll es) := by
  induction es generalizing k with
  | nil => exact h.refl
  | cons e es ih =>
    have hstep := h.observe e
    exact hstep.trans (ih hstep.orderly)

/-! ### Nothing stops an event -/

/-- The active node exists, and is the one that a tracker asks. -/
theorem fetch_active (h : k.Orderly) :
    ∃ node, k.tree.fetch k.active = .ok node ∧ k.activeNode = node ∧ node.id = k.active := by
  obtain ⟨node, hnode, hfetch, hid⟩ := h.tree.fetch_eq h.active
  exact ⟨node, hfetch, by simp [activeNode, hnode], hid⟩

/-- Closing a region finds its node. -/
theorem closeSkip?_eq (h : k.Orderly) {node : Node} (hid : node.id = k.active) (index depth : Int) :
    k.closeSkip? node index depth = .ok (k.closeSkip index depth) := by
  unfold closeSkip? Tracker.closeSkip
  rw [hid]
  cases heq : k.openSkips.dropWhile fun skip => skip.depth > depth with
  -- no region is open
  | nil => rfl
  | cons skip rest =>
    have hskip : skip ∈ k.openSkips :=
      (List.dropWhile_sublist _).subset (heq ▸ List.mem_cons_self)
    obtain ⟨opener, hopener, hfetch, hopenerId⟩ := h.tree.fetch_eq (h.openSkips skip hskip)
    dsimp only
    split
    · -- the region began in the same scope
      rfl
    · -- the region began in another scope, whose node is there
      simp [hfetch, hopenerId, lineCount, hopener, bind, Except.bind]

/-- A conditional is recorded without an error. -/
theorem onConditional?_eq (h : k.Orderly) (e : ConditionalEvent) :
    k.onConditional? e = .ok (k.onConditional e) := by
  obtain ⟨node, hfetch, hactive, hid⟩ := h.fetch_active
  unfold onConditional? Tracker.onConditional
  rw [hfetch, hactive]
  split
  · -- nothing is recorded
    rfl
  · change (if _ then _ else _) = _
    split
    · split
      · -- a region is closed
        exact h.closeSkip?_eq hid _ _
      · -- the end of a conditional that was read
        rw [hid]
    · split
      · -- a conditional is opened
        split <;> rw [hid]
      · -- the text of a conditional may be kept
        rw [hid]
        cases e.retained <;> cases e.directive.text <;> rfl

/-- An include that is found is recorded without an error. -/
theorem onInclude?_eq (h : k.Orderly) (e : IncludeEvent) :
    k.onInclude? e = .ok (k.onInclude e) := by
  obtain ⟨node, hfetch, hactive, hid⟩ := h.fetch_active
  unfold onInclude? Tracker.onInclude
  rw [hfetch, hactive, ← hid]
  rfl

/-- An include that is resolved is recorded without an error. -/
theorem onResolved?_eq (h : k.Orderly) (o : Outcome) : k.onResolved? o = .ok (k.onResolved o) := by
  unfold onResolved? Tracker.onResolved
  cases hpending : k.pending with
  | none => rfl
  | some p =>
    have hattach : ∀ lines offset,
        k.tree.attach? p.parent p.position p.directive lines offset =
          .ok (k.tree.attach p.parent p.position p.directive lines offset) := fun lines offset =>
      Tree.attach?_of_lt (h.pending p hpending) _ _ _ _
    cases o <;> simp only [hattach] <;> rfl

/-- The end of a file is recorded without an error. -/
theorem onScopeEnd?_eq (h : k.Orderly) (depthAfter : Int) :
    k.onScopeEnd? depthAfter = .ok (k.onScopeEnd depthAfter) := by
  unfold onScopeEnd? Tracker.onScopeEnd
  cases hscopes : k.scopes with
  -- no scope was recorded
  | nil => rfl
  | cons scope rest =>
    dsimp only
    split
    · -- the scope goes on
      rfl
    · obtain ⟨left, p, hleft, hparent, hp⟩ := h.exists_left hscopes
      obtain ⟨parent, -, hfetch, hid⟩ := h.tree.fetch_eq hp
      have hfetchLeft : k.tree.fetch scope.node = .ok left := by simp [Tree.fetch, hleft]
      simp only [hfetchLeft, hleft, hparent, Option.getD_some, bind, Except.bind]
      split
      · -- nothing is carried on
        rfl
      · -- what is open is carried on to the parent
        simp only [hfetch, hid]

/-- An event is recorded without an error. -/
theorem observeOne?_eq (h : k.Orderly) (e : Event) : k.observeOne? e = .ok (k.observe e) := by
  cases e with
  | conditional e => exact h.onConditional?_eq e
  | includeFound e =>
    simp only [observeOne?, h.onInclude?_eq e]
    rfl
  | includeResolved o => exact h.onResolved?_eq o
  | scopeEnd before after =>
    simp only [observeOne?, h.onScopeEnd?_eq after]
    rfl

/-- Events are recorded without an error. -/
theorem observeAll?_eq (h : k.Orderly) (es : List Event) :
    k.observeAll? es = .ok (k.observeAll es) := by
  induction es generalizing k with
  | nil => rfl
  | cons e es ih =>
    unfold observeAll?
    rw [h.observeOne?_eq e]
    exact ih (h.observe e).orderly

end Orderly

/-! ### The end of a document -/

/-- Every node on the way up has a smaller number than the one before, so no way is longer than the
number that it starts at. -/
theorem deleteRest?_eq {rootLines : Int} {fuel : Nat} {t : Tree} {id : Nat} {start : Int}
    (h : t.Ordered) (hid : id < t.size) (hfuel : id < fuel) :
    deleteRest? rootLines fuel t id start = .ok (deleteRest rootLines fuel t id start) := by
  -- on the way the number that is left falls at least as fast as the fuel
  induction fuel generalizing t id start with
  | zero => exact absurd hfuel (Nat.not_lt_zero _)
  | succ fuel ih =>
    obtain ⟨node, hnode, hfetch, hnamed⟩ := h.fetch_eq hid
    unfold deleteRest? deleteRest
    simp only [hfetch, hnode, hnamed, bind, Except.bind]
    cases hparent : node.parent with
    | none => rfl
    | some p =>
      have hlt := h.parent_lt hnode hparent
      exact ih (h.addDrops _ _) (by rw [Tree.size_addDrops]; omega) (by omega)

/-- Deleting the rest from each of some open regions on, with lookups checked or not. -/
theorem foldlM_deleteRest?_eq (rootLines : Int) {openSkips : List OpenSkip} {t : Tree}
    (h : t.Ordered) (hskips : ∀ skip ∈ openSkips, skip.node < t.size) :
    openSkips.foldlM (fun t skip => deleteRest? rootLines t.size t skip.node skip.start) t =
      .ok (openSkips.foldl
        (fun t skip => deleteRest rootLines t.size t skip.node skip.start) t) := by
  induction openSkips generalizing t with
  | nil => rfl
  | cons skip rest ih =>
    obtain ⟨hskip, hrest⟩ := List.forall_mem_cons.mp hskips
    have halike : t.Alike Node.content (deleteRest rootLines t.size t skip.node skip.start) :=
      (addsDrops_deleteRest rootLines t.size t skip.node skip.start).alike fun _ _ => rfl
    rw [List.foldlM_cons, deleteRest?_eq h hskip hskip]
    exact ih (h.of_alike halike.identity) (by simpa only [halike.size] using hrest)

namespace Orderly

/-- What is left at the end is recorded without an error. -/
theorem finish?_eq (h : k.Orderly) (rootLines : Nat) :
    k.finish? rootLines = .ok (k.finish rootLines) := by
  unfold finish? Tracker.finish
  split
  · rfl
  · rw [foldlM_deleteRest?_eq rootLines h.tree h.openSkips]
    rfl

/-- The end is followed. -/
theorem finish (h : k.Orderly) (rootLines : Nat) : k.Follows (k.finish rootLines) := by
  have halike : k.tree.Alike Node.content (k.finish rootLines).tree :=
    (addsDrops_finish k rootLines).alike fun _ _ => rfl
  unfold Tracker.finish at halike ⊢
  split
  · exact h.refl
  · rename_i hpreserve
    rw [if_neg hpreserve] at halike
    exact ⟨{ h.withTree halike.identity with openSkips := by simp }, halike.keeps⟩

end Orderly

end Tracker

/-! ## Replays -/

/-- Changing a node comes to writing another one in its place. -/
theorem Tree.modify_eq_of_node? {t : Tree} {id : Nat} {n : Node} (hn : t.node? id = some n)
    (f : Node → Node) : t.modify id f = t.modify id fun _ => f n := by
  have hnodes : t.nodes.modify id f = t.nodes.modify id fun _ => f n := by
    refine Array.ext_getElem? fun i => ?_
    rw [Array.getElem?_modify, Array.getElem?_modify]
    split
    · rename_i hid
      subst hid
      unfold node? at hn
      rw [hn]
      rfl
    · rfl
  simp only [modify, hnodes]

/-- A line that was found is in range, and so there is a position. -/
theorem exists_position_of_lineAt? {parent node : Node} {current : Fragment}
    (h : lineAt? parent (node.position.getD (-1)) = some current) :
    ∃ position, node.position = some position ∧ 0 ≤ position ∧ position < parent.lines.length := by
  unfold lineAt? at h
  split at h
  · rename_i hrange
    cases hposition : node.position with
    -- a node without a position has no line in its parent
    | none => simp [hposition] at hrange
    | some position =>
      rw [hposition, Option.getD_some] at h hrange
      obtain ⟨hlt, -⟩ := List.getElem?_eq_some_iff.mp h
      exact ⟨position, rfl, hrange, by omega⟩
  · cases h

/-- A place that was found is there to be filled. -/
theorem putInto?_eq {parent node : Node} {place : Place} (h : placeIn parent node = .ok place) :
    putInto? place node.settled parent = .ok (putInto place node.settled parent) := by
  unfold placeIn at h
  dsimp only at h
  split at h
  · -- there is no line to fill
    cases h
  · rename_i current hline
    obtain ⟨position, hposition, hrange⟩ := exists_position_of_lineAt? hline
    have hsettled : node.settled.position = some position := hposition
    split at h
    · -- the line is the directive of the node
      cases h
      simp only [putInto?, putInto, hsettled, Option.getD_some, bind, Except.bind]
      rw [if_pos hrange]
    · split at h
      · -- the line was replaced by the directive
        rename_i hdrop
        cases h
        simp only [putInto?, putInto, hsettled, Option.getD_some, bind, Except.bind]
        rw [if_pos (List.contains_iff_mem.mp hdrop)]
        exact if_pos hrange
      · cases h

/-- Replaying a node of an ordered tree finds every node that it needs. -/
theorem replayNode?_eq {t : Tree} {id : Nat} (h : t.Ordered) (hid : id < t.size) :
    replayNode? t id = .ok (replayNode t id) := by
  obtain ⟨node, hnode, hfetch, -⟩ := h.fetch_eq hid
  unfold replayNode? replayNode
  simp only [hfetch, hnode, bind, Except.bind]
  cases hparent : node.parent with
  | none => rfl
  | some p =>
    have hlt : p < id := h.parent_lt hnode hparent
    obtain ⟨parent, hparentNode, hfetchParent, -⟩ := h.fetch_eq (hlt.trans hid)
    simp only [hfetchParent, hparentNode]
    cases hplace : placeIn parent node with
    | error record => rfl
    | ok place =>
      -- the parent is another node, so settling the one has not changed it
      have hapart : (t.modify id Node.settled).node? p = some parent := by
        rw [Tree.node?_modify, if_neg (Nat.ne_of_gt hlt), hparentNode]
      simp only [putInto?_eq hplace, Tree.modify_eq_of_node? hapart (putInto place node.settled)]

/-- To settle a node changes lines and drops, of the node and of its parent. -/
theorem alike_replayNode (t : Tree) (id : Nat) : t.Alike Node.identity (replayNode t id).1 := by
  have hsettled : t.Alike Node.identity (t.modify id Node.settled) := .modify t id fun _ => rfl
  unfold replayNode
  split
  · exact .refl _ _
  · split
    · exact hsettled
    · split
      · exact .refl _ _
      · split
        · exact .refl _ _
        · exact hsettled.trans (.modify _ _ fun _ => rfl)

/-- Replaying changes nothing of what identifies a node. -/
theorem alike_replayBelow (t : Tree) (id : Nat) : t.Alike Node.identity (replayBelow t id).1 := by
  induction id generalizing t with
  | zero => exact .refl _ _
  | succ id ih => exact (alike_replayNode t id).trans (ih _)

/-- Putting the source in place changes nothing of what identifies a node. -/
theorem alike_withSource (t : Tree) (source : List String) :
    t.Alike Node.identity (t.withSource source) :=
  .modify t 0 fun _ => rfl

/-- A replay gives nodes other lines and drops; they stay the nodes that they are. -/
theorem alike_replay (t : Tree) (source : List String) :
    t.Alike Node.identity (replay t source).tree := by
  unfold replay
  split
  · exact .refl _ _
  · exact (alike_withSource t source).trans (alike_replayBelow _ _)

/-- Replaying the nodes of an ordered tree finds every node that it needs. -/
theorem replayBelow?_eq {t : Tree} {id : Nat} (h : t.Ordered) (hid : id ≤ t.size) :
    replayBelow? t id = .ok (replayBelow t id) := by
  induction id generalizing t with
  | zero => rfl
  | succ id ih =>
    have halike := alike_replayNode t id
    have hrest := ih (h.of_alike halike) (by have := halike.size; omega)
    simp only [replayBelow?, replayBelow, replayNode?_eq h hid, hrest, bind, Except.bind]

/-- An ordered tree is replayed without an error. -/
theorem replay?_eq {t : Tree} (h : t.Ordered) (source : List String) :
    replay? t source = .ok (replay t source) := by
  -- the document is looked up twice, before its lines are known and after they were replaced
  have hroot : ∀ {t' : Tree}, t'.Ordered → t'.fetch 0 = .ok t'.root := by
    intro t' h'
    obtain ⟨document, hdocument, hfetch, -⟩ := h'.fetch_eq h'.size_pos
    rw [hfetch, Tree.root, hdocument]
    rfl
  have hsourced : (t.withSource source).Ordered := h.of_alike (alike_withSource t source)
  have hreplayed := hsourced.of_alike (alike_replayBelow (t.withSource source) t.size)
  have hbelow := replayBelow?_eq hsourced (Nat.le_of_eq (alike_withSource t source).size.symm)
  unfold replay? replay Tree.isTrivial
  simp only [hroot h, bind, Except.bind]
  split
  · rfl
  · simp only [hbelow, hroot hreplayed]

/-! ## Any use of a tracker -/

/-- A tracker can be used in any way. Let it follow any events, and any further ones, in whatever order
they come and whatever they say; then let it finish for a document of any length, and replay its tree
over any lines. With every lookup checked all of this goes through, and comes to what the tracker does.
After any events, at the end and after the replay the tracker is in order. Further events and the end
leave the nodes that exist as they are, drops apart; the replay, which is there to give nodes new lines,
leaves their number, parent, position and directive. -/
theorem tracker_stays_orderly (preserve : Bool) (es further : List Event) (rootLines : Nat)
    (source : List String) :
    let k := (Tracker.start preserve).observeAll es
    let k' := k.observeAll further
    let finished := k'.finish rootLines
    let replayed := replay finished.tree source
    ((Tracker.start preserve).observeAll? es = .ok k ∧ k.Orderly) ∧
      (k.observeAll? further = .ok k' ∧ k.Follows k') ∧
      (k'.finish? rootLines = .ok finished ∧ k'.Follows finished) ∧
      replay? finished.tree source = .ok replayed ∧
      { finished with tree := replayed.tree }.Orderly ∧
      finished.tree.Keeps Node.identity replayed.tree := by
  intro k k' finished replayed
  have hstart : (Tracker.start preserve).Orderly := Tracker.orderly_start preserve
  have hk : k.Orderly := (hstart.observeAll es).orderly
  have hk' : k.Follows k' := hk.observeAll further
  have hfinished : k'.Follows finished := hk'.orderly.finish rootLines
  have hreplayed : finished.tree.Alike Node.identity replayed.tree := alike_replay _ source
  exact ⟨⟨hstart.observeAll?_eq es, hk⟩, ⟨hk.observeAll?_eq further, hk'⟩,
    ⟨hk'.orderly.finish?_eq rootLines, hfinished⟩, replay?_eq hfinished.orderly.tree source,
    hfinished.orderly.withTree hreplayed, hreplayed.keeps⟩

/-- The lines of the document itself are not known before the replay: an include that one line takes the
place of is put there by the replay, where there was nothing. -/
theorem replay_changes_lines :
    let finished := ((Tracker.start false).observeAll
      [.includeFound ⟨⟨"a", ""⟩, 1⟩, .includeResolved (.replaced "x" 0)]).finish 1
    ¬ finished.tree.Keeps Node.content (replay finished.tree ["include::a[]"]).tree := by
  intro finished hkeeps
  obtain ⟨document, hdocument, hsame⟩ := hkeeps 0 Tree.rootNode rfl
  have hafter : ((replay finished.tree ["include::a[]"]).tree.node? 0).map
      (fun n => flattenAll n.lines) = some ["x"] := by
    decide +kernel
  rw [hdocument] at hafter
  have hlines : document.lines = [] := congrArg Prod.snd hsame
  rw [Option.map_some, hlines] at hafter
  cases hafter

end DocFlatten.Replacement
