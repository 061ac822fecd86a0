import DocFlatten.Proofs.Accounting
import DocFlatten.Proofs.Entering
import DocFlatten.Proofs.Loading

/-! # A tracker keeps level with its reader

Three stacks are kept apart and meet only in events: the scopes of a reader, its conditionals, and the
open regions of a tracker. Whatever the conditionals are worth (ends that match nothing, conditions
that cannot be read, regions that begin in one file and end in another) they agree each time a line
was looked for or taken:

* `Tree.Chain`: the scopes of a tracker lead up in its tree, one node for each scope of the reader;
* `Tracker.Level`: there is one open region if the reader skips and none otherwise, and then it has the
  depth of the outermost conditional that skips;
* `Linked`: each conditional event starts from where the one before has left.

`tracker_shadows` has all of it, for every state of a driven reader and for every loaded document.
-/

namespace DocFlatten

namespace Replacement

/-! ## The way up in a tree -/

namespace Tree

/-- The parent of a node, if there is such a node. -/
def above? (t : Tree) (id : Nat) : Option (Option Nat) :=
  (t.node? id).map (·.parent)

/-- How many nodes are above a node. -/
inductive AtDepth (t : Tree) : Nat → Nat → Prop where
  | root {id : Nat} (h : t.above? id = some none) : AtDepth t id 0
  | under {id parent depth : Nat} (h : t.above? id = some (some parent))
      (hparent : AtDepth t parent depth) : AtDepth t id (depth + 1)

/-- A node has one depth only. -/
theorem AtDepth.unique {t : Tree} {id depth depth' : Nat} (h : t.AtDepth id depth)
    (h' : t.AtDepth id depth') : depth = depth' := by
  induction h generalizing depth' with
  | root h =>
    cases h' with
    | root => rfl
    | under hsome =>
      rw [h] at hsome
      cases hsome
  | under h _ ih =>
    cases h' with
    | root hnone =>
      rw [h] at hnone
      cases hnone
    | under hsome hparent =>
      rw [h] at hsome
      cases hsome
      rw [ih hparent]

/-- Tracked scopes that lead from a node up to the document, each with its depth. -/
inductive Chain (t : Tree) : Nat → List TrackedScope → Prop where
  | root (h : t.above? 0 = some none) : Chain t 0 []
  | scope {id parent : Nat} {scopes : List TrackedScope} (h : t.above? id = some (some parent))
      (hparent : Chain t parent scopes) : Chain t id (⟨id, scopes.length + 1⟩ :: scopes)

/-- The end of a chain lies as deep as the chain is long. -/
theorem Chain.atDepth {t : Tree} {id : Nat} {scopes : List TrackedScope} (h : t.Chain id scopes) :
    t.AtDepth id scopes.length := by
  induction h with
  | root h => exact .root h
  | scope h _ ih => exact .under h ih

/-- Nodes stay where they are. -/
def Grown (t t' : Tree) : Prop :=
  ∀ id parent, t.above? id = some parent → t'.above? id = some parent

/-- A chain is one in a grown tree. -/
theorem Chain.grow {t t' : Tree} (hgrown : t.Grown t') {id : Nat} {scopes : List TrackedScope}
    (h : t.Chain id scopes) : t'.Chain id scopes := by
  induction h with
  | root h => exact .root (hgrown _ _ h)
  | scope h _ ih => exact .scope (hgrown _ _ h) ih

theorem Grown.refl (t : Tree) : t.Grown t :=
  fun _ _ h => h

theorem Grown.trans {t t' t'' : Tree} (h : t.Grown t') (h' : t'.Grown t'') : t.Grown t'' :=
  fun id parent hid => h' id parent (h id parent hid)

/-- A tree with more drops has grown. -/
theorem grown_addDrops (t : Tree) (id : Nat) (drops : List Drop) :
    t.Grown (t.addDrops id drops) := by
  intro c parent h
  unfold above? at h ⊢
  rw [node?_addDrops]
  split
  · rename_i heq
    subst heq
    rw [Option.map_map]
    exact h
  · exact h

/-- Adding drops lets a tree grow. -/
theorem AddsDrops.grown {t t' : Tree} (h : t.AddsDrops t') : t.Grown t' := by
  induction h with
  | refl => exact .refl t
  | add _ id drops ih => exact ih.trans (grown_addDrops _ id drops)

/-- A tree with one more node has grown. -/
theorem grown_attach (t : Tree) (parent : Nat) (position : Int) (directive : String)
    (lines : List String) (offset : Int) :
    t.Grown (t.attach parent position directive lines offset) := by
  intro c above h
  unfold above? at h ⊢
  obtain ⟨n, hn, hparent⟩ := Option.map_eq_some_iff.mp h
  rw [node?_attach_of_lt _ _ _ _ _ _ (lt_size_of_node? hn), hn]
  exact congrArg some hparent

/-- A new node lies below its parent. -/
theorem above?_attach_self (t : Tree) (parent : Nat) (position : Int) (directive : String)
    (lines : List String) (offset : Int) :
    (t.attach parent position directive lines offset).above? t.size = some (some parent) := by
  unfold above?
  rw [node?_attach_self]
  rfl

end Tree

/-! ## Open regions -/

namespace Tracker

/-- A tracker in the same scopes as another one, whose tree has grown. -/
structure Beside (k k' : Tracker) : Prop where
  preserve : k'.preserve = k.preserve
  pending : k'.pending = k.pending
  active : k'.active = k.active
  scopes : k'.scopes = k.scopes
  grown : k.tree.Grown k'.tree

theorem Beside.refl (k : Tracker) : Beside k k :=
  ⟨rfl, rfl, rfl, rfl, .refl _⟩

/-- Trackers stay beside each other when drops are added. -/
theorem Beside.addDrops {k k' : Tracker} (h : Beside k k') (id : Nat) (drops : List Drop) :
    Beside k (k'.addDrops id drops) :=
  ⟨h.preserve, h.pending, h.active, h.scopes, h.grown.trans (Tree.grown_addDrops _ _ _)⟩

/-- Trackers stay beside each other when other regions are open. -/
theorem Beside.skips {k k' : Tracker} (h : Beside k k') (openSkips : List OpenSkip) :
    Beside k { k' with openSkips } :=
  ⟨h.preserve, h.pending, h.active, h.scopes, h.grown⟩

/-- A conditional changes no scope. -/
theorem beside_onConditional (k : Tracker) (e : ConditionalEvent) :
    Beside k (k.onConditional e).1 := by
  have hnotes := notes_onConditional k e
  generalize (k.onConditional e).1 = k' at hnotes
  induction hnotes with
  | skips openSkips => exact (Beside.refl k).skips openSkips
  | drops _ id drops ih => exact ih.addDrops id drops

/-- A conditional outside of which and behind which lines are read leaves the open regions. -/
theorem openSkips_plain {k : Tracker} {e : ConditionalEvent} (hbefore : e.skippingBefore = false)
    (hafter : e.skippingAfter = false) : (k.onConditional e).1.openSkips = k.openSkips := by
  unfold onConditional
  rw [hbefore, hafter]
  split
  · rfl
  · simp only
    split
    · rfl
    · split
      · rfl
      · split <;> rfl

/-- A conditional that starts to skip opens a region. -/
theorem openSkips_opened {k : Tracker} {e : ConditionalEvent} (hpreserve : k.preserve = false)
    (hbefore : e.skippingBefore = false) (hafter : e.skippingAfter = true)
    (hdepth : e.depthBefore < e.depthAfter) :
    ∃ skip, (k.onConditional e).1.openSkips = skip :: k.openSkips ∧ skip.depth = e.depthAfter := by
  unfold onConditional
  rw [hpreserve, hbefore, hafter]
  simp only [Bool.false_and, Bool.or_self, Bool.false_eq_true, if_false]
  rw [if_neg (by omega), if_pos hdepth]
  exact ⟨_, rfl, rfl⟩

/-- The end of the outermost conditional that skips closes its region. -/
theorem openSkips_closed {k : Tracker} {e : ConditionalEvent} {skip : OpenSkip}
    (hpreserve : k.preserve = false) (hbefore : e.skippingBefore = true)
    (hafter : e.skippingAfter = false) (hdepth : e.depthAfter < e.depthBefore)
    (hskips : k.openSkips = [skip]) (hskip : skip.depth = e.depthBefore) :
    (k.onConditional e).1.openSkips = [] := by
  unfold onConditional
  rw [hpreserve, hbefore, hafter]
  simp only [Bool.true_and, Bool.or_self, Bool.false_eq_true, if_false, if_true]
  rw [if_pos hdepth]
  unfold closeSkip
  have hkept :
      k.openSkips.dropWhile (fun skip => decide (skip.depth > e.depthBefore)) = [skip] := by
    rw [hskips, List.dropWhile_cons_of_neg (by simp [hskip])]
  rw [hkept]
  simp only
  split <;> rfl

/-- Regions that move on to the scope around keep their depths. -/
theorem depths_carrySkips (k : Tracker) (child : Node) (parent : Nat) :
    (k.carrySkips child parent).openSkips.map (·.depth) = k.openSkips.map (·.depth) := by
  have hfold : ∀ (skips : List OpenSkip) (state : Tree × List OpenSkip),
      ((skips.foldl (carrySkip child parent) state).2.map (·.depth)) =
        (skips.map (·.depth)).reverse ++ state.2.map (·.depth) := by
    intro skips
    induction skips with
    | nil => exact fun state => rfl
    | cons skip skips ih =>
      intro state
      have hstep : (carrySkip child parent state skip).2.map (·.depth) =
          skip.depth :: state.2.map (·.depth) := by
        unfold carrySkip
        split <;> rfl
      rw [List.foldl_cons, ih, hstep]
      simp
  unfold carrySkips
  simp only [hfold]
  simp

/-! ## Trackers and readers -/

/-- Open regions that are those of a reader: one if it skips, at the depth of the outermost conditional
that does, and none otherwise. -/
structure Regions (openSkips : List OpenSkip) (r : Reader) : Prop where
  reading : r.skipping = false → openSkips = [] ∧ NoneSkips r.conditionals
  skips : r.skipping = true → ∃ (skip : OpenSkip) (depth : Nat), openSkips = [skip] ∧
    skip.depth = depth ∧ SkipsFrom r.conditionals depth

namespace Regions

variable {openSkips : List OpenSkip} {r r' : Reader}

/-- Nothing is skipped, and no region is open. -/
theorem none (hskip : r.skipping = false) (hskips : openSkips = [])
    (h : NoneSkips r.conditionals) : Regions openSkips r where
  reading _ := ⟨hskips, h⟩
  skips hsome := by
    rw [hskip] at hsome
    cases hsome

/-- The one region that is open began at the depth at which the conditionals begin to skip. -/
theorem one (hskip : r.skipping = true) {skip : OpenSkip} {depth : Nat}
    (hskips : openSkips = [skip]) (hdepth : skip.depth = depth)
    (h : SkipsFrom r.conditionals depth) : Regions openSkips r where
  reading hread := by
    rw [hskip] at hread
    cases hread
  skips _ := ⟨skip, depth, hskips, hdepth, h⟩

/-- The open regions depend on the conditionals only. -/
theorem congr (h : Regions openSkips r) (hconditionals : r'.conditionals = r.conditionals)
    (hskipping : r'.skipping = r.skipping) : Regions openSkips r' where
  reading := by rw [hskipping, hconditionals]; exact h.reading
  skips := by rw [hskipping, hconditionals]; exact h.skips

/-- Regions of which only the depths count. -/
theorem of_depths {openSkips' : List OpenSkip} (h : Regions openSkips r)
    (hdepths : openSkips'.map (·.depth) = openSkips.map (·.depth)) : Regions openSkips' r := by
  cases hskip : r.skipping with
  | false =>
    obtain ⟨rfl, hnone⟩ := h.reading hskip
    exact .none hskip (List.map_eq_nil_iff.mp hdepths) hnone
  | true =>
    obtain ⟨skip, depth, rfl, hdepth, hfrom⟩ := h.skips hskip
    obtain ⟨skip', rfl, hskip'⟩ := List.map_eq_singleton_iff.mp hdepths
    exact .one hskip rfl (hskip'.trans hdepth) hfrom

section Conditional

variable {k : Tracker} {c : Conditional} {consumed : Bool}

/-- A conditional before and after which lines are read. -/
theorem conditional_plain (h : Regions k.openSkips r) (hbefore : r.skipping = false)
    (hafter : r'.skipping = false) (hnone : NoneSkips r'.conditionals) :
    Regions (k.observe (c.event r r' consumed)).1.openSkips r' := by
  refine .none hafter ?_ hnone
  exact (openSkips_plain (k := k) hbefore hafter).trans (h.reading hbefore).1

/-- A conditional before and after which lines are skipped. -/
theorem conditional_hidden (h : Regions k.openSkips r) (hbefore : r.skipping = true)
    (hafter : r'.skipping = true)
    (hfrom : ∀ depth, SkipsFrom r.conditionals depth → SkipsFrom r'.conditionals depth) :
    Regions (k.observe (c.event r r' consumed)).1.openSkips r' := by
  obtain ⟨skip, depth, hskips, hskip, hsome⟩ := h.skips hbefore
  rw [observe_hidden hbefore hafter]
  exact .one hafter hskips hskip (hfrom depth hsome)

/-- Where lines are read, a conditional opens a region or none. -/
theorem conditional_reading (h : Regions k.openSkips r) (hpreserve : k.preserve = false)
    (hbefore : r.skipping = false) (hruled : Ruled r c consumed r') :
    Regions (k.observe (c.event r r' consumed)).1.openSkips r' := by
  obtain ⟨hskips, hnone⟩ := h.reading hbefore
  cases hruled with
  | idle => exact h.conditional_plain hbefore hbefore hnone
  | opened target skip skipping =>
    cases skipping with
    | false => exact h.conditional_plain hbefore rfl (hnone.cons rfl)
    | true =>
      have hdeeper : (r.conditionalDepth : Int) < (r.conditionals.length + 1 : Nat) := by
        unfold Reader.conditionalDepth
        omega
      obtain ⟨region, hopened, hregion⟩ := openSkips_opened
        (e := ⟨c, r.cursor.lineno, r.skipping, true, r.conditionalDepth,
          (r.conditionals.length + 1 : Nat), false⟩) hpreserve hbefore rfl hdeeper
      rw [hskips] at hopened
      exact .one rfl hopened hregion (hnone.skipsFrom rfl)
  | closed top rest htop =>
    rw [htop] at hnone
    exact h.conditional_plain hbefore hnone.tail.2 hnone.tail.1
  | kept text hskip =>
    exact h.conditional_plain hbefore ((r.skipping_keeping text).trans hskip)
      (by rw [Reader.conditionals_keeping]; exact hnone)

/-- Where lines are skipped, a conditional closes the region or none. -/
theorem conditional_skipping (h : Regions k.openSkips r) (hpreserve : k.preserve = false)
    (hbefore : r.skipping = true) (hruled : Ruled r c consumed r') :
    Regions (k.observe (c.event r r' consumed)).1.openSkips r' := by
  obtain ⟨skip, depth, hskips, hskip, hfrom⟩ := h.skips hbefore
  cases hruled with
  -- nothing is opened or closed
  | idle => exact h.conditional_hidden hbefore hbefore fun _ hsome => hsome
  -- one more conditional is opened within the region
  | opened target own skipping hstill =>
    obtain rfl := hstill hbefore
    exact h.conditional_hidden hbefore rfl fun _ hsome => hsome.cons rfl
  | closed top rest htop =>
    rw [htop] at hfrom
    rcases hfrom.tail with ⟨hafter, -⟩ | ⟨hafter, hnone, hlength⟩
    · -- a conditional inside of the region was closed
      refine h.conditional_hidden hbefore hafter fun depth' hsome => ?_
      rw [htop] at hsome
      rcases hsome.tail with ⟨-, hrest⟩ | ⟨hends, -⟩
      · exact hrest
      · rw [hafter] at hends
        cases hends
    · -- the one that has opened the region was closed
      have hcount : r.conditionalDepth = rest.length + 1 := by
        simp [Reader.conditionalDepth, htop]
      have hshallower : (rest.length : Int) < r.conditionalDepth := by omega
      have houtermost : skip.depth = r.conditionalDepth := by omega
      exact .none hafter (openSkips_closed
        (e := ⟨c, r.cursor.lineno, r.skipping, skippingAfter rest, r.conditionalDepth,
          rest.length, false⟩) hpreserve hbefore hafter hshallower hskips houtermost) hnone
  -- a line that is kept is not skipped
  | kept _ hread =>
    rw [hbefore] at hread
    cases hread

/-- Whatever a conditional does, the open regions follow. -/
theorem conditional (h : Regions k.openSkips r) (hpreserve : k.preserve = false)
    (hruled : Ruled r c consumed r') :
    Regions (k.observe (c.event r r' consumed)).1.openSkips r' := by
  cases hbefore : r.skipping with
  | false => exact h.conditional_reading hpreserve hbefore hruled
  | true => exact h.conditional_skipping hpreserve hbefore hruled

end Conditional

end Regions

/-- A tracker whose scopes and open regions are those of a reader. -/
structure Level (k : Tracker) (r : Reader) : Prop where
  preserve : k.preserve = false
  pending : k.pending = none
  chain : k.tree.Chain k.active k.scopes
  depth : k.scopes.length = r.includeDepth
  regions : Regions k.openSkips r

namespace Level

variable {k : Tracker} {r r' : Reader}

/-- Tracker and reader stay level if neither the files nor the conditionals change. -/
theorem congr (h : Level k r) (houter : r'.outer = r.outer)
    (hconditionals : r'.conditionals = r.conditionals) (hskipping : r'.skipping = r.skipping) :
    Level k r' where
  preserve := h.preserve
  pending := h.pending
  chain := h.chain
  depth := by
    rw [h.depth]
    unfold Reader.includeDepth
    rw [houter]
  regions := h.regions.congr hconditionals hskipping

/-- Taking a line leaves them level. -/
theorem shifted (h : Level k r) : Level k r.shifted :=
  h.congr r.outer_shifted r.conditionals_shifted r.skipping_shifted

/-- A conditional leaves them level. -/
theorem conditional (h : Level k r) {c : Conditional} {consumed : Bool}
    (hruled : Ruled r c consumed r') :
    Level (k.observe (c.event r r' consumed)).1 r' := by
  have hbeside : Beside k (k.observe (c.event r r' consumed)).1 := beside_onConditional k _
  have houter : r'.outer = r.outer := by
    cases hruled with
    | kept text => exact r.outer_keeping text
    | _ => rfl
  refine ⟨hbeside.preserve.trans h.preserve, hbeside.pending.trans h.pending, ?_, ?_,
    h.regions.conditional h.preserve hruled⟩
  · rw [hbeside.active, hbeside.scopes]
    exact h.chain.grow hbeside.grown
  · rw [hbeside.scopes, h.depth]
    unfold Reader.includeDepth
    rw [houter]

/-- The innermost scope that is tracked is no deeper than the reader. -/
theorem head_depth (h : Level k r) : ∀ scope ∈ k.scopes.head?, scope.depth ≤ r.includeDepth := by
  intro scope hscope
  have hchain := h.chain
  have hdepth := h.depth
  generalize k.scopes = scopes at hscope hchain hdepth
  generalize k.active = active at hchain
  cases hchain with
  | root => cases hscope
  | scope =>
    cases Option.some.inj hscope
    rw [List.length_cons] at hdepth
    simp only
    omega

/-- However an include directive is followed, its scope is tracked if one was entered. -/
theorem followed (h : Level k r) {i : Include} {es : List Event} (hfollowed : Followed r i es r') :
    Level (k.observeAll es) r' := by
  have hnone : AreEnds r.includeDepth [] := fun e he => by cases he
  have hobserve : ∀ (ends : List Event) (o : Outcome), AreEnds r.includeDepth ends →
      k.observeAll (r.found i :: ends ++ [.includeResolved o]) =
        k.including (k.activeNode.indexOf r.cursor.lineno) i.line o := fun ends o hends =>
    observeAll_include ⟨i, r.cursor.lineno⟩ o h.pending h.head_depth hends
  -- a directive after which the scope is the same
  have hstay : ∀ (o : Outcome) (left : List String),
      (∀ position directive, k.including position directive o =
        { k with tree := k.tree.attach k.active position directive left 0 }) →
      Level (k.including (k.activeNode.indexOf r.cursor.lineno) i.line o) r := by
    intro o left hleft
    rw [hleft]
    exact ⟨h.preserve, h.pending, h.chain.grow (Tree.grown_attach _ _ _ _ _ _), h.depth,
      h.regions⟩
  cases hfollowed with
  | kept =>
    have hheld : Level _ r.hold :=
      (hstay (.replaced i.line r.includeDepth) [i.line] fun _ _ => rfl).congr rfl rfl rfl
    rw [← hobserve [] _ hnone] at hheld
    exact hheld
  | gone ends frame hends =>
    rw [hobserve ends _ hends]
    exact (hstay (.vanished r.includeDepth) [] fun _ _ => rfl).shifted.congr rfl rfl rfl
  | replaced text =>
    have hback : Level _ (r.shifted.unshift text) :=
      (hstay (.replaced text r.includeDepth) [text] fun _ _ => rfl).shifted.congr rfl rfl rfl
    rw [← hobserve [] _ hnone] at hback
    exact hback
  | entered lines cursor frame ends hlines hends =>
    rw [hobserve ends _ hends]
    have hdepth : ((r.includeDepth : Int) + 1) = k.scopes.length + 1 := by rw [h.depth]
    have hregions : Regions k.openSkips r.shifted :=
      h.regions.congr r.conditionals_shifted r.skipping_shifted
    refine ⟨h.preserve, h.pending, ?_, ?_, hregions.congr rfl rfl⟩
    · simp only [including, hdepth]
      exact .scope (Tree.above?_attach_self _ _ _ _ _ _)
        (h.chain.grow (Tree.grown_attach _ _ _ _ _ _))
    · rw [Session.includeDepth_entered]
      simp only [including, List.length_cons, h.depth]

/-- Leaving a scope leaves the one that is tracked. -/
theorem leave (h : Level k r) {scope : Scope} {outer : List Scope}
    (houter : r.outer = scope :: outer) :
    Level (k.onScopeEnd outer.length) { r with scope, outer, lookAhead := 0 } := by
  have hdepth := h.depth
  have hchain := h.chain
  unfold Reader.includeDepth at hdepth
  rw [houter, List.length_cons] at hdepth
  obtain ⟨parent, scopes, habove, hscopes, hparent⟩ : ∃ parent scopes,
      k.tree.above? k.active = some (some parent) ∧
      k.scopes = ⟨k.active, scopes.length + 1⟩ :: scopes ∧ k.tree.Chain parent scopes := by
    generalize k.scopes = tracked at hdepth hchain
    generalize k.active = active at hchain
    cases hchain with
    -- the document is not left
    | root => cases hdepth
    -- the innermost node is left
    | scope habove hparent => exact ⟨_, _, habove, rfl, hparent⟩
  have hlength : scopes.length = outer.length := by
    rw [hscopes, List.length_cons] at hdepth
    omega
  obtain ⟨node, hnode, hup⟩ := Option.map_eq_some_iff.mp habove
  have hend : k.onScopeEnd outer.length =
      ({ k with scopes, active := parent } : Tracker).carrySkips node parent := by
    rw [onScopeEnd_of_lt hscopes (by simp only; omega) hnode, h.preserve, hup]
    rfl
  have hregions : Regions k.openSkips { r with scope, outer, lookAhead := 0 } :=
    h.regions.congr rfl rfl
  have hgrown := (addsDrops_carrySkips { k with scopes, active := parent } node parent).grown
  rw [hend]
  exact ⟨h.preserve, h.pending, hparent.grow hgrown, hlength,
    hregions.of_depths (depths_carrySkips _ node parent)⟩

end Level

end Tracker

end Replacement

open DocFlatten.Replacement

/-! ## The stream of events -/

/-- The event of a conditional. -/
def Event.conditional? : Event → Option ConditionalEvent
  | .conditional e => some e
  | _ => none

/-- A conditional that changes the depth by one at most, and starts or ends skipping only as it opens
or closes a region. -/
structure ConditionalEvent.Measured (e : ConditionalEvent) : Prop where
  deeper : e.depthAfter ≤ e.depthBefore + 1
  shallower : e.depthBefore ≤ e.depthAfter + 1
  starts : e.skippingBefore = false → e.skippingAfter = true → e.depthBefore < e.depthAfter
  ends : e.skippingBefore = true → e.skippingAfter = false → e.depthAfter < e.depthBefore

/-- Events of conditionals, of which the first one starts outside of all conditionals and each further
one from where the one before has left; and whether lines are skipped after the last one, and how
many conditionals are then open. -/
inductive Linked : List ConditionalEvent → Bool → Int → Prop where
  | start : Linked [] false 0
  | next {es : List ConditionalEvent} {e : ConditionalEvent}
      (h : Linked es e.skippingBefore e.depthBefore) (hmeasured : e.Measured) :
    Linked (es ++ [e]) e.skippingAfter e.depthAfter

/-- Events that follow each other are linked. -/
theorem Linked.getElem {es : List ConditionalEvent} {skipping : Bool} {depth : Int}
    (h : Linked es skipping depth) {n : Nat} {e e' : ConditionalEvent} (he : es[n]? = some e)
    (he' : es[n + 1]? = some e') :
    e'.skippingBefore = e.skippingAfter ∧ e'.depthBefore = e.depthAfter := by
  have hlast : ∀ {es : List ConditionalEvent} {skipping : Bool} {depth : Int},
      Linked es skipping depth → ∀ {n : Nat} {e : ConditionalEvent}, es[n]? = some e →
        n + 1 = es.length → e.skippingAfter = skipping ∧ e.depthAfter = depth := by
    intro es skipping depth h n e he hn
    cases h with
    -- no event is linked yet
    | start => cases he
    -- the last event was added
    | @next es last h _ =>
      have hend : n = es.length := by simpa using hn
      rw [hend, List.getElem?_concat_length] at he
      cases he
      exact ⟨rfl, rfl⟩
  induction h with
  | start => cases he
  | @next es last h _ ih =>
    by_cases hinside : n + 1 < es.length
    · rw [List.getElem?_append_left hinside] at he'
      rw [List.getElem?_append_left (by omega)] at he
      exact ih he he'
    · -- the second of the two events is the one that was added
      have hbound := (List.getElem?_eq_some_iff.mp he').1
      rw [List.length_append, List.length_singleton] at hbound
      have hend : n + 1 = es.length := by omega
      rw [hend, List.getElem?_concat_length] at he'
      cases he'
      rw [List.getElem?_append_left (by omega)] at he
      obtain ⟨hskipping, hdepth⟩ := hlast h he hend
      exact ⟨hskipping.symm, hdepth.symm⟩

/-- Each conditional of a reader skips on its own account if lines are skipped inside of it. -/
def Reader.Marked (r : Reader) : Prop :=
  ∀ c ∈ r.conditionals, c.skip = c.skipping

/-- Conditionals stay marked when one is decided. -/
theorem Ruled.marked {r r' : Reader} {c : Conditional} {consumed : Bool}
    (hruled : Ruled r c consumed r') (h : r.Marked) : r'.Marked := by
  cases hruled with
  | idle => exact h
  | opened target skip skipping _ hsame =>
    intro d hd
    rcases List.mem_cons.mp hd with rfl | hd
    · exact hsame
    · exact h d hd
  | closed top rest htop =>
    intro d hd
    exact h d (by rw [htop]; exact List.mem_cons_of_mem _ hd)
  | kept text =>
    unfold Reader.Marked
    rw [Reader.conditionals_keeping]
    exact h

/-- A conditional that changes nothing is measured. -/
theorem ConditionalEvent.Measured.of_same {e : ConditionalEvent}
    (hskipping : e.skippingAfter = e.skippingBefore) (hdepth : e.depthAfter = e.depthBefore) :
    e.Measured := by
  refine ⟨by omega, by omega, ?_, ?_⟩
  · intro hread hskip
    rw [hskipping, hread] at hskip
    cases hskip
  · intro hskip hread
    rw [hskipping, hskip] at hread
    cases hread

/-- What a conditional does is measured, whatever it is worth. -/
theorem Ruled.measured {r r' : Reader} {c : Conditional} {consumed : Bool}
    {openSkips : List OpenSkip} (hregions : Tracker.Regions openSkips r)
    (hruled : Ruled r c consumed r') :
    ConditionalEvent.Measured ⟨c, r.cursor.lineno, r.skipping, r'.skipping, r.conditionalDepth,
      r'.conditionalDepth, !consumed⟩ := by
  cases hruled with
  -- nothing changes
  | idle => exact .of_same rfl rfl
  -- one conditional more is open
  | opened target skip skipping hstill =>
    unfold Reader.conditionalDepth
    simp only [List.length_cons]
    refine ⟨by simp only; omega, by simp only; omega, fun _ _ => by simp only; omega, ?_⟩
    intro hbefore hafter
    have hskip : skipping = true := hstill hbefore
    simp only at hafter
    rw [hskip] at hafter
    cases hafter
  -- one conditional less is open
  | closed top rest htop =>
    unfold Reader.conditionalDepth
    rw [htop]
    simp only [List.length_cons]
    refine ⟨by simp only; omega, by simp only; omega, ?_, fun _ _ => by simp only; omega⟩
    intro hbefore hafter
    have hnone := (hregions.reading hbefore).2
    rw [htop] at hnone
    have hread : skippingAfter rest = false := hnone.tail.2
    change skippingAfter rest = true at hafter
    rw [hread] at hafter
    cases hafter
  -- the text of a conditional changes neither
  | kept text =>
    exact .of_same (r.skipping_keeping text) (by simp [Reader.conditionalDepth])

namespace Session

/-! ## Driven readers -/

/-- The events of conditionals so far. -/
def conditionalEvents (s : Session) : List ConditionalEvent :=
  s.journal.events.filterMap Event.conditional?

/-- What holds of the tracker and the events of a session in every state. -/
structure InShadow (s : Session) : Prop where
  processors : s.doc.options.processors = []
  level : (s.tracker false).Level s.reader
  marked : s.reader.Marked
  linked : Linked s.conditionalEvents s.reader.skipping s.reader.conditionalDepth

namespace InShadow

variable {s s' : Session} {r : Reader} {es : List Event}

/-- Events without conditionals do not count. -/
theorem turn (h : InShadow s) (hturns : Turns s r es s')
    (hlevel : ((s.tracker false).observeAll es).Level r)
    (hconditionals : r.conditionals = s.reader.conditionals)
    (hskipping : r.skipping = s.reader.skipping)
    (hnone : es.filterMap Event.conditional? = []) : InShadow s' where
  processors := by rw [hturns.doc]; exact h.processors
  level := by
    rw [hturns.tracker, hturns.reader]
    exact hlevel
  marked := by
    unfold Reader.Marked
    rw [hturns.reader, hconditionals]
    exact h.marked
  linked := by
    unfold conditionalEvents Reader.conditionalDepth
    rw [hturns.events, List.filterMap_append, hnone, List.append_nil, hturns.reader, hconditionals,
      hskipping]
    exact h.linked

/-- Nothing is reported. -/
theorem silent (h : InShadow s) (hturns : Turns s r [] s') (houter : r.outer = s.reader.outer)
    (hconditionals : r.conditionals = s.reader.conditionals)
    (hskipping : r.skipping = s.reader.skipping) : InShadow s' :=
  h.turn hturns (h.level.congr houter hconditionals hskipping) hconditionals hskipping rfl

/-- A conditional keeps the tracker in the shadow. -/
theorem conditional (h : InShadow s) {c : Conditional} {consumed : Bool}
    (hruled : Ruled s.reader c consumed r)
    (hturns : Turns s (if consumed then r.shifted else r) [c.event s.reader r consumed] s') :
    InShadow s' := by
  have hlevel := h.level.conditional hruled
  have hmarked := hruled.marked h.marked
  have hmeasured := hruled.measured h.level.regions
  -- the line is taken if it is used up
  have hends : (if consumed then r.shifted else r).conditionals = r.conditionals ∧
      (if consumed then r.shifted else r).skipping = r.skipping ∧
      ((s.tracker false).observe (c.event s.reader r consumed)).1.Level
        (if consumed then r.shifted else r) := by
    cases consumed with
    | true => exact ⟨r.conditionals_shifted, r.skipping_shifted, hlevel.shifted⟩
    | false => exact ⟨rfl, rfl, hlevel⟩
  obtain ⟨hconditionals, hskipping, hlevel'⟩ := hends
  refine ⟨by rw [hturns.doc]; exact h.processors, ?_, ?_, ?_⟩
  · rw [hturns.tracker, hturns.reader]
    exact hlevel'
  · unfold Reader.Marked
    rw [hturns.reader, hconditionals]
    exact hmarked
  · unfold conditionalEvents Reader.conditionalDepth
    rw [hturns.events, List.filterMap_append, hturns.reader, hconditionals, hskipping]
    exact Linked.next h.linked hmeasured

/-- Following an include keeps the tracker in the shadow. -/
theorem followed (h : InShadow s) {i : Include} (hfollowed : Followed s.reader i es r)
    (hturns : Turns s r es s') : InShadow s' := by
  have hends : ∀ (ends : List Event) (o : Outcome), AreEnds s.reader.includeDepth ends →
      (s.reader.found i :: ends ++ [Event.includeResolved o]).filterMap Event.conditional? = [] := by
    intro ends o hends
    refine List.filterMap_eq_nil_iff.mpr fun e he => ?_
    rcases List.mem_append.mp he with he | he
    · rcases List.mem_cons.mp he with rfl | he
      · rfl
      · obtain ⟨before, after, rfl, -⟩ := hends e he
        rfl
    · rw [List.mem_singleton.mp he]
      rfl
  have hsame : r.conditionals = s.reader.conditionals ∧ r.skipping = s.reader.skipping ∧
      es.filterMap Event.conditional? = [] := by
    cases hfollowed with
    | kept => exact ⟨rfl, rfl, rfl⟩
    | gone ends frame hgone =>
      exact ⟨s.reader.conditionals_shifted, s.reader.skipping_shifted, hends ends _ hgone⟩
    | replaced => exact ⟨s.reader.conditionals_shifted, s.reader.skipping_shifted, rfl⟩
    | entered lines cursor frame ends _ hin =>
      exact ⟨s.reader.conditionals_shifted, s.reader.skipping_shifted, hends ends _ hin⟩
  exact h.turn hturns (h.level.followed hfollowed) hsame.1 hsame.2.1 hsame.2.2

/-- A look keeps the tracker in the shadow. -/
theorem look {line : String} {g : Glance} (h : InShadow s)
    (hlook : Look s line g) : Ends InShadow g := by
  cases hlook with
  | plain s' hturns => exact h.silent hturns rfl rfl rfl
  | escaped s' hturns => exact h.silent hturns rfl rfl rfl
  | passed s' _ _ hturns =>
    exact h.silent hturns s.reader.outer_shifted s.reader.conditionals_shifted
      s.reader.skipping_shifted
  | conditional c consumed r s' _ _ hruled hturns => exact h.conditional hruled hturns
  | kept i s' _ _ _ hturns => exact h.followed .kept hturns
  | followed i es r s' _ _ hfollowed hturns => exact h.followed hfollowed hturns
  | handed i processor target attributes s' _ _ hresolve hturns =>
    exact absurd hresolve (resolve_ne_handed h.processors)
  | refused => exact trivial

end InShadow

/-- Reading and scanning keep a tracker level with its reader. -/
theorem harmless_inShadow : Scan.Harmless InShadow where
  reading :=
    { leave := fun s h _ _ houter => by
        cases hscopes : s.reader.outer with
        | nil => exact absurd hscopes houter
        | cons scope outer =>
          exact h.turn (turns_leave hscopes) (h.level.leave hscopes) rfl rfl rfl
      meet := fun s line h =>
        { processors := h.processors
          level := by rw [tracker_meet]; exact h.level
          marked := h.marked
          linked := by
            unfold conditionalEvents
            rw [events_meet]
            exact h.linked }
      look := fun s line rest g h _ _ _ hlook => h.look hlook
      -- what is taken changes neither conditionals nor files
      take := fun s h _ _ => by
        refine ⟨by rw [doc_takeFront]; exact h.processors, ?_, ?_, ?_⟩
        · rw [tracker_takeFront, reader_takeFront]
          exact h.level.shifted
        · unfold Reader.Marked
          rw [reader_takeFront, Reader.conditionals_shifted]
          exact h.marked
        · unfold conditionalEvents Reader.conditionalDepth
          rw [events_takeFront, reader_takeFront, Reader.conditionals_shifted,
            Reader.skipping_shifted]
          exact h.linked }
  edit s d h hedit := by
    have hr : ({ s with doc := d } : Session).reader = s.reader := hedit.reader
    refine ⟨by simp only [hedit.options]; exact h.processors, ?_, ?_, ?_⟩
    · rw [hr]
      exact h.level
    · rw [hr]
      exact h.marked
    · rw [hr]
      exact h.linked
  log s record h :=
    { processors := h.processors
      level := by rw [tracker_log]; exact h.level
      marked := h.marked
      linked := by
        unfold conditionalEvents
        rw [events_log]
        exact h.linked }

/-- A session that is opened begins in the shadow. -/
theorem inShadow_openSource {files : FileTree} {source : Source} {o : LoadOptions} {s : Session}
    (hprocessors : o.processors = []) (h : openSource files source o = .ok s) : InShadow s := by
  obtain ⟨mode, -, rfl⟩ := openSource_eq_ok.mp h
  exact ⟨hprocessors, ⟨rfl, rfl, .root rfl, rfl, .none rfl rfl nofun⟩, nofun, .start⟩

/-- What a session and the tracker that has followed it have in common. -/
structure Shadowed (s : Session) : Prop where
  scopes : (s.tracker false).scopes.length = s.reader.includeDepth
  depth : (s.tracker false).tree.AtDepth (s.tracker false).active s.reader.includeDepth
  openSkips : (s.tracker false).openSkips.length = if s.reader.skipping then 1 else 0
  skipping : s.reader.skipping = true ↔ ∃ c ∈ s.reader.conditionals, c.skip = true
  linked : Linked s.conditionalEvents s.reader.skipping s.reader.conditionalDepth

/-- A tracker in the shadow tells depths, nodes and open regions. -/
theorem InShadow.shadowed {s : Session} (h : InShadow s) : Shadowed s := by
  refine ⟨h.level.depth, ?_, ?_, ?_, h.linked⟩
  · rw [← h.level.depth]
    exact h.level.chain.atDepth
  · cases hskip : s.reader.skipping with
    -- nothing is skipped
    | false =>
      rw [(h.level.regions.reading hskip).1]
      rfl
    -- a region is skipped
    | true =>
      obtain ⟨skip, depth, hskips, -⟩ := h.level.regions.skips hskip
      rw [hskips]
      rfl
  · constructor
    · -- the conditional that the region began with skips
      intro hskip
      obtain ⟨-, depth, -, -, inner, rest, hconditionals, hne, hinner, -⟩ :=
        h.level.regions.skips hskip
      obtain ⟨c, hc⟩ := List.exists_mem_of_ne_nil inner hne
      have hmem : c ∈ s.reader.conditionals := by
        rw [hconditionals]
        exact List.mem_append_left _ hc
      exact ⟨c, hmem, (h.marked c hmem).trans (hinner c hc)⟩
    · -- a conditional that skips is open only within a region
      rintro ⟨c, hc, hskip⟩
      by_contra hread
      have hnone := (h.level.regions.reading (by simpa using hread)).2 c hc
      rw [← h.marked c hc, hskip] at hnone
      cases hnone

/-- A tracker that leaves no conditional in place keeps level with its reader, in every state of a
driven reader and in every loaded document. -/
theorem tracker_shadows {files : FileTree} {source : Source} {o : LoadOptions}
    (hprocessors : o.processors = []) :
    (∀ s, Driven Document.Edited files source o s → Shadowed s) ∧
      ∀ fuel s, load fuel files source o = .ok s → Shadowed s := by
  constructor
  · intro s h
    exact (h.of_harmless harmless_inShadow fun _ => inShadow_openSource hprocessors).2.shadowed
  · intro fuel s h
    exact (load_keeps harmless_inShadow h fun _ => inShadow_openSource hprocessors).1.shadowed

/-- A file with a region that it leaves open. -/
def leftOpen : FileTree :=
  .ofTexts [("a.adoc", "ifdef::gone[]\n\nlost\n")]

/-- A document that includes it and ends the region. -/
def leftOpenSource : Source :=
  .lines ["include::a.adoc[]", "ifdef::x[]", "endif::[]", "endif::[]", "last"]

/-- A reader at a blank line of an include, in a region that ends in the scope around. -/
theorem tracker_shadows_included :
    ({} : LoadOptions).processors = [] ∧
    ∃ s, Driven Document.Edited leftOpen leftOpenSource {} s ∧
      s.reader.includeDepth = 1 ∧ s.reader.skipping = true ∧ Shadowed s := by
  have hinside : ∃ s ∈ (openSource leftOpen leftOpenSource {}).toOption,
      ∃ found ∈ (s.peekLine 8).toOption, found.2.reader.includeDepth = 1 ∧
        found.2.reader.skipping = true := by
    decide +kernel
  obtain ⟨s, hs, ⟨line, s'⟩, hpeek, hdepth, hskip⟩ := hinside
  have hdriven : Driven Document.Edited leftOpen leftOpenSource {} s' :=
    .peek 8 (.start (eq_ok_of_mem_toOption hs)) (eq_ok_of_mem_toOption hpeek)
  exact ⟨rfl, s', hdriven, hdepth, hskip, (tracker_shadows rfl).1 s' hdriven⟩

end Session

end DocFlatten
