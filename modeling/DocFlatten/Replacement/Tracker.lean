import DocFlatten.Event
import DocFlatten.Replacement.Tree

/-! # Trackers

A tracker follows the events of a reader and records in a replacement tree what has to change.
It keeps the scope that the reader is in and the skipped regions that are still open. Of
conditionals it records drops:

* a directive inside a skipped region records nothing yet;
* the end of a skipped region deletes the region with both directives;
* any other block directive deletes its own line;
* a single-line conditional whose text is kept is overwritten with it;
* a region that is open at the end is deleted to the end of the document.
-/

namespace DocFlatten.Replacement

/-- An include directive whose outcome is not known yet. -/
structure Pending where
  parent : Nat
  position : Int
  directive : String
  deriving Repr, DecidableEq

/-- A scope that was entered: its node, and the depth inside. -/
structure TrackedScope where
  node : Nat
  depth : Int
  deriving Repr, DecidableEq

/-- A skipped region whose end has not been seen: where it starts, and the depth of
conditionals inside. -/
structure OpenSkip where
  node : Nat
  start : Int
  depth : Int
  deriving Repr, DecidableEq

/-- The state of following a reader. -/
structure Tracker where
  /-- Whether conditionals are left as they are. -/
  preserve : Bool
  tree : Tree
  active : Nat
  /-- The scopes that were entered, innermost first. -/
  scopes : List TrackedScope
  pending : Option Pending
  /-- The open skipped regions, the last one first. -/
  openSkips : List OpenSkip
  deriving Repr

namespace Tracker

/-- A tracker that has seen nothing. -/
def start (preserve : Bool) : Tracker :=
  { preserve, tree := .empty, active := 0, scopes := [], pending := none, openSkips := [] }

/-- The node of the scope that the reader is in. -/
def activeNode (k : Tracker) : Node :=
  (k.tree.node? k.active).getD Tree.rootNode

/-- Add drops to a node. -/
def addDrops (k : Tracker) (id : Nat) (drops : List Drop) : Tracker :=
  { k with tree := k.tree.addDrops id drops }

/-! ## Conditionals -/

/-- How many lines the node with a number has. -/
def lineCount (t : Tree) (id : Nat) : Int :=
  ((t.node? id).map fun n => (n.lines.length : Int)).getD 0

/-- End the last open skipped region at a line of the active node. Regions that are deeper
than the closing directive were opened by directives that it does not match. -/
def closeSkip (k : Tracker) (index depth : Int) : Tracker × List Log.Record :=
  match k.openSkips.dropWhile fun skip => skip.depth > depth with
  | [] =>
    (({ k with openSkips := [] }).addDrops k.active [.delete index],
      [Log.debug .conditionals s!"No open skip region to close at index {index}"])
  | skip :: rest =>
    let k := { k with openSkips := rest }
    if skip.node == k.active then (k.addDrops k.active (deleteRange skip.start (index + 1)), [])
    else
      -- the region began in another scope: the rest of that one goes, and all of this one so far
      ((k.addDrops skip.node (deleteRange skip.start (lineCount k.tree skip.node))).addDrops
        k.active (deleteRange 0 (index + 1)), [])

/-- Record a conditional. -/
def onConditional (k : Tracker) (e : ConditionalEvent) : Tracker × List Log.Record :=
  if k.preserve || (e.skippingBefore && e.skippingAfter) then (k, [])
  else
    let index := k.activeNode.indexOf e.lineno
    if e.depthAfter < e.depthBefore then
      -- the line closes a region, and belongs to it
      if e.skippingBefore then k.closeSkip index e.depthBefore
      else (k.addDrops k.active [.delete index], [])
    else if e.depthAfter > e.depthBefore then
      if e.skippingAfter then
        -- the line opens a region
        ({ k with openSkips := ⟨k.active, index, e.depthAfter⟩ :: k.openSkips }, [])
      else (k.addDrops k.active [.delete index], [])
    else match e.retained, e.directive.text with
      -- the text of a single-line conditional takes its place
      | true, some text => (k.addDrops k.active [.overwrite index text], [])
      | _, _ => (k.addDrops k.active [.delete index], [])

/-! ## Includes -/

/-- Note an include directive. -/
def onInclude (k : Tracker) (e : IncludeEvent) : Tracker :=
  { k with pending := some {
      parent := k.active
      position := k.activeNode.indexOf e.lineno
      directive := e.directive.line } }

/-- Record the outcome of the include directive that was noted last. -/
def onResolved (k : Tracker) (o : Outcome) : Tracker × List Log.Record :=
  match k.pending with
  | none => (k, [Log.debug .includes "Include resolved without a recorded directive; ignoring"])
  | some p =>
    let k := { k with pending := none }
    let attach (lines : List String) (offset : Int) :=
      k.tree.attach p.parent p.position p.directive lines offset
    match o with
    | .entered lines lineno frame depth =>
      let id := k.tree.size
      ({ k with
          tree := attach lines (lineno - 1 - frame)
          scopes := ⟨id, depth⟩ :: k.scopes
          active := id }, [])
    | .replaced line _ => ({ k with tree := attach [line] 0 }, [])
    -- nothing takes the place of the directive, which an empty node tells
    | .vanished _ => ({ k with tree := attach [] 0 }, [])

/-- Move a region that is open at the end of a scope on to the scope around it: it is deleted
to the end of the one and goes on in the other after the include. -/
def carrySkip (child : Node) (parent : Nat) (state : Tree × List OpenSkip) (skip : OpenSkip) :
    Tree × List OpenSkip :=
  if skip.node == child.id then
    (state.1.addDrops child.id (deleteRange skip.start child.lines.length),
      { skip with node := parent, start := child.resume } :: state.2)
  else (state.1, skip :: state.2)

/-- Move all regions that are open at the end of a scope on to the scope around it. -/
def carrySkips (k : Tracker) (child : Node) (parent : Nat) : Tracker :=
  let (tree, openSkips) := k.openSkips.reverse.foldl (carrySkip child parent) (k.tree, [])
  { k with tree, openSkips }

/-- Note the end of a scope. It matters if the reader is then outside of the innermost scope
that was recorded. -/
def onScopeEnd (k : Tracker) (depthAfter : Int) : Tracker :=
  match k.scopes with
  | [] => k
  | scope :: rest =>
    if depthAfter ≥ scope.depth then k
    else
      match k.tree.node? scope.node with
      | none => k
      | some left =>
        let parent := left.parent.getD 0
        let k := { k with scopes := rest, active := parent }
        if k.preserve then k else k.carrySkips left parent

/-- Follow an event. -/
def observe (k : Tracker) : Event → Tracker × List Log.Record
  | .conditional e => k.onConditional e
  | .includeFound e => (k.onInclude e, [])
  | .includeResolved o => k.onResolved o
  | .scopeEnd _ depthAfter => (k.onScopeEnd depthAfter, [])

/-- Follow a journal: the tracker's own records join those of the journal where they arise. -/
def follow (k : Tracker) (j : Journal) : Tracker × List Log.Record :=
  j.toList.foldl (fun state entry =>
    match entry with
    | .record r => (state.1, state.2 ++ [r])
    | .looked _ | .taken _ => state
    | .event e =>
      let (k, records) := state.1.observe e
      (k, state.2 ++ records)) (k, [])

/-! ## The end -/

/-- Delete the rest of a scope from a line on, and of the scopes around it. A chain of
parents is no longer than the number of nodes, which bounds it. -/
def deleteRest (rootLines : Int) : (fuel : Nat) → Tree → Nat → Int → Tree
  | 0, t, _, _ => t
  | fuel + 1, t, id, start =>
    match t.node? id with
    | none => t
    | some node =>
      let last := if node.isRoot then rootLines else node.lines.length
      let t := t.addDrops id (deleteRange start last)
      match node.parent with
      | none => t
      | some parent => deleteRest rootLines fuel t parent node.resume

/-- Delete what is still skipped at the end of the document, which has the given number of
lines. -/
def finish (k : Tracker) (rootLines : Nat) : Tracker :=
  if k.preserve then k
  else
    { k with
      tree := k.openSkips.foldl
        (fun t skip => deleteRest rootLines t.size t skip.node skip.start) k.tree
      openSkips := [] }

end Tracker

end DocFlatten.Replacement
