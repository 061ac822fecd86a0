import DocFlatten.Replacement.Tree

/-! # Replay

Turning a replacement tree and the source of a document into the reduced lines. Nodes are
taken from the last one to the first, so an include is complete before it is put in its
place. An include is only put where its directive still stands, or where a single-line
conditional stands whose text is the directive.
-/

namespace DocFlatten.Replacement

/-- A text of the parent that an include is put in the place of: either its directive stands
there, or an overwrite with it that has then to go. -/
inductive Place where
  | directive
  | overwrite (drop : Drop)
  deriving Repr, DecidableEq

/-- The line of the parent at which a node belongs, if it is in range. -/
def lineAt? (parent : Node) (position : Int) : Option Fragment :=
  if 0 ≤ position then parent.lines[position.toNat]? else none

/-- How a node can be put into its parent, or the report why it cannot. -/
def placeIn (parent node : Node) : Except Log.Record Place :=
  let position := node.position.getD (-1)
  let directive := node.directive.getD ""
  match lineAt? parent position with
  | none =>
    .error (Log.debug .replay ("Include directive to reduce is out of range: " ++ directive))
  | some current =>
    if current.isText directive then .ok .directive
    else
      let drop := Drop.overwrite position directive
      if parent.drops.contains drop then .ok (.overwrite drop)
      else .error (Log.debug .replay
        ("Include directive to reduce not found; expected: \"" ++ directive ++ "\"; got: \"" ++
          current.shown ++ "\""))

/-- The node with its drops carried out. -/
def Node.settled (n : Node) : Node :=
  { n with lines := applyTable n.lines (mergeDrops n.drops).1 }

/-- Put the lines of a settled node into its parent. -/
def putInto (place : Place) (node parent : Node) : Node :=
  let drops := match place with
    | .directive => parent.drops
    | .overwrite drop => parent.drops.erase drop
  { parent with
    drops, lines := parent.lines.set (node.position.getD 0).toNat (.block node.lines) }

/-- Settle one node, and put it into its parent unless it is the document. -/
def replayNode (t : Tree) (id : Nat) : Tree × List Log.Record :=
  match t.node? id with
  | none => (t, [])
  | some node =>
    match node.parent with
    | none => (t.modify id Node.settled, (mergeDrops node.drops).2)
    | some parentId =>
      match t.node? parentId with
      | none => (t, [])
      | some parent =>
        match placeIn parent node with
        | .error record => (t, [record])
        | .ok place =>
          ((t.modify id Node.settled).modify parentId (putInto place node.settled),
            (mergeDrops node.drops).2)

/-- Settle all nodes with smaller numbers, from the last one to the first. -/
def replayBelow (t : Tree) : Nat → Tree × List Log.Record
  | 0 => (t, [])
  | id + 1 =>
    let (t, records) := replayNode t id
    let (t, further) := replayBelow t id
    (t, records ++ further)

/-- Lines without empty ones at the end. -/
def trimEmptyEnd (lines : List String) : List String :=
  (lines.reverse.dropWhile (· == "")).reverse

/-- A tree whose document has the given lines. -/
def Tree.withSource (t : Tree) (lines : List String) : Tree :=
  t.modify 0 fun n => { n with lines := lines.map .text }

/-- The result of a replay. -/
structure Replayed where
  /-- The tree with its nodes settled. -/
  tree : Tree
  lines : List String
  log : List Log.Record

/-- The reduced lines of a document, without empty ones at the end. If nothing was recorded,
these are the lines of the source as they are. -/
def replay (t : Tree) (source : List String) : Replayed :=
  if t.isTrivial then { tree := t, lines := source, log := [] }
  else
    let (tree, log) := replayBelow (t.withSource source) t.size
    { tree, lines := trimEmptyEnd (flattenAll tree.root.lines), log }

end DocFlatten.Replacement
