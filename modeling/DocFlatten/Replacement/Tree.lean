import DocFlatten.Replacement.Drops

/-! # Replacement trees

What was recorded while a document was read: one node for the document and one for each
include. A node knows its parent by number, the line of the parent that it came from, its own
lines and the drops on them. A node is created after its parent, so a parent always has the
smaller number.
-/

namespace DocFlatten.Replacement

/-- One scope of a document. -/
structure Node where
  id : Nat
  /-- The scope around it; none for the document itself. -/
  parent : Option Nat
  /-- The line of the parent that it came from. -/
  position : Option Int
  /-- The directive on that line. -/
  directive : Option String
  lines : List Fragment
  drops : List Drop
  /-- The difference between line numbers and indices, beyond counting from one. -/
  offset : Int
  deriving Repr, Inhabited

namespace Node

/-- The index of a line that a reader gives by number. -/
def indexOf (n : Node) (lineno : Int) : Int :=
  lineno - 1 - n.offset

/-- Whether a node is the document itself. -/
def isRoot (n : Node) : Bool :=
  n.parent.isNone

/-- The first line of the parent after the include. -/
def resume (n : Node) : Int :=
  n.position.getD 0 + 1

end Node

/-- The nodes by number; the document is the first one. -/
structure Tree where
  nodes : Array Node
  deriving Repr, Inhabited

namespace Tree

/-- The node of a document of which nothing has been recorded. -/
def rootNode : Node :=
  { id := 0, parent := none, position := none, directive := none, lines := [], drops := []
    offset := 0 }

/-- A tree with nothing but the document. -/
def empty : Tree :=
  { nodes := #[rootNode] }

/-- How many nodes there are. -/
def size (t : Tree) : Nat :=
  t.nodes.size

/-- The node with a number. -/
def node? (t : Tree) (id : Nat) : Option Node :=
  t.nodes[id]?

/-- The document. -/
def root (t : Tree) : Node :=
  (t.node? 0).getD rootNode

/-- Change the node with a number. -/
def modify (t : Tree) (id : Nat) (f : Node → Node) : Tree :=
  { nodes := t.nodes.modify id f }

/-- Add drops to the node with a number. -/
def addDrops (t : Tree) (id : Nat) (drops : List Drop) : Tree :=
  t.modify id fun n => { n with drops := n.drops ++ drops }

/-- The node that the next `attach` creates. -/
def newNode (t : Tree) (parent : Nat) (position : Int) (directive : String)
    (lines : List String) (offset : Int) : Node :=
  { id := t.size, parent := some parent, position := some position, directive := some directive
    lines := lines.map .text, drops := [], offset }

/-- Create a node below another one. -/
def attach (t : Tree) (parent : Nat) (position : Int) (directive : String)
    (lines : List String) (offset : Int) : Tree :=
  { nodes := t.nodes.push (t.newNode parent position directive lines offset) }

/-- The parent of a node. -/
def parentOf? (t : Tree) (n : Node) : Option Node :=
  n.parent.bind t.node?

/-- Whether nothing was recorded. -/
def isTrivial (t : Tree) : Bool :=
  t.size == 1 && t.root.drops.isEmpty

end Tree

/-- There is no node with the number. -/
structure UnknownParent where
  id : Int
  deriving Repr, DecidableEq

/-- The wording of the error. -/
def UnknownParent.message (e : UnknownParent) : String :=
  s!"Unknown parent node: {e.id}"

/-- Create a node below another one, if that exists. -/
def Tree.attach? (t : Tree) (parent position : Int) (directive : String) (lines : List String)
    (offset : Int) : Except UnknownParent Tree :=
  if 0 ≤ parent && parent < t.size then
    .ok (t.attach parent.toNat position directive lines offset)
  else .error ⟨parent⟩

end DocFlatten.Replacement
