import DocFlatten.Log.Record
import DocFlatten.Text.Quoted

/-! # Drops

Instructions on the lines of one scope: delete a line, or overwrite it. They name lines by
their index before any change, so they are carried out from the highest index down. For one
index a deletion wins over an overwrite, and the first of several overwrites wins.
-/

namespace DocFlatten.Replacement

/-- An instruction on one line. -/
inductive Drop where
  | delete (index : Int)
  | overwrite (index : Int) (text : String)
  deriving Repr, DecidableEq

namespace Drop

/-- The line that an instruction is about. -/
def index : Drop → Int
  | delete i => i
  | overwrite i _ => i

/-- An instruction as messages show it. -/
def shown : Drop → String
  | delete i => s!"Delete(index={i})"
  | overwrite i text => s!"Overwrite(index={i}, text={Text.quoted text})"

end Drop

/-- Deletions of the lines from one index up to another, which is left out. -/
def deleteRange (first last : Int) : List Drop :=
  (List.range (last - first).toNat).map fun (n : Nat) => .delete (first + n)

/-- A line of a scope: a text, or the lines of an include that was put in its place. -/
inductive Fragment where
  | text (s : String)
  | block (lines : List Fragment)
  deriving Repr, Inhabited

mutual

/-- The lines of a fragment. -/
def Fragment.flatten : Fragment → List String
  | .text s => [s]
  | .block lines => flattenAll lines

/-- The lines of some fragments, one after the other. -/
def flattenAll : List Fragment → List String
  | [] => []
  | f :: rest => f.flatten ++ flattenAll rest

end

mutual

/-- How deeply the lines of a fragment are nested; flattening it takes as many calls at once. -/
def Fragment.depth : Fragment → Nat
  | .text _ => 0
  | .block lines => depthAll lines + 1

/-- How deeply the lines of some fragments are nested. -/
def depthAll : List Fragment → Nat
  | [] => 0
  | f :: rest => max f.depth (depthAll rest)

end

mutual

/-- A fragment in a list, as messages show it. -/
def Fragment.quoted : Fragment → String
  | .text s => Text.quoted s
  | .block lines => "[" ++ ", ".intercalate (quotedAll lines) ++ "]"

/-- Fragments as messages show them. -/
def quotedAll : List Fragment → List String
  | [] => []
  | f :: rest => f.quoted :: quotedAll rest

end

/-- A fragment as messages show it; a text appears as it is. -/
def Fragment.shown : Fragment → String
  | .text s => s
  | .block lines => (Fragment.block lines).quoted

/-- Whether a fragment is the given text. -/
def Fragment.isText (f : Fragment) (s : String) : Bool :=
  match f with
  | .text t => t == s
  | .block _ => false

/-- One instruction for each index, in the order of first mention. -/
abbrev DropTable := List (Int × Drop)

/-- The instruction for an index. -/
def dropAt? (table : DropTable) (index : Int) : Option Drop :=
  (table.find? fun entry => entry.1 == index).map (·.2)

/-- Enter an instruction into a table; what loses against another one is reported. -/
def mergeDrop (table : DropTable) (drop : Drop) : DropTable × List Log.Record :=
  match dropAt? table drop.index with
  | none => (table ++ [(drop.index, drop)], [])
  | some current =>
    if current == drop then (table, [])
    else match drop with
      | .delete i =>
        (table.map fun entry => if entry.1 == i then (i, drop) else entry,
          [Log.debug .replay s!"Delete at index {i} replaces {current.shown}"])
      | .overwrite i _ =>
        (table,
          [Log.debug .replay s!"Ignoring {drop.shown}; index {i} already has {current.shown}"])

/-- The instructions of a list, merged in order. -/
def mergeDrops (drops : List Drop) : DropTable × List Log.Record :=
  drops.foldl (fun state drop =>
    let (table, records) := mergeDrop state.1 drop
    (table, state.2 ++ records)) ([], [])

/-- Carry out one instruction. An index outside the lines has no effect. -/
def applyDrop (lines : List Fragment) (drop : Drop) : List Fragment :=
  if 0 ≤ drop.index && drop.index < lines.length then
    match drop with
    | .delete i => lines.eraseIdx i.toNat
    | .overwrite i text => lines.set i.toNat (.text text)
  else lines

/-- Carry out merged instructions, from the highest index down. -/
def applyTable (lines : List Fragment) (table : DropTable) : List Fragment :=
  ((table.mergeSort fun a b => b.1 ≤ a.1).map (·.2)).foldl applyDrop lines

end DocFlatten.Replacement
