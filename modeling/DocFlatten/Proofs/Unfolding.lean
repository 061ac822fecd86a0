import DocFlatten.Proofs.Recording
import Mathlib.Data.List.DropRight

/-! # Direct expansion

What a replacement tree stands for can be computed from the top down, without changing any lines: go
through the original lines of a scope, expand the include that is in place at a line, and let the drops
decide on all others. Replay works the other way round, on lists that shrink while it goes on, and
`replay_expands` says that both come to the same.

* `Tree.Built`: the trees that can be built, by attaching includes anywhere and recording any drops;
* `Tree.expand`: the direct expansion; it goes on as long as numbers grow, which they always do in a
  tree that was built (`Tree.Built.sound`);
* `Tree.Tidy` is what replay needs beyond that: two includes at one place would overwrite each other,
  and a drop at the place of an include would hit the lines that replay puts there. It can be decided
  (`Tree.tidy_iff`).
-/

namespace DocFlatten.Replacement

namespace Tree

/-! ## Building -/

/-- The trees that attaching includes and recording drops lead to, whatever they say. -/
inductive Built : Tree → Prop where
  | empty : Built .empty
  /-- An include is attached to a node that exists. -/
  | attach {t t' : Tree} {parent position : Int} {directive : String} {lines : List String}
      {offset : Int} (h : Built t)
      (hattach : t.attach? parent position directive lines offset = .ok t') : Built t'
  /-- A node gets more drops. -/
  | record {t : Tree} (h : Built t) (id : Nat) (drops : List Drop) : Built (t.addDrops id drops)

/-- An include can be attached to any node there is. -/
theorem attach?_of_lt {t : Tree} {parent : Nat} (hparent : parent < t.size) (position : Int)
    (directive : String) (lines : List String) (offset : Int) :
    t.attach? parent position directive lines offset =
      .ok (t.attach parent position directive lines offset) := by
  unfold attach?
  rw [if_pos (by simpa using hparent), Int.toNat_natCast]

/-- A tree stays built with one more node. -/
theorem Built.attach_of_lt {t : Tree} (h : t.Built) {parent : Nat} (hparent : parent < t.size)
    (position : Int) (directive : String) (lines : List String) (offset : Int) :
    (t.attach parent position directive lines offset).Built :=
  .attach h (attach?_of_lt hparent position directive lines offset)

/-- However a tree was built, a node comes after its parent and has plain lines. -/
theorem Built.sound {t : Tree} (h : t.Built) : t.Sound := by
  induction h with
  | empty => exact (recorded_empty [] fun _ => []).1.sound
  | @attach t t' parent position directive lines offset _ hattach ih =>
    -- a node that could be attached has a parent in the tree
    unfold attach? at hattach
    split at hattach
    · rename_i hparent
      rw [Bool.and_eq_true, decide_eq_true_eq, decide_eq_true_eq] at hparent
      have hlt : parent.toNat < t.size := by omega
      cases hattach
      exact ih.attach hlt position directive lines offset
    · -- otherwise nothing was attached
      cases hattach
  | record _ id drops ih => exact ih.addDrops id drops

/-! ## Tidiness -/

/-- Whether a tree is tidy shows in its nodes and in the lines that its source has. -/
theorem tidy_iff {t : Tree} {source : List String} :
    t.Tidy source ↔
      (∀ a < t.size, ∀ b < t.size, ∀ s ∈ t.siteOf? a, ∀ s' ∈ t.siteOf? b,
        s.parent = s'.parent → s.position = s'.position → a = b) ∧
      ∀ c < t.size, ∀ s ∈ t.siteOf? c, ∀ i < (t.linesOf source s.parent).length,
        ∀ line ∈ (t.linesOf source s.parent)[i]?, s.position = i →
          DropsFit (t.dropsOf s.parent) i line s.directive := by
  constructor
  · -- the numbers of nodes and lines are bounded by what there is
    rintro ⟨hapart, hfit⟩
    constructor
    · intro a _ b _ s hs s' hs'
      exact hapart a b s s' hs hs'
    · intro c _ s hs i _ line hline hposition
      exact hfit c s hs i line hposition hline
  · -- a number that leads to a node or a line is within the bounds
    rintro ⟨hapart, hfit⟩
    constructor
    · intro a b s s' hs hs'
      exact hapart a (siteOf?_lt hs) b (siteOf?_lt hs') s hs s' hs'
    · intro c s hs i line hposition hline
      have hi : i < (t.linesOf source s.parent).length := (List.getElem?_eq_some_iff.mp hline).1
      exact hfit c (siteOf?_lt hs) s hs i hi line hline hposition

instance {drops : List Drop} {i : Int} {line directive : String} :
    Decidable (DropsFit drops i line directive) :=
  inferInstanceAs (Decidable (_ ∨ _))

instance {t : Tree} {source : List String} : Decidable (t.Tidy source) :=
  decidable_of_iff _ tidy_iff.symm

/-! ## Expanding -/

end Tree

/-- What drops make of a line that no include takes the place of: nothing if one of them deletes it,
otherwise the text of the first that overwrites it, otherwise the line itself. -/
def lineUnder (drops : List Drop) (i : Int) (line : String) : List String :=
  if .delete i ∈ drops then [] else [(firstText? drops i).getD line]

/-- What drops leave of a line is what replacement leaves. -/
theorem keptLine_eq_lineUnder (drops : List Drop) (i : Int) (line : String) :
    keptLine drops i line = lineUnder drops i line := by
  unfold keptLine settleLine lineUnder
  by_cases hdelete : Drop.delete i ∈ drops
  · rw [if_pos hdelete, if_pos hdelete]
    rfl
  · rw [if_neg hdelete, if_neg hdelete]
    cases firstText? drops i <;> rfl

namespace Tree

/-- The lines that a node stands for. Its original lines are gone through by index: an include that is
in place at a line is expanded instead of it, and the drops of the node decide on every other line. -/
def expand (t : Tree) (source : List String) (id : Nat) : List String :=
  (t.linesOf source id).zipIdx.flatMap fun (line, i) =>
    match _hchild : t.childAt? id i with
    | some (c, directive) =>
      if id < c ∧ standsAt (t.dropsOf id) i line directive then expand t source c
      else lineUnder (t.dropsOf id) i line
    | none => lineUnder (t.dropsOf id) i line
termination_by t.size - id
decreasing_by
  have hc : c < t.size := siteOf?_lt (siteOf?_of_childAt? _hchild)
  omega

/-- The expansion is what the node yields if its includes yield their expansions. -/
theorem Sound.expand_eq_yields {t : Tree} (h : t.Sound) (source : List String) (id : Nat) :
    t.expand source id = t.yields source (t.expand source) id := by
  rw [expand]
  unfold yields yieldsBelow
  rw [List.take_length]
  apply List.flatMap_congr
  rintro ⟨line, i⟩ -
  unfold yieldAt
  simp only
  split
  · rename_i c directive hchild
    -- the guard on the numbers holds: an include comes after the node that it is in
    have hlt : id < c := h.parent_lt (siteOf?_of_childAt? hchild)
    simp only [hchild, hlt, true_and, keptLine_eq_lineUnder]
  · rename_i hchild
    simp only [hchild, keptLine_eq_lineUnder]

end Tree

/-! ## Replaying -/

/-- Replay gives the direct expansion of the document, without empty lines at the end. -/
theorem replay_expands {t : Tree} (hbuilt : t.Built) (hrecorded : t.isTrivial = false)
    (source : List String) (htidy : t.Tidy source) :
    (replay t source).lines = (t.expand source 0).rdropWhile (· == "") := by
  have hsound : t.Sound := hbuilt.sound
  have hout : ∀ c, 0 < c → c < t.size → t.expand source c = t.yields source (t.expand source) c := by
    intro c _ _
    exact hsound.expand_eq_yields source c
  rw [hsound.expand_eq_yields source 0]
  exact replay_lines hsound htidy hout hrecorded

/-- A document with an include at every kind of place: on its own line, as the text of a conditional,
and at a line that holds something else. -/
def mixedSource : List String :=
  ["one", "include::a.adoc[]", "ifdef::x[include::b.adoc[]]", "gone", "old", "same", ""]

/-- An include with an include in it, one that was the text of a conditional, one past the end of the
document and one whose directive is no longer there; and drops, some of them out of range. -/
def mixedTree : Tree :=
  ((((((Tree.empty.attach 0 1 "include::a.adoc[]" ["a", "include::c.adoc[]", "cut"] 0).attach
    1 1 "include::c.adoc[]" ["c"] 0).attach
    0 2 "include::b.adoc[]" ["b"] 0).attach
    0 90 "include::d.adoc[]" ["d"] 0).attach
    0 5 "include::e.adoc[]" ["e"] 0).addDrops
    0 [.overwrite 2 "include::b.adoc[]", .overwrite 3 "kept", .delete 3, .overwrite 4 "new",
      .overwrite 4 "newer", .delete 40]).addDrops
    1 [.delete 2, .delete (-1)]

/-- The tree of the example is built. -/
theorem built_mixedTree : mixedTree.Built := by
  apply Tree.Built.record
  apply Tree.Built.record
  iterate 5 refine Tree.Built.attach_of_lt ?_ (by decide) _ _ _ _
  exact Tree.Built.empty

/-- The includes at lines 1 and 2 are in place; the others of the document are not. -/
theorem expand_mixedTree : mixedTree.expand mixedSource 0 =
    ["one", "a", "c", "b", "new", "same", ""] := by
  have hsound := built_mixedTree.sound
  have hc : mixedTree.expand mixedSource 2 = ["c"] := (hsound.expand_eq_yields _ 2).trans rfl
  have hb : mixedTree.expand mixedSource 3 = ["b"] := (hsound.expand_eq_yields _ 3).trans rfl
  have ha : mixedTree.expand mixedSource 1 = ["a"] ++ (mixedTree.expand mixedSource 2 ++ []) :=
    (hsound.expand_eq_yields _ 1).trans rfl
  have hdocument : mixedTree.expand mixedSource 0 = ["one"] ++ (mixedTree.expand mixedSource 1 ++
      (mixedTree.expand mixedSource 3 ++ ["new", "same", ""])) :=
    (hsound.expand_eq_yields _ 0).trans rfl
  rw [hdocument, ha, hb, hc]
  rfl

/-- Replaying leaves out the empty line at the end. -/
theorem replay_expands_mixedTree :
    mixedTree.Built ∧ mixedTree.isTrivial = false ∧ mixedTree.Tidy mixedSource ∧
      (replay mixedTree mixedSource).lines = ["one", "a", "c", "b", "new", "same"] := by
  have hrecorded : mixedTree.isTrivial = false := by decide
  have htidy : mixedTree.Tidy mixedSource := by decide +kernel
  have hlines := replay_expands built_mixedTree hrecorded mixedSource htidy
  rw [expand_mixedTree] at hlines
  exact ⟨built_mixedTree, hrecorded, htidy, hlines⟩

end DocFlatten.Replacement
