import Mathlib.Data.List.Basic
import DocFlatten.Proofs.Expansion
import DocFlatten.Replacement.Tracker
import DocFlatten.Reader

/-! # Trees in the making

A tree grows at the scope that is being read: drops on lines that were not read before, an
include at such a line. What was yielded before that line stays as it is. When a scope ends, what
it yields joins what the scope around it has yielded.

* `Extends`: a tree that differs from another one only from a line of one node on;
* `Enclosed`: the nodes from the scope being read out to the document;
* `Recorded`: a tree in the making, with what its finished includes yield;
* `Tree.yieldedTo`: what was yielded up to a line.
-/

namespace DocFlatten.Replacement

/-! ## Views of changed trees -/

namespace Tree

/-- The difference between line numbers and indices of a node. -/
def offsetOf (t : Tree) (id : Nat) : Int :=
  ((t.node? id).map (·.offset)).getD 0

section AddDrops

variable (t : Tree) (id : Nat) (drops : List Drop)

theorem node?_addDrops (c : Nat) :
    (t.addDrops id drops).node? c =
      if id = c then (t.node? c).map fun n => { n with drops := n.drops ++ drops }
      else t.node? c :=
  node?_modify _ _ _ _

@[simp] theorem size_addDrops : (t.addDrops id drops).size = t.size :=
  size_modify _ _ _

@[simp] theorem siteOf?_addDrops (c : Nat) : (t.addDrops id drops).siteOf? c = t.siteOf? c := by
  unfold siteOf?
  rw [node?_addDrops]
  split
  · cases t.node? c <;> rfl
  · rfl

@[simp] theorem linesOf_addDrops (source : List String) (c : Nat) :
    (t.addDrops id drops).linesOf source c = t.linesOf source c := by
  unfold linesOf
  rw [node?_addDrops]
  split
  · rfl
  · split
    · cases t.node? c <;> rfl
    · rfl

@[simp] theorem offsetOf_addDrops (c : Nat) : (t.addDrops id drops).offsetOf c = t.offsetOf c := by
  unfold offsetOf
  rw [node?_addDrops]
  split
  · cases t.node? c <;> rfl
  · rfl

/-- Other nodes keep their drops. -/
theorem dropsOf_addDrops_of_ne {c : Nat} (h : c ≠ id) :
    (t.addDrops id drops).dropsOf c = t.dropsOf c := by
  unfold dropsOf
  rw [node?_addDrops, if_neg (Ne.symm h)]

/-- The node itself gets the new drops after its own. -/
theorem dropsOf_addDrops_self (h : id < t.size) :
    (t.addDrops id drops).dropsOf id = t.dropsOf id ++ drops := by
  obtain ⟨n, hn⟩ := exists_node h
  simp [dropsOf, node?_addDrops, hn]

@[simp] theorem childAt?_addDrops (c : Nat) (i : Int) :
    (t.addDrops id drops).childAt? c i = t.childAt? c i := by
  simp [childAt?]

end AddDrops

section Attach

variable (t : Tree) (parent : Nat) (position : Int) (directive : String) (lines : List String)
  (offset : Int)

@[simp] theorem size_attach :
    (t.attach parent position directive lines offset).size = t.size + 1 := by
  simp [attach, size]

/-- A new node leaves the others as they are. -/
theorem node?_attach_of_lt {c : Nat} (h : c < t.size) :
    (t.attach parent position directive lines offset).node? c = t.node? c := by
  unfold size at h
  simp [attach, node?, Array.getElem?_push, Nat.ne_of_lt h]

/-- The new node is what was attached. -/
theorem node?_attach_self :
    (t.attach parent position directive lines offset).node? t.size =
      some (t.newNode parent position directive lines offset) := by
  simp [attach, node?, size]

theorem siteOf?_attach_of_lt {c : Nat} (h : c < t.size) :
    (t.attach parent position directive lines offset).siteOf? c = t.siteOf? c := by
  unfold siteOf?
  rw [node?_attach_of_lt _ _ _ _ _ _ h]

@[simp] theorem siteOf?_attach_self :
    (t.attach parent position directive lines offset).siteOf? t.size =
      some ⟨parent, position, directive⟩ := by
  simp [siteOf?, node?_attach_self, newNode, Node.site?]

theorem linesOf_attach_of_lt {c : Nat} (source : List String) (h : c < t.size) :
    (t.attach parent position directive lines offset).linesOf source c = t.linesOf source c := by
  unfold linesOf
  rw [node?_attach_of_lt _ _ _ _ _ _ h]

theorem linesOf_attach_self (source : List String) (h : 0 < t.size) :
    (t.attach parent position directive lines offset).linesOf source t.size = lines := by
  simp [linesOf, Nat.ne_of_gt h, node?_attach_self, newNode]

theorem dropsOf_attach_of_lt {c : Nat} (h : c < t.size) :
    (t.attach parent position directive lines offset).dropsOf c = t.dropsOf c := by
  unfold dropsOf
  rw [node?_attach_of_lt _ _ _ _ _ _ h]

@[simp] theorem dropsOf_attach_self :
    (t.attach parent position directive lines offset).dropsOf t.size = [] := by
  simp [dropsOf, node?_attach_self, newNode]

theorem offsetOf_attach_of_lt {c : Nat} (h : c < t.size) :
    (t.attach parent position directive lines offset).offsetOf c = t.offsetOf c := by
  unfold offsetOf
  rw [node?_attach_of_lt _ _ _ _ _ _ h]

@[simp] theorem offsetOf_attach_self :
    (t.attach parent position directive lines offset).offsetOf t.size = offset := by
  simp [offsetOf, node?_attach_self, newNode]

end Attach

end Tree

/-! ## Extension from a line on -/

/-- Nothing belongs to a node from a line on: no include and no drop. -/
structure Clear (t : Tree) (id e : Nat) : Prop where
  includes : ∀ c s, t.siteOf? c = some s → s.parent = id → s.position < e
  drops : ∀ d ∈ t.dropsOf id, d.index < e

/-- What is free beyond a place is free beyond a later one. -/
theorem Clear.mono {t : Tree} {id e e' : Nat} (h : Clear t id e) (hle : e ≤ e') :
    Clear t id e' where
  includes c s hs hp := by
    have := h.includes c s hs hp
    omega
  drops d hd := by
    have := h.drops d hd
    omega

/-- Once an include is attached at a line, nothing belongs to the lines behind that. -/
theorem clear_attach {t : Tree} {a i : Nat} (ha : a < t.size)
    (hfree : ∀ c s, t.siteOf? c = some s → s.parent = a → s.position < i)
    (hdrops : ∀ d ∈ t.dropsOf a, d.index < i + 1) (directive : String) (lines : List String)
    (offset : Int) : Clear (t.attach a i directive lines offset) a (i + 1) where
  includes c s hs hparent := by
    by_cases hc : c < t.size
    · -- a node from before
      rw [t.siteOf?_attach_of_lt _ _ _ _ _ hc] at hs
      have hbefore := hfree c s hs hparent
      omega
    · -- the node that is attached
      have hlt := Tree.siteOf?_lt hs
      rw [Tree.size_attach] at hlt
      obtain rfl : c = t.size := by omega
      rw [Tree.siteOf?_attach_self] at hs
      cases hs
      exact Int.lt_succ i
  drops := by
    rw [t.dropsOf_attach_of_lt _ _ _ _ _ ha]
    exact hdrops

/-- Nothing belongs to a node that was just attached. -/
theorem clear_attach_self {t : Tree} {parent : Nat} {position : Int} {directive : String}
    {lines : List String} {offset : Int}
    (hsound : (t.attach parent position directive lines offset).Sound) :
    Clear (t.attach parent position directive lines offset) t.size 0 where
  includes c s hs hparent := by
    have hbelow := hsound.parent_lt hs
    have hlt := Tree.siteOf?_lt hs
    rw [Tree.size_attach] at hlt
    omega
  drops d hd := by
    rw [Tree.dropsOf_attach_self] at hd
    cases hd

/-- A tree that differs from another one only in one node from a line on, and in new nodes
below that. -/
structure Extends (t t' : Tree) (source : List String) (a e : Nat) : Prop where
  size : t.size ≤ t'.size
  site : ∀ c < t.size, t'.siteOf? c = t.siteOf? c
  lines : ∀ c < t.size, t'.linesOf source c = t.linesOf source c
  offset : ∀ c < t.size, t'.offsetOf c = t.offsetOf c
  drops : ∀ c < t.size, c ≠ a → t'.dropsOf c = t.dropsOf c
  later : ∃ more, t'.dropsOf a = t.dropsOf a ++ more ∧ ∀ d ∈ more, (e : Int) ≤ d.index
  new : ∀ c s, t.size ≤ c → t'.siteOf? c = some s → s.parent = a ∧ (e : Int) ≤ s.position

/-- A tree with more drops at a node extends the tree up to where the drops lie. -/
theorem extends_addDrops {t : Tree} (source : List String) {a e : Nat} {drops : List Drop}
    (ha : a < t.size) (h : ∀ d ∈ drops, (e : Int) ≤ d.index) :
    Extends t (t.addDrops a drops) source a e where
  size := by simp
  site c _ := by simp
  lines c _ := by simp
  offset c _ := by simp
  drops c _ hc := t.dropsOf_addDrops_of_ne a drops hc
  later := ⟨drops, t.dropsOf_addDrops_self a drops ha, h⟩
  new c s hc hs := by
    have := Tree.siteOf?_lt hs
    rw [Tree.size_addDrops] at this
    omega

/-- A tree with a new node extends the tree up to where the node stands. -/
theorem extends_attach {t : Tree} (source : List String) {a i : Nat} (ha : a < t.size)
    (directive : String) (lines : List String) (offset : Int) :
    Extends t (t.attach a i directive lines offset) source a i where
  size := by simp
  site c hc := t.siteOf?_attach_of_lt _ _ _ _ _ hc
  lines c hc := t.linesOf_attach_of_lt _ _ _ _ _ source hc
  offset c hc := t.offsetOf_attach_of_lt _ _ _ _ _ hc
  drops c hc _ := t.dropsOf_attach_of_lt _ _ _ _ _ hc
  later := ⟨[], by simp [t.dropsOf_attach_of_lt _ _ _ _ _ ha], by simp⟩
  new c s hc hs := by
    have hlt := Tree.siteOf?_lt hs
    rw [Tree.size_attach] at hlt
    obtain rfl : c = t.size := by omega
    rw [Tree.siteOf?_attach_self] at hs
    cases hs
    exact ⟨rfl, Int.le_refl _⟩

/-- What lines yield depends on these lines only. -/
theorem Tree.yieldsBelow_congr {t t' : Tree} {source : List String} {out out' : Nat → List String}
    {id k : Nat} (hlines : t'.linesOf source id = t.linesOf source id)
    (h : ∀ i < k, ∀ line, t'.yieldAt out' id i line = t.yieldAt out id i line) :
    t'.yieldsBelow source out' id k = t.yieldsBelow source out id k := by
  unfold yieldsBelow
  rw [hlines]
  refine flatMap_zipIdx_congr 0 rfl fun i line line' hline hline' => ?_
  rw [hline] at hline'
  cases hline'
  have hik : i < k := by
    obtain ⟨hlt, -⟩ := List.getElem?_eq_some_iff.mp hline
    rw [List.length_take] at hlt
    omega
  simp only [Nat.zero_add]
  exact h i hik line

namespace Extends

variable {t t' : Tree} {source : List String} {a e : Nat}

/-- What stands at a line does not change in an extended tree. -/
theorem childAt?_eq (h : Extends t t' source a e) (hapart : t'.PlacedApart)
    {id i : Nat} (hi : id ≠ a ∨ i < e) : t'.childAt? id i = t.childAt? id i := by
  cases hchild : t.childAt? id i with
  | some found =>
    obtain ⟨c, directive⟩ := found
    have hs := Tree.siteOf?_of_childAt? hchild
    have hs' := (h.site c (Tree.siteOf?_lt hs)).trans hs
    exact hapart.childAt?_eq hs'
  | none =>
    rw [Tree.childAt?_eq_none_iff] at hchild ⊢
    rintro c s hs ⟨hparent, hposition⟩
    by_cases hc : c < t.size
    · rw [h.site c hc] at hs
      exact hchild c s hs ⟨hparent, hposition⟩
    · obtain ⟨hpa, hpe⟩ := h.new c s (by omega) hs
      omega

/-- The drops of a line do not change in an extended tree. -/
theorem filter_drops_eq (h : Extends t t' source a e) {id i : Nat} (hid : id < t.size)
    (hi : id ≠ a ∨ i < e) :
    (t'.dropsOf id).filter (·.index = (i : Int)) = (t.dropsOf id).filter (·.index = (i : Int)) := by
  by_cases hia : id = a
  · subst hia
    obtain ⟨more, hmore, hlater⟩ := h.later
    have hnone : more.filter (·.index = (i : Int)) = [] := by
      rw [List.filter_eq_nil_iff]
      intro d hd
      have := hlater d hd
      simp only [decide_eq_true_eq]
      omega
    rw [hmore, List.filter_append, hnone, List.append_nil]
  · rw [h.drops id hid hia]

/-- What a line yields does not change in an extended tree. -/
theorem yieldAt_eq (h : Extends t t' source a e) (hapart : t'.PlacedApart)
    {out out' : Nat → List String} (hout : ∀ c < t.size, out' c = out c) {id i : Nat}
    (hid : id < t.size) (hi : id ≠ a ∨ i < e) (line : String) :
    t'.yieldAt out' id i line = t.yieldAt out id i line := by
  have hdrops := h.filter_drops_eq hid hi
  have hkept : keptLine (t'.dropsOf id) i line = keptLine (t.dropsOf id) i line := by
    unfold keptLine
    rw [settleLine_congr _ hdrops]
  unfold Tree.yieldAt
  rw [h.childAt?_eq hapart hi]
  cases hchild : t.childAt? id i with
  -- the line itself is yielded
  | none => exact hkept
  -- the node that stands there is yielded, if it still does
  | some found =>
    obtain ⟨c, directive⟩ := found
    have hc := Tree.siteOf?_lt (Tree.siteOf?_of_childAt? hchild)
    have hstands : standsAt (t'.dropsOf id) i line directive =
        standsAt (t.dropsOf id) i line directive := by
      unfold standsAt
      rw [Bool.eq_iff_iff]
      simp [mem_overwrite_congr directive hdrops]
    simp only [hkept, hstands, hout c hc]

/-- What was yielded before the line stays as it is, and so does what other nodes yield. -/
theorem yieldsBelow_eq (h : Extends t t' source a e) (hapart : t'.PlacedApart)
    {out out' : Nat → List String} (hout : ∀ c < t.size, out' c = out c) {id k : Nat}
    (hid : id < t.size) (hk : id ≠ a ∨ k ≤ e) :
    t'.yieldsBelow source out' id k = t.yieldsBelow source out id k := by
  refine Tree.yieldsBelow_congr (h.lines id hid) fun i hik line => ?_
  refine h.yieldAt_eq hapart hout hid ?_ line
  rcases hk with hne | hle
  · exact Or.inl hne
  · exact Or.inr (by omega)

/-- What a node yields does not change in an extended tree, if the node is not the one that is
extended. -/
theorem yields_eq (h : Extends t t' source a e) (hapart : t'.PlacedApart)
    {out out' : Nat → List String} (hout : ∀ c < t.size, out' c = out c) {id : Nat}
    (hid : id < t.size) (hne : id ≠ a) : t'.yields source out' id = t.yields source out id := by
  unfold Tree.yields
  rw [h.lines id hid]
  exact h.yieldsBelow_eq hapart hout hid (Or.inl hne)

end Extends

/-! ## The scopes being read -/

/-- The nodes from the scope being read out to the document. The scopes around the innermost
one go on after the include that is being read, and nothing was recorded there yet. -/
inductive Enclosed (t : Tree) (source : List String) :
    Nat → List TrackedScope → List Scope → Prop where
  | document : Enclosed t source 0 [] []
  | inside {c p i : Nat} {directive : String} {scopes : List TrackedScope} {scope : Scope}
      {outer : List Scope} (h : Enclosed t source p scopes outer)
      (hsite : t.siteOf? c = some ⟨p, i, directive⟩)
      (hlt : i < (t.linesOf source p).length)
      (hlines : scope.lines = (t.linesOf source p).drop (i + 1))
      (hlineno : scope.cursor.lineno = i + 2 + t.offsetOf p) (hclear : Clear t p (i + 1)) :
    Enclosed t source c (⟨c, outer.length + 1⟩ :: scopes) (scope :: outer)

namespace Enclosed

variable {t t' : Tree} {source : List String} {a c : Nat} {scopes : List TrackedScope}
  {outer : List Scope}

/-- The node that is read is one of the tree. -/
theorem lt_size (h : Enclosed t source c scopes outer) (hsound : t.Sound) : c < t.size := by
  cases h with
  | document => exact hsound.size_pos
  | inside _ hsite => exact Tree.siteOf?_lt hsite

/-- The node being read is the document or one of the scopes that were entered. -/
theorem node_mem (h : Enclosed t source c scopes outer) :
    c = 0 ∨ ∃ scope ∈ scopes, scope.node = c := by
  cases h with
  | document => exact Or.inl rfl
  | inside => exact Or.inr ⟨_, List.mem_cons_self, rfl⟩

/-- A node that is open comes after the document. -/
theorem pos_of_mem (h : Enclosed t source c scopes outer) (hsound : t.Sound)
    {scope : TrackedScope} (hscope : scope ∈ scopes) : 0 < scope.node ∧ scope.node ≤ c := by
  induction h with
  | document => cases hscope
  | inside h hsite _ _ _ _ ih =>
    have hlt := hsound.parent_lt hsite
    simp only at hlt
    rcases List.mem_cons.mp hscope with rfl | hscope
    · exact ⟨by simp only; omega, Nat.le_refl _⟩
    · have := ih hscope
      omega

/-- As many nodes are open as there are files within each other. -/
theorem length_eq (h : Enclosed t source c scopes outer) : scopes.length = outer.length := by
  induction h with
  | document => rfl
  | inside _ _ _ _ _ _ ih => simp [ih]

/-- The innermost open node stands as deep as the files are. -/
theorem depth_eq (h : Enclosed t source c scopes outer) :
    ∀ scope ∈ scopes.head?, scope.depth = outer.length := by
  cases h with
  | document => simp
  | inside => simp

/-- Outside of all files, the document is read. -/
theorem eq_document (h : Enclosed t source c scopes []) : c = 0 ∧ scopes = [] := by
  cases h
  exact ⟨rfl, rfl⟩

/-- The innermost scope, and the ones around it. -/
theorem innermost {scope : Scope} (h : Enclosed t source c scopes (scope :: outer)) :
    ∃ (p i : Nat) (directive : String) (around : List TrackedScope),
      scopes = ⟨c, outer.length + 1⟩ :: around ∧
      t.siteOf? c = some ⟨p, i, directive⟩ ∧ Enclosed t source p around outer ∧
      i < (t.linesOf source p).length ∧ scope.lines = (t.linesOf source p).drop (i + 1) ∧
      scope.cursor.lineno = i + 2 + t.offsetOf p ∧ Clear t p (i + 1) := by
  cases h with
  | inside haround hsite hlt hlines hlineno hclear =>
    exact ⟨_, _, _, _, rfl, hsite, haround, hlt, hlines, hlineno, hclear⟩

/-- Extending the tree at the node being read does not touch the scopes around it. -/
theorem of_extends (h : Enclosed t source c scopes outer) {e : Nat} (hca : c ≤ a)
    (hsound : t.Sound) (hext : Extends t t' source a e) : Enclosed t' source c scopes outer := by
  induction h with
  -- the document
  | document => exact .document
  -- a node within the one that is read
  | @inside c p i directive scopes scope outer h hsite hlt hlines hlineno hclear ih =>
    have hpc := hsound.parent_lt hsite
    have hc := Tree.siteOf?_lt hsite
    simp only at hpc
    have hp : p < t.size := by omega
    refine .inside (ih (by omega)) ((hext.site c hc).trans hsite) ?_ ?_ ?_ ⟨?_, ?_⟩
    · rw [hext.lines p hp]
      exact hlt
    · rw [hext.lines p hp]
      exact hlines
    · rw [hext.offset p hp]
      exact hlineno
    · intro x s hs hparent
      by_cases hx : x < t.size
      · rw [hext.site x hx] at hs
        exact hclear.includes x s hs hparent
      · have := (hext.new x s (by omega) hs).1
        omega
    · rw [hext.drops p hp (by omega)]
      exact hclear.drops

end Enclosed

/-! ## What was yielded so far -/

namespace Tree

/-- What the scopes around the innermost one have yielded before the includes in them that are
being read. -/
def before (t : Tree) (source : List String) (out : Nat → List String) :
    List TrackedScope → List String
  | [] => []
  | scope :: scopes =>
    t.before source out scopes ++ match t.siteOf? scope.node with
      | some s => t.yieldsBelow source out s.parent s.position.toNat
      | none => []

/-- What was yielded when reading is at a line of the innermost scope. -/
def yieldedTo (t : Tree) (source : List String) (out : Nat → List String)
    (scopes : List TrackedScope) (active e : Nat) : List String :=
  t.before source out scopes ++ t.yieldsBelow source out active e

/-- Before the first line nothing is yielded. -/
theorem yieldsBelow_zero (t : Tree) (source : List String) (out : Nat → List String) (id : Nat) :
    t.yieldsBelow source out id 0 = [] := by
  simp [yieldsBelow]

/-- One line more yields what stands at it. -/
theorem yieldsBelow_succ (t : Tree) (source : List String) (out : Nat → List String) {id i : Nat}
    {line : String} (hline : (t.linesOf source id)[i]? = some line) :
    t.yieldsBelow source out id (i + 1) =
      t.yieldsBelow source out id i ++ t.yieldAt out id i line := by
  obtain ⟨hlt, rfl⟩ := List.getElem?_eq_some_iff.mp hline
  have htake : (t.linesOf source id).take (i + 1) =
      (t.linesOf source id).take i ++ [(t.linesOf source id)[i]] := by simp
  unfold yieldsBelow
  rw [htake, List.zipIdx_append, List.flatMap_append]
  simp [Nat.min_eq_left (Nat.le_of_lt hlt)]

/-- Beyond its lines a node yields nothing. -/
theorem yieldsBelow_of_le (t : Tree) (source : List String) (out : Nat → List String) {id k : Nat}
    (h : (t.linesOf source id).length ≤ k) :
    t.yieldsBelow source out id k = t.yields source out id := by
  unfold yields yieldsBelow
  rw [List.take_of_length_le h, List.take_length]

/-- A line beyond all includes and drops yields itself. -/
theorem yieldAt_of_clear {t : Tree} {id e i : Nat} (h : Clear t id e) (hle : e ≤ i)
    (out : Nat → List String) (line : String) : t.yieldAt out id i line = [line] := by
  have hchild : t.childAt? id i = none := by
    rw [childAt?_eq_none_iff]
    rintro c s hs ⟨hparent, hposition⟩
    have := h.includes c s hs hparent
    omega
  have hdrops : ∀ d ∈ t.dropsOf id, d.index ≠ i := by
    intro d hd
    have := h.drops d hd
    omega
  simp [yieldAt, hchild, keptLine, settleLine_of_forall_ne _ hdrops, flattenAll, Fragment.flatten]

/-- A node without includes and drops yields its lines. -/
theorem yields_of_clear {t : Tree} {id : Nat} (h : Clear t id 0) (source : List String)
    (out : Nat → List String) : t.yields source out id = t.linesOf source id := by
  unfold yields yieldsBelow
  rw [List.take_length]
  have hyield : ∀ line ∈ (t.linesOf source id).zipIdx,
      t.yieldAt out id line.2 line.1 = [line.1] := fun line _ =>
    yieldAt_of_clear h (Nat.zero_le _) _ _
  rw [List.flatMap_congr hyield, ← List.map_eq_flatMap, List.zipIdx_map_fst]

/-- What is yielded depends on what the nodes standing in it yield. -/
theorem yieldsBelow_congr_out (t : Tree) (source : List String) {out out' : Nat → List String}
    {id k : Nat}
    (h : ∀ (i : Nat) c directive, i < k → t.childAt? id i = some (c, directive) → out' c = out c) :
    t.yieldsBelow source out' id k = t.yieldsBelow source out id k := by
  refine yieldsBelow_congr rfl fun i hik line => ?_
  unfold yieldAt
  cases hchild : t.childAt? id i with
  | none => rfl
  | some found =>
    obtain ⟨c, directive⟩ := found
    simp only [h i c directive hik hchild]

/-- What an include yields matters to the node it belongs to only, and there from its place on. -/
theorem yieldsBelow_update (t : Tree) (source : List String) (out : Nat → List String) {c : Nat}
    {s : Site} (hsite : t.siteOf? c = some s) (value : List String) {id k : Nat}
    (h : id ≠ s.parent ∨ (k : Int) ≤ s.position) :
    t.yieldsBelow source (Function.update out c value) id k = t.yieldsBelow source out id k := by
  refine t.yieldsBelow_congr_out source fun j x directive hj hchild => Function.update_of_ne ?_ _ _
  rintro rfl
  have hx := Tree.siteOf?_of_childAt? hchild
  rw [hsite] at hx
  cases hx
  rcases h with hother | hbelow
  · exact hother rfl
  · simp only at hbelow
    omega

end Tree

/-- What comes before the node that is read does not change in an extended tree. -/
theorem Enclosed.before_extends {t t' : Tree} {source : List String} {a c e : Nat}
    {scopes : List TrackedScope} {outer : List Scope} (h : Enclosed t source c scopes outer)
    (hca : c ≤ a) (hsound : t.Sound) (hext : Extends t t' source a e)
    (hapart : t'.PlacedApart) {out out' : Nat → List String}
    (hout : ∀ c < t.size, out' c = out c) :
    t'.before source out' scopes = t.before source out scopes := by
  induction h with
  | document => rfl
  | @inside c p i directive scopes scope outer h hsite hlt hlines hlineno hclear ih =>
    have hpc := hsound.parent_lt hsite
    have hc := Tree.siteOf?_lt hsite
    simp only at hpc
    simp only [Tree.before, ih (by omega), (hext.site c hc).trans hsite, hsite]
    rw [hext.yieldsBelow_eq hapart hout (by omega) (Or.inl (by omega))]

/-- The scopes around a node have yielded the same before, whatever an include in it yields. -/
theorem Enclosed.before_update {t : Tree} {source : List String} {out : Nat → List String}
    {p q : Nat} {scopes : List TrackedScope} {outer : List Scope}
    (h : Enclosed t source q scopes outer) (hsound : t.Sound) {c : Nat} {s : Site}
    (hsite : t.siteOf? c = some s) (hp : s.parent = p) (hq : q ≤ p) (value : List String) :
    t.before source (Function.update out c value) scopes = t.before source out scopes := by
  induction h with
  | document => rfl
  | inside _ hsite' _ _ _ _ ih =>
    have hlt := hsound.parent_lt hsite'
    simp only at hlt
    simp only [Tree.before, ih (by omega), hsite']
    rw [t.yieldsBelow_update source out hsite value (Or.inl (by omega))]

/-! ## Trees in the making -/

/-- A tree in the making: sound and tidy, the scopes being read lead out to the document, and of
every other include it is known what it yields. -/
structure Recorded (t : Tree) (source : List String) (out : Nat → List String) (active : Nat)
    (scopes : List TrackedScope) (outer : List Scope) : Prop where
  sound : t.Sound
  tidy : t.Tidy source
  path : Enclosed t source active scopes outer
  closed : ∀ c, 0 < c → c < t.size → (∀ scope ∈ scopes, scope.node ≠ c) →
    out c = t.yields source out c

namespace Tree

/-- Drops keep a tree sound. -/
theorem Sound.addDrops {t : Tree} (h : t.Sound) (id : Nat) (drops : List Drop) :
    (t.addDrops id drops).Sound := by
  have hnode : ∀ c n, (t.addDrops id drops).node? c = some n →
      ∃ m, t.node? c = some m ∧ n.id = m.id ∧ n.site? = m.site? ∧ n.lines = m.lines := by
    intro c n hn
    rw [node?_addDrops] at hn
    split at hn
    · obtain ⟨m, hm, rfl⟩ := Option.map_eq_some_iff.mp hn
      exact ⟨m, hm, rfl, rfl, rfl⟩
    · exact ⟨n, hn, rfl, rfl, rfl⟩
  constructor
  · -- the document stays the document
    obtain ⟨root, hroot, hparent⟩ := h.root
    by_cases hid : id = 0
    · exact ⟨{ root with drops := root.drops ++ drops }, by simp [node?_addDrops, hid, hroot],
        hparent⟩
    · exact ⟨root, by simp [node?_addDrops, hid, hroot], hparent⟩
  · -- the nodes keep their names
    intro c n hn
    obtain ⟨m, hm, hid, -⟩ := hnode c n hn
    rw [hid]
    exact h.named c m hm
  · -- the nodes keep their places
    intro c n hpos hn
    obtain ⟨m, hm, -, hsite, -⟩ := hnode c n hn
    rw [hsite]
    exact h.site c m hpos hm
  · -- the nodes keep their lines
    intro c n hpos hn
    obtain ⟨m, hm, -, -, hlines⟩ := hnode c n hn
    rw [hlines]
    exact h.texts c m hpos hm

/-- A new node keeps a tree sound. -/
theorem Sound.attach {t : Tree} (h : t.Sound) {parent : Nat} (hparent : parent < t.size)
    (position : Int) (directive : String) (lines : List String) (offset : Int) :
    (t.attach parent position directive lines offset).Sound := by
  have hcases : ∀ c n, (t.attach parent position directive lines offset).node? c = some n →
      t.node? c = some n ∨
        (c = t.size ∧ n = t.newNode parent position directive lines offset) := by
    intro c n hn
    have hlt := lt_size_of_node? hn
    rw [size_attach] at hlt
    by_cases hc : c < t.size
    · rw [node?_attach_of_lt _ _ _ _ _ _ hc] at hn
      exact Or.inl hn
    · obtain rfl : c = t.size := by omega
      rw [node?_attach_self] at hn
      exact Or.inr ⟨rfl, (Option.some.inj hn).symm⟩
  constructor
  · -- the document stays the document
    obtain ⟨root, hroot, hnone⟩ := h.root
    exact ⟨root, by rw [node?_attach_of_lt _ _ _ _ _ _ h.size_pos, hroot], hnone⟩
  · -- the nodes have their numbers
    intro c n hn
    rcases hcases c n hn with hold | ⟨rfl, rfl⟩
    · exact h.named c n hold
    · rfl
  · -- the nodes have their places
    intro c n hpos hn
    rcases hcases c n hn with hold | ⟨rfl, rfl⟩
    · exact h.site c n hpos hold
    · exact ⟨⟨parent, position, directive⟩, rfl, hparent⟩
  · -- the nodes have their lines
    intro c n hpos hn
    rcases hcases c n hn with hold | ⟨rfl, rfl⟩
    · exact h.texts c n hpos hold
    · exact ⟨lines, rfl⟩

/-- Drops from a line on, with no include from there on, keep a tree tidy. -/
theorem Tidy.addDrops {t : Tree} {source : List String} (h : t.Tidy source) {a e : Nat}
    {drops : List Drop} (ha : a < t.size)
    (hbelow : ∀ c s, t.siteOf? c = some s → s.parent = a → s.position < e)
    (hdrops : ∀ d ∈ drops, (e : Int) ≤ d.index) : (t.addDrops a drops).Tidy source := by
  constructor
  · -- two nodes still do not share a place
    intro c c' s s' hs hs'
    rw [siteOf?_addDrops] at hs hs'
    exact h.apart c c' s s' hs hs'
  · -- the new drops lie behind all nodes
    intro c s hs i line hposition hline
    rw [siteOf?_addDrops] at hs
    rw [linesOf_addDrops] at hline
    have hfit := h.fit c s hs i line hposition hline
    have hp := (siteOf?_lt hs)
    by_cases hpa : s.parent = a
    · have hi := hbelow c s hs hpa
      have hext := extends_addDrops source ha hdrops
      rw [hpa] at hfit ⊢
      exact (dropsFit_congr (hext.filter_drops_eq ha (Or.inr (by omega)))).mpr hfit
    · rw [dropsOf_addDrops_of_ne _ _ _ hpa]
      exact hfit

/-- An include at a place of its own, which drops keep off, keeps a tree tidy. -/
theorem Tidy.attach {t : Tree} {source : List String} (h : t.Tidy source) {a i : Nat}
    (hsound : t.Sound) (ha : a < t.size) {directive : String} (lines : List String) (offset : Int)
    (hfree : ∀ c s, t.siteOf? c = some s → s.parent = a → s.position < i)
    (hfit : ∀ line, (t.linesOf source a)[i]? = some line →
      DropsFit (t.dropsOf a) i line directive) :
    (t.attach a i directive lines offset).Tidy source := by
  -- every include of the new tree is an old one or the one that is attached
  have hcases : ∀ c s, (t.attach a i directive lines offset).siteOf? c = some s →
      (c < t.size ∧ t.siteOf? c = some s) ∨ (c = t.size ∧ s = ⟨a, i, directive⟩) := by
    intro c s hs
    have hlt := siteOf?_lt hs
    rw [size_attach] at hlt
    by_cases hc : c < t.size
    · rw [siteOf?_attach_of_lt _ _ _ _ _ _ hc] at hs
      exact Or.inl ⟨hc, hs⟩
    · obtain rfl : c = t.size := by omega
      rw [siteOf?_attach_self] at hs
      exact Or.inr ⟨rfl, (Option.some.inj hs).symm⟩
  constructor
  · intro c c' s s' hs hs' hparent hposition
    rcases hcases c s hs with ⟨hc, hold⟩ | ⟨rfl, rfl⟩ <;>
      rcases hcases c' s' hs' with ⟨hc', hold'⟩ | ⟨rfl, rfl⟩
    · exact h.apart c c' s s' hold hold' hparent hposition
    · have := hfree c s hold hparent
      simp only at hposition
      omega
    · have := hfree c' s' hold' hparent.symm
      simp only at hposition
      omega
    · rfl
  · intro c s hs j line hposition hline
    rcases hcases c s hs with ⟨hc, hold⟩ | ⟨rfl, rfl⟩
    · have hp : s.parent < t.size := by
        have := hsound.parent_lt hold
        omega
      rw [linesOf_attach_of_lt _ _ _ _ _ _ _ hp] at hline
      rw [dropsOf_attach_of_lt _ _ _ _ _ _ hp]
      exact h.fit c s hold j line hposition hline
    · simp only at hposition hline ⊢
      obtain rfl : i = j := by omega
      rw [linesOf_attach_of_lt _ _ _ _ _ _ _ ha] at hline
      rw [dropsOf_attach_of_lt _ _ _ _ _ _ ha]
      exact hfit line hline

end Tree

namespace Recorded

variable {t t' : Tree} {source : List String} {out : Nat → List String} {a e i : Nat}
  {scopes : List TrackedScope} {outer : List Scope}

/-- The node that is read is one of the tree. -/
theorem lt_size (h : Recorded t source out a scopes outer) : a < t.size :=
  h.path.lt_size h.sound

/-- A node that is closed is not the one that is read. -/
theorem ne_of_closed (h : Recorded t source out a scopes outer) {c : Nat} (hpos : 0 < c)
    (hclosed : ∀ scope ∈ scopes, scope.node ≠ c) : c ≠ a := by
  rintro rfl
  rcases h.path.node_mem with hzero | ⟨scope, hscope, hnode⟩
  · omega
  · exact hclosed scope hscope hnode

/-- What has been yielded so far does not change in an extended tree. -/
theorem yieldedTo_extends (h : Recorded t source out a scopes outer)
    (hext : Extends t t' source a e) (hapart : t'.PlacedApart) {out' : Nat → List String}
    (hout : ∀ c < t.size, out' c = out c) {k : Nat} (hk : k ≤ e) :
    t'.yieldedTo source out' scopes a k = t.yieldedTo source out scopes a k := by
  unfold Tree.yieldedTo
  rw [h.path.before_extends (Nat.le_refl _) h.sound hext hapart hout,
    hext.yieldsBelow_eq hapart hout h.lt_size (Or.inr hk)]

/-- Drops from a line on. -/
theorem addDrops (h : Recorded t source out a scopes outer) {drops : List Drop}
    (hbelow : ∀ c s, t.siteOf? c = some s → s.parent = a → s.position < e)
    (hdrops : ∀ d ∈ drops, (e : Int) ≤ d.index) :
    Recorded (t.addDrops a drops) source out a scopes outer := by
  have hext := extends_addDrops source h.lt_size hdrops
  have htidy := h.tidy.addDrops h.lt_size hbelow hdrops
  refine ⟨h.sound.addDrops a drops, htidy, h.path.of_extends (Nat.le_refl _) h.sound hext, ?_⟩
  intro c hpos hlt hclosed
  rw [Tree.size_addDrops] at hlt
  rw [hext.yields_eq htidy.apart (fun _ _ => rfl) hlt (h.ne_of_closed hpos hclosed)]
  exact h.closed c hpos hlt hclosed

/-- A finished include at the line being read. -/
theorem attach (h : Recorded t source out a scopes outer) {directive : String}
    (lines : List String) (offset : Int)
    (hfree : ∀ c s, t.siteOf? c = some s → s.parent = a → s.position < i)
    (hfit : ∀ line, (t.linesOf source a)[i]? = some line →
      Tree.DropsFit (t.dropsOf a) i line directive) :
    Recorded (t.attach a i directive lines offset) source (Function.update out t.size lines) a
      scopes outer := by
  have hext := extends_attach source h.lt_size directive lines offset (i := i)
  have htidy := h.tidy.attach h.sound h.lt_size lines offset hfree hfit
  have hsound := h.sound.attach h.lt_size i directive lines offset
  refine ⟨hsound, htidy, h.path.of_extends (Nat.le_refl _) h.sound hext, ?_⟩
  intro c hpos hlt hclosed
  rw [Tree.size_attach] at hlt
  by_cases hc : c < t.size
  · -- a node from before
    rw [hext.yields_eq htidy.apart (fun x hx => Function.update_of_ne (Nat.ne_of_lt hx) _ _) hc
      (h.ne_of_closed hpos hclosed), Function.update_of_ne (Nat.ne_of_lt hc)]
    exact h.closed c hpos hc hclosed
  · -- the node that is attached, which yields its lines
    obtain rfl : c = t.size := by omega
    have hlines := t.linesOf_attach_self a i directive lines offset source hpos
    rw [Function.update_self, Tree.yields_of_clear (clear_attach_self hsound), hlines]

/-- Entering an include at the line being read. -/
theorem enter (h : Recorded t source out a scopes outer) {directive : String}
    (lines : List String) (offset : Int) {scope : Scope}
    (hfree : ∀ c s, t.siteOf? c = some s → s.parent = a → s.position < i)
    (hfit : ∀ line, (t.linesOf source a)[i]? = some line →
      Tree.DropsFit (t.dropsOf a) i line directive)
    (hdrops : ∀ d ∈ t.dropsOf a, d.index < i + 1) (hlt : i < (t.linesOf source a).length)
    (hlines : scope.lines = (t.linesOf source a).drop (i + 1))
    (hlineno : scope.cursor.lineno = i + 2 + t.offsetOf a) :
    Recorded (t.attach a i directive lines offset) source out t.size
        (⟨t.size, outer.length + 1⟩ :: scopes) (scope :: outer) ∧
      (t.attach a i directive lines offset).yieldedTo source out
          (⟨t.size, outer.length + 1⟩ :: scopes) t.size 0 =
        t.yieldedTo source out scopes a i := by
  have ha := h.lt_size
  have hext := extends_attach source ha directive lines offset (i := i)
  have htidy := h.tidy.attach h.sound ha lines offset hfree hfit
  have hsound := h.sound.attach ha i directive lines offset
  have hsite := t.siteOf?_attach_self a i directive lines offset
  constructor
  · -- the new node is read from its first line on
    refine ⟨hsound, htidy, .inside (h.path.of_extends (Nat.le_refl _) h.sound hext) hsite ?_ ?_ ?_
      (clear_attach ha hfree hdrops directive lines offset), ?_⟩
    · rw [hext.lines a ha]
      exact hlt
    · rw [hext.lines a ha]
      exact hlines
    · rw [hext.offset a ha]
      exact hlineno
    · intro c hpos hlt' hclosed
      rw [Tree.size_attach] at hlt'
      have hc : c ≠ t.size := fun hc => hclosed _ List.mem_cons_self hc.symm
      have hclosed' : ∀ scope ∈ scopes, scope.node ≠ c := fun scope hscope =>
        hclosed scope (List.mem_cons_of_mem _ hscope)
      rw [hext.yields_eq htidy.apart (fun _ _ => rfl) (by omega) (h.ne_of_closed hpos hclosed')]
      exact h.closed c hpos (by omega) hclosed'
  · -- what comes before it has been yielded before
    have hkept := h.yieldedTo_extends hext htidy.apart (fun _ _ => rfl) (Nat.le_refl i)
    simp only [Tree.yieldedTo, Tree.before, hsite, Int.toNat_natCast] at hkept ⊢
    rw [Tree.yieldsBelow_zero, List.append_nil, hkept]

/-- Leaving the innermost scope: what its node yields is then known. -/
theorem leave {c p : Nat} {directive : String} {depth : Int} {scope : Scope}
    (h : Recorded t source out c (⟨c, depth⟩ :: scopes) (scope :: outer))
    (hsite : t.siteOf? c = some ⟨p, i, directive⟩) :
    let out' := Function.update out c (t.yields source out c)
    Recorded t source out' p scopes outer ∧
      t.before source out' scopes = t.before source out scopes ∧
      t.yieldsBelow source out' p i = t.yieldsBelow source out p i ∧
      i < (t.linesOf source p).length ∧ scope.lines = (t.linesOf source p).drop (i + 1) ∧
      scope.cursor.lineno = i + 2 + t.offsetOf p ∧ Clear t p (i + 1) := by
  intro out'
  obtain ⟨p', i', directive', around, hscopes, hsite', houter, hlt, hlines, hlineno, hclear⟩ :=
    h.path.innermost
  obtain ⟨rfl, rfl, rfl⟩ := Tree.site_inj hsite hsite'
  obtain rfl := (List.cons.inj hscopes).2
  refine ⟨⟨h.sound, h.tidy, houter, ?_⟩, houter.before_update h.sound hsite rfl (Nat.le_refl _) _,
    t.yieldsBelow_update source out hsite _ (Or.inr (Int.le_refl _)), hlt, hlines, hlineno, hclear⟩
  -- a node that is closed now was closed before, or it is the one that was left
  intro x hpos hx hclosed
  have hxp : x ≠ p := by
    rintro rfl
    rcases houter.node_mem with hzero | ⟨scope', hscope', hnode⟩
    · omega
    · exact hclosed scope' hscope' hnode
  have hyields : t.yields source out' x = t.yields source out x :=
    t.yieldsBelow_update source out hsite _ (Or.inl hxp)
  rw [hyields]
  by_cases hxc : x = c
  · subst hxc
    exact Function.update_self _ _ _
  · have hold := h.closed x hpos hx fun scope' hscope' => by
      rcases List.mem_cons.mp hscope' with rfl | hscope'
      · exact Ne.symm hxc
      · exact hclosed scope' hscope'
    rw [← hold]
    exact Function.update_of_ne hxc _ _

end Recorded

/-- An include in the making that stands at its place yields there what it yields. -/
theorem yieldAt_of_siteOf? {t : Tree} (hapart : t.PlacedApart) {c p i : Nat} {directive : String}
    (hsite : t.siteOf? c = some ⟨p, i, directive⟩) (out : Nat → List String) {line : String}
    (hstands : standsAt (t.dropsOf p) i line directive = true) :
    t.yieldAt out p i line = out c := by
  have hchild := hapart.childAt?_eq hsite
  simp only at hchild
  unfold Tree.yieldAt
  simp [hchild, hstands]

/-- An include that stands at its place still does when the tree is extended further inside. -/
theorem Stands.of_extends {t t' : Tree} {source : List String} {a e c : Nat}
    (h : Stands t source c) (hext : Extends t t' source a e) (hsound : t.Sound) (hca : c ≤ a) :
    Stands t' source c := by
  obtain ⟨p, i, directive, line, hsite, hline, hstands⟩ := h
  have hpc := hsound.parent_lt hsite
  have hc := Tree.siteOf?_lt hsite
  simp only at hpc
  have hp : p < t.size := by omega
  refine ⟨p, i, directive, line, (hext.site c hc).trans hsite, ?_, ?_⟩
  · rw [hext.lines p hp]
    exact hline
  · rw [hext.drops p hp (by omega)]
    exact hstands

/-! ## Deleted and overwritten lines -/

/-- A range of drops deletes the lines between its ends. -/
theorem mem_deleteRange {d : Drop} {first last : Int} :
    d ∈ deleteRange first last ↔ ∃ j, first ≤ j ∧ j < last ∧ d = .delete j := by
  unfold deleteRange
  rw [List.mem_map]
  constructor
  · rintro ⟨n, hn, rfl⟩
    rw [List.mem_range] at hn
    exact ⟨first + n, by omega, by omega, rfl⟩
  · rintro ⟨j, hfirst, hlast, rfl⟩
    refine ⟨(j - first).toNat, ?_, ?_⟩
    · rw [List.mem_range]
      omega
    · congr 1
      omega

theorem deleteRange_succ (i : Int) : deleteRange i (i + 1) = [.delete i] := by
  have hone : (i + 1 - i).toNat = 1 := by omega
  unfold deleteRange
  rw [hone]
  simp

/-- Nothing stands at a line that is yet to come. -/
theorem childAt?_eq_none_of_lt {t : Tree} {id e i : Nat} (hle : e ≤ i)
    (h : ∀ c s, t.siteOf? c = some s → s.parent = id → s.position < e) :
    t.childAt? id i = none := by
  rw [Tree.childAt?_eq_none_iff]
  rintro c s hs ⟨hparent, hposition⟩
  have := h c s hs hparent
  omega

/-- A line of which only an overwrite is known yields its text. -/
theorem keptLine_of_filter {drops : List Drop} {i : Int} {text : String}
    (h : drops.filter (·.index = i) = [.overwrite i text]) (line : String) :
    keptLine drops i line = [text] := by
  have hone : ([Drop.overwrite i text] : List Drop).filter (·.index = i) = [.overwrite i text] := by
    simp
  unfold keptLine
  rw [settleLine_congr _ (h.trans hone.symm)]
  simp [settleLine, firstText?, Drop.textAt?, flattenAll, Fragment.flatten]

/-- A line at which a directive stands, alone or by an overwrite, yields the directive as long as
no include is put there. -/
theorem keptLine_of_stands {drops : List Drop} {i : Int} {line directive : String}
    (hfit : Tree.DropsFit drops i line directive)
    (hstands : standsAt drops i line directive = true) :
    keptLine drops i line = [directive] := by
  rcases hfit with hnone | ⟨-, honly⟩
  · have hmem : Drop.overwrite i directive ∉ drops := fun hmem => hnone _ hmem rfl
    obtain rfl : line = directive := by simpa [standsAt, hmem] using hstands
    unfold keptLine
    rw [settleLine_of_forall_ne _ hnone]
    simp [flattenAll, Fragment.flatten]
  · exact keptLine_of_filter honly line

theorem Tree.yieldsBelow_succ_of_le (t : Tree) (source : List String) (out : Nat → List String)
    {id i : Nat} (h : (t.linesOf source id).length ≤ i) :
    t.yieldsBelow source out id (i + 1) = t.yieldsBelow source out id i := by
  rw [t.yieldsBelow_of_le source out h, t.yieldsBelow_of_le source out (by omega)]

/-- A line that is deleted and in whose place nothing is yields nothing. -/
theorem Tree.yieldAt_of_delete {t : Tree} {id i : Nat} (hchild : t.childAt? id i = none)
    (h : .delete (i : Int) ∈ t.dropsOf id) (out : Nat → List String) (line : String) :
    t.yieldAt out id i line = [] := by
  unfold yieldAt keptLine settleLine
  rw [hchild, if_pos h]
  rfl

/-- Lines that yield nothing do not matter. -/
theorem Tree.yieldsBelow_add_of_nil (t : Tree) (source : List String) (out : Nat → List String)
    {id e n : Nat} (h : ∀ i, e ≤ i → i < e + n → ∀ line, t.yieldAt out id i line = []) :
    t.yieldsBelow source out id (e + n) = t.yieldsBelow source out id e := by
  induction n with
  | zero => rfl
  | succ n ih =>
    rw [← ih fun i hle hlt => h i hle (by omega), ← Nat.add_assoc]
    cases hline : (t.linesOf source id)[e + n]? with
    | none => exact t.yieldsBelow_succ_of_le source out (List.getElem?_eq_none_iff.mp hline)
    | some line =>
      rw [t.yieldsBelow_succ source out hline, h (e + n) (by omega) (by omega) line,
        List.append_nil]

/-- Deleting the lines from a clear line on leaves what was yielded before them. -/
theorem Recorded.deleteRange {t : Tree} {source : List String} {out : Nat → List String}
    {a e k : Nat} {scopes : List TrackedScope} {outer : List Scope}
    (h : Recorded t source out a scopes outer) (hclear : Clear t a e) (hle : e ≤ k) :
    let t' := t.addDrops a (deleteRange e k)
    Recorded t' source out a scopes outer ∧ Clear t' a k ∧
      t'.yieldedTo source out scopes a k = t.yieldedTo source out scopes a e := by
  intro t'
  have hindex : ∀ d ∈ Replacement.deleteRange e k, (e : Int) ≤ d.index ∧ d.index < k := by
    intro d hd
    obtain ⟨j, hj, hjk, rfl⟩ := mem_deleteRange.mp hd
    exact ⟨hj, hjk⟩
  have hlater : ∀ d ∈ Replacement.deleteRange e k, (e : Int) ≤ d.index := fun d hd =>
    (hindex d hd).1
  have hrecorded := h.addDrops hclear.includes hlater
  have hdrops : t'.dropsOf a = t.dropsOf a ++ Replacement.deleteRange e k :=
    t.dropsOf_addDrops_self a _ h.lt_size
  refine ⟨hrecorded, ⟨?_, ?_⟩, ?_⟩
  · intro c s hs hparent
    rw [Tree.siteOf?_addDrops] at hs
    have := hclear.includes c s hs hparent
    omega
  · intro d hd
    rw [hdrops] at hd
    rcases List.mem_append.mp hd with hold | hnew
    · have := hclear.drops d hold
      omega
    · exact (hindex d hnew).2
  · have hbefore := h.yieldedTo_extends (extends_addDrops source h.lt_size hlater)
      hrecorded.tidy.apart (fun _ _ => rfl) (Nat.le_refl e)
    -- nothing changes before the clear line, and nothing is yielded after it
    have hnothing : ∀ i, e ≤ i → i < e + (k - e) → ∀ line, t'.yieldAt out a i line = [] := by
      intro i hi hik line
      have hchild : t'.childAt? a i = none := by
        rw [Tree.childAt?_addDrops]
        exact childAt?_eq_none_of_lt hi hclear.includes
      have hmem : Drop.delete (i : Int) ∈ t'.dropsOf a := by
        rw [hdrops]
        refine List.mem_append_right _ (mem_deleteRange.mpr ⟨i, ?_, ?_, rfl⟩) <;> omega
      exact Tree.yieldAt_of_delete hchild hmem out line
    have hall := t'.yieldsBelow_add_of_nil source out hnothing
    rw [Nat.add_sub_cancel' hle] at hall
    rw [← hbefore]
    unfold Tree.yieldedTo
    rw [hall]

/-! ## Before and after -/

/-- A tree in which nothing was recorded is one in the making. -/
theorem recorded_empty (source : List String) (out : Nat → List String) :
    Recorded .empty source out 0 [] [] ∧ Clear .empty 0 0 := by
  have hroot : Tree.empty.node? 0 = some Tree.rootNode := rfl
  have hsize : Tree.empty.size = 1 := rfl
  have honly : ∀ id n, Tree.empty.node? id = some n → id = 0 ∧ n = Tree.rootNode := by
    intro id n hn
    have hlt := Tree.lt_size_of_node? hn
    obtain rfl : id = 0 := by omega
    rw [hroot] at hn
    exact ⟨rfl, (Option.some.inj hn).symm⟩
  have hnowhere : ∀ c s, Tree.empty.siteOf? c = some s → False := by
    intro c s hs
    unfold Tree.siteOf? at hs
    obtain ⟨n, hn, hsite⟩ := Option.bind_eq_some_iff.mp hs
    obtain ⟨-, rfl⟩ := honly c n hn
    cases hsite
  have hsound : Tree.empty.Sound :=
    { root := ⟨Tree.rootNode, hroot, rfl⟩
      named := fun id n hn => by obtain ⟨rfl, rfl⟩ := honly id n hn; rfl
      site := fun id n hpos hn => by obtain ⟨rfl, -⟩ := honly id n hn; omega
      texts := fun id n hpos hn => by obtain ⟨rfl, -⟩ := honly id n hn; omega }
  refine ⟨?_, fun c s hs => (hnowhere c s hs).elim, fun d hd => by cases hd⟩
  exact
    { sound := hsound
      tidy := ⟨fun a b s s' hs => (hnowhere a s hs).elim, fun c s hs => (hnowhere c s hs).elim⟩
      path := .document
      closed := fun c hpos hlt => by omega }

/-- Replay gives what the document yields: as it is if nothing was recorded, and then these are the
lines of the source; otherwise without empty lines at the end. -/
theorem Recorded.replay_lines {t : Tree} {source : List String} {out : Nat → List String}
    (h : Recorded t source out 0 [] []) :
    (replay t source).lines = (if t.isTrivial then t.yields source out 0
        else trimEmptyEnd (t.yields source out 0)) ∧
      (t.isTrivial = true → t.yields source out 0 = source) := by
  have htrivial : t.isTrivial = true → t.yields source out 0 = source := by
    intro htrivial
    unfold Tree.isTrivial at htrivial
    rw [Bool.and_eq_true, beq_iff_eq, List.isEmpty_iff] at htrivial
    obtain ⟨hsize, hdrops⟩ := htrivial
    have hclear : Clear t 0 0 := by
      constructor
      · intro c site hs
        have hlt := Tree.siteOf?_lt hs
        have hparent := h.sound.parent_lt hs
        omega
      · obtain ⟨root, hroot, -⟩ := h.sound.root
        have hroot' : t.node? 0 = some root := hroot
        intro d hd
        simp only [Tree.root, hroot', Option.getD_some] at hdrops
        simp [Tree.dropsOf, hroot', hdrops] at hd
    exact Tree.yields_of_clear hclear source out
  refine ⟨?_, htrivial⟩
  cases hcase : t.isTrivial with
  -- nothing was recorded, so the lines are those of the source
  | true =>
    simp only [if_true]
    rw [htrivial hcase]
    simp [replay, hcase]
  -- the lines are what the document yields
  | false =>
    rw [if_neg (by simp)]
    exact Replacement.replay_lines h.sound h.tidy
      (fun c hpos hlt => h.closed c hpos hlt (by simp)) hcase

end DocFlatten.Replacement
