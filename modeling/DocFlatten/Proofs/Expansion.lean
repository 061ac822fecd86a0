import DocFlatten.Proofs.Drops
import DocFlatten.Replacement.Replay

/-! # Expansion of replacement trees

Replay works from the last node to the first and changes lines on the way. What comes out can be
said from the top down: a line yields the lines of the include that stands there, otherwise what
the drops of its scope make of it. `replay_lines` says that replay gives what the document yields.

* `Tree.yieldAt`, `Tree.yields`: what a line and what a node yield, given what the includes yield;
* `Tree.Sound`, `Tree.Tidy`: the shape of a tree, and that drops keep off the places of includes;
* `PartlyReplayed`: the state of a replay, kept by each node (`partlyReplayed_replayNode`).
-/

namespace DocFlatten.Replacement

/-! ## Views of a tree -/

/-- Where an include belongs: its parent, the line there, and the directive on that line. -/
structure Site where
  parent : Nat
  position : Int
  directive : String
  deriving DecidableEq

/-- Where a node belongs; the document belongs nowhere. -/
def Node.site? (n : Node) : Option Site :=
  match n.parent, n.position, n.directive with
  | some parent, some position, some directive => some ⟨parent, position, directive⟩
  | _, _, _ => none

/-- A node stands at a site exactly if it says where. -/
theorem Node.site?_eq_some_iff {n : Node} {s : Site} :
    n.site? = some s ↔
      n.parent = some s.parent ∧ n.position = some s.position ∧ n.directive = some s.directive := by
  obtain ⟨p, position, directive⟩ := s
  unfold Node.site?
  split
  · rename_i hparent hposition hdirective
    simp [hparent, hposition, hdirective]
  · rename_i hnone
    refine iff_of_false (by simp) ?_
    rintro ⟨hparent, hposition, hdirective⟩
    exact hnone _ _ _ hparent hposition hdirective

namespace Tree

/-- Where the node with a number belongs. -/
def siteOf? (t : Tree) (id : Nat) : Option Site :=
  (t.node? id).bind Node.site?

/-- The lines of a node before any change; those of the document are given. -/
def linesOf (t : Tree) (source : List String) (id : Nat) : List String :=
  if id = 0 then source else flattenAll (((t.node? id).map (·.lines)).getD [])

/-- The drops of a node. -/
def dropsOf (t : Tree) (id : Nat) : List Drop :=
  ((t.node? id).map (·.drops)).getD []

/-- The include at a line of a node, with its directive. -/
def childAt? (t : Tree) (id : Nat) (i : Int) : Option (Nat × String) :=
  (List.range t.size).findSome? fun c =>
    (t.siteOf? c).bind fun s =>
      if s.parent = id ∧ s.position = i then some (c, s.directive) else none

/-- Only nodes of the tree stand anywhere. -/
theorem siteOf?_lt {t : Tree} {c : Nat} {s : Site} (h : t.siteOf? c = some s) : c < t.size := by
  unfold siteOf? node? at h
  by_contra hge
  rw [Array.getElem?_eq_none (by simpa [Tree.size] using hge)] at h
  simp at h

/-- A node has one site. -/
theorem site_inj {t : Tree} {c p p' i i' : Nat} {directive directive' : String}
    (h : t.siteOf? c = some ⟨p, i, directive⟩) (h' : t.siteOf? c = some ⟨p', i', directive'⟩) :
    p = p' ∧ i = i' ∧ directive = directive' := by
  rw [h] at h'
  simpa only [Option.some.injEq, Site.mk.injEq, Int.ofNat_inj] using h'

/-- A child that is found at an index stands there. -/
theorem siteOf?_of_childAt? {t : Tree} {id c : Nat} {i : Int} {directive : String}
    (h : t.childAt? id i = some (c, directive)) : t.siteOf? c = some ⟨id, i, directive⟩ := by
  unfold childAt? at h
  obtain ⟨c', -, hc'⟩ := List.exists_of_findSome?_eq_some h
  cases hs : t.siteOf? c' with
  | none => simp [hs] at hc'
  | some s =>
    rw [hs, Option.bind_some] at hc'
    split at hc'
    · rename_i hhere
      simp only [Option.some.injEq, Prod.mk.injEq] at hc'
      rw [← hc'.1, hs, ← hhere.1, ← hhere.2, ← hc'.2]
    · simp at hc'

/-- No child is found at an index exactly if none stands there. -/
theorem childAt?_eq_none_iff {t : Tree} {id : Nat} {i : Int} :
    t.childAt? id i = none ↔
      ∀ c s, t.siteOf? c = some s → ¬ (s.parent = id ∧ s.position = i) := by
  unfold childAt?
  rw [List.findSome?_eq_none_iff]
  constructor
  · intro h c s hs hhere
    have hc := h c (List.mem_range.mpr (siteOf?_lt hs))
    simp [hs, hhere] at hc
  · intro h c _
    cases hs : t.siteOf? c with
    | none => rfl
    | some s => simp [h c s hs]

/-! ## What lines yield -/

end Tree

/-- Whether an include can be put at a line: its directive stands there, or the line is
overwritten with it. -/
def standsAt (drops : List Drop) (i : Int) (line directive : String) : Bool :=
  line == directive || drops.contains (.overwrite i directive)

/-- What drops make of a line that is a text. -/
def keptLine (drops : List Drop) (i : Int) (line : String) : List String :=
  flattenAll (settleLine drops i (.text line))

namespace Tree

/-- What a line of a node yields, given what the includes yield. -/
def yieldAt (t : Tree) (out : Nat → List String) (id : Nat) (i : Nat) (line : String) :
    List String :=
  match t.childAt? id i with
  | some (c, directive) =>
    if standsAt (t.dropsOf id) i line directive then out c else keptLine (t.dropsOf id) i line
  | none => keptLine (t.dropsOf id) i line

/-- What the lines of a node below an index yield. -/
def yieldsBelow (t : Tree) (source : List String) (out : Nat → List String) (id k : Nat) :
    List String :=
  ((t.linesOf source id).take k).zipIdx.flatMap fun line => t.yieldAt out id line.2 line.1

/-- What a node yields. -/
def yields (t : Tree) (source : List String) (out : Nat → List String) (id : Nat) :
    List String :=
  t.yieldsBelow source out id (t.linesOf source id).length

/-- The shape of a tree: the document first, each include after its parent and with plain
lines. -/
structure Sound (t : Tree) : Prop where
  root : ∃ n, t.node? 0 = some n ∧ n.parent = none
  named : ∀ id n, t.node? id = some n → n.id = id
  site : ∀ id n, 0 < id → t.node? id = some n → ∃ s, n.site? = some s ∧ s.parent < id
  texts : ∀ id n, 0 < id → t.node? id = some n → ∃ ls : List String, n.lines = ls.map .text

/-- What drops may do at the place of an include: nothing, or overwrite another line with its
directive. -/
def DropsFit (drops : List Drop) (i : Int) (line directive : String) : Prop :=
  (∀ d ∈ drops, d.index ≠ i) ∨
    (line ≠ directive ∧ drops.filter (·.index = i) = [.overwrite i directive])

/-- If the line is the directive itself, it was not overwritten. -/
theorem DropsFit.filter_of_directive {drops : List Drop} {i : Int} {directive : String}
    (h : DropsFit drops i directive directive) : drops.filter (·.index = i) = [] := by
  rcases h with hnone | ⟨hne, -⟩
  · simpa [List.filter_eq_nil_iff] using hnone
  · exact absurd rfl hne

theorem DropsFit.filter_of_overwrite {drops : List Drop} {i : Int} {line directive : String}
    (h : DropsFit drops i line directive) (hmem : .overwrite i directive ∈ drops) :
    drops.filter (·.index = i) = [.overwrite i directive] := by
  rcases h with hnone | ⟨-, honly⟩
  · exact absurd rfl (hnone _ hmem)
  · exact honly

/-- No two includes share a place. -/
def PlacedApart (t : Tree) : Prop :=
  ∀ a b s s', t.siteOf? a = some s → t.siteOf? b = some s' →
    s.parent = s'.parent → s.position = s'.position → a = b

/-- No two includes share a place, and drops keep off their places. -/
structure Tidy (t : Tree) (source : List String) : Prop where
  apart : t.PlacedApart
  fit : ∀ c s, t.siteOf? c = some s → ∀ (i : Nat) (line : String), s.position = i →
    (t.linesOf source s.parent)[i]? = some line →
    DropsFit (t.dropsOf s.parent) i line s.directive

end Tree

/-! ## Lists with indices -/

/-- Two lists are mapped alike if their entries are, number by number. -/
theorem flatMap_zipIdx_congr {α β γ : Type} {as : List α} {bs : List β}
    {f : α × Nat → List γ} {g : β × Nat → List γ} (first : Nat)
    (hlength : as.length = bs.length)
    (h : ∀ i a b, as[i]? = some a → bs[i]? = some b → f (a, first + i) = g (b, first + i)) :
    (as.zipIdx first).flatMap f = (bs.zipIdx first).flatMap g := by
  induction as generalizing bs first with
  | nil =>
    cases bs with
    | nil => rfl
    | cons b bs => simp at hlength
  | cons a as ih =>
    cases bs with
    | nil => simp at hlength
    | cons b bs =>
      have hhead : f (a, first) = g (b, first) := h 0 a b rfl rfl
      have hlength' : as.length = bs.length := by simpa using hlength
      have htail := ih (first + 1) hlength' fun i x y hx hy => by
        have := h (i + 1) x y (by simpa using hx) (by simpa using hy)
        simpa [Nat.add_comm, Nat.add_left_comm] using this
      simp only [List.zipIdx_cons, List.flatMap_cons]
      rw [hhead, htail]

@[simp] theorem flattenAll_append (fs gs : List Fragment) :
    flattenAll (fs ++ gs) = flattenAll fs ++ flattenAll gs := by
  induction fs with
  | nil => rfl
  | cons f fs ih => simp [flattenAll, ih]

@[simp] theorem flattenAll_texts (ls : List String) :
    flattenAll (ls.map Fragment.text) = ls := by
  induction ls with
  | nil => rfl
  | cons l ls ih => simp [flattenAll, Fragment.flatten, ih]

/-- What is made of each entry is flattened by itself. -/
theorem flattenAll_flatMap {α : Type} (xs : List α) (f : α → List Fragment) :
    flattenAll (xs.flatMap f) = xs.flatMap fun x => flattenAll (f x) := by
  induction xs with
  | nil => rfl
  | cons x xs ih => simp [ih]

/-! ## Drops of one line -/

/-- Whether a text overwrites a line depends on the drops of this line alone. -/
theorem mem_overwrite_congr {drops drops' : List Drop} {i : Int} (text : String)
    (h : drops.filter (·.index = i) = drops'.filter (·.index = i)) :
    Drop.overwrite i text ∈ drops ↔ Drop.overwrite i text ∈ drops' := by
  have := congrArg (Drop.overwrite i text ∈ ·) h
  simpa [List.mem_filter] using this

theorem filter_index_eq_nil_iff {drops : List Drop} {i : Int} :
    drops.filter (·.index = i) = [] ↔ ∀ d ∈ drops, d.index ≠ i := by
  simp [List.filter_eq_nil_iff]

/-- Whether drops fit a line depends on those of this line alone. -/
theorem Tree.dropsFit_congr {drops drops' : List Drop} {i : Int} {line directive : String}
    (h : drops.filter (·.index = i) = drops'.filter (·.index = i)) :
    Tree.DropsFit drops i line directive ↔ Tree.DropsFit drops' i line directive := by
  unfold Tree.DropsFit
  rw [← filter_index_eq_nil_iff, ← filter_index_eq_nil_iff, h]

/-- Taking out what the filter leaves out anyway changes nothing. -/
theorem filter_erase_of_not {α : Type} [DecidableEq α] (p : α → Bool) (a : α) (l : List α)
    (h : p a = false) : (l.erase a).filter p = l.filter p := by
  rw [← List.erase_filter, List.erase_of_not_mem]
  simp [List.mem_filter, h]

/-- Taking away the only drop on a line leaves none there. -/
theorem filter_erase_of_eq_singleton {α : Type} [DecidableEq α] (p : α → Bool) (a : α)
    (l : List α) (h : l.filter p = [a]) : (l.erase a).filter p = [] := by
  rw [← List.erase_filter, h]
  simp

/-! ## Changing a tree -/

namespace Tree

/-- Changing a node leaves the other ones as they are. -/
theorem node?_modify (t : Tree) (id : Nat) (f : Node → Node) (j : Nat) :
    (t.modify id f).node? j = if id = j then (t.node? j).map f else t.node? j := by
  simp [modify, node?, Array.getElem?_modify]

@[simp] theorem size_modify (t : Tree) (id : Nat) (f : Node → Node) :
    (t.modify id f).size = t.size := by
  simp [modify, size]

theorem node?_isSome_iff (t : Tree) (id : Nat) : (t.node? id).isSome ↔ id < t.size := by
  simp [node?, size]

theorem exists_node {t : Tree} {id : Nat} (h : id < t.size) : ∃ n, t.node? id = some n :=
  Option.isSome_iff_exists.mp ((t.node?_isSome_iff id).mpr h)

theorem lt_size_of_node? {t : Tree} {id : Nat} {n : Node} (h : t.node? id = some n) :
    id < t.size :=
  (t.node?_isSome_iff id).mp (by simp [h])

theorem Sound.size_pos {t : Tree} (h : t.Sound) : 0 < t.size := by
  obtain ⟨n, hn, -⟩ := h.root
  exact lt_size_of_node? hn

theorem Sound.siteOf?_root {t : Tree} (h : t.Sound) : t.siteOf? 0 = none := by
  obtain ⟨n, hn, hparent⟩ := h.root
  simp [siteOf?, hn, Node.site?, hparent]

/-- Every include has a place. -/
theorem Sound.exists_site {t : Tree} (h : t.Sound) {id : Nat} (hpos : 0 < id)
    (hlt : id < t.size) : ∃ s, t.siteOf? id = some s ∧ s.parent < id := by
  obtain ⟨n, hn⟩ := exists_node hlt
  obtain ⟨s, hs, hparent⟩ := h.site id n hpos hn
  exact ⟨s, by simp [siteOf?, hn, hs], hparent⟩

/-- A node comes after the one that it stands in. -/
theorem Sound.parent_lt {t : Tree} (h : t.Sound) {c : Nat} {s : Site}
    (hs : t.siteOf? c = some s) : s.parent < c := by
  rcases Nat.eq_zero_or_pos c with hc | hc
  · subst hc
    simp [h.siteOf?_root] at hs
  · obtain ⟨s', hs', hlt⟩ := h.exists_site hc (siteOf?_lt hs)
    rw [hs] at hs'
    cases hs'
    exact hlt

/-- Without two includes at one place, the include at a place is the one that belongs there. -/
theorem PlacedApart.childAt?_eq {t : Tree} (h : t.PlacedApart) {c : Nat} {s : Site}
    (hs : t.siteOf? c = some s) : t.childAt? s.parent s.position = some (c, s.directive) := by
  cases hchild : t.childAt? s.parent s.position with
  | none => exact absurd ⟨rfl, rfl⟩ (childAt?_eq_none_iff.mp hchild c s hs)
  | some found =>
    obtain ⟨c', directive⟩ := found
    have hs' := siteOf?_of_childAt? hchild
    have hcc := h _ _ _ _ hs hs' rfl rfl
    subst hcc
    rw [hs] at hs'
    injection hs' with hs'
    rw [hs']

end Tree

/-! ## The state of a replay -/

section Replay

variable (t : Tree) (source : List String) (out : Nat → List String)

/-- Whether an include with at least a certain number has been put at a line of a node. -/
def Occupied (m id i : Nat) : Prop :=
  ∃ c directive line, t.childAt? id i = some (c, directive) ∧ m ≤ c ∧
    (t.linesOf source id)[i]? = some line ∧ standsAt (t.dropsOf id) i line directive = true

/-- A node at which the includes with at least a certain number have been put in place, where
they stand as they will be; everything else in it is as it was. -/
structure PartlyFilled (m id : Nat) (n : Node) : Prop where
  site : n.site? = t.siteOf? id
  parent : n.parent.isSome ↔ 0 < id
  length : n.lines.length = (t.linesOf source id).length
  block : ∀ (i : Nat) c directive f, t.childAt? id i = some (c, directive) → Occupied t source m id i →
    n.lines[i]? = some f → ∃ ls, f = .block ls ∧ flattenAll ls = out c
  text : ∀ (i : Nat) line f, (t.linesOf source id)[i]? = some line → ¬ Occupied t source m id i →
    n.lines[i]? = some f → f = .text line
  cleared : ∀ i : Nat, Occupied t source m id i → n.drops.filter (·.index = (i : Int)) = []
  kept : ∀ i : Nat, ¬ Occupied t source m id i →
    n.drops.filter (·.index = (i : Int)) = (t.dropsOf id).filter (·.index = (i : Int))

/-- A tree of which the nodes with at least a certain number have been replayed. -/
structure PartlyReplayed (m : Nat) (u : Tree) : Prop where
  size : u.size = t.size
  nodes : ∀ id < m, id < t.size → ∃ n, u.node? id = some n ∧ PartlyFilled t source out m id n

variable {t source out}

/-- Nothing is put into place before the first replay. -/
theorem not_occupied_of_size_le {m id i : Nat} (h : t.size ≤ m) : ¬ Occupied t source m id i := by
  rintro ⟨c, directive, line, hchild, hc, -⟩
  have := Tree.siteOf?_lt (Tree.siteOf?_of_childAt? hchild)
  omega

/-- A node as it was before anything was replayed. -/
theorem PartlyFilled.of_untouched {id : Nat} {n : Node} (hsite : n.site? = t.siteOf? id)
    (hparent : n.parent.isSome ↔ 0 < id) (hlines : n.lines = (t.linesOf source id).map .text)
    (hdrops : n.drops = t.dropsOf id) : PartlyFilled t source out t.size id n where
  site := hsite
  parent := hparent
  length := by simp [hlines]
  block _ _ _ _ _ hoccupied := absurd hoccupied (not_occupied_of_size_le (Nat.le_refl _))
  text i line f hline _ hf := by
    simp only [hlines, List.getElem?_map, hline, Option.map_some, Option.some.injEq] at hf
    exact hf.symm
  cleared _ hoccupied := absurd hoccupied (not_occupied_of_size_le (Nat.le_refl _))
  kept _ _ := by rw [hdrops]

/-- Before anything is replayed. -/
theorem partlyReplayed_withSource (hsound : t.Sound) :
    PartlyReplayed t source out t.size (t.withSource source) := by
  refine ⟨Tree.size_modify _ _ _, fun id _ hlt => ?_⟩
  obtain ⟨n, hn⟩ := Tree.exists_node hlt
  have hdrops : n.drops = t.dropsOf id := by simp [Tree.dropsOf, hn]
  rcases Nat.eq_zero_or_pos id with rfl | hid
  · obtain ⟨root, hroot, hparent⟩ := hsound.root
    rw [hn] at hroot
    cases hroot
    refine ⟨{ n with lines := source.map .text },
      by simp [Tree.withSource, Tree.node?_modify, hn], .of_untouched ?_ ?_ ?_ hdrops⟩
    · simp [Tree.siteOf?, hn, Node.site?]
    · simp [hparent]
    · simp [Tree.linesOf]
  · obtain ⟨s, hs, -⟩ := hsound.site id n hid hn
    obtain ⟨ls, hls⟩ := hsound.texts id n hid hn
    refine ⟨n, by simp [Tree.withSource, Tree.node?_modify, Nat.ne_of_lt hid, hn],
      .of_untouched ?_ ?_ ?_ hdrops⟩
    · simp [Tree.siteOf?, hn]
    · simp [(Node.site?_eq_some_iff.mp hs).1, hid]
    · simp [Tree.linesOf, Nat.ne_of_gt hid, hn, hls]

/-- A node at which all its includes have been put in place settles to what it yields. -/
theorem PartlyFilled.flatten_settled {m id : Nat} {n : Node}
    (h : PartlyFilled t source out m id n) (hsound : t.Sound) (hm : m ≤ id + 1) :
    flattenAll n.settled.lines = t.yields source out id := by
  have hdone : ∀ c directive (i : Nat), t.childAt? id i = some (c, directive) → m ≤ c := by
    intro c directive i hchild
    have := hsound.parent_lt (Tree.siteOf?_of_childAt? hchild)
    simp only at this
    omega
  unfold Node.settled Tree.yields Tree.yieldsBelow
  simp only
  rw [applyTable_mergeDrops, flattenAll_flatMap, List.take_length]
  -- line by line: an include that stands there has its lines in a block, other lines their drops
  refine flatMap_zipIdx_congr 0 h.length fun i f line hf hline => ?_
  simp only [Nat.zero_add]
  unfold Tree.yieldAt
  cases hchild : t.childAt? id i with
  | none =>
    have hfree : ¬ Occupied t source m id i := by
      rintro ⟨c, directive, line', hchild', -⟩
      rw [hchild] at hchild'
      cases hchild'
    rw [h.text i line f hline hfree hf, settleLine_congr _ (h.kept i hfree)]
    rfl
  | some found =>
    obtain ⟨c, directive⟩ := found
    by_cases hstands : standsAt (t.dropsOf id) i line directive = true
    · have hoccupied : Occupied t source m id i :=
        ⟨c, directive, line, hchild, hdone _ _ _ hchild, hline, hstands⟩
      obtain ⟨ls, rfl, hls⟩ := h.block i c directive f hchild hoccupied hf
      have hnone : ∀ d ∈ n.drops, d.index ≠ i := by
        intro d hd hi
        have hmem : d ∈ n.drops.filter (·.index = (i : Int)) := by simp [hd, hi]
        simp [h.cleared i hoccupied] at hmem
      simp [settleLine_of_forall_ne _ hnone, hstands, flattenAll, Fragment.flatten, hls]
    · have hfree : ¬ Occupied t source m id i := by
        rintro ⟨c', directive', line', hchild', -, hline', hstands'⟩
        rw [hchild] at hchild'
        rw [hline] at hline'
        cases hchild'
        cases hline'
        exact hstands hstands'
      rw [h.text i line f hline hfree hf, settleLine_congr _ (h.kept i hfree)]
      simp [hstands, keptLine]

/-- A node that has no include with exactly the next number is filled for that number too. -/
theorem PartlyFilled.pred {m id : Nat} {n : Node} (h : PartlyFilled t source out (m + 1) id n)
    (hsame : ∀ i, Occupied t source m id i ↔ Occupied t source (m + 1) id i) :
    PartlyFilled t source out m id n where
  site := h.site
  parent := h.parent
  length := h.length
  block i c directive f hchild hoccupied := h.block i c directive f hchild ((hsame i).mp hoccupied)
  text i line f hline hfree := h.text i line f hline fun ho => hfree ((hsame i).mpr ho)
  cleared i hoccupied := h.cleared i ((hsame i).mp hoccupied)
  kept i hfree := h.kept i fun ho => hfree ((hsame i).mpr ho)

/-- What was put into place stays there. -/
theorem Occupied.of_succ {m id i : Nat} (h : Occupied t source (m + 1) id i) :
    Occupied t source m id i := by
  obtain ⟨c, directive, line, hchild, hc, hline⟩ := h
  exact ⟨c, directive, line, hchild, by omega, hline⟩

/-- A place that is occupied only when include `m` counts is the place of `m`. -/
theorem Occupied.site_of_not_succ {m id i : Nat} (h : Occupied t source m id i)
    (hnot : ¬ Occupied t source (m + 1) id i) :
    ∃ directive line, t.siteOf? m = some ⟨id, i, directive⟩ ∧
      (t.linesOf source id)[i]? = some line ∧ standsAt (t.dropsOf id) i line directive = true := by
  obtain ⟨c, directive, line, hchild, hc, hline, hstands⟩ := h
  have hcm : c = m := by
    by_contra hne
    exact hnot ⟨c, directive, line, hchild, by omega, hline, hstands⟩
  subst hcm
  exact ⟨directive, line, Tree.siteOf?_of_childAt? hchild, hline, hstands⟩

/-- Whether the include with a number can be put in its place. -/
def Stands (t : Tree) (source : List String) (c : Nat) : Prop :=
  ∃ (p i : Nat) (directive line : String), t.siteOf? c = some ⟨p, i, directive⟩ ∧
    (t.linesOf source p)[i]? = some line ∧ standsAt (t.dropsOf p) i line directive = true

/-- The line that an include stands at. -/
theorem Stands.line {c p i : Nat} {directive : String} (h : Stands t source c)
    (hsite : t.siteOf? c = some ⟨p, i, directive⟩) :
    ∃ line, (t.linesOf source p)[i]? = some line ∧
      standsAt (t.dropsOf p) i line directive = true := by
  obtain ⟨p', i', directive', line, hsite', hline, hstands⟩ := h
  obtain ⟨rfl, rfl, rfl⟩ := Tree.site_inj hsite hsite'
  exact ⟨line, hline, hstands⟩

/-- A node that stands nowhere occupies no line. -/
theorem occupied_iff_of_not_stands {m : Nat} (h : ¬ Stands t source m) (id i : Nat) :
    Occupied t source m id i ↔ Occupied t source (m + 1) id i := by
  refine ⟨fun ho => ?_, Occupied.of_succ⟩
  by_contra hnot
  obtain ⟨directive, line, hsite, hline, hstands⟩ := ho.site_of_not_succ hnot
  exact h ⟨id, i, directive, line, hsite, hline, hstands⟩

/-- Before an include is put in place its parent has the original line there. -/
theorem PartlyFilled.line_of_site {m p i : Nat} {directive : String} {n : Node}
    (h : PartlyFilled t source out (m + 1) p n) (htidy : t.Tidy source)
    (hsite : t.siteOf? m = some ⟨p, i, directive⟩) :
    ¬ Occupied t source (m + 1) p i ∧
      n.lines[i]? = ((t.linesOf source p)[i]?).map .text := by
  -- no other node stands at this line
  have hfree : ¬ Occupied t source (m + 1) p i := by
    rintro ⟨c, directive', line, hchild, hc, -⟩
    have hchild' := htidy.apart.childAt?_eq hsite
    rw [hchild] at hchild'
    simp only [Option.some.injEq, Prod.mk.injEq] at hchild'
    omega
  refine ⟨hfree, ?_⟩
  cases hline : (t.linesOf source p)[i]? with
  | none =>
    rw [List.getElem?_eq_none_iff] at hline
    simp [h.length, hline]
  | some line =>
    obtain ⟨hlt, -⟩ := List.getElem?_eq_some_iff.mp hline
    have hlt' : i < n.lines.length := by rw [h.length]; exact hlt
    rw [List.getElem?_eq_getElem hlt']
    rw [h.text i line n.lines[i] hline hfree (List.getElem?_eq_getElem hlt')]
    rfl

section Placing

variable {parent node : Node} {s : Site}

/-- An include whose place is out of range is not put anywhere. -/
theorem placeIn_of_none (hnode : node.site? = some s) (hline : lineAt? parent s.position = none) :
    ∃ record, placeIn parent node = .error record := by
  obtain ⟨-, hposition, hdirective⟩ := Node.site?_eq_some_iff.mp hnode
  simp [placeIn, hposition, hdirective, hline]

/-- Where its parent has a line of text, an include is put in the place of its directive or of a line
that is overwritten with it, and otherwise nowhere. -/
theorem placeIn_of_text {line : String} (hnode : node.site? = some s)
    (hline : lineAt? parent s.position = some (.text line)) :
    (line = s.directive ∧ placeIn parent node = .ok .directive) ∨
    (.overwrite s.position s.directive ∈ parent.drops ∧
      placeIn parent node = .ok (.overwrite (.overwrite s.position s.directive))) ∨
    (standsAt parent.drops s.position line s.directive = false ∧
      ∃ record, placeIn parent node = .error record) := by
  obtain ⟨-, hposition, hdirective⟩ := Node.site?_eq_some_iff.mp hnode
  unfold placeIn
  simp only [hposition, hdirective, Option.getD_some, hline, Fragment.isText]
  by_cases hsame : line = s.directive
  · exact Or.inl ⟨hsame, by simp [hsame]⟩
  · by_cases hoverwrite : .overwrite s.position s.directive ∈ parent.drops
    · exact Or.inr (Or.inl ⟨hoverwrite, by simp [hsame, hoverwrite]⟩)
    · exact Or.inr (Or.inr ⟨by simp [standsAt, hsame, hoverwrite], by simp [hsame, hoverwrite]⟩)

/-- A node is put at the line that it stands at. -/
theorem lines_putInto {i : Nat} (place : Place) (hnode : node.site? = some s)
    (hi : s.position = i) :
    (putInto place node.settled parent).lines =
      parent.lines.set i (.block node.settled.lines) := by
  obtain ⟨-, hposition, -⟩ := Node.site?_eq_some_iff.mp hnode
  simp [putInto, Node.settled, hposition, hi]

/-- An include in the place of its directive, where no drop is. -/
theorem drops_putInto_directive {i : Int} (hnone : parent.drops.filter (·.index = i) = [])
    (j : Int) :
    (putInto .directive node parent).drops.filter (·.index = j) =
      if j = i then [] else parent.drops.filter (·.index = j) := by
  by_cases hj : j = i
  · simpa [putInto, hj] using hnone
  · simp [putInto, hj]

/-- An include in the place of a line that is overwritten with it: the drop there goes. -/
theorem drops_putInto_overwrite {i : Int} {text : String}
    (honly : parent.drops.filter (·.index = i) = [.overwrite i text]) (j : Int) :
    (putInto (.overwrite (.overwrite i text)) node parent).drops.filter (·.index = j) =
      if j = i then [] else parent.drops.filter (·.index = j) := by
  by_cases hj : j = i
  · subst hj
    simp only [putInto, if_true]
    exact filter_erase_of_eq_singleton _ _ _ honly
  · simp only [putInto, hj, if_false]
    exact filter_erase_of_not _ _ _ (decide_eq_false (Ne.symm hj))

/-- An include finds its place exactly if it stands there, and then at most one drop goes. -/
theorem placeIn_eq {m : Nat} (htidy : t.Tidy source) (hsite : t.siteOf? m = some s)
    (hparent : PartlyFilled t source out (m + 1) s.parent parent) (hnode : node.site? = some s) :
    (¬ Stands t source m ∧ ∃ record, placeIn parent node = .error record) ∨
    (∃ i : Nat, ∃ line, s.position = i ∧ (t.linesOf source s.parent)[i]? = some line ∧
      standsAt (t.dropsOf s.parent) i line s.directive = true ∧
      ∃ place, placeIn parent node = .ok place ∧
        (putInto place node.settled parent).lines =
          parent.lines.set i (.block node.settled.lines) ∧
        (∀ j : Int, (putInto place node.settled parent).drops.filter (·.index = j) =
          if j = i then [] else parent.drops.filter (·.index = j))) := by
  obtain ⟨p, position, directive⟩ := s
  rcases Int.lt_or_le position 0 with hneg | hpos
  · refine Or.inl ⟨?_, placeIn_of_none hnode (by simp [lineAt?, Int.not_le.mpr hneg])⟩
    rintro ⟨q, i, directive', line, hsite', -⟩
    rw [hsite, Option.some.injEq, Site.mk.injEq] at hsite'
    omega
  obtain ⟨i, rfl⟩ := Int.eq_ofNat_of_zero_le hpos
  obtain ⟨hfree, hat⟩ := hparent.line_of_site htidy hsite
  have hlineAt : lineAt? parent i = ((t.linesOf source p)[i]?).map .text := by
    simpa [lineAt?] using hat
  cases hline : (t.linesOf source p)[i]? with
  | none =>
    refine Or.inl ⟨fun hs => ?_, placeIn_of_none hnode (by rw [hlineAt, hline]; rfl)⟩
    obtain ⟨line, hsome, -⟩ := hs.line hsite
    rw [hline] at hsome
    cases hsome
  | some line =>
    -- the parent has there the drops that it had at the start, and they fit the include
    have hkept := hparent.kept i hfree
    have hfit : Tree.DropsFit parent.drops i line directive :=
      (Tree.dropsFit_congr hkept).mpr (htidy.fit m _ hsite i line rfl hline)
    have hstands : standsAt (t.dropsOf p) i line directive =
        standsAt parent.drops i line directive := by
      simp [standsAt, mem_overwrite_congr directive hkept]
    rcases placeIn_of_text hnode (by rw [hlineAt, hline]; rfl) with
      ⟨rfl, hplace⟩ | ⟨hmem, hplace⟩ | ⟨hnot, hplace⟩
    · exact Or.inr ⟨i, line, rfl, hline, by simp [standsAt], _, hplace, lines_putInto _ hnode rfl,
        drops_putInto_directive hfit.filter_of_directive⟩
    · have hstand : standsAt (t.dropsOf p) i line directive = true :=
        hstands.trans (by simpa [standsAt] using Or.inr hmem)
      exact Or.inr ⟨i, line, rfl, hline, hstand, _, hplace, lines_putInto _ hnode rfl,
        drops_putInto_overwrite (hfit.filter_of_overwrite hmem)⟩
    · refine Or.inl ⟨fun hs => ?_, hplace⟩
      obtain ⟨line', hline', hstand⟩ := hs.line hsite
      rw [hline, Option.some.injEq] at hline'
      rw [← hline', hstands, hnot] at hstand
      cases hstand

end Placing

/-- Only the place of an include tells whether it counts. -/
theorem occupied_iff_of_site {m p i : Nat} {line directive : String} (htidy : t.Tidy source)
    (hsite : t.siteOf? m = some ⟨p, i, directive⟩)
    (hline : (t.linesOf source p)[i]? = some line)
    (hstands : standsAt (t.dropsOf p) i line directive = true) (id j : Nat) :
    Occupied t source m id j ↔ (id = p ∧ j = i) ∨ Occupied t source (m + 1) id j := by
  constructor
  · intro ho
    by_cases hnext : Occupied t source (m + 1) id j
    · exact Or.inr hnext
    · obtain ⟨directive', line', hsite', -⟩ := ho.site_of_not_succ hnext
      obtain ⟨hparent, hposition, -⟩ := Tree.site_inj hsite hsite'
      exact Or.inl ⟨hparent.symm, hposition.symm⟩
  · rintro (⟨rfl, rfl⟩ | hnext)
    · exact ⟨m, directive, line, htidy.apart.childAt?_eq hsite, Nat.le_refl _, hline, hstands⟩
    · exact hnext.of_succ

/-- Putting an include with the right lines in its place fills its parent for that number. -/
theorem PartlyFilled.put {m p i : Nat} {line directive : String} {parent parent' : Node}
    {inner : List Fragment} (h : PartlyFilled t source out (m + 1) p parent)
    (htidy : t.Tidy source) (hsite : t.siteOf? m = some ⟨p, i, directive⟩)
    (hline : (t.linesOf source p)[i]? = some line)
    (hstands : standsAt (t.dropsOf p) i line directive = true)
    (hinner : flattenAll inner = out m)
    (hsame : parent'.site? = parent.site? ∧ parent'.parent = parent.parent)
    (hlines : parent'.lines = parent.lines.set i (.block inner))
    (hdrops : ∀ j : Int, parent'.drops.filter (·.index = j) =
      if j = i then [] else parent.drops.filter (·.index = j)) :
    PartlyFilled t source out m p parent' := by
  -- of all places only line `i` of the parent gets occupied
  have hiff := occupied_iff_of_site htidy hsite hline hstands p
  constructor
  · rw [hsame.1, h.site]
  · rw [hsame.2, h.parent]
  · rw [hlines, List.length_set, h.length]
  · intro j c directive' f hchild hoccupied hf
    rw [hlines, List.getElem?_set] at hf
    by_cases hj : j = i
    · subst hj
      have hchild' := htidy.apart.childAt?_eq hsite
      rw [hchild] at hchild'
      cases hchild'
      by_cases hlt : j < parent.lines.length
      · simp only [if_true, hlt, Option.some.injEq] at hf
        exact ⟨inner, hf.symm, hinner⟩
      · simp [hlt] at hf
    · rw [if_neg (Ne.symm hj)] at hf
      rcases (hiff j).mp hoccupied with ⟨-, hji⟩ | hnext
      · exact absurd hji hj
      · exact h.block j c directive' f hchild hnext hf
  · intro j line' f hline' hfree hf
    have hj : j ≠ i := fun hj => hfree ((hiff j).mpr (Or.inl ⟨rfl, hj⟩))
    rw [hlines, List.getElem?_set, if_neg (Ne.symm hj)] at hf
    exact h.text j line' f hline' (fun ho => hfree ho.of_succ) hf
  · intro j hoccupied
    rw [hdrops]
    by_cases hj : j = i
    · simp [hj]
    · rw [if_neg (by omega)]
      rcases (hiff j).mp hoccupied with ⟨-, hji⟩ | hnext
      · exact absurd hji hj
      · exact h.cleared j hnext
  · intro j hfree
    have hj : j ≠ i := fun hj => hfree ((hiff j).mpr (Or.inl ⟨rfl, hj⟩))
    rw [hdrops, if_neg (by omega)]
    exact h.kept j fun ho => hfree ho.of_succ

/-- An include that is yet to be replayed, with its parent. -/
theorem PartlyReplayed.exists_parent {m : Nat} {u : Tree}
    (h : PartlyReplayed t source out (m + 1) u) (hsound : t.Sound) (hpos : 0 < m)
    (hlt : m < t.size) :
    ∃ s node parent, t.siteOf? m = some s ∧ s.parent < m ∧
      (u.node? m = some node ∧ node.site? = some s ∧ PartlyFilled t source out (m + 1) m node) ∧
      u.node? s.parent = some parent ∧ PartlyFilled t source out (m + 1) s.parent parent := by
  obtain ⟨s, hsite, hparentlt⟩ := hsound.exists_site hpos hlt
  obtain ⟨node, hnode, hfilled⟩ := h.nodes m (by omega) hlt
  obtain ⟨parent, hparent, hparentFilled⟩ := h.nodes s.parent (by omega) (by omega)
  exact ⟨s, node, parent, hsite, hparentlt, ⟨hnode, by rw [hfilled.site, hsite], hfilled⟩, hparent,
    hparentFilled⟩

/-- Replaying an include keeps the state of the replay. -/
theorem partlyReplayed_replayNode {m : Nat} {u : Tree}
    (h : PartlyReplayed t source out (m + 1) u) (hsound : t.Sound) (htidy : t.Tidy source)
    (hout : out m = t.yields source out m) (hpos : 0 < m) (hlt : m < t.size) :
    PartlyReplayed t source out m (replayNode u m).1 := by
  obtain ⟨s, node, parent, hsite, hparentlt, ⟨hnode, hnodeSite, hfilled⟩, hparent, hparentFilled⟩ :=
    h.exists_parent hsound hpos hlt
  have hnodeParent : node.parent = some s.parent := (Node.site?_eq_some_iff.mp hnodeSite).1
  have hinner : flattenAll node.settled.lines = out m := by
    rw [hfilled.flatten_settled hsound (Nat.le_refl _), hout]
  unfold replayNode
  simp only [hnode, hnodeParent, hparent]
  rcases placeIn_eq htidy hsite hparentFilled hnodeSite with
    ⟨hstands, record, hplace⟩ | ⟨i, line, hi, hline, hstands, place, hplace, hlines, hdrops⟩
  · -- the include does not stand anywhere, so nothing changes
    simp only [hplace]
    refine ⟨h.size, fun id hid hsize => ?_⟩
    obtain ⟨n, hn, hnFilled⟩ := h.nodes id (by omega) hsize
    exact ⟨n, hn, hnFilled.pred fun i => occupied_iff_of_not_stands hstands id i⟩
  · -- the include stands at a line of its parent, and its lines are put there
    have hsite' : t.siteOf? m = some ⟨s.parent, (i : Int), s.directive⟩ := by
      rw [hsite, ← hi]
    simp only [hplace]
    refine ⟨by simp [h.size], fun id hid hsize => ?_⟩
    obtain ⟨n, hn, hnFilled⟩ := h.nodes id (by omega) hsize
    -- the parent is the only node that changes
    by_cases hp : id = s.parent
    · subst hp
      rw [hparent] at hn
      cases hn
      refine ⟨putInto place node.settled parent, ?_, ?_⟩
      · simp [Tree.node?_modify, Nat.ne_of_gt hid, hparent]
      · exact hnFilled.put htidy hsite' hline hstands hinner ⟨rfl, rfl⟩ hlines hdrops
    · -- the other nodes stay as they are
      refine ⟨n, ?_, hnFilled.pred fun j => ?_⟩
      · simp [Tree.node?_modify, Ne.symm hp, Nat.ne_of_gt hid, hn]
      · rw [occupied_iff_of_site htidy hsite' hline hstands]
        simp [hp]

/-- Replaying the nodes below a number leaves at the document what it yields. -/
theorem flatten_replayBelow {m : Nat} {u : Tree} (h : PartlyReplayed t source out m u)
    (hsound : t.Sound) (htidy : t.Tidy source)
    (hout : ∀ c, 0 < c → c < t.size → out c = t.yields source out c) (hpos : 0 < m)
    (hle : m ≤ t.size) :
    flattenAll (replayBelow u m).1.root.lines = t.yields source out 0 := by
  induction m generalizing u with
  | zero => omega
  | succ m ih =>
    simp only [replayBelow]
    rcases Nat.eq_zero_or_pos m with hm | hm
    · -- the document itself stands nowhere, so its lines are settled last
      subst hm
      obtain ⟨root, hroot, hfilled⟩ := h.nodes 0 (by omega) hsound.size_pos
      have hnone : root.parent = none := by
        have := hfilled.parent
        simpa using this
      simp only [replayBelow, replayNode, hroot, hnone]
      have hsettled : (u.modify 0 Node.settled).root = root.settled := by
        simp [Tree.root, Tree.node?_modify, hroot]
      rw [hsettled]
      exact hfilled.flatten_settled hsound (Nat.le_refl _)
    · -- an include is put into place, and those before it follow
      exact ih (partlyReplayed_replayNode h hsound htidy (hout m hm (by omega)) hm (by omega)) hm
        (by omega)

end Replay

/-- Replay gives what the document yields. -/
theorem replay_lines {t : Tree} {source : List String} {out : Nat → List String}
    (hsound : t.Sound) (htidy : t.Tidy source)
    (hout : ∀ c, 0 < c → c < t.size → out c = t.yields source out c)
    (htrivial : t.isTrivial = false) :
    (replay t source).lines = trimEmptyEnd (t.yields source out 0) := by
  unfold replay
  rw [htrivial]
  simp only [Bool.false_eq_true, if_false]
  rw [flatten_replayBelow (partlyReplayed_withSource hsound) hsound htidy hout hsound.size_pos
    (Nat.le_refl _)]

end DocFlatten.Replacement
