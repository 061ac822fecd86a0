import DocFlatten.Proofs.DirectiveLines
import DocFlatten.Proofs.Following

/-! # The account of a reading

While a document is read with its conditionals resolved, the recorded tree yields, up to the line
being read, exactly the lines that were delivered. A region that is being skipped holds the
account back at its start: its lines are deleted once it ends, in every scope it runs through.

* `Front`: how the line in front of the reader stands to the line of its node;
* `Accounted`: the account, kept by each step of reading.
-/

namespace DocFlatten

/-- What is left of a list starts with the entry of that number. -/
theorem of_drop_eq_cons {α : Type} {l rest : List α} {i : Nat} {a : α}
    (h : l.drop i = a :: rest) : l[i]? = some a ∧ rest = l.drop (i + 1) := by
  constructor
  · rw [← List.head?_drop, h]
    rfl
  · rw [← List.tail_drop, h]
    rfl

namespace Replacement

/-! ## Open conditionals -/

/-- No conditional skips. -/
def NoneSkips (cs : List OpenConditional) : Prop :=
  ∀ c ∈ cs, c.skipping = false

/-- The conditionals down to one at a depth skip, the others do not. -/
def SkipsFrom (cs : List OpenConditional) (depth : Nat) : Prop :=
  ∃ inner rest, cs = inner ++ rest ∧ inner ≠ [] ∧ (∀ c ∈ inner, c.skipping = true) ∧
    NoneSkips rest ∧ depth = rest.length + 1

theorem NoneSkips.cons {cs : List OpenConditional} (h : NoneSkips cs) {c : OpenConditional}
    (hc : c.skipping = false) : NoneSkips (c :: cs) := by
  intro d hd
  rcases List.mem_cons.mp hd with rfl | hd
  · exact hc
  · exact h d hd

/-- The region starts with the conditional that is opened. -/
theorem NoneSkips.skipsFrom {cs : List OpenConditional} (h : NoneSkips cs) {c : OpenConditional}
    (hc : c.skipping = true) : SkipsFrom (c :: cs) (cs.length + 1) :=
  ⟨[c], cs, rfl, by simp, by simpa using hc, h, rfl⟩

theorem SkipsFrom.cons {cs : List OpenConditional} {depth : Nat} (h : SkipsFrom cs depth)
    {c : OpenConditional} (hc : c.skipping = true) : SkipsFrom (c :: cs) depth := by
  obtain ⟨inner, rest, rfl, -, hinner, hrest, hdepth⟩ := h
  refine ⟨c :: inner, rest, rfl, by simp, ?_, hrest, hdepth⟩
  intro d hd
  rcases List.mem_cons.mp hd with rfl | hd
  · exact hc
  · exact hinner d hd

/-- Whether lines are skipped after the innermost conditional was closed. -/
def skippingAfter (rest : List OpenConditional) : Bool :=
  (rest.head?.map (·.skipping)).getD false

/-- What is around is not skipped either. -/
theorem NoneSkips.tail {top : OpenConditional} {rest : List OpenConditional}
    (h : NoneSkips (top :: rest)) : NoneSkips rest ∧ skippingAfter rest = false := by
  have hrest : NoneSkips rest := fun c hc => h c (List.mem_cons_of_mem _ hc)
  refine ⟨hrest, ?_⟩
  cases rest with
  | nil => rfl
  | cons c cs => exact hrest c List.mem_cons_self

/-- Closing a conditional of those that skip either goes on skipping or ends at its depth. -/
theorem SkipsFrom.tail {top : OpenConditional} {rest : List OpenConditional} {depth : Nat}
    (h : SkipsFrom (top :: rest) depth) :
    (skippingAfter rest = true ∧ SkipsFrom rest depth) ∨
      (skippingAfter rest = false ∧ NoneSkips rest ∧ depth = rest.length + 1) := by
  obtain ⟨inner, others, hcs, hne, hinner, hothers, hdepth⟩ := h
  cases inner with
  | nil => exact absurd rfl hne
  | cons first inner =>
    rw [List.cons_append, List.cons.injEq] at hcs
    obtain ⟨rfl, rfl⟩ := hcs
    cases inner with
    -- the conditional that started the region is closed, and reading goes on
    | nil =>
      refine Or.inr ⟨?_, hothers, hdepth⟩
      cases others with
      | nil => rfl
      | cons c cs => exact hothers c List.mem_cons_self
    -- one further inside is closed, and the region goes on
    | cons second inner =>
      have hinner' : ∀ c ∈ second :: inner, c.skipping = true := fun c hc =>
        hinner c (List.mem_cons_of_mem _ hc)
      exact Or.inl ⟨hinner' second List.mem_cons_self, second :: inner, others, rfl, by simp,
        hinner', hothers, hdepth⟩

/-! ## The account -/

/-- How the line in front of a reader stands to line `i` of the node being read. It is that line,
or the text of a conditional in its place that may be an include directive, or a line that waits
to be taken and is what line `i` will yield, or a line that waits inside a skipped region. -/
inductive Front (t : Tree) (source : List String) (out : Nat → List String) (a i e : Nat)
    (r : Reader) : Prop where
  | raw (hidle : r.Idle) (hlines : r.scope.lines = (t.linesOf source a).drop i)
      (hclear : Clear t a e)
  | text (line text : String) (hidle : r.Idle) (hskip : r.skipping = false)
      (hline : (t.linesOf source a)[i]? = some line)
      (hlines : r.scope.lines = text :: (t.linesOf source a).drop (i + 1))
      (hinclude : text.startsWith "include::" = true) (hne : line ≠ text)
      (hfree : ∀ c s, t.siteOf? c = some s → s.parent = a → s.position < i)
      (hdrops : ∀ d ∈ t.dropsOf a, d.index < i + 1)
      (honly : (t.dropsOf a).filter (·.index = (i : Int)) = [.overwrite i text])
  | held (line text : String) (hlook : r.lookAhead = 1) (hskip : r.skipping = false)
      (hline : (t.linesOf source a)[i]? = some line)
      (hlines : r.scope.lines = text :: (t.linesOf source a).drop (i + 1))
      (hclear : Clear t a (i + 1)) (hyield : t.yieldAt out a i line = [text])
  | hidden (line : String) (hlook : r.lookAhead = 1) (hskip : r.skipping = true)
      (hline : (t.linesOf source a)[i]? = some line)
      (hlines : r.scope.lines = line :: (t.linesOf source a).drop (i + 1)) (hclear : Clear t a e)

/-- The account of a reading at line `i` of the innermost scope: what was delivered is what the
tree yields up to line `e`, which is line `i` or the start of the region being skipped. -/
structure Accounted (source : List String) (k : Tracker) (r : Reader) (delivered : List String)
    (out : Nat → List String) (i e : Nat) : Prop where
  preserve : k.preserve = false
  pending : k.pending = none
  recorded : Recorded k.tree source out k.active k.scopes r.outer
  stands : ∀ scope ∈ k.scopes, Stands k.tree source scope.node
  lineno : r.cursor.lineno = i + 1 + k.tree.offsetOf k.active
  front : Front k.tree source out k.active i e r
  le : e ≤ i
  reading : r.skipping = false → e = i ∧ k.openSkips = [] ∧ NoneSkips r.conditionals
  skips : r.skipping = true →
    ∃ depth, SkipsFrom r.conditionals depth ∧ k.openSkips = [⟨k.active, e, depth⟩]
  delivered : delivered = k.tree.yieldedTo source out k.scopes k.active e

/-! ## What a tracker makes of a conditional -/

namespace Tracker

variable {k : Tracker} {r r' : Reader} {c : Conditional} {consumed : Bool} {i : Nat}

/-- Inside a skipped region nothing is recorded. -/
theorem observe_hidden (hbefore : r.skipping = true) (hafter : r'.skipping = true) :
    (k.observe (c.event r r' consumed)).1 = k := by
  simp [Conditional.event, observe, onConditional, hbefore, hafter]

/-- A conditional that neither skips nor ends skipping is deleted with its line. -/
theorem observe_delete (hpreserve : k.preserve = false)
    (hlineno : r.cursor.lineno = i + 1 + k.tree.offsetOf k.active)
    (hbefore : r.skipping = false) (hafter : r'.skipping = false) :
    (k.observe (c.event r r' true)).1 = k.addDrops k.active [.delete i] := by
  simp only [Conditional.event, observe, onConditional, hpreserve, hbefore, hafter,
    indexOf_activeNode hlineno]
  rw [if_neg (by simp)]
  split
  · simp
  · split <;> simp

/-- A conditional that starts a region is remembered at the index of its line. -/
theorem observe_open (hpreserve : k.preserve = false)
    (hlineno : r.cursor.lineno = i + 1 + k.tree.offsetOf k.active)
    (hbefore : r.skipping = false) (hafter : r'.skipping = true)
    (hdepth : r'.conditionalDepth = r.conditionalDepth + 1) :
    (k.observe (c.event r r' consumed)).1 =
      { k with openSkips := ⟨k.active, i, r.conditionalDepth + 1⟩ :: k.openSkips } := by
  simp only [Conditional.event, observe, onConditional, hpreserve, hbefore, hafter, hdepth,
    indexOf_activeNode hlineno]
  rw [if_neg (by simp), if_neg (by omega), if_pos (by omega)]
  simp

/-- The end of the outermost skipped region deletes it, with both directives. -/
theorem observe_close {e : Nat} (hpreserve : k.preserve = false)
    (hlineno : r.cursor.lineno = i + 1 + k.tree.offsetOf k.active)
    (hbefore : r.skipping = true) (hafter : r'.skipping = false)
    (hdepth : r.conditionalDepth = r'.conditionalDepth + 1)
    (hskips : k.openSkips = [⟨k.active, e, r.conditionalDepth⟩]) :
    (k.observe (c.event r r' consumed)).1 =
      { k with
        tree := k.tree.addDrops k.active (deleteRange e (i + 1))
        openSkips := [] } := by
  simp only [Conditional.event, observe, onConditional, hpreserve, hbefore, hafter,
    indexOf_activeNode hlineno]
  rw [if_neg (by simp), if_pos (by omega)]
  simp [closeSkip, hskips, addDrops, hpreserve]

/-- A text that is kept overwrites the line of its conditional. -/
theorem observe_keep {text : String} (hpreserve : k.preserve = false)
    (hlineno : r.cursor.lineno = i + 1 + k.tree.offsetOf k.active)
    (hbefore : r.skipping = false) (hafter : r'.skipping = false)
    (hdepth : r'.conditionalDepth = r.conditionalDepth) (htext : c.text = some text) :
    (k.observe (c.event r r' false)).1 = k.addDrops k.active [.overwrite i text] := by
  simp only [Conditional.event, observe, onConditional, hpreserve, hbefore, hafter, hdepth,
    indexOf_activeNode hlineno, htext]
  rw [if_neg (by simp), if_neg (by omega), if_neg (by omega)]
  simp

end Tracker

/-- A line is overwritten where nothing belongs to it or to later lines: then the text is all that
belongs to it. -/
theorem Clear.overwrite {t : Tree} {a e : Nat} (h : Clear t a e) (ha : a < t.size) (text : String) :
    let t' := t.addDrops a [.overwrite e text]
    (∀ c s, t'.siteOf? c = some s → s.parent = a → s.position < e) ∧
      (∀ d ∈ t'.dropsOf a, d.index < e + 1) ∧
      (t'.dropsOf a).filter (·.index = (e : Int)) = [.overwrite e text] := by
  intro t'
  have hdrops : t'.dropsOf a = t.dropsOf a ++ [.overwrite e text] :=
    t.dropsOf_addDrops_self _ _ ha
  refine ⟨?_, ?_, ?_⟩
  · -- the includes all lie before the line
    intro c s hs
    rw [Tree.siteOf?_addDrops] at hs
    exact h.includes c s hs
  · -- the drops lie before it too, but for the new one
    intro d hd
    rw [hdrops] at hd
    rcases List.mem_append.mp hd with hold | hnew
    · have := h.drops d hold
      omega
    · rw [List.mem_singleton] at hnew
      subst hnew
      exact Int.lt_succ e
  · -- so the new one is the only drop of the line
    have hold : (t.dropsOf a).filter (·.index = (e : Int)) = [] := by
      rw [filter_index_eq_nil_iff]
      intro d hd
      have := h.drops d hd
      omega
    rw [hdrops, List.filter_append, hold]
    simp

namespace Accounted

variable {source : List String} {k : Tracker} {r : Reader} {delivered : List String}
  {out : Nat → List String} {i e : Nat} {line : String} {rest : List String}

/-- The line in front, not yet processed, inside a skipped region. -/
theorem raw_of_skipping (h : Accounted source k r delivered out i e) (hidle : r.Idle)
    (hskip : r.skipping = true) :
    r.scope.lines = (k.tree.linesOf source k.active).drop i ∧ Clear k.tree k.active e := by
  cases h.front with
  | raw _ hlines hclear => exact ⟨hlines, hclear⟩
  | text _ _ _ hskip' => rw [hskip] at hskip'; cases hskip'
  | held _ _ hlook => rw [hidle.lookAhead] at hlook; cases hlook
  | hidden _ hlook => rw [hidle.lookAhead] at hlook; cases hlook

/-- The line in front, not yet processed, outside of skipped regions: it stands at line `i`, and
nothing belongs to later lines. -/
theorem stands_of_reading (h : Accounted source k r delivered out i e) (hidle : r.Idle)
    (hskip : r.skipping = false) (hlines : r.scope.lines = line :: rest) :
    ∃ original, (k.tree.linesOf source k.active)[i]? = some original ∧
      rest = (k.tree.linesOf source k.active).drop (i + 1) ∧
      (∀ c s, k.tree.siteOf? c = some s → s.parent = k.active → s.position < i) ∧
      (∀ d ∈ k.tree.dropsOf k.active, d.index < i + 1) ∧
      Tree.DropsFit (k.tree.dropsOf k.active) i original line ∧
      standsAt (k.tree.dropsOf k.active) i original line = true := by
  obtain ⟨rfl, -, -⟩ := h.reading hskip
  cases h.front with
  | raw _ hraw hclear =>
    -- a line as it is in the file has no drop yet
    rw [hlines] at hraw
    obtain ⟨hat, htail⟩ := of_drop_eq_cons hraw.symm
    refine ⟨line, hat, htail, hclear.includes, fun d hd => ?_, Or.inl fun d hd => ?_,
      by simp [standsAt]⟩
    · have := hclear.drops d hd
      omega
    · have := hclear.drops d hd
      omega
  | text original text _ _ hline htext _ hne hfree hdrops honly =>
    -- a text that was put into the line has one, which overwrites the line with it
    rw [hlines, List.cons.injEq] at htext
    obtain ⟨rfl, rfl⟩ := htext
    have hmem : Drop.overwrite e line ∈ k.tree.dropsOf k.active := by
      have : Drop.overwrite e line ∈ (k.tree.dropsOf k.active).filter (·.index = (e : Int)) := by
        rw [honly]
        exact List.mem_singleton_self _
      exact (List.mem_filter.mp this).1
    exact ⟨original, hline, rfl, hfree, hdrops, Or.inr ⟨hne, honly⟩, by simp [standsAt, hmem]⟩
  | held _ _ hlook => rw [hidle.lookAhead] at hlook; cases hlook
  | hidden _ hlook => rw [hidle.lookAhead] at hlook; cases hlook

/-- What is around stays in its place if the tree only grows at the node being read. -/
theorem stands_extends (h : Accounted source k r delivered out i e) {t : Tree} {n : Nat}
    (hext : Extends k.tree t source k.active n) :
    ∀ scope ∈ k.scopes, Stands t source scope.node := by
  intro scope hscope
  have hpos := (h.recorded.path.pos_of_mem h.recorded.sound hscope).2
  exact (h.stands scope hscope).of_extends hext h.recorded.sound hpos

/-! ### Lines -/

/-- A line that is content waits to be taken. -/
theorem hold (h : Accounted source k r delivered out i e) (hidle : r.Idle)
    (hlines : r.scope.lines = line :: rest) (unescape : Bool) :
    Accounted source k { r.hold with unescape } delivered out i e := by
  have hlook : r.lookAhead + 1 = 1 := by rw [hidle.lookAhead]
  refine { h with front := ?_ }
  cases hskip : r.skipping with
  | true =>
    -- in a region the line stays with the drops that the end of the region makes
    obtain ⟨hraw, hclear⟩ := h.raw_of_skipping hidle hskip
    obtain ⟨hline, rfl⟩ := of_drop_eq_cons (hraw.symm.trans hlines)
    exact .hidden line hlook hskip hline hlines hclear
  | false =>
    -- otherwise it is delivered as it stands
    obtain ⟨original, hline, rfl, hfree, hdrops, hfit, hstands⟩ :=
      h.stands_of_reading hidle hskip hlines
    have hchild := childAt?_eq_none_of_lt (Nat.le_refl i) hfree
    have hyield : k.tree.yieldAt out k.active i original = [line] := by
      unfold Tree.yieldAt
      rw [hchild]
      exact keptLine_of_stands hfit hstands
    exact .held original line hlook hskip hline hlines
      ⟨fun c s hs hp => by have := hfree c s hs hp; omega, hdrops⟩ hyield

/-- A line of a skipped region is passed over. -/
theorem pass (h : Accounted source k r delivered out i e) (hidle : r.Idle)
    (hlines : r.scope.lines = line :: rest) (hskip : r.skipping = true) :
    Accounted source k r.shifted delivered out (i + 1) e := by
  obtain ⟨hraw, hclear⟩ := h.raw_of_skipping hidle hskip
  obtain ⟨hline, hrest⟩ := of_drop_eq_cons (hraw.symm.trans hlines)
  refine
    { preserve := h.preserve
      pending := h.pending
      recorded := by simpa using h.recorded
      stands := h.stands
      lineno := ?_
      front := .raw hidle.shifted ?_ hclear
      le := Nat.le_succ_of_le h.le
      reading := fun hread => by simp [hskip] at hread
      skips := by simpa using h.skips
      delivered := h.delivered }
  · rw [Reader.shifted_of_lines hlines]
    have := h.lineno
    simp only [Reader.cursor] at this ⊢
    omega
  · rw [Reader.shifted_of_lines hlines]
    exact hrest

/-- Taking a line that waits: outside of skipped regions it is delivered. -/
theorem take (h : Accounted source k r delivered out i e) (hlook : 0 < r.lookAhead)
    (hlines : r.scope.lines = line :: rest) :
    Accounted source k r.shifted (delivered ++ if r.skipping then [] else [line]) out (i + 1)
      (if r.skipping then e else i + 1) := by
  have hidle : r.shifted.Idle :=
    Reader.Steady.idle_shifted (Or.inr (by
      cases h.front with
      | raw hidle => have := hidle.lookAhead; omega
      | text _ _ hidle => have := hidle.lookAhead; omega
      | held _ _ hone => exact ⟨hone, by simp [hlines]⟩
      | hidden _ hone => exact ⟨hone, by simp [hlines]⟩)) hlook
  have hlineno : r.shifted.cursor.lineno = (i + 1 : Nat) + 1 + k.tree.offsetOf k.active := by
    rw [Reader.shifted_of_lines hlines]
    have := h.lineno
    simp only [Reader.cursor] at this ⊢
    omega
  have hshifted : r.shifted.scope.lines = rest := by rw [Reader.shifted_of_lines hlines]
  -- only a line that waits is taken; it is delivered exactly if it does not lie in a skipped region
  cases h.front with
  | raw hidle' => have := hidle'.lookAhead; omega
  | text _ _ hidle' => have := hidle'.lookAhead; omega
  | held original text _ hskip hline htext hclear hyield =>
    obtain ⟨rfl, hskips, hnone⟩ := h.reading hskip
    rw [hlines, List.cons.injEq] at htext
    obtain ⟨rfl, hrest⟩ := htext
    refine
      { preserve := h.preserve
        pending := h.pending
        recorded := by simpa using h.recorded
        stands := h.stands
        lineno := hlineno
        front := .raw hidle (hshifted.trans hrest) (by simpa [hskip] using hclear)
        le := by simp [hskip]
        reading := fun _ => ⟨by simp [hskip], hskips, by simpa using hnone⟩
        skips := fun hread => by simp [hskip] at hread
        delivered := ?_ }
    simp only [hskip, Bool.false_eq_true, if_false]
    unfold Tree.yieldedTo
    rw [k.tree.yieldsBelow_succ source out hline, hyield, ← List.append_assoc]
    exact congrArg (· ++ [line]) h.delivered
  | hidden original _ hskip hline htext hclear =>
    rw [hlines, List.cons.injEq] at htext
    obtain ⟨rfl, hrest⟩ := htext
    refine
      { preserve := h.preserve
        pending := h.pending
        recorded := by simpa using h.recorded
        stands := h.stands
        lineno := hlineno
        front := .raw hidle (hshifted.trans hrest) (by simpa [hskip] using hclear)
        le := by simpa [hskip] using Nat.le_succ_of_le h.le
        reading := fun hread => by simp [hskip] at hread
        skips := fun _ => by simpa [hskip] using h.skips hskip
        delivered := by simpa [hskip] using h.delivered }

/-! ### Conditionals -/

/-- The lines from the start of the account to the line in front are deleted, and reading goes on
outside of skipped regions. -/
theorem deleteTo (h : Accounted source k r delivered out i e) (hidle : r.Idle)
    (hlines : r.scope.lines = line :: rest)
    (hraw : r.scope.lines = (k.tree.linesOf source k.active).drop i)
    (hclear : Clear k.tree k.active e) {cs : List OpenConditional} (hcs : NoneSkips cs) :
    Accounted source
      { k with tree := k.tree.addDrops k.active (deleteRange e (i + 1)), openSkips := [] }
      { r with conditionals := cs, skipping := false }.shifted delivered out (i + 1) (i + 1) := by
  have hle : e ≤ i + 1 := Nat.le_succ_of_le h.le
  obtain ⟨hrecorded, hclear', hyielded⟩ := h.recorded.deleteRange hclear hle
  have hext : Extends k.tree (k.tree.addDrops k.active (deleteRange e (i + 1 : Nat))) source
      k.active e := extends_addDrops source h.recorded.lt_size fun d hd => by
    obtain ⟨j, hj, -, rfl⟩ := mem_deleteRange.mp hd
    exact hj
  have hidle' : ({ r with conditionals := cs, skipping := false } : Reader).shifted.Idle :=
    Reader.Idle.shifted ⟨hidle.lookAhead, hidle.plain⟩
  rw [Reader.shifted_of_lines (r := { r with conditionals := cs, skipping := false }) hlines]
    at hidle' ⊢
  refine
    { preserve := h.preserve
      pending := h.pending
      recorded := hrecorded
      stands := h.stands_extends hext
      lineno := ?_
      front := .raw hidle' ?_ hclear'
      le := Nat.le_refl _
      reading := fun _ => ⟨rfl, rfl, hcs⟩
      skips := fun hread => by cases hread
      delivered := h.delivered.trans hyielded.symm }
  · -- the line number counts the line that was used up
    have := h.lineno
    simp only [Reader.cursor, Tree.offsetOf_addDrops] at this ⊢
    omega
  · simp only [Tree.linesOf_addDrops]
    exact (of_drop_eq_cons (hraw.symm.trans hlines)).2

/-- A line of a skipped region was used up, and the region goes on. -/
theorem hide (h : Accounted source k r delivered out i e) (hidle : r.Idle)
    (hlines : r.scope.lines = line :: rest)
    (hraw : r.scope.lines = (k.tree.linesOf source k.active).drop i)
    (hclear : Clear k.tree k.active e) {cs : List OpenConditional} {depth : Nat}
    {skips : List OpenSkip} (hcs : SkipsFrom cs depth) (hskips : skips = [⟨k.active, e, depth⟩]) :
    Accounted source { k with openSkips := skips }
      { r with conditionals := cs, skipping := true }.shifted delivered out (i + 1) e := by
  have hidle' : ({ r with conditionals := cs, skipping := true } : Reader).shifted.Idle :=
    Reader.Idle.shifted ⟨hidle.lookAhead, hidle.plain⟩
  rw [Reader.shifted_of_lines (r := { r with conditionals := cs, skipping := true }) hlines]
    at hidle' ⊢
  refine
    { preserve := h.preserve
      pending := h.pending
      recorded := h.recorded
      stands := h.stands
      lineno := ?_
      front := .raw hidle' (of_drop_eq_cons (hraw.symm.trans hlines)).2 hclear
      le := Nat.le_succ_of_le h.le
      reading := fun hread => by cases hread
      skips := fun _ => ⟨depth, hcs, hskips⟩
      delivered := h.delivered }
  have := h.lineno
  simp only [Reader.cursor] at this ⊢
  omega

/-- The text of a single-line conditional takes the place of its line. -/
theorem keep (h : Accounted source k r delivered out i e) (hidle : r.Idle)
    (hlines : r.scope.lines = line :: rest)
    (hraw : r.scope.lines = (k.tree.linesOf source k.active).drop i)
    (hclear : Clear k.tree k.active e) (hskip : r.skipping = false) {text : String}
    (htrim : Text.stripEnd text = text)
    (hne : text.startsWith "include::" = true → line ≠ text) :
    Accounted source (k.addDrops k.active [.overwrite i text]) (r.keeping text) delivered out i
      e := by
  obtain ⟨rfl, hskips, hnone⟩ := h.reading hskip
  obtain ⟨hline, hrest⟩ := of_drop_eq_cons (hraw.symm.trans hlines)
  have hlater : ∀ d ∈ [Drop.overwrite (e : Int) text], (e : Int) ≤ d.index := by simp
  have hext := extends_addDrops source h.recorded.lt_size hlater
  have hrecorded := h.recorded.addDrops hclear.includes hlater
  obtain ⟨hfree, hbelow, honly⟩ := hclear.overwrite h.recorded.lt_size text
  have htail : ({ r with scope := { r.scope with lines := text :: rest } } : Reader).scope.lines =
      text :: (k.tree.linesOf source k.active).drop (e + 1) := by
    rw [hrest]
  have hset : r.setHead text = { r with scope := { r.scope with lines := text :: rest } } := by
    simp [Reader.setHead, hlines]
  refine
    { preserve := h.preserve
      pending := h.pending
      recorded := ?_
      stands := h.stands_extends hext
      lineno := ?_
      front := ?_
      le := Nat.le_refl _
      reading := fun _ => ⟨rfl, hskips, ?_⟩
      skips := fun hread => ?_
      delivered := h.delivered.trans (h.recorded.yieldedTo_extends hext hrecorded.tidy.apart
        (fun _ _ => rfl) (Nat.le_refl e)).symm }
  · rw [Reader.outer_keeping]
    exact hrecorded
  · have hlineno : (r.keeping text).cursor.lineno = r.cursor.lineno := by
      simp only [Reader.cursor, Reader.scope_keeping]
    rw [hlineno, h.lineno]
    simp [Tracker.addDrops]
  · unfold Reader.keeping
    rw [htrim, hset]
    simp only [Tracker.addDrops]
    by_cases hinclude : text.startsWith "include::" = true
    · -- the text is looked at again: an include may still be put in its place
      rw [if_pos hinclude]
      exact .text line text ⟨hidle.lookAhead, hidle.plain⟩ hskip (by simpa using hline)
        (by simpa using htail) hinclude (hne hinclude) hfree hbelow honly
    · -- the text is content and waits to be taken
      rw [if_neg hinclude]
      have hchild : (k.tree.addDrops k.active [.overwrite e text]).childAt? k.active e = none :=
        childAt?_eq_none_of_lt (Nat.le_refl e) hfree
      refine .held line text ?_ hskip (by simpa using hline)
        (by simpa [Reader.hold] using htail)
        ⟨fun c s hs hp => by have := hfree c s hs hp; omega, hbelow⟩ ?_
      · simp [Reader.hold, hidle.lookAhead]
      · unfold Tree.yieldAt
        rw [hchild]
        exact keptLine_of_filter honly line
  · rw [Reader.conditionals_keeping]
    exact hnone
  · rw [Reader.skipping_keeping, hskip] at hread
    cases hread

/-- No text that replaced a conditional is one itself, so a conditional in front is the line of the
node. -/
theorem raw_of_conditional (h : Accounted source k r delivered out i e) (hidle : r.Idle)
    (hlines : r.scope.lines = line :: rest) (hnotText : ¬ line.startsWith "include::" = true) :
    r.scope.lines = (k.tree.linesOf source k.active).drop i ∧ Clear k.tree k.active e := by
  cases h.front with
  | raw _ hraw hclear => exact ⟨hraw, hclear⟩
  | text _ text _ _ _ htext hinclude =>
    rw [hlines, List.cons.injEq] at htext
    rw [htext.1] at hnotText
    exact absurd hinclude hnotText
  | held _ _ hlook => rw [hidle.lookAhead] at hlook; cases hlook
  | hidden _ hlook => rw [hidle.lookAhead] at hlook; cases hlook

/-- Outside of skipped regions a conditional is deleted, or replaced by its text, or starts a region:
then the account stays at its line. -/
theorem conditional_reading (h : Accounted source k r delivered out i e) (hidle : r.Idle)
    (hlines : r.scope.lines = line :: rest) (hnotText : ¬ line.startsWith "include::" = true)
    {c : Conditional} {consumed : Bool} {r' : Reader} (hruled : Ruled r c consumed r')
    (htrim : consumed = false → ∀ text, c.text = some text → Text.stripEnd text = text)
    (hskip : r.skipping = false) :
    ∃ i' e', Accounted source (k.observe (c.event r r' consumed)).1
      (if consumed then r'.shifted else r') delivered out i' e' := by
  obtain ⟨hraw, hclear⟩ := h.raw_of_conditional hidle hlines hnotText
  obtain ⟨rfl, hskips, hnone⟩ := h.reading hskip
  -- a line that neither starts nor ends skipping
  have hdeleted : ∀ cs, NoneSkips cs → ∀ after : Reader,
      after = { r with conditionals := cs, skipping := false } →
      ∃ i' e', Accounted source (k.observe (c.event r after true)).1 after.shifted delivered
        out i' e' := by
    rintro cs hcs after rfl
    refine ⟨e + 1, e + 1, ?_⟩
    rw [Tracker.observe_delete h.preserve h.lineno hskip rfl, ← deleteRange_succ]
    have := h.deleteTo hidle hlines hraw hclear hcs
    rwa [← hskips] at this
  cases hruled with
  | idle =>
    refine hdeleted r.conditionals hnone r ?_
    rw [← hskip]
  | opened target skip skipping =>
    cases skipping with
    | false => exact hdeleted _ (hnone.cons rfl) _ rfl
    | true =>
      refine ⟨e + 1, e, ?_⟩
      rw [Tracker.observe_open h.preserve h.lineno hskip rfl (by simp [Reader.conditionalDepth]),
        hskips]
      exact h.hide hidle hlines hraw hclear (hnone.skipsFrom rfl) rfl
  | closed top others htop =>
    rw [htop] at hnone
    refine hdeleted others hnone.tail.1 _ ?_
    have := hnone.tail.2
    unfold skippingAfter at this
    rw [this]
  | kept text _ htext hne =>
    refine ⟨e, e, ?_⟩
    have hafter : (r.keeping text).skipping = false := (r.skipping_keeping text).trans hskip
    have hdepth : (r.keeping text).conditionalDepth = r.conditionalDepth := by
      simp [Reader.conditionalDepth]
    rw [Tracker.observe_keep h.preserve h.lineno hskip hafter hdepth htext]
    refine h.keep hidle hlines hraw hclear hskip (htrim rfl text htext) fun hinclude heq => ?_
    rw [heq] at hnotText
    exact absurd hinclude hnotText

/-- Inside a skipped region a conditional is passed over, unless it closes the region: then all lines
from the start of the account to this one are deleted. -/
theorem conditional_skipping (h : Accounted source k r delivered out i e) (hidle : r.Idle)
    (hlines : r.scope.lines = line :: rest) (hnotText : ¬ line.startsWith "include::" = true)
    {c : Conditional} {consumed : Bool} {r' : Reader} (hruled : Ruled r c consumed r')
    (hskip : r.skipping = true) :
    ∃ i' e', Accounted source (k.observe (c.event r r' consumed)).1
      (if consumed then r'.shifted else r') delivered out i' e' := by
  obtain ⟨hraw, hclear⟩ := h.raw_of_conditional hidle hlines hnotText
  obtain ⟨depth, hcs, hskips⟩ := h.skips hskip
  cases hruled with
  | idle =>
    refine ⟨i + 1, e, ?_⟩
    rw [Tracker.observe_hidden hskip hskip]
    have := h.hide hidle hlines hraw hclear hcs hskips
    rwa [← hskip] at this
  | opened target skip skipping hstill =>
    obtain rfl := hstill hskip
    refine ⟨i + 1, e, ?_⟩
    rw [Tracker.observe_hidden hskip rfl]
    exact h.hide hidle hlines hraw hclear (hcs.cons rfl) hskips
  | closed top others htop =>
    rw [htop] at hcs
    -- either a conditional inside of the region is closed, or the one that has opened it
    rcases hcs.tail with ⟨hafter, hcs'⟩ | ⟨hafter, hnone, hdepth⟩
    · refine ⟨i + 1, e, ?_⟩
      unfold skippingAfter at hafter
      rw [Tracker.observe_hidden hskip hafter, hafter]
      exact h.hide hidle hlines hraw hclear hcs' hskips
    · refine ⟨i + 1, i + 1, ?_⟩
      unfold skippingAfter at hafter
      have hcount : r.conditionalDepth = others.length + 1 := by
        simp [Reader.conditionalDepth, htop]
      rw [Tracker.observe_close h.preserve h.lineno hskip hafter
        (by simp [Reader.conditionalDepth, htop]) (by rw [hskips, hdepth, hcount]), hafter]
      exact h.deleteTo hidle hlines hraw hclear hnone
  | kept _ hskip' =>
    rw [hskip] at hskip'
    cases hskip'

/-- Acting on a conditional keeps the account. -/
theorem conditional (h : Accounted source k r delivered out i e) (hidle : r.Idle)
    (hlines : r.scope.lines = line :: rest) {c : Conditional}
    (hkind : LineKind.ofLine line = .conditional c) {consumed : Bool} {r' : Reader}
    (hruled : Ruled r c consumed r')
    (htrim : consumed = false → ∀ text, c.text = some text → Text.stripEnd text = text) :
    ∃ i' e', Accounted source (k.observe (c.event r r' consumed)).1
      (if consumed then r'.shifted else r') delivered out i' e' := by
  have hnotText : ¬ line.startsWith "include::" = true :=
    Bool.eq_false_iff.mp (LineKind.not_include_of_conditional hkind)
  cases hskip : r.skipping with
  | false => exact h.conditional_reading hidle hlines hnotText hruled htrim hskip
  | true => exact h.conditional_skipping hidle hlines hnotText hruled hskip

/-! ### Includes -/

/-- An include that leaves at most one line behind. -/
theorem attach (h : Accounted source k r delivered out i e) (hidle : r.Idle)
    (hlines : r.scope.lines = line :: rest) (hskip : r.skipping = false) (left : List String) :
    let t' := k.tree.attach k.active i line left 0
    let out' := Function.update out k.tree.size left
    Recorded t' source out' k.active k.scopes r.outer ∧
      (∀ scope ∈ k.scopes, Stands t' source scope.node) ∧ Clear t' k.active (i + 1) ∧
      t'.linesOf source k.active = k.tree.linesOf source k.active ∧
      t'.offsetOf k.active = k.tree.offsetOf k.active ∧
      delivered = t'.yieldedTo source out' k.scopes k.active i ∧
      ∃ original, (k.tree.linesOf source k.active)[i]? = some original ∧
        rest = (k.tree.linesOf source k.active).drop (i + 1) ∧
        t'.yieldAt out' k.active i original = left := by
  intro t' out'
  obtain ⟨original, hline, hrest, hfree, hdrops, hfit, hstands⟩ :=
    h.stands_of_reading hidle hskip hlines
  obtain ⟨rfl, -, -⟩ := h.reading hskip
  have ha := h.recorded.lt_size
  -- the new node lies at the line in front, so what the tree yields before it stays
  have hext : Extends k.tree t' source k.active e := extends_attach source ha line left 0
  have hrecorded : Recorded t' source out' k.active k.scopes r.outer :=
    h.recorded.attach left 0 hfree fun original' horiginal => by
      rw [hline] at horiginal
      cases horiginal
      exact hfit
  have hout : ∀ c < k.tree.size, out' c = out c := fun c hc =>
    Function.update_of_ne (Nat.ne_of_lt hc) _ _
  have hsite : t'.siteOf? k.tree.size = some ⟨k.active, e, line⟩ := Tree.siteOf?_attach_self ..
  have hdrops' : t'.dropsOf k.active = k.tree.dropsOf k.active :=
    Tree.dropsOf_attach_of_lt _ _ _ _ _ _ ha
  have hclear := clear_attach ha hfree hdrops line left 0
  refine ⟨hrecorded, h.stands_extends hext, hclear, hext.lines _ ha, hext.offset _ ha, ?_,
    original, hline, hrest, ?_⟩
  · rw [h.recorded.yieldedTo_extends hext hrecorded.tidy.apart hout (Nat.le_refl e)]
    exact h.delivered
  · rw [yieldAt_of_siteOf? hrecorded.tidy.apart hsite out' (by rw [hdrops']; exact hstands)]
    exact Function.update_self _ _ _

/-- One line takes the place of an include directive, and waits. -/
theorem put (h : Accounted source k r delivered out i e) (hidle : r.Idle)
    (hlines : r.scope.lines = line :: rest) (hskip : r.skipping = false) (text : String)
    {r' : Reader} (hlook : r'.lookAhead = 1) (hafter : r'.scope.lines = text :: rest)
    (hlineno : r'.cursor.lineno = r.cursor.lineno) (hskip' : r'.skipping = r.skipping)
    (hconditionals : r'.conditionals = r.conditionals) (houter : r'.outer = r.outer)
    (depth : Int) :
    Accounted source (k.including i line (.replaced text depth)) r' delivered
      (Function.update out k.tree.size [text]) i i := by
  obtain ⟨-, hskips, hnone⟩ := h.reading hskip
  obtain ⟨hrecorded, hstands, hclear, hsame, hoffset, hdelivered, original, hline, hrest,
    hyield⟩ := h.attach hidle hlines hskip [text]
  -- the include has a node now, whose only line is the replacement
  refine
    { preserve := h.preserve
      pending := h.pending
      recorded := houter ▸ hrecorded
      stands := hstands
      lineno := ?_
      front := .held original text hlook (hskip'.trans hskip) ?_ ?_ hclear hyield
      le := Nat.le_refl _
      reading := fun _ => ⟨rfl, hskips, hconditionals ▸ hnone⟩
      skips := fun hread => ?_
      delivered := hdelivered }
  · simp only [Tracker.including, hoffset]
    rw [hlineno, h.lineno]
  · simp only [Tracker.including, hsame]
    exact hline
  · simp only [Tracker.including, hsame]
    rw [hafter, hrest]
  · rw [hskip', hskip] at hread
    cases hread

/-- An include directive vanishes. -/
theorem vanish (h : Accounted source k r delivered out i e) (hidle : r.Idle)
    (hlines : r.scope.lines = line :: rest) (hskip : r.skipping = false) (frame : Nat)
    (depth : Int) :
    Accounted source (k.including i line (.vanished depth)) { r.shifted with frame } delivered
      (Function.update out k.tree.size []) (i + 1) (i + 1) := by
  rw [Reader.shifted_of_lines hlines]
  obtain ⟨-, hskips, hnone⟩ := h.reading hskip
  obtain ⟨hrecorded, hstands, hclear, hsame, hoffset, hdelivered, original, hline, hrest,
    hyield⟩ := h.attach hidle hlines hskip []
  -- the include has a node without lines, so the line of the directive delivers nothing
  refine
    { preserve := h.preserve
      pending := h.pending
      recorded := hrecorded
      stands := hstands
      lineno := ?_
      front := .raw ⟨by simp [hidle.lookAhead], rfl⟩ ?_ hclear
      le := Nat.le_refl _
      reading := fun _ => ⟨rfl, hskips, hnone⟩
      skips := fun hread => ?_
      delivered := ?_ }
  · have := h.lineno
    simp only [Tracker.including, hoffset, Reader.cursor] at this ⊢
    omega
  · simp only [Tracker.including, hsame]
    exact hrest
  · rw [hskip] at hread
    cases hread
  · simp only [Tracker.including]
    unfold Tree.yieldedTo at hdelivered ⊢
    rw [Tree.yieldsBelow_succ _ source _ (by rw [hsame]; exact hline), hyield, List.append_nil]
    exact hdelivered

/-- An include is entered: reading goes on at its first line. -/
theorem enter (h : Accounted source k r delivered out i e) (hidle : r.Idle)
    (hlines : r.scope.lines = line :: rest) (hskip : r.skipping = false)
    (content : List String) (cursor : Cursor) (frame : Nat) :
    Accounted source
      (k.including i line
        (.entered content (cursor.lineno + frame) frame (r.includeDepth + 1)))
      (r.shifted.entered content cursor frame) delivered out 0 0 := by
  rw [Reader.shifted_of_lines hlines]
  obtain ⟨hei, hskips, hnone⟩ := h.reading hskip
  obtain ⟨original, hline, hrest, hfree, hdrops, hfit, hstands⟩ :=
    h.stands_of_reading hidle hskip hlines
  have ha := h.recorded.lt_size
  have hlt : i < (k.tree.linesOf source k.active).length :=
    (List.getElem?_eq_some_iff.mp hline).1
  have hfit' : ∀ original', (k.tree.linesOf source k.active)[i]? = some original' →
      Tree.DropsFit (k.tree.dropsOf k.active) i original' line := by
    intro original' horiginal
    rw [hline] at horiginal
    cases horiginal
    exact hfit
  -- the frame of a level offset counts no lines of the file, so the node starts above it
  have hoffset : (cursor.lineno + frame : Int) - 1 - frame = cursor.lineno - 1 := by omega
  let around : Scope :=
    { lines := rest, cursor := { r.cursor with lineno := r.cursor.lineno + 1 } }
  have haround : around.cursor.lineno = i + 2 + k.tree.offsetOf k.active := by
    have := h.lineno
    simp only [around]
    omega
  obtain ⟨hrecorded, hyielded⟩ := h.recorded.enter content (cursor.lineno - 1) hfree hfit' hdrops
    hlt (show around.lines = _ from hrest) haround
  have hext := extends_attach source ha line content (cursor.lineno - 1) (i := i)
  have hdrops' := k.tree.dropsOf_attach_of_lt k.active i line content (cursor.lineno - 1) ha
  refine
    { preserve := h.preserve
      pending := h.pending
      recorded := ?_
      stands := ?_
      lineno := ?_
      front := .raw ⟨rfl, rfl⟩ ?_ ?_
      le := Nat.le_refl _
      reading := fun _ => ⟨rfl, hskips, hnone⟩
      skips := fun hread => ?_
      delivered := ?_ }
  · simp only [Tracker.including, hoffset, Reader.entered]
    exact hrecorded
  · intro scope hscope
    simp only [Tracker.including, hoffset, List.mem_cons] at hscope ⊢
    rcases hscope with rfl | hscope
    · exact ⟨k.active, i, line, original, Tree.siteOf?_attach_self .., by
        rw [hext.lines _ ha]; exact hline, by rw [hdrops']; exact hstands⟩
    · exact h.stands_extends hext scope hscope
  · simp only [Tracker.including, hoffset, Reader.entered, Reader.cursor,
      Tree.offsetOf_attach_self]
    omega
  · simp only [Tracker.including, hoffset, Reader.entered]
    rw [Tree.linesOf_attach_self _ _ _ _ _ _ _ h.recorded.sound.size_pos]
    rfl
  · simp only [Tracker.including, hoffset]
    exact clear_attach_self hrecorded.sound
  · simp only [Reader.entered] at hread
    rw [hskip] at hread
    cases hread
  · simp only [Tracker.including, hoffset]
    rw [show (r.includeDepth : Int) = (r.outer.length : Int) from rfl, hyielded, ← hei]
    exact h.delivered

/-- Following an include directive keeps the account. -/
theorem follow (h : Accounted source k r delivered out i e) (hidle : r.Idle)
    (hskip : r.skipping = false) {directive : Include}
    (hlines : r.scope.lines = directive.line :: rest) {es : List Event} {r' : Reader}
    (hfollowed : Followed r directive es r') :
    ∃ out' i' e', Accounted source (k.observeAll es) r' delivered out' i' e' := by
  -- the tracker sees the directive and its outcome as one step
  have hobserve : ∀ (ends : List Event) (o : Outcome), AreEnds r.includeDepth ends →
      k.observeAll (r.found directive :: ends ++ [.includeResolved o]) =
        k.including i directive.line o := fun ends o hends =>
    Tracker.observeAll_resolved h.pending h.recorded.path h.lineno directive hends o
  have hnoEnds : AreEnds r.includeDepth [] := fun e he => by cases he
  cases hfollowed with
  | kept =>
    have hkept := hobserve [] (.replaced directive.line r.includeDepth) hnoEnds
    rw [List.cons_append, List.nil_append] at hkept
    rw [hkept]
    have hlook : r.hold.lookAhead = 1 := by simp [Reader.hold, hidle.lookAhead]
    exact ⟨_, _, _, h.put hidle hlines hskip directive.line hlook hlines rfl rfl rfl rfl _⟩
  | replaced text =>
    have hreplaced := hobserve [] (.replaced text r.includeDepth) hnoEnds
    rw [List.cons_append, List.nil_append] at hreplaced
    rw [hreplaced, Reader.shifted_of_lines hlines]
    refine ⟨_, _, _, h.put hidle hlines hskip text ?_ ?_ ?_ ?_ ?_ ?_ _⟩
    · simp [Reader.unshift, hidle.lookAhead]
    · simp [Reader.unshift, Reader.advance]
    · simp only [Reader.unshift, Reader.advance, Reader.cursor]
      omega
    all_goals rfl
  | gone ends frame hends =>
    rw [hobserve ends _ hends]
    exact ⟨_, _, _, h.vanish hidle hlines hskip frame _⟩
  | entered lines cursor frame ends _ hends =>
    rw [hobserve ends _ hends]
    exact ⟨_, _, _, h.enter hidle hlines hskip lines cursor frame⟩

/-! ### Ends -/

/-- At the end of a scope everything in it was accounted for. -/
theorem yieldedTo_of_end (h : Accounted source k r delivered out i e) (hidle : r.Idle)
    (hlines : r.scope.lines = []) (hskip : r.skipping = false) :
    Clear k.tree k.active i ∧ (k.tree.linesOf source k.active).length ≤ i ∧
      delivered = k.tree.yieldedTo source out k.scopes k.active
        (k.tree.linesOf source k.active).length := by
  obtain ⟨rfl, -, -⟩ := h.reading hskip
  cases h.front with
  | raw _ hraw hclear =>
    -- nothing is left, so the account has reached the last line
    have hle : (k.tree.linesOf source k.active).length ≤ e := by
      rw [hlines] at hraw
      exact List.drop_eq_nil_iff.mp hraw.symm
    refine ⟨hclear, hle, ?_⟩
    have hdelivered := h.delivered
    unfold Tree.yieldedTo at hdelivered ⊢
    rwa [k.tree.yieldsBelow_of_le source out hle,
      ← k.tree.yieldsBelow_of_le source out (Nat.le_refl _)] at hdelivered
  -- in the other cases a line waits, but the reader is idle
  | text _ _ _ _ _ htext => rw [hlines] at htext; cases htext
  | held _ _ hlook => rw [hidle.lookAhead] at hlook; cases hlook
  | hidden _ hlook => rw [hidle.lookAhead] at hlook; cases hlook

/-- At the end of a scope inside a skipped region, deleting the rest of the scope leaves the
account as it is. -/
theorem deleteRest (h : Accounted source k r delivered out i e) (hidle : r.Idle)
    (hskip : r.skipping = true) :
    let last := (k.tree.linesOf source k.active).length
    let t' := k.tree.addDrops k.active (deleteRange e last)
    Recorded t' source out k.active k.scopes r.outer ∧
      (∀ scope ∈ k.scopes, Stands t' source scope.node) ∧
      delivered = t'.yieldedTo source out k.scopes k.active last := by
  intro last t'
  obtain ⟨hraw, hclear⟩ := h.raw_of_skipping hidle hskip
  by_cases hle : e ≤ last
  · obtain ⟨hrecorded, -, hyielded⟩ := h.recorded.deleteRange hclear hle
    -- all lines from the start of the region on are deleted
    have hext : Extends k.tree t' source k.active e :=
      extends_addDrops source h.recorded.lt_size fun d hd => by
        obtain ⟨j, hj, -, rfl⟩ := mem_deleteRange.mp hd
        exact hj
    exact ⟨hrecorded, h.stands_extends hext,
      h.delivered.trans hyielded.symm⟩
  · -- the region starts behind the last line, so there is nothing to delete
    have hnone : deleteRange e last = [] := by
      have hzero : ((last : Int) - e).toNat = 0 := by omega
      simp [deleteRange, hzero]
    have hrecorded := h.recorded.addDrops hclear.includes
      (show ∀ d ∈ ([] : List Drop), (e : Int) ≤ d.index by simp)
    have hext : Extends k.tree (k.tree.addDrops k.active []) source k.active e :=
      extends_addDrops source h.recorded.lt_size (by simp)
    have hyielded := h.recorded.yieldedTo_extends hext hrecorded.tidy.apart (fun _ _ => rfl)
      (Nat.le_refl e)
    simp only [t', hnone]
    refine ⟨hrecorded, h.stands_extends hext, ?_⟩
    rw [h.delivered, ← hyielded]
    unfold Tree.yieldedTo
    have hlen : (k.tree.addDrops k.active []).linesOf source k.active =
        k.tree.linesOf source k.active := by simp
    rw [Tree.yieldsBelow_of_le _ source out (by rw [hlen]; exact Nat.le_of_not_le hle),
      Tree.yieldsBelow_of_le _ source out (Nat.le_of_eq (by rw [hlen]))]

end Accounted

/-- The account of a scope that ended, taken over by the scope around it. -/
theorem Recorded.leave_account {t : Tree} {source : List String} {out : Nat → List String}
    {c p i : Nat} {directive line : String} {depth : Int} {scopes : List TrackedScope}
    {scope : Scope} {outer : List Scope}
    (h : Recorded t source out c (⟨c, depth⟩ :: scopes) (scope :: outer))
    (hsite : t.siteOf? c = some ⟨p, i, directive⟩)
    (hline : (t.linesOf source p)[i]? = some line)
    (hstands : standsAt (t.dropsOf p) i line directive = true) :
    t.yieldedTo source (Function.update out c (t.yields source out c)) scopes p (i + 1) =
      t.yieldedTo source out (⟨c, depth⟩ :: scopes) c (t.linesOf source c).length := by
  obtain ⟨hrecorded, hbefore, hbelow, -⟩ := h.leave hsite
  unfold Tree.yieldedTo
  simp only [Tree.before, hsite, Int.toNat_natCast]
  rw [hbefore, t.yieldsBelow_succ source _ hline, hbelow,
    yieldAt_of_siteOf? h.tidy.apart hsite _ hstands, Function.update_self,
    t.yieldsBelow_of_le source out (Nat.le_refl _), List.append_assoc]

namespace Accounted

variable {source : List String} {k : Tracker} {r : Reader} {delivered : List String}
  {out : Nat → List String} {i e : Nat}

/-- The account goes on behind the directive of the node that was left, whatever was deleted in that
node before. -/
theorem behind (h : Accounted source k r delivered out i e) (hidle : r.Idle) {t : Tree}
    {c p j : Nat} {directive : String} {depth : Int} {scopes : List TrackedScope} {scope : Scope}
    {outer : List Scope} {skips : List OpenSkip}
    (hrecorded : Recorded t source out c (⟨c, depth⟩ :: scopes) (scope :: outer))
    (hsite : t.siteOf? c = some ⟨p, j, directive⟩)
    (hstands : ∀ scope ∈ (⟨c, depth⟩ :: scopes : List TrackedScope), Stands t source scope.node)
    (hdelivered : delivered =
      t.yieldedTo source out (⟨c, depth⟩ :: scopes) c (t.linesOf source c).length)
    (hreading : r.skipping = false → skips = [] ∧ NoneSkips r.conditionals)
    (hskips : r.skipping = true →
      ∃ depth, SkipsFrom r.conditionals depth ∧ skips = [⟨p, (j + 1 : Nat), depth⟩]) :
    Accounted source { k with tree := t, scopes, active := p, openSkips := skips }
      { r with scope, outer, lookAhead := 0 } delivered
      (Function.update out c (t.yields source out c)) (j + 1) (j + 1) := by
  obtain ⟨line, hline, hstand⟩ := (hstands _ List.mem_cons_self).line hsite
  obtain ⟨hleft, -, -, -, hlines, hlineno, hclear⟩ := hrecorded.leave hsite
  exact
    { preserve := h.preserve
      pending := h.pending
      recorded := hleft
      stands := fun sc hsc => hstands sc (List.mem_cons_of_mem _ hsc)
      lineno := by simp only [Reader.cursor]; omega
      front := .raw ⟨rfl, hidle.plain⟩ hlines hclear
      le := Nat.le_refl _
      reading := fun hread => ⟨rfl, hreading hread⟩
      skips := hskips
      delivered := hdelivered.trans (hrecorded.leave_account hsite hline hstand).symm }

/-- The reader in the scope around the innermost one. -/
theorem leave (h : Accounted source k r delivered out i e) (hidle : r.Idle)
    (hlines : r.scope.lines = []) {scope : Scope} {outer : List Scope}
    (houter : r.outer = scope :: outer) :
    ∃ out' i' e', Accounted source (k.onScopeEnd outer.length)
      { r with scope, outer, lookAhead := 0 } delivered out' i' e' := by
  have hpath := h.recorded.path
  rw [houter] at hpath
  obtain ⟨p, j, directive, scopes, hscopes, hsite, -⟩ := hpath.innermost
  obtain ⟨c, hc⟩ : ∃ c, k.active = c := ⟨_, rfl⟩
  rw [hc] at hscopes hsite
  cases hskip : r.skipping with
  | false =>
    obtain ⟨-, hskips, hnone⟩ := h.reading hskip
    obtain ⟨-, -, hdelivered⟩ := h.yieldedTo_of_end hidle hlines hskip
    have hrecorded := h.recorded
    rw [houter, hscopes, hc] at hrecorded
    rw [hscopes, hc] at hdelivered
    rw [Tracker.onScopeEnd_plain h.recorded.sound hsite hscopes (by omega) hskips, ← hskip]
    refine ⟨_, j + 1, j + 1, h.behind hidle hrecorded hsite (hscopes ▸ h.stands) hdelivered
      (fun _ => ⟨hskips, hnone⟩) fun hread => ?_⟩
    rw [hskip] at hread
    cases hread
  | true =>
    -- the open region is cut in two: its rest in this scope is deleted, and it starts anew around it
    obtain ⟨depth, hcs, hskips⟩ := h.skips hskip
    obtain ⟨hrecorded, hstands, hdelivered⟩ := h.deleteRest hidle hskip
    rw [hc] at hskips
    rw [houter, hscopes, hc] at hrecorded
    rw [hscopes, hc] at hdelivered hstands
    have hsite' : (k.tree.addDrops c
        (deleteRange e (k.tree.linesOf source c).length)).siteOf? c =
          some ⟨p, j, directive⟩ := by
      rw [Tree.siteOf?_addDrops]
      exact hsite
    rw [Tracker.onScopeEnd_skip h.preserve h.recorded.sound hsite hscopes (by omega) hskips
      source, ← hskip]
    refine ⟨_, j + 1, j + 1, h.behind hidle hrecorded hsite' hstands
      (by rw [Tree.linesOf_addDrops]; exact hdelivered) (fun hread => ?_)
      fun _ => ⟨depth, hcs, rfl⟩⟩
    rw [hskip] at hread
    cases hread

/-- At the end of the document the finished tree yields what was delivered. -/
theorem finish (h : Accounted source k r delivered out i e) (hidle : r.Idle)
    (hlines : r.scope.lines = []) (houter : r.outer = []) :
    let t := (k.finish source.length).tree
    Recorded t source out 0 [] [] ∧ t.yields source out 0 = delivered := by
  have hpath := h.recorded.path
  rw [houter] at hpath
  obtain ⟨hactive, hscopes⟩ := hpath.eq_document
  have hrecorded := h.recorded
  have hroot : k.tree.linesOf source 0 = source := rfl
  cases hskip : r.skipping with
  | false =>
    obtain ⟨-, hskips, -⟩ := h.reading hskip
    obtain ⟨-, -, hdelivered⟩ := h.yieldedTo_of_end hidle hlines hskip
    rw [hscopes, hactive, hroot] at hdelivered
    rw [hscopes, hactive, houter] at hrecorded
    have hsame : (k.finish source.length).tree = k.tree := by
      simp [Tracker.finish, h.preserve, hskips]
    simp only [hsame]
    exact ⟨hrecorded, hdelivered.symm⟩
  | true =>
    -- the region is still open, so all lines from its start are deleted
    obtain ⟨depth, -, hskips⟩ := h.skips hskip
    obtain ⟨hdeleted, -, hdelivered⟩ := h.deleteRest hidle hskip
    rw [hscopes, hactive, hroot] at hdelivered
    rw [hscopes, hactive, houter, hroot] at hdeleted
    obtain ⟨root, hnode, hparent⟩ := h.recorded.sound.root
    have hsame : (k.finish source.length).tree =
        k.tree.addDrops 0 (deleteRange e source.length) := by
      obtain ⟨fuel, hfuel⟩ := Nat.exists_eq_succ_of_ne_zero (Nat.ne_of_gt h.recorded.sound.size_pos)
      simp [Tracker.finish, h.preserve, hskips, hactive, hfuel, Tracker.deleteRest, hnode, hparent,
        Node.isRoot]
    simp only [hsame]
    exact ⟨hdeleted, hdelivered.symm⟩

end Accounted

end Replacement

end DocFlatten
