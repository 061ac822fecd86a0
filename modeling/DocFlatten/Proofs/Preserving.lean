import DocFlatten.Proofs.Accounting

/-! # The account of a reading that leaves conditionals as they are

If conditionals are left as they are, nothing is dropped: the recorded tree yields every line that
reading has passed, conditionals and skipped lines included, with includes in the place of their
directives. An include that is the text of a single-line conditional finds no place, since its line
is the conditional; what is read inside of it yields nothing.

* `View`: how the line in front stands to the lines that are yielded;
* `Tracked`: the tree, and the line that reading is at;
* `Reckoned`: what the tree yields up to that line, with one lemma for each kind of step.
-/

namespace DocFlatten

namespace Replacement

/-! ## Trees without drops -/

namespace Tree

/-- No line is dropped. -/
def Dropless (t : Tree) : Prop :=
  ∀ id, t.dropsOf id = []

variable {t : Tree} {source : List String} {out : Nat → List String}

/-- A new node has no drops either. -/
theorem Dropless.attach (h : t.Dropless) (parent : Nat) (position : Int) (directive : String)
    (lines : List String) (offset : Int) :
    (t.attach parent position directive lines offset).Dropless := by
  intro id
  rcases Nat.lt_trichotomy id t.size with hlt | rfl | hgt
  · rw [t.dropsOf_attach_of_lt _ _ _ _ _ hlt]
    exact h id
  · exact t.dropsOf_attach_self _ _ _ _ _
  · have hnone : (t.attach parent position directive lines offset).node? id = none := by
      rw [← Option.not_isSome_iff_eq_none, node?_isSome_iff, size_attach]
      omega
    simp [dropsOf, hnone]

/-- Without drops there is nothing that could fail to fit. -/
theorem Dropless.fit (h : t.Dropless) (id i : Nat) (line directive : String) :
    DropsFit (t.dropsOf id) i line directive := by
  refine Or.inl fun d hd => ?_
  rw [h id] at hd
  cases hd

/-- An include stands at a line only if the line is its directive. -/
theorem Dropless.standsAt (h : t.Dropless) (id i : Nat) (line directive : String) :
    standsAt (t.dropsOf id) i line directive = true ↔ line = directive := by
  simp [Replacement.standsAt, h id]

/-- A line at which no include stands yields itself. -/
theorem Dropless.yieldAt_of_ne (h : t.Dropless) {id i : Nat} {line : String}
    (hne : ∀ c directive, t.childAt? id i = some (c, directive) → line ≠ directive) :
    t.yieldAt out id i line = [line] := by
  have hkept : keptLine (t.dropsOf id) i line = [line] := by
    have hnone : ∀ d ∈ t.dropsOf id, d.index ≠ i := by simp [h id]
    simp [keptLine, settleLine_of_forall_ne _ hnone, flattenAll, Fragment.flatten]
  unfold yieldAt
  cases hchild : t.childAt? id i with
  | none => exact hkept
  | some found =>
    obtain ⟨c, directive⟩ := found
    have hnot : Replacement.standsAt (t.dropsOf id) i line directive ≠ true := fun hstands =>
      hne c directive hchild ((h.standsAt id i line directive).mp hstands)
    simp [hnot, hkept]

/-- A line stays if the include at it finds no place there. -/
theorem Dropless.yieldAt_of_not_stands (h : t.Dropless) (hapart : t.PlacedApart)
    {source : List String} {c p i : Nat} {directive line : String}
    (hsite : t.siteOf? c = some ⟨p, i, directive⟩) (hline : (t.linesOf source p)[i]? = some line)
    (hnot : ¬ Stands t source c) : t.yieldAt out p i line = [line] := by
  refine h.yieldAt_of_ne fun c' directive' hchild => ?_
  have hsame : t.childAt? p i = some (c, directive) := hapart.childAt?_eq hsite
  rw [hsame] at hchild
  cases hchild
  rintro rfl
  exact hnot ⟨p, i, line, line, hsite, hline, (h.standsAt _ _ _ _).mpr rfl⟩

end Tree

/-- Extending a tree further inside does not put an include in its place. -/
theorem stands_of_extends {t t' : Tree} {source : List String} {a e c : Nat}
    (h : Stands t' source c) (hext : Extends t t' source a e) (hsound : t.Sound)
    (hc : c < t.size) (hca : c ≤ a) : Stands t source c := by
  obtain ⟨p, i, directive, line, hsite, hline, hstands⟩ := h
  rw [hext.site c hc] at hsite
  have hpc := hsound.parent_lt hsite
  simp only at hpc
  have hp : p < t.size := by omega
  refine ⟨p, i, directive, line, hsite, ?_, ?_⟩
  · rw [← hext.lines p hp]
    exact hline
  · rw [← hext.drops p hp (by omega)]
    exact hstands

/-! ## Where reading is -/

/-- How the line in front of a reader stands to the lines that are yielded. -/
inductive View where
  /-- It is the next one of them, unless an include comes in its place. -/
  | raw
  /-- It is the text of a conditional that may be an include directive; the conditional is the last
  line that was yielded. -/
  | text
  /-- It waits to be taken, and its line was yielded. -/
  | held
  /-- It is inside of an include that has no place, so it yields nothing. -/
  | live
  deriving DecidableEq

namespace View

/-- What is yielded when the line in front is passed, or when other lines come in its place. -/
def passes : View → List String → List String
  | .raw, lines => lines
  | _, _ => []

@[simp] theorem passes_live (lines : List String) : View.live.passes lines = [] := rfl

/-- The view of a line that waits. -/
def hold : View → View
  | .live => .live
  | _ => .held

/-- The view of the next line. -/
def next : View → View
  | .live => .live
  | _ => .raw

/-- The view of the first line of an include that was entered. -/
def enter : View → View
  | .raw => .raw
  | _ => .live

/-- The view of a text that a conditional leaves. -/
def keep (text : String) : View → View
  | .live => .live
  | _ => if text.startsWith "include::" then .text else .held

/-- The view in the scope around, once the innermost one has ended. -/
def leave (outer : List Scope) : View → View
  | .live => if outer.isEmpty then .raw else .live
  | _ => .raw

/-- How many lines of its scope are behind, if the line in front is at line `i`. -/
def behind : View → Nat → Nat
  | .raw, i => i
  | _, i => i + 1

end View

/-- How the line in front of a reader stands to line `i` of the node being read. -/
inductive Facing (t : Tree) (source : List String) (a i : Nat) (r : Reader) : View → Prop where
  | raw (hidle : r.Idle) (hlines : r.scope.lines = (t.linesOf source a).drop i)
      (hclear : Clear t a i) : Facing t source a i r .raw
  | text (c : Conditional) (line text : String) (hidle : r.Idle) (hskip : r.skipping = false)
      (hline : (t.linesOf source a)[i]? = some line) (hkind : LineKind.ofLine line = .conditional c)
      (hlines : r.scope.lines = text :: (t.linesOf source a).drop (i + 1))
      (hinclude : text.startsWith "include::" = true) (hclear : Clear t a i) :
    Facing t source a i r .text
  | held (line text : String) (hlook : r.lookAhead = 1)
      (hline : (t.linesOf source a)[i]? = some line)
      (hlines : r.scope.lines = text :: (t.linesOf source a).drop (i + 1))
      (hclear : Clear t a (i + 1)) : Facing t source a i r .held

/-- A reading that leaves conditionals as they are, at line `i` of the innermost scope. -/
structure Tracked (source : List String) (k : Tracker) (r : Reader) (out : Nat → List String)
    (i : Nat) (v : View) : Prop where
  preserve : k.preserve = true
  pending : k.pending = none
  openSkips : k.openSkips = []
  dropless : k.tree.Dropless
  recorded : Recorded k.tree source out k.active k.scopes r.outer
  lineno : r.cursor.lineno = i + 1 + k.tree.offsetOf k.active
  facing : Facing k.tree source k.active i r v

/-- What the tree yields up to the line in front, and how that line stands to it. -/
inductive Reached (source : List String) (k : Tracker) (out : Nat → List String) (i : Nat)
    (v : View) : View → List String → Prop where
  | along (hstands : ∀ scope ∈ k.scopes, Stands k.tree source scope.node) :
    Reached source k out i v v (k.tree.yieldedTo source out k.scopes k.active (v.behind i))
  | live (inner : List TrackedScope) (c j : Nat) (depth : Int) (directive : String)
      (hscopes : k.scopes = inner ++ [⟨c, depth⟩])
      (hsite : k.tree.siteOf? c = some ⟨0, j, directive⟩) (hnot : ¬ Stands k.tree source c) :
    Reached source k out i v .live (k.tree.yieldsBelow source out 0 (j + 1))

/-- The account of a reading that leaves conditionals as they are: the lines that it has yielded. -/
def Reckoned (source : List String) (k : Tracker) (r : Reader) (v : View) (lines : List String) :
    Prop :=
  ∃ out i v₀, Tracked source k r out i v₀ ∧ Reached source k out i v₀ v lines

/-! ## Steps of the tracker -/

namespace Tracker

variable {k : Tracker}

/-- Nothing is recorded of conditionals that are kept. -/
theorem observe_conditional (h : k.preserve = true) (e : ConditionalEvent) :
    (k.observe (.conditional e)).1 = k := by
  simp [observe, onConditional, h]

/-- Nothing is left to record at the end. -/
theorem finish_preserve (h : k.preserve = true) (n : Nat) : k.finish n = k := by
  simp [finish, h]

end Tracker

namespace Tracked

variable {source : List String} {k : Tracker} {r : Reader} {out : Nat → List String} {i : Nat}
  {v : View} {line : String} {rest : List String}

/-- The line in front, not yet processed: what it stands for, and the lines after it. -/
theorem front (h : Tracked source k r out i v) (hidle : r.Idle)
    (hlines : r.scope.lines = line :: rest) :
    Clear k.tree k.active i ∧ rest = (k.tree.linesOf source k.active).drop (i + 1) ∧
      ((v = .raw ∧ (k.tree.linesOf source k.active)[i]? = some line) ∨
        (v = .text ∧ r.skipping = false ∧ line.startsWith "include::" = true ∧
          ∃ c original, (k.tree.linesOf source k.active)[i]? = some original ∧
            LineKind.ofLine original = .conditional c)) := by
  cases h.facing with
  | raw _ hraw hclear =>
    obtain ⟨hline, hrest⟩ := of_drop_eq_cons (hraw.symm.trans hlines)
    exact ⟨hclear, hrest, Or.inl ⟨rfl, hline⟩⟩
  | text c original text _ hskip hline hkind htext hinclude hclear =>
    rw [hlines, List.cons.injEq] at htext
    obtain ⟨rfl, rfl⟩ := htext
    exact ⟨hclear, rfl, Or.inr ⟨rfl, hskip, hinclude, c, original, hline, hkind⟩⟩
  | held _ _ hlook =>
    rw [hidle.lookAhead] at hlook
    cases hlook

/-- Line `i`, whatever stands for it in front. -/
theorem spelled (h : Tracked source k r out i v) (hidle : r.Idle)
    (hlines : r.scope.lines = line :: rest) :
    ∃ original, (k.tree.linesOf source k.active)[i]? = some original ∧
      (v = .raw → original = line) := by
  obtain ⟨-, -, ⟨rfl, hline⟩ | ⟨rfl, -, -, c, original, hline, -⟩⟩ := h.front hidle hlines
  · exact ⟨line, hline, fun _ => rfl⟩
  · exact ⟨original, hline, fun hraw => by cases hraw⟩

/-- What was yielded before the line after the one in front. -/
theorem yieldedTo_succ (h : Tracked source k r out i v) (hidle : r.Idle)
    (hlines : r.scope.lines = line :: rest) :
    k.tree.yieldedTo source out k.scopes k.active (i + 1) =
      k.tree.yieldedTo source out k.scopes k.active (v.behind i) ++ v.passes [line] := by
  obtain ⟨hclear, -, ⟨rfl, hline⟩ | ⟨rfl, -⟩⟩ := h.front hidle hlines
  · unfold Tree.yieldedTo View.behind
    rw [k.tree.yieldsBelow_succ source out hline,
      Tree.yieldAt_of_clear hclear (Nat.le_refl i), ← List.append_assoc]
    rfl
  · simp [View.behind, View.passes]

/-- The line after the one that is shifted has the next number. -/
theorem lineno_shifted (h : Tracked source k r out i v) (hlines : r.scope.lines = line :: rest) :
    r.shifted.cursor.lineno = (i + 1 : Nat) + 1 + k.tree.offsetOf k.active := by
  rw [Reader.shifted_of_lines hlines]
  have := h.lineno
  simp only [Reader.cursor] at this ⊢
  omega

/-- A line that is content waits to be taken. -/
theorem hold (h : Tracked source k r out i v) (hidle : r.Idle)
    (hlines : r.scope.lines = line :: rest) (unescape : Bool) :
    Tracked source k { r.hold with unescape } out i .held := by
  obtain ⟨hclear, rfl, -⟩ := h.front hidle hlines
  obtain ⟨original, hline, -⟩ := h.spelled hidle hlines
  have hlook : r.lookAhead + 1 = 1 := by rw [hidle.lookAhead]
  exact { h with facing := .held original line hlook hline hlines (hclear.mono (Nat.le_succ i)) }

/-- The line in front is used up; conditionals may have been opened or closed. -/
theorem pass (h : Tracked source k r out i .raw) (hidle : r.Idle)
    (hlines : r.scope.lines = line :: rest) (conditionals : List OpenConditional)
    (skipping : Bool) :
    Tracked source k { r with conditionals, skipping }.shifted out (i + 1) .raw := by
  obtain ⟨hclear, rfl, -⟩ := h.front hidle hlines
  have hidle' : ({ r with conditionals, skipping } : Reader).shifted.Idle :=
    Reader.Idle.shifted ⟨hidle.lookAhead, hidle.plain⟩
  have hlineno := h.lineno_shifted hlines
  rw [Reader.shifted_of_lines hlines] at hlineno
  rw [Reader.shifted_of_lines (r := { r with conditionals, skipping }) hlines] at hidle' ⊢
  exact { h with
    recorded := h.recorded
    lineno := hlineno
    facing := .raw hidle' rfl (hclear.mono (Nat.le_succ i)) }

/-- The text of a single-line conditional takes the place of its line. -/
theorem keep (h : Tracked source k r out i .raw) (hidle : r.Idle)
    (hlines : r.scope.lines = line :: rest) (hskip : r.skipping = false) {c : Conditional}
    (hkind : LineKind.ofLine line = .conditional c) (text : String) :
    Tracked source k (r.keeping text) out i (View.raw.keep text) := by
  obtain ⟨hclear, rfl, hraw⟩ := h.front hidle hlines
  obtain ⟨-, hline⟩ : View.raw = .raw ∧ (k.tree.linesOf source k.active)[i]? = some line := by
    rcases hraw with hraw | ⟨htext, -⟩
    · exact hraw
    · cases htext
  have hhead : r.setHead (Text.stripEnd text) =
      { r with scope.lines :=
          Text.stripEnd text :: (k.tree.linesOf source k.active).drop (i + 1) } := by
    simp [Reader.setHead, hlines]
  unfold Reader.keeping View.keep
  rw [hhead]
  by_cases hinclude : text.startsWith "include::" = true
  · -- the text is a directive, and is read once more
    rw [if_pos hinclude, if_pos hinclude]
    exact { h with
      recorded := h.recorded
      lineno := h.lineno
      facing := .text c line _ ⟨hidle.lookAhead, hidle.plain⟩ hskip hline hkind rfl
        (startsWith_include_stripEnd hinclude) hclear }
  · -- the text is a line that is delivered
    rw [if_neg hinclude, if_neg hinclude]
    have hlook : r.lookAhead + 1 = 1 := by rw [hidle.lookAhead]
    exact { h with
      recorded := h.recorded
      lineno := h.lineno
      facing := .held line _ hlook hline rfl (hclear.mono (Nat.le_succ i)) }

/-- Taking a line that waits. -/
theorem take (h : Tracked source k r out i .held) (hlines : r.scope.lines = line :: rest) :
    Tracked source k r.shifted out (i + 1) .raw := by
  have hlineno := h.lineno_shifted hlines
  cases h.facing with
  | held original text hlook hline htext hclear =>
    rw [hlines, List.cons.injEq] at htext
    obtain ⟨rfl, rfl⟩ := htext
    have hidle : r.shifted.Idle :=
      Reader.Steady.idle_shifted (Or.inr ⟨hlook, by simp [hlines]⟩) (by omega)
    rw [Reader.shifted_of_lines hlines] at hidle hlineno ⊢
    exact { h with
      recorded := h.recorded
      lineno := hlineno
      facing := .raw hidle rfl hclear }

/-- An include that is the text of a conditional finds no place. -/
theorem not_stands (h : Tracked source k r out i .text) (hidle : r.Idle)
    (hlines : r.scope.lines = line :: rest) {d : Include}
    (hkind : LineKind.ofLine line = .directive d) (left : List String) (offset : Int) :
    ¬ Stands (k.tree.attach k.active i line left offset) source k.tree.size := by
  obtain ⟨-, -, ⟨hraw, -⟩ | ⟨-, -, -, c, original, hline, hconditional⟩⟩ := h.front hidle hlines
  · cases hraw
  · intro hplaced
    have ha := h.recorded.lt_size
    obtain ⟨line', hline', hstands⟩ := hplaced.line (Tree.siteOf?_attach_self ..)
    rw [Tree.linesOf_attach_of_lt _ _ _ _ _ _ source ha, hline] at hline'
    cases hline'
    have hsame := ((h.dropless.attach _ _ _ _ _).standsAt _ _ _ _).mp hstands
    rw [hsame, hkind] at hconditional
    cases hconditional

/-- An include is put in the place of its directive, but not in that of a conditional. -/
theorem attach (h : Tracked source k r out i v) (hidle : r.Idle)
    (hlines : r.scope.lines = line :: rest) {d : Include}
    (hkind : LineKind.ofLine line = .directive d) (content : List String) (offset : Int)
    {out' : Nat → List String} (hout : ∀ c < k.tree.size, out' c = out c) :
    let t' := k.tree.attach k.active i line content offset
    t'.PlacedApart ∧ Clear t' k.active (i + 1) ∧
      t'.yieldedTo source out' k.scopes k.active (i + 1) =
        k.tree.yieldedTo source out k.scopes k.active (v.behind i) ++
          v.passes (out' k.tree.size) := by
  intro t'
  obtain ⟨hclear, -, hfront⟩ := h.front hidle hlines
  have ha := h.recorded.lt_size
  have hext : Extends k.tree t' source k.active i := extends_attach source ha line content offset
  have hdropless : t'.Dropless := h.dropless.attach _ _ _ _ _
  have htidy : t'.Tidy source := h.recorded.tidy.attach h.recorded.sound ha content offset
    hclear.includes fun original _ => h.dropless.fit _ _ _ _
  have hsite : t'.siteOf? k.tree.size = some ⟨k.active, i, line⟩ := Tree.siteOf?_attach_self ..
  have hbefore : t'.yieldedTo source out' k.scopes k.active i =
      k.tree.yieldedTo source out k.scopes k.active i :=
    h.recorded.yieldedTo_extends hext htidy.apart hout (Nat.le_refl i)
  have hdrops : ∀ d ∈ k.tree.dropsOf k.active, d.index < i + 1 := by
    rw [h.dropless]
    exact fun d hd => by cases hd
  refine ⟨htidy.apart, clear_attach ha hclear.includes hdrops line content offset, ?_⟩
  · rcases hfront with ⟨rfl, hline⟩ | ⟨rfl, -, -, c, original, hline, hconditional⟩
    · -- the directive stands as a line of the node
      have hstands : standsAt (t'.dropsOf k.active) i line line = true :=
        (hdropless.standsAt _ _ _ _).mpr rfl
      unfold Tree.yieldedTo at hbefore ⊢
      rw [t'.yieldsBelow_succ source out' (by rw [hext.lines _ ha]; exact hline),
        yieldAt_of_siteOf? htidy.apart hsite out' hstands, ← List.append_assoc, hbefore]
      rfl
    · -- the line is a conditional, so the include has no place
      have hline' : (t'.linesOf source k.active)[i]? = some original := by
        rw [hext.lines _ ha]
        exact hline
      have hyield : t'.yieldAt out' k.active i original = [original] :=
        hdropless.yieldAt_of_not_stands htidy.apart hsite hline'
          (h.not_stands hidle hlines hkind content offset)
      unfold Tree.yieldedTo at hbefore ⊢
      simp only [View.behind, View.passes, List.append_nil]
      rw [t'.yieldsBelow_succ source out' hline', hyield,
        k.tree.yieldsBelow_succ source out hline, Tree.yieldAt_of_clear hclear (Nat.le_refl i),
        ← List.append_assoc, hbefore, List.append_assoc]

/-- With no scope around, reading is in the document. -/
theorem document (h : Tracked source k r out i v) (houter : r.outer = []) :
    k.active = 0 ∧ k.scopes = [] ∧ Recorded k.tree source out 0 [] [] := by
  have hrecorded := h.recorded
  rw [houter] at hrecorded
  obtain ⟨hactive, hscopes⟩ := hrecorded.path.eq_document
  rw [hactive, hscopes] at hrecorded
  exact ⟨hactive, hscopes, hrecorded⟩

/-- An include stands in its place unless it is the text of a conditional. -/
theorem attach_stands_iff (h : Tracked source k r out i v) (hidle : r.Idle)
    (hlines : r.scope.lines = line :: rest) {d : Include}
    (hkind : LineKind.ofLine line = .directive d) (left : List String) (offset : Int) :
    Stands (k.tree.attach k.active i line left offset) source k.tree.size ↔ v = .raw := by
  obtain ⟨-, -, ⟨rfl, hline⟩ | ⟨rfl, -⟩⟩ := h.front hidle hlines
  · refine iff_of_true ⟨k.active, i, line, line, Tree.siteOf?_attach_self .., ?_, ?_⟩ rfl
    · rw [Tree.linesOf_attach_of_lt _ _ _ _ _ _ source h.recorded.lt_size]
      exact hline
    · exact ((h.dropless.attach _ _ _ _ _).standsAt _ _ _ _).mpr rfl
  · exact iff_of_false (h.not_stands hidle hlines hkind left offset) (by simp)

end Tracked

/-! ## The account -/

/-- Within files, the node is not the document. -/
theorem Enclosed.pos_of_ne_nil {t : Tree} {source : List String} {a : Nat}
    {scopes : List TrackedScope} {outer : List Scope} (h : Enclosed t source a scopes outer)
    (hsound : t.Sound) (hne : scopes ≠ []) : 0 < a := by
  cases h with
  | document => exact absurd rfl hne
  | inside _ hsite =>
    have := hsound.parent_lt hsite
    simp only at this
    omega

namespace Tracked

variable {source : List String} {k : Tracker} {r : Reader} {out : Nat → List String} {i : Nat}
  {v : View} {line : String} {rest : List String}

/-- A line that is held is seen as held. -/
theorem hold_view (h : Tracked source k r out i v) : v.hold = .held := by
  cases h.facing <;> rfl

/-- A line that is skipped or does not look like an include directive is no text of a
conditional. -/
theorem raw_of_ne (h : Tracked source k r out i v) (hidle : r.Idle)
    (hlines : r.scope.lines = line :: rest)
    (hnot : r.skipping = true ∨ line.startsWith "include::" = false) : v = .raw := by
  obtain ⟨-, -, ⟨hraw, -⟩ | ⟨-, hskip, hinclude, -⟩⟩ := h.front hidle hlines
  · exact hraw
  · simp [hskip, hinclude] at hnot

/-- An include directive leaves at most one line behind, and reading goes on at it or after it. -/
theorem resolve (h : Tracked source k r out i v) (hidle : r.Idle)
    (hlines : r.scope.lines = line :: rest) {d : Include}
    (hkind : LineKind.ofLine line = .directive d) {ends : List Event}
    (hends : AreEnds r.includeDepth ends) (o : Outcome) (left : List String)
    (ho : k.including i line o = { k with tree := k.tree.attach k.active i line left 0 })
    (r' : Reader) (houter : r'.outer = r.outer) (step : Nat) (v' : View)
    (hlineno : r'.cursor.lineno = r.cursor.lineno + step)
    (hfacing : ∀ t : Tree, (∃ original, (t.linesOf source k.active)[i]? = some original) →
      rest = (t.linesOf source k.active).drop (i + 1) → Clear t k.active (i + 1) →
      Facing t source k.active (i + step) r' v') :
    Tracked source (k.observeAll (r.found d :: ends ++ [.includeResolved o])) r'
      (Function.update out k.tree.size left) (i + step) v' := by
  obtain ⟨hbefore, hrest, -⟩ := h.front hidle hlines
  obtain ⟨original, hline, -⟩ := h.spelled hidle hlines
  have ha := h.recorded.lt_size
  have hext : Extends k.tree (k.tree.attach k.active i line left 0) source k.active i :=
    extends_attach source ha line left 0
  -- the lines of the scope stay as they are, and so does all that was yielded before
  have hsame := hext.lines _ ha
  have hout : ∀ c < k.tree.size, Function.update out k.tree.size left c = out c :=
    fun c hc => Function.update_of_ne (Nat.ne_of_lt hc) _ _
  obtain ⟨-, hclear, -⟩ := h.attach hidle hlines hkind left 0 hout
  rw [Tracker.observeAll_resolved h.pending h.recorded.path h.lineno d hends o,
    LineKind.line_of_directive hkind, ho]
  exact
    { preserve := h.preserve
      pending := h.pending
      openSkips := h.openSkips
      dropless := h.dropless.attach _ _ _ _ _
      recorded := houter ▸ h.recorded.attach left 0 hbefore.includes
        fun _ _ => h.dropless.fit _ _ _ _
      lineno := by
        have hoffset := hext.offset _ ha
        have := h.lineno
        simp only [hoffset]
        omega
      facing := hfacing _ ⟨original, by rw [hsame]; exact hline⟩ (by rw [hsame]; exact hrest)
        hclear }

/-- One line takes the place of an include directive, and waits. -/
theorem put (h : Tracked source k r out i v) (hidle : r.Idle)
    (hlines : r.scope.lines = line :: rest) {d : Include}
    (hkind : LineKind.ofLine line = .directive d) (text : String) {r' : Reader}
    (hlook : r'.lookAhead = 1) (hafter : r'.scope.lines = text :: rest)
    (hlineno : r'.cursor.lineno = r.cursor.lineno) (houter : r'.outer = r.outer) (depth : Int) :
    Tracked source (k.observeAll [r.found d, .includeResolved (.replaced text depth)]) r'
      (Function.update out k.tree.size [text]) i .held := by
  have hnone : AreEnds r.includeDepth [] := fun e he => by cases he
  refine h.resolve hidle hlines hkind hnone (.replaced text depth) [text] rfl r' houter 0 .held
    (by simpa using hlineno) ?_
  rintro t ⟨original, hline⟩ hrest hclear
  exact .held original text hlook hline (hafter.trans (by rw [hrest])) hclear

/-- An include directive vanishes. -/
theorem vanish (h : Tracked source k r out i v) (hidle : r.Idle)
    (hlines : r.scope.lines = line :: rest) {d : Include}
    (hkind : LineKind.ofLine line = .directive d) {ends : List Event}
    (hends : AreEnds r.includeDepth ends) (frame : Nat) (depth : Int) :
    Tracked source (k.observeAll (r.found d :: ends ++ [.includeResolved (.vanished depth)]))
      { r.shifted with frame } (Function.update out k.tree.size []) (i + 1) .raw := by
  have hidle' : ({ r.shifted with frame } : Reader).Idle :=
    ⟨hidle.shifted.lookAhead, hidle.shifted.plain⟩
  refine h.resolve hidle hlines hkind hends (.vanished depth) [] rfl { r.shifted with frame }
    (by simp) 1 .raw (by rw [Reader.shifted_of_lines hlines]; rfl) ?_
  intro t _ hrest hclear
  rw [Reader.shifted_of_lines hlines] at hidle' ⊢
  exact .raw hidle' hrest hclear

/-- The tree with an include that is entered, and what it yields before the first line of that. -/
theorem recorded_enter (h : Tracked source k r out i v) (hidle : r.Idle)
    (hlines : r.scope.lines = line :: rest) (content : List String) (offset : Int) :
    Recorded (k.tree.attach k.active i line content offset) source out k.tree.size
        (⟨k.tree.size, r.outer.length + 1⟩ :: k.scopes)
        ({ lines := rest, cursor := { r.cursor with lineno := r.cursor.lineno + 1 } } :: r.outer) ∧
      (k.tree.attach k.active i line content offset).yieldedTo source out
          (⟨k.tree.size, r.outer.length + 1⟩ :: k.scopes) k.tree.size 0 =
        k.tree.yieldedTo source out k.scopes k.active i := by
  obtain ⟨hclear, hrest, -⟩ := h.front hidle hlines
  obtain ⟨original, hline, -⟩ := h.spelled hidle hlines
  have hlt : i < (k.tree.linesOf source k.active).length :=
    (List.getElem?_eq_some_iff.mp hline).1
  have hlineno : r.cursor.lineno + 1 = i + 2 + k.tree.offsetOf k.active := by
    have := h.lineno
    omega
  refine h.recorded.enter content offset hclear.includes (fun _ _ => h.dropless.fit _ _ _ line) ?_
    hlt hrest hlineno
  intro d hd
  rw [h.dropless] at hd
  cases hd

/-- An include is entered: reading goes on at its first line. -/
theorem enter (h : Tracked source k r out i v) (hidle : r.Idle)
    (hlines : r.scope.lines = line :: rest) {d : Include}
    (hkind : LineKind.ofLine line = .directive d) {ends : List Event}
    (hends : AreEnds r.includeDepth ends) (content : List String) (cursor : Cursor)
    (frame : Nat) :
    Tracked source (k.observeAll (r.found d :: ends ++
        [.includeResolved (.entered content (cursor.lineno + frame) frame (r.includeDepth + 1))]))
      (r.shifted.entered content cursor frame) out 0 .raw := by
  have hoffset : (cursor.lineno + frame : Int) - 1 - frame = cursor.lineno - 1 := by omega
  obtain ⟨hrecorded, -⟩ := h.recorded_enter hidle hlines content (cursor.lineno - 1)
  rw [Tracker.observeAll_resolved h.pending h.recorded.path h.lineno d hends,
    LineKind.line_of_directive hkind, Reader.shifted_of_lines hlines]
  simp only [Tracker.including, hoffset, Reader.entered]
  refine
    { preserve := h.preserve
      pending := h.pending
      openSkips := h.openSkips
      dropless := h.dropless.attach _ _ _ _ _
      recorded := hrecorded
      lineno := ?_
      facing := .raw ⟨rfl, rfl⟩ ?_ (clear_attach_self hrecorded.sound) }
  · simp only [Reader.cursor, Tree.offsetOf_attach_self]
    omega
  · rw [Tree.linesOf_attach_self _ _ _ _ _ _ _ h.recorded.sound.size_pos]
    rfl

/-- However an include directive is followed, reading goes on at a line of the tree. -/
theorem followed (h : Tracked source k r out i v) (hidle : r.Idle)
    (hlines : r.scope.lines = line :: rest) {d : Include}
    (hkind : LineKind.ofLine line = .directive d) {es : List Event} {r' : Reader}
    (hfollowed : Followed r d es r') :
    ∃ out' i' v', Tracked source (k.observeAll es) r' out' i' v' ∧ v' ≠ .text := by
  cases hfollowed with
  -- the directive stays as a line
  | kept =>
    have hlook : r.hold.lookAhead = 1 := by simp [Reader.hold, hidle.lookAhead]
    have hline := LineKind.line_of_directive hkind
    exact ⟨_, _, _, h.put hidle hlines hkind d.line hlook (by rw [hline]; exact hlines) rfl rfl
      r.includeDepth, by simp⟩
  -- nothing comes in its place
  | gone ends frame hends =>
    exact ⟨_, _, _, h.vanish hidle hlines hkind hends frame r.includeDepth, by simp⟩
  -- a line comes in its place
  | replaced text =>
    refine ⟨_, _, _, h.put hidle hlines hkind text ?_ ?_ ?_ ?_ r.includeDepth, by simp⟩
    · simp [Reader.unshift, Reader.advance, hidle.lookAhead]
    · simp [Reader.shifted_of_lines hlines, Reader.unshift, Reader.advance]
    · simp only [Reader.shifted_of_lines hlines, Reader.unshift, Reader.advance, Reader.cursor]
      omega
    · simp [Reader.unshift, Reader.advance]
  -- the file is entered
  | entered content cursor frame ends _ hends =>
    exact ⟨_, _, _, h.enter hidle hlines hkind hends content cursor frame, by simp⟩

/-- At the end of its scope a reader has no line in front. -/
theorem raw_of_nil (h : Tracked source k r out i v) (hlines : r.scope.lines = []) :
    v = .raw ∧ (k.tree.linesOf source k.active).length ≤ i := by
  cases h.facing with
  | raw _ hraw => exact ⟨rfl, List.drop_eq_nil_iff.mp (hraw.symm.trans hlines)⟩
  | text _ _ _ _ _ _ _ htext | held _ _ _ _ htext =>
    rw [hlines] at htext
    cases htext

/-- The innermost scope, and the ones around it. -/
theorem innermost (h : Tracked source k r out i v) {scope : Scope} {outer : List Scope}
    (houter : r.outer = scope :: outer) :
    ∃ (p j : Nat) (directive : String) (scopes : List TrackedScope),
      k.scopes = ⟨k.active, outer.length + 1⟩ :: scopes ∧
      k.tree.siteOf? k.active = some ⟨p, j, directive⟩ ∧
      Enclosed k.tree source p scopes outer := by
  have hpath := h.recorded.path
  rw [houter] at hpath
  obtain ⟨p, j, directive, scopes, hscopes, hsite, haround, -⟩ := hpath.innermost
  exact ⟨p, j, directive, scopes, hscopes, hsite, haround⟩

/-- Reading goes on in the scope around the innermost one. -/
theorem leave (h : Tracked source k r out i v) (hidle : r.Idle) {scope : Scope}
    {outer : List Scope} (houter : r.outer = scope :: outer) {p j : Nat} {directive : String}
    {scopes : List TrackedScope} (hscopes : k.scopes = ⟨k.active, outer.length + 1⟩ :: scopes)
    (hsite : k.tree.siteOf? k.active = some ⟨p, j, directive⟩) :
    Tracked source (k.onScopeEnd outer.length) { r with scope, outer, lookAhead := 0 }
      (Function.update out k.active (k.tree.yields source out k.active)) (j + 1) .raw := by
  have hrecorded := h.recorded
  rw [houter, hscopes] at hrecorded
  obtain ⟨hleft, -, -, -, hlines', hlineno, hclear⟩ := hrecorded.leave hsite
  rw [Tracker.onScopeEnd_plain h.recorded.sound hsite hscopes (by omega) h.openSkips]
  exact
    { preserve := h.preserve
      pending := h.pending
      openSkips := h.openSkips
      dropless := h.dropless
      recorded := hleft
      lineno := by
        simp only [Reader.cursor]
        omega
      facing := .raw ⟨rfl, hidle.plain⟩ hlines' hclear }

/-- Inside of an include that has no place, what was yielded outside of it does not change. -/
theorem live_extends (h : Tracked source k r out i v) {t' : Tree} {out' : Nat → List String}
    {e : Nat} (hext : Extends k.tree t' source k.active e) (hapart : t'.PlacedApart)
    (hout : ∀ c < k.tree.size, out' c = out c) {inner : List TrackedScope} {c j : Nat}
    {depth : Int} {directive : String} (hscopes : k.scopes = inner ++ [⟨c, depth⟩])
    (hsite : k.tree.siteOf? c = some ⟨0, j, directive⟩) (hnot : ¬ Stands k.tree source c) :
    t'.siteOf? c = some ⟨0, j, directive⟩ ∧ ¬ Stands t' source c ∧
      t'.yieldsBelow source out' 0 (j + 1) = k.tree.yieldsBelow source out 0 (j + 1) := by
  have hsound := h.recorded.sound
  have hc := Tree.siteOf?_lt hsite
  have hmem : (⟨c, depth⟩ : TrackedScope) ∈ k.scopes := by simp [hscopes]
  have hca := (h.recorded.path.pos_of_mem hsound hmem).2
  have hpos := h.recorded.path.pos_of_ne_nil hsound (List.ne_nil_of_mem hmem)
  refine ⟨(hext.site c hc).trans hsite, fun hstands => ?_, ?_⟩
  · exact hnot (stands_of_extends hstands hext hsound hc hca)
  · exact hext.yieldsBelow_eq hapart hout hsound.size_pos (Or.inl (Nat.ne_of_lt hpos))

section Leave

variable {scope : Scope} {outer : List Scope} {c p j : Nat} {directive : String}
  {scopes : List TrackedScope}

/-- Where all includes have their places, what a scope has yielded comes in the place of its
directive. -/
theorem reached_leave (h : Tracked source k r out i .raw) (hlines : r.scope.lines = [])
    (houter : r.outer = scope :: outer) (hscopes : k.scopes = ⟨k.active, outer.length + 1⟩ :: scopes)
    (hsite : k.tree.siteOf? k.active = some ⟨p, j, directive⟩)
    (hstands : ∀ scope ∈ k.scopes, Stands k.tree source scope.node) :
    Reached source { k with scopes, active := p }
      (Function.update out k.active (k.tree.yields source out k.active)) (j + 1) .raw .raw
      (k.tree.yieldedTo source out k.scopes k.active i) := by
  obtain ⟨-, hle⟩ := h.raw_of_nil hlines
  have hrecorded := h.recorded
  rw [houter, hscopes] at hrecorded
  obtain ⟨line, hline, hstand⟩ :=
    (hstands ⟨k.active, outer.length + 1⟩ (by rw [hscopes]; exact List.mem_cons_self)).line hsite
  have hall : k.tree.yieldedTo source out k.scopes k.active i =
      k.tree.yieldedTo source out (⟨k.active, outer.length + 1⟩ :: scopes) k.active
        (k.tree.linesOf source k.active).length := by
    rw [hscopes]
    unfold Tree.yieldedTo
    rw [k.tree.yieldsBelow_of_le source out hle,
      k.tree.yieldsBelow_of_le source out (Nat.le_refl _)]
  rw [hall, ← hrecorded.leave_account hsite hline hstand]
  exact .along fun sc hsc => hstands sc (by rw [hscopes]; exact List.mem_cons_of_mem _ hsc)

/-- Behind an include that has no place the document goes on after the conditional. -/
theorem reached_leave_home (h : Tracked source k r out i .raw)
    (hsite : k.tree.siteOf? c = some ⟨0, j, directive⟩) (hnot : ¬ Stands k.tree source c)
    (hlt : j < (k.tree.linesOf source 0).length)
    (hbelow : k.tree.yieldsBelow source (Function.update out c (k.tree.yields source out c)) 0 j =
      k.tree.yieldsBelow source out 0 j) :
    Reached source { k with scopes := [], active := 0 }
      (Function.update out c (k.tree.yields source out c)) (j + 1) .raw .raw
      (k.tree.yieldsBelow source out 0 (j + 1)) := by
  have hline : (k.tree.linesOf source 0)[j]? = some (k.tree.linesOf source 0)[j] :=
    List.getElem?_eq_getElem hlt
  have hyield : ∀ out : Nat → List String,
      k.tree.yieldAt out 0 j (k.tree.linesOf source 0)[j] = [(k.tree.linesOf source 0)[j]] :=
    fun out => h.dropless.yieldAt_of_not_stands h.recorded.tidy.apart hsite hline hnot
  have hsame : k.tree.yieldsBelow source out 0 (j + 1) = k.tree.yieldedTo source
      (Function.update out c (k.tree.yields source out c)) [] 0 (j + 1) := by
    simp only [Tree.yieldedTo, Tree.before, List.nil_append]
    rw [k.tree.yieldsBelow_succ source out hline, k.tree.yieldsBelow_succ source _ hline, hyield,
      hyield, hbelow]
  rw [hsame]
  exact .along fun sc hsc => by simp at hsc

/-- Inside of an include that has no place nothing is yielded when a scope is left. -/
theorem reached_leave_live {inner : List TrackedScope} {j' : Nat} {depth : Int}
    {directive' : String} (hscopes : scopes = inner ++ [⟨c, depth⟩])
    (hactive : k.tree.siteOf? k.active = some ⟨p, j, directive⟩) (hp : 0 < p)
    (hsite : k.tree.siteOf? c = some ⟨0, j', directive'⟩) (hnot : ¬ Stands k.tree source c) :
    Reached source { k with scopes, active := p }
      (Function.update out k.active (k.tree.yields source out k.active)) (j + 1) .raw .live
      (k.tree.yieldsBelow source out 0 (j' + 1)) := by
  have hsame : k.tree.yieldsBelow source
      (Function.update out k.active (k.tree.yields source out k.active)) 0 (j' + 1) =
        k.tree.yieldsBelow source out 0 (j' + 1) :=
    k.tree.yieldsBelow_update source out hactive _ (Or.inl (Nat.ne_of_lt hp))
  rw [← hsame]
  exact .live inner c j' depth directive' hscopes hsite hnot

end Leave

end Tracked

namespace Reckoned

variable {source : List String} {k : Tracker} {r : Reader} {v : View} {lines : List String}
  {line : String} {rest : List String}

/-- Unless a line waits, none was processed. -/
theorem idle (h : Reckoned source k r v lines) (hview : v = .raw ∨ v = .text) : r.Idle := by
  rcases h with ⟨out, i, v₀, htracked, hreached⟩
  cases hreached with
  | along =>
    cases htracked.facing with
    | raw hidle => exact hidle
    | text _ _ _ hidle => exact hidle
    | held => simp at hview
  | live => simp at hview

/-- A held line has been looked at once. -/
theorem waits (h : Reckoned source k r .held lines) : r.lookAhead = 1 := by
  rcases h with ⟨out, i, v₀, htracked, hreached⟩
  cases hreached with
  | along =>
    cases htracked.facing with
    | held _ _ hlook => exact hlook

/-! ### Lines and conditionals -/

/-- A line that is content waits to be taken. -/
theorem hold (h : Reckoned source k r v lines) (hidle : r.Idle)
    (hlines : r.scope.lines = line :: rest) (unescape : Bool) :
    Reckoned source k { r.hold with unescape } v.hold (lines ++ v.passes [line]) := by
  obtain ⟨out, i, v₀, htracked, hreached⟩ := h
  refine ⟨out, i, .held, htracked.hold hidle hlines unescape, ?_⟩
  cases hreached with
  | along hstands =>
    rw [htracked.hold_view, ← htracked.yieldedTo_succ hidle hlines]
    exact .along hstands
  | live inner c j depth directive hscopes hsite hnot =>
    rw [View.passes_live, List.append_nil]
    exact .live inner c j depth directive hscopes hsite hnot

/-- The line in front is used up; conditionals may have been opened or closed. -/
theorem pass (h : Reckoned source k r v lines) (hidle : r.Idle)
    (hlines : r.scope.lines = line :: rest)
    (hnot : r.skipping = true ∨ line.startsWith "include::" = false)
    (conditionals : List OpenConditional) (skipping : Bool) :
    Reckoned source k { r with conditionals, skipping }.shifted v.next
      (lines ++ v.passes [line]) := by
  obtain ⟨out, i, v₀, htracked, hreached⟩ := h
  obtain rfl := htracked.raw_of_ne hidle hlines hnot
  refine ⟨out, i + 1, .raw, htracked.pass hidle hlines conditionals skipping, ?_⟩
  cases hreached with
  | along hstands =>
    rw [← htracked.yieldedTo_succ hidle hlines]
    exact .along hstands
  | live inner c j depth directive hscopes hsite hnot =>
    rw [View.passes_live, List.append_nil]
    exact .live inner c j depth directive hscopes hsite hnot

/-- The text of a single-line conditional takes the place of its line. -/
theorem keep (h : Reckoned source k r v lines) (hidle : r.Idle)
    (hlines : r.scope.lines = line :: rest) (hskip : r.skipping = false) {c : Conditional}
    (hkind : LineKind.ofLine line = .conditional c) (text : String) :
    Reckoned source k (r.keeping text) (v.keep text) (lines ++ v.passes [line]) := by
  obtain ⟨out, i, v₀, htracked, hreached⟩ := h
  obtain rfl := htracked.raw_of_ne hidle hlines
    (Or.inr (LineKind.not_include_of_conditional hkind))
  refine ⟨out, i, View.raw.keep text, htracked.keep hidle hlines hskip hkind text, ?_⟩
  cases hreached with
  | along hstands =>
    have hbehind : (View.raw.keep text).behind i = i + 1 := by
      simp only [View.keep]
      split <;> rfl
    rw [← htracked.yieldedTo_succ hidle hlines, ← hbehind]
    exact .along hstands
  | live inner c' j depth directive hscopes hsite hnot =>
    rw [View.passes_live, List.append_nil]
    exact .live inner c' j depth directive hscopes hsite hnot

/-- Taking a line that waits. -/
theorem take (h : Reckoned source k r v lines) (hlook : 0 < r.lookAhead)
    (hlines : r.scope.lines = line :: rest) : Reckoned source k r.shifted v.next lines := by
  obtain ⟨out, i, v₀, htracked, hreached⟩ := h
  obtain rfl : v₀ = .held := by
    cases htracked.facing with
    | raw hidle | text _ _ _ hidle =>
      have := hidle.lookAhead
      omega
    | held => rfl
  refine ⟨out, i + 1, .raw, htracked.take hlines, ?_⟩
  cases hreached with
  | along hstands => exact .along hstands
  | live inner c j depth directive hscopes hsite hnot =>
    exact .live inner c j depth directive hscopes hsite hnot

/-! ### Includes -/

/-- An include directive leaves at most one line behind, and reading goes on at it or after it. -/
theorem attach (h : Reckoned source k r v lines) (hidle : r.Idle)
    (hlines : r.scope.lines = line :: rest) {d : Include}
    (hkind : LineKind.ofLine line = .directive d) {ends : List Event}
    (hends : AreEnds r.includeDepth ends) (o : Outcome) (left : List String)
    (ho : ∀ i, k.including i line o = { k with tree := k.tree.attach k.active i line left 0 })
    (r' : Reader) (step : Nat) (v' : View) (hbehind : ∀ i, v'.behind (i + step) = i + 1)
    (hresolve : ∀ {out i v₀}, Tracked source k r out i v₀ →
      Tracked source (k.observeAll (r.found d :: ends ++ [.includeResolved o])) r'
        (Function.update out k.tree.size left) (i + step) v') :
    Reckoned source (k.observeAll (r.found d :: ends ++ [.includeResolved o])) r'
      (if v = .live then .live else v') (lines ++ v.passes left) := by
  obtain ⟨out, i, v₀, htracked, hreached⟩ := h
  obtain ⟨-, -, hfront⟩ := htracked.front hidle hlines
  have hext : Extends k.tree (k.tree.attach k.active i line left 0) source k.active i :=
    extends_attach source htracked.recorded.lt_size line left 0
  have hout : ∀ c < k.tree.size, Function.update out k.tree.size left c = out c := fun c hc =>
    Function.update_of_ne (Nat.ne_of_lt hc) _ _
  obtain ⟨hapart, -, hyielded⟩ := htracked.attach hidle hlines hkind left 0 hout
  rw [Function.update_self] at hyielded
  refine ⟨_, i + step, v', hresolve htracked, ?_⟩
  rw [Tracker.observeAll_resolved htracked.pending htracked.recorded.path htracked.lineno d hends o,
    LineKind.line_of_directive hkind, ho]
  -- the scopes around keep standing, or are still off from where the include has no place
  cases hreached with
  | along hstands =>
    have hview : (if v = View.live then View.live else v') = v' := by
      rcases hfront with ⟨rfl, -⟩ | ⟨rfl, -⟩ <;> rfl
    rw [hview, ← hyielded, ← hbehind i]
    exact .along fun scope hscope => (hstands scope hscope).of_extends hext
      htracked.recorded.sound
      (htracked.recorded.path.pos_of_mem htracked.recorded.sound hscope).2
  | live inner c j depth directive hscopes hsite hnot =>
    obtain ⟨hsite', hnot', hsameBelow⟩ := htracked.live_extends hext hapart hout
      hscopes hsite hnot
    rw [View.passes_live, List.append_nil, ← hsameBelow]
    exact .live inner c j depth directive hscopes hsite' hnot'

/-- One line takes the place of an include directive, and waits. -/
theorem put (h : Reckoned source k r v lines) (hidle : r.Idle)
    (hlines : r.scope.lines = line :: rest) {d : Include}
    (hkind : LineKind.ofLine line = .directive d) (text : String) {r' : Reader}
    (hlook : r'.lookAhead = 1) (hafter : r'.scope.lines = text :: rest)
    (hlineno : r'.cursor.lineno = r.cursor.lineno) (houter : r'.outer = r.outer) (depth : Int) :
    Reckoned source (k.observeAll [r.found d, .includeResolved (.replaced text depth)]) r' v.hold
      (lines ++ v.passes [text]) := by
  have hview : v.hold = if v = .live then .live else .held := by cases v <;> rfl
  have hnone : AreEnds r.includeDepth [] := fun e he => by cases he
  rw [hview]
  exact h.attach hidle hlines hkind hnone (.replaced text depth) [text] (fun _ => rfl) r' 0 .held
    (fun _ => rfl) fun htracked =>
      htracked.put hidle hlines hkind text hlook hafter hlineno houter depth

/-- An include directive vanishes. -/
theorem vanish (h : Reckoned source k r v lines) (hidle : r.Idle)
    (hlines : r.scope.lines = line :: rest) {d : Include}
    (hkind : LineKind.ofLine line = .directive d) {ends : List Event}
    (hends : AreEnds r.includeDepth ends) (frame : Nat) (depth : Int) :
    Reckoned source (k.observeAll (r.found d :: ends ++ [.includeResolved (.vanished depth)]))
      { r.shifted with frame } v.next lines := by
  have hview : v.next = if v = .live then .live else .raw := by cases v <;> rfl
  have hnothing : v.passes [] = [] := by cases v <;> rfl
  have hattached := h.attach hidle hlines hkind hends (.vanished depth) [] (fun _ => rfl)
    { r.shifted with frame } 1 .raw (fun _ => rfl) fun htracked =>
      htracked.vanish hidle hlines hkind hends frame depth
  rw [hview]
  rwa [hnothing, List.append_nil] at hattached

/-- An include is entered. One that is the text of a conditional of the document has no place. -/
theorem enter (h : Reckoned source k r v lines) (hidle : r.Idle)
    (hlines : r.scope.lines = line :: rest) {d : Include}
    (hkind : LineKind.ofLine line = .directive d) {ends : List Event}
    (hends : AreEnds r.includeDepth ends) (content : List String) (cursor : Cursor) (frame : Nat)
    (hhome : v = .text → r.outer = []) :
    Reckoned source (k.observeAll (r.found d :: ends ++
        [.includeResolved (.entered content (cursor.lineno + frame) frame (r.includeDepth + 1))]))
      (r.shifted.entered content cursor frame) v.enter lines := by
  obtain ⟨out, i, v₀, htracked, hreached⟩ := h
  obtain ⟨-, -, hfront⟩ := htracked.front hidle hlines
  have hoffset : (cursor.lineno + frame : Int) - 1 - frame = cursor.lineno - 1 := by omega
  obtain ⟨-, hyielded⟩ := htracked.recorded_enter hidle hlines content (cursor.lineno - 1)
  have hext := extends_attach source htracked.recorded.lt_size line content (cursor.lineno - 1)
    (i := i)
  obtain ⟨hapart, -, hpassed⟩ := htracked.attach hidle hlines hkind content (cursor.lineno - 1)
    (fun _ _ => rfl)
  refine ⟨out, 0, .raw, htracked.enter hidle hlines hkind hends content cursor frame, ?_⟩
  rw [Tracker.observeAll_resolved htracked.pending htracked.recorded.path htracked.lineno d hends,
    LineKind.line_of_directive hkind]
  simp only [Tracker.including, hoffset]
  have hsite := k.tree.siteOf?_attach_self k.active i line content (cursor.lineno - 1)
  cases hreached with
  | along hstands =>
    rcases hfront with ⟨rfl, hline⟩ | ⟨rfl, -, -, c, original, hline, hconditional⟩
    · -- the include stands where its directive was
      simp only [View.behind, View.enter]
      rw [← hyielded]
      refine .along fun scope hscope => ?_
      rcases List.mem_cons.mp hscope with rfl | hscope
      · exact (htracked.attach_stands_iff hidle hlines hkind content (cursor.lineno - 1)).mpr rfl
      · exact (hstands scope hscope).of_extends hext htracked.recorded.sound
          (htracked.recorded.path.pos_of_mem htracked.recorded.sound hscope).2
    · -- it is the text of a conditional of the document, which stays
      obtain ⟨hactive, hscopes, -⟩ := htracked.document (hhome rfl)
      simp only [View.behind, View.passes, List.append_nil] at hpassed ⊢
      rw [← hpassed, hscopes, hactive]
      simp only [Tree.yieldedTo, Tree.before, List.nil_append, View.enter]
      have hnot := htracked.not_stands hidle hlines hkind content (cursor.lineno - 1)
      rw [hactive] at hsite hnot
      exact .live [] k.tree.size i (r.includeDepth + 1) line rfl hsite hnot
  -- the conditional that the file belongs to stays a line of the document
  | live inner c j depth directive hscopes hsite' hnot =>
    obtain ⟨hsite'', hnot', hsameBelow⟩ := htracked.live_extends hext hapart (fun _ _ => rfl)
      hscopes hsite' hnot
    rw [← hsameBelow]
    exact .live (⟨k.tree.size, r.outer.length + 1⟩ :: inner) c j depth directive
      (by rw [hscopes]; rfl) hsite'' hnot'

/-! ### Ends -/

/-- Reading goes on in the scope around the innermost one. -/
theorem leave (h : Reckoned source k r v lines) (hidle : r.Idle) (hlines : r.scope.lines = [])
    {scope : Scope} {outer : List Scope} (houter : r.outer = scope :: outer) :
    Reckoned source (k.onScopeEnd outer.length) { r with scope, outer, lookAhead := 0 }
      (v.leave outer) lines := by
  obtain ⟨out, i, v₀, htracked, hreached⟩ := h
  obtain ⟨rfl, -⟩ := htracked.raw_of_nil hlines
  obtain ⟨p, j, directive, scopes, hscopes, hsite, haround⟩ := htracked.innermost houter
  refine ⟨_, j + 1, .raw, htracked.leave hidle houter hscopes hsite, ?_⟩
  rw [Tracker.onScopeEnd_plain htracked.recorded.sound hsite hscopes (by omega)
    htracked.openSkips]
  have hrecorded := htracked.recorded
  rw [houter, hscopes] at hrecorded
  obtain ⟨-, -, hbelow, hlt, -⟩ := hrecorded.leave hsite
  cases hreached with
  | along hstands => exact htracked.reached_leave hlines houter hscopes hsite hstands
  | live inner c' j' depth directive' hinner hsite' hnot =>
    rw [hscopes] at hinner
    cases inner with
    | nil =>
      -- the include without a place is the one that ends
      simp only [List.nil_append, List.cons.injEq, TrackedScope.mk.injEq] at hinner
      obtain ⟨⟨rfl, -⟩, rfl⟩ := hinner
      obtain ⟨rfl, rfl, rfl⟩ := Tree.site_inj hsite hsite'
      obtain rfl : outer = [] := List.eq_nil_of_length_eq_zero haround.length_eq.symm
      exact htracked.reached_leave_home hsite' hnot hlt hbelow
    | cons first inner =>
      -- an include inside of it ends
      simp only [List.cons_append, List.cons.injEq] at hinner
      obtain ⟨-, rfl⟩ := hinner
      have hne : outer ≠ [] := by
        rintro rfl
        have := haround.length_eq
        simp at this
      have hpos := haround.pos_of_ne_nil htracked.recorded.sound (by simp)
      have hview : View.live.leave outer = .live := by simp [View.leave, hne]
      rw [hview]
      exact Tracked.reached_leave_live rfl hsite hpos hsite' hnot

/-- At the end of the document the tree yields what was reckoned. -/
theorem finish (h : Reckoned source k r v lines) (hlines : r.scope.lines = [])
    (houter : r.outer = []) :
    ∃ out, Recorded k.tree source out 0 [] [] ∧ k.tree.yields source out 0 = lines := by
  obtain ⟨out, i, v₀, htracked, hreached⟩ := h
  obtain ⟨hactive, hscopes, hrecorded⟩ := htracked.document houter
  refine ⟨out, hrecorded, ?_⟩
  cases hreached with
  | along =>
    cases htracked.facing with
    | raw _ hraw =>
      have hle := List.drop_eq_nil_iff.mp (hraw.symm.trans hlines)
      rw [hactive] at hle
      rw [hscopes, hactive]
      simp only [Tree.yieldedTo, Tree.before, List.nil_append, View.behind]
      exact (k.tree.yieldsBelow_of_le source out hle).symm
    | text _ _ _ _ _ _ _ htext | held _ _ _ _ htext =>
      rw [hlines] at htext
      cases htext
  | live inner c j depth directive hinner =>
    rw [hscopes] at hinner
    simp at hinner

end Reckoned

/-- Before anything is read, reading is at the first line. -/
theorem tracked_start (source : List String) (file : Option String) (dir path : String) :
    Tracked source (.start true) (.start source file dir path) (fun _ => []) 0 .raw := by
  obtain ⟨hrecorded, hclear⟩ := recorded_empty source fun _ => []
  have hdropless : Tree.empty.Dropless := by
    intro id
    cases id with
    | zero => rfl
    | succ id => simp [Tree.dropsOf, Tree.node?, Tree.empty]
  exact
    { preserve := rfl
      pending := rfl
      openSkips := rfl
      dropless := hdropless
      recorded := hrecorded
      lineno := rfl
      facing := .raw ⟨rfl, rfl⟩ rfl hclear }

/-- Before anything is read nothing is reckoned. -/
theorem reckoned_start (source : List String) (file : Option String) (dir path : String) :
    Reckoned source (.start true) (.start source file dir path) .raw [] := by
  refine ⟨fun _ => [], 0, .raw, tracked_start source file dir path, ?_⟩
  have hnothing : Tree.empty.yieldedTo source (fun _ => []) [] 0 0 = [] := by
    simp [Tree.yieldedTo, Tree.before, Tree.yieldsBelow_zero]
  rw [← hnothing]
  exact .along fun scope hscope => by cases hscope

end Replacement

end DocFlatten
