import DocFlatten.Proofs.Loading
import DocFlatten.Proofs.Preserving

/-! # Sessions that leave conditionals as they are

What a session has yielded with its conditionals left as they are only grows while it reads
(`Reckons.look`), as long as every include that finds no place belongs to the document. Otherwise the
recorded tree shows for good that one does not (`Tree.Strayed`).

* `Grows`: a tree to which nodes were attached;
* `Shown`: a node whose lines come into the result;
* `Session.Reckons`: the account of a session, with one lemma for each outcome of a look.
-/

namespace DocFlatten.Replacement

/-! ## Trees that grow -/

/-- A tree to which nodes were attached. -/
structure Grows (t t' : Tree) (source : List String) : Prop where
  size : t.size ≤ t'.size
  site : ∀ c < t.size, t'.siteOf? c = t.siteOf? c
  lines : ∀ c < t.size, t'.linesOf source c = t.linesOf source c
  drops : ∀ c < t.size, t'.dropsOf c = t.dropsOf c

/-- The lines of a node come into the result: it is the document, or it stands in its place in a
node whose lines do. -/
inductive Shown (t : Tree) (source : List String) : Nat → Prop where
  | document : Shown t source 0
  | within {c : Nat} {s : Site} (hsite : t.siteOf? c = some s) (hlt : s.parent < c)
      (hstands : Stands t source c) (h : Shown t source s.parent) : Shown t source c

/-- An include that finds no place, in an include whose lines come into the result. -/
def Tree.Strayed (t : Tree) (source : List String) : Prop :=
  ∃ c s, t.siteOf? c = some s ∧ s.parent < c ∧ s.parent ≠ 0 ∧ Shown t source s.parent ∧
    ¬ Stands t source c

/-! Whether includes stray can be computed. -/

namespace Tree

variable {t : Tree} {source : List String} {c : Nat}

/-- Whether the include with a number can be put in its place. -/
def isStanding (t : Tree) (source : List String) (c : Nat) : Bool :=
  (t.siteOf? c).any fun s => decide (0 ≤ s.position) &&
    ((t.linesOf source s.parent)[s.position.toNat]?).any fun line =>
      standsAt (t.dropsOf s.parent) s.position line s.directive

/-- Whether a directive stands can be computed. -/
theorem isStanding_iff : t.isStanding source c = true ↔ Stands t source c := by
  unfold isStanding Stands
  constructor
  · intro h
    rw [Option.any_eq_true] at h
    rcases h with ⟨⟨p, position, directive⟩, hsite, h⟩
    rw [Bool.and_eq_true, decide_eq_true_eq, Option.any_eq_true] at h
    rcases h with ⟨hpos, line, hline, hstands⟩
    obtain ⟨i, rfl⟩ := Int.eq_ofNat_of_zero_le hpos
    exact ⟨p, i, directive, line, hsite, hline, hstands⟩
  · rintro ⟨p, i, directive, line, hsite, hline, hstands⟩
    simp [hsite, hline, hstands]

instance : Decidable (Stands t source c) :=
  decidable_of_iff _ isStanding_iff

/-- Whether the lines of a node come into the result, looking at no more than `fuel` nodes. -/
def isShown (t : Tree) (source : List String) : (fuel : Nat) → Nat → Bool
  | 0, c => c == 0
  | fuel + 1, c => c == 0 || (t.siteOf? c).any fun s =>
      decide (s.parent < c) && t.isStanding source c && isShown t source fuel s.parent

/-- Whether a node is shown can be computed with enough fuel. -/
theorem isShown_iff {fuel : Nat} (hfuel : c ≤ fuel) :
    t.isShown source fuel c = true ↔ Shown t source c := by
  induction fuel generalizing c with
  -- only the document is left
  | zero =>
    obtain rfl : c = 0 := by omega
    exact iff_of_true rfl .document
  | succ fuel ih =>
    unfold isShown
    constructor
    · intro h
      rw [Bool.or_eq_true, beq_iff_eq, Option.any_eq_true] at h
      rcases h with rfl | ⟨s, hsite, h⟩
      · exact .document
      · -- the parent is shown, and the directive stands in it
        simp only [Bool.and_eq_true, decide_eq_true_eq] at h
        rcases h with ⟨⟨hlt, hstands⟩, hshown⟩
        exact .within hsite hlt (isStanding_iff.mp hstands) ((ih (by omega)).mp hshown)
    · intro h
      cases h with
      -- the document itself
      | document => rfl
      -- a node within a node that is shown
      | within hsite hlt hstands hshown =>
        have hshown' := (ih (by omega)).mpr hshown
        simp [hsite, hlt, isStanding_iff.mpr hstands, hshown']

instance : Decidable (Shown t source c) :=
  decidable_of_iff _ (isShown_iff (Nat.le_refl c))

instance : Decidable (t.Strayed source) :=
  decidable_of_iff
    (∃ c ∈ List.range t.size, (t.siteOf? c).any (fun s => decide (s.parent < c ∧ s.parent ≠ 0 ∧
      Shown t source s.parent ∧ ¬ Stands t source c)) = true)
    (by
      unfold Strayed
      constructor
      · rintro ⟨c, -, h⟩
        rw [Option.any_eq_true] at h
        rcases h with ⟨s, hsite, h⟩
        exact ⟨c, s, hsite, of_decide_eq_true h⟩
      · rintro ⟨c, s, hsite, h⟩
        refine ⟨c, List.mem_range.mpr (siteOf?_lt hsite), ?_⟩
        rw [hsite]
        exact decide_eq_true h)

end Tree

namespace Grows

variable {t t' : Tree} {source : List String} {c : Nat} {s : Site}

theorem refl (t : Tree) (source : List String) : Grows t t source :=
  ⟨Nat.le_refl _, fun _ _ => rfl, fun _ _ => rfl, fun _ _ => rfl⟩

theorem trans {u : Tree} (h : Grows t t' source) (h' : Grows t' u source) : Grows t u source where
  size := Nat.le_trans h.size h'.size
  site c hc := (h'.site c (Nat.lt_of_lt_of_le hc h.size)).trans (h.site c hc)
  lines c hc := (h'.lines c (Nat.lt_of_lt_of_le hc h.size)).trans (h.lines c hc)
  drops c hc := (h'.drops c (Nat.lt_of_lt_of_le hc h.size)).trans (h.drops c hc)

/-- A tree grows with the node that is attached. -/
theorem attach (t : Tree) (source : List String) (parent : Nat) (position : Int)
    (directive : String) (lines : List String) (offset : Int) :
    Grows t (t.attach parent position directive lines offset) source where
  size := by
    rw [Tree.size_attach]
    omega
  site _ hc := t.siteOf?_attach_of_lt _ _ _ _ _ hc
  lines _ hc := t.linesOf_attach_of_lt _ _ _ _ _ source hc
  drops _ hc := t.dropsOf_attach_of_lt _ _ _ _ _ hc

/-- Whether an include stands is settled once it is attached. -/
theorem stands_iff (h : Grows t t' source) (hsite : t.siteOf? c = some s) (hlt : s.parent < c) :
    Stands t' source c ↔ Stands t source c := by
  have hc := Tree.siteOf?_lt hsite
  have hp : s.parent < t.size := Nat.lt_trans hlt hc
  constructor
  · rintro ⟨p, i, directive, line, hsite', hline, hstands⟩
    rw [h.site c hc, hsite] at hsite'
    cases hsite'
    exact ⟨p, i, directive, line, hsite, (h.lines p hp) ▸ hline, (h.drops p hp) ▸ hstands⟩
  · rintro ⟨p, i, directive, line, hsite', hline, hstands⟩
    rw [hsite] at hsite'
    cases hsite'
    refine ⟨p, i, directive, line, (h.site c hc).trans hsite, ?_, ?_⟩
    · rw [h.lines p hp]
      exact hline
    · rw [h.drops p hp]
      exact hstands

/-- A node that is shown is shown in the grown tree. -/
theorem shown (h : Grows t t' source) (hc : Shown t source c) : Shown t' source c := by
  induction hc with
  | document => exact .document
  | within hsite hlt hstands _ ih =>
    exact .within ((h.site _ (Tree.siteOf?_lt hsite)).trans hsite) hlt
      ((h.stands_iff hsite hlt).mpr hstands) ih

/-- A tree that has strayed has strayed in the grown one. -/
theorem strayed (h : Grows t t' source) (hstrayed : t.Strayed source) : t'.Strayed source := by
  rcases hstrayed with ⟨c, s, hsite, hlt, hne, hshown, hnot⟩
  refine ⟨c, s, (h.site c (Tree.siteOf?_lt hsite)).trans hsite, hlt, hne, h.shown hshown, ?_⟩
  rwa [h.stands_iff hsite hlt]

end Grows

namespace Tracker

/-- A tracker that leaves conditionals as they are only attaches nodes. -/
theorem grows_observe {k : Tracker} (h : k.preserve = true) (e : Event) (source : List String) :
    (k.observe e).1.preserve = true ∧ Grows k.tree (k.observe e).1.tree source := by
  cases e with
  | conditional e =>
    rw [observe_conditional h]
    exact ⟨h, .refl _ _⟩
  | includeFound e => exact ⟨h, .refl _ _⟩
  | includeResolved o =>
    simp only [observe, onResolved]
    split
    · exact ⟨h, .refl _ _⟩
    · cases o <;> exact ⟨h, .attach ..⟩
  | scopeEnd before after =>
    simp only [observe, onScopeEnd, h, if_true]
    split
    · exact ⟨h, .refl _ _⟩
    · split
      · exact ⟨h, .refl _ _⟩
      · split
        · exact ⟨h, .refl _ _⟩
        · exact ⟨rfl, .refl _ _⟩

/-- A tracker that keeps conditionals lets its tree grow. -/
theorem grows_observeAll {k : Tracker} (h : k.preserve = true) (es : List Event)
    (source : List String) :
    (k.observeAll es).preserve = true ∧ Grows k.tree (k.observeAll es).tree source := by
  induction es generalizing k with
  | nil => exact ⟨h, .refl _ _⟩
  | cons e es ih =>
    rcases grows_observe h e source with ⟨hpreserve, hgrows⟩
    rcases ih hpreserve with ⟨hpreserve', hgrows'⟩
    exact ⟨hpreserve', hgrows.trans hgrows'⟩

end Tracker

/-! ## Includes that stray -/

/-- If all scopes around stand in their places, the lines of the node being read come into the
result. -/
theorem Enclosed.shown {t : Tree} {source : List String} {a : Nat} {scopes : List TrackedScope}
    {outer : List Scope} (h : Enclosed t source a scopes outer) (hsound : t.Sound)
    (hstands : ∀ scope ∈ scopes, Stands t source scope.node) : Shown t source a := by
  induction h with
  | document => exact .document
  | inside _ hsite _ _ _ _ ih =>
    exact .within hsite (hsound.parent_lt hsite) (hstands _ List.mem_cons_self)
      (ih fun scope hscope => hstands scope (List.mem_cons_of_mem _ hscope))

/-- An include that is the text of a conditional of an included file strays. -/
theorem Reckoned.strayed {source : List String} {k : Tracker} {r r' : Reader}
    {lines : List String} {line : String} {rest : List String}
    (h : Reckoned source k r .text lines) (hidle : r.Idle) (hlines : r.scope.lines = line :: rest)
    (houter : r.outer ≠ []) {d : Include} (hkind : LineKind.ofLine line = .directive d)
    {es : List Event} (hfollowed : Followed r d es r') :
    (k.observeAll es).tree.Strayed source := by
  rcases h with ⟨out, i, v₀, htracked, hreached⟩
  cases hreached with
  | along hstands =>
    have hpath := htracked.recorded.path
    have hsound := htracked.recorded.sound
    have hscopes : k.scopes ≠ [] := by
      intro hnil
      have hlength := hpath.length_eq
      rw [hnil] at hlength
      exact houter (List.eq_nil_of_length_eq_zero hlength.symm)
    have hpos := hpath.pos_of_ne_nil hsound hscopes
    rcases Tracker.observeAll_followed htracked.pending hpath htracked.lineno hfollowed with
      ⟨o, hobserved⟩
    rcases Tracker.tree_including k i d.line o with ⟨left, offset, htree⟩
    rw [hobserved, htree, LineKind.line_of_directive hkind]
    refine ⟨k.tree.size, _, Tree.siteOf?_attach_self .., htracked.recorded.lt_size,
      Nat.ne_of_gt hpos, ?_, htracked.not_stands hidle hlines hkind left offset⟩
    exact (Grows.attach k.tree source k.active i line left offset).shown
      (hpath.shown hsound hstands)

end DocFlatten.Replacement

namespace DocFlatten.Session

open DocFlatten.Replacement

/-- The tracker of a session keeps conditionals if asked to. -/
theorem preserve_tracker (s : Session) : (s.tracker true).preserve = true := by
  rw [tracker_eq]
  exact (Tracker.grows_observeAll rfl _ []).1

/-! ## The account of a session -/

/-- The account of a session that leaves conditionals as they are. -/
def Reckons (s : Session) (v : View) (lines : List String) : Prop :=
  Reckoned s.doc.sourceLines (s.tracker true) s.reader v lines

/-- After a turn the session reckons what the reader and the tracker do. -/
theorem Turns.reckons {s s' : Session} {r : Reader} {es : List Event} (hturns : Turns s r es s')
    {v : View} {lines : List String}
    (h : Reckoned s.doc.sourceLines ((s.tracker true).observeAll es) r v lines) :
    s'.Reckons v lines := by
  have hsource : s'.doc.sourceLines = s.doc.sourceLines := by rw [hturns.doc]
  unfold Reckons
  rwa [hsource, hturns.tracker, hturns.reader]

namespace Reckons

variable {s s' : Session} {v : View} {lines : List String} {line : String} {rest : List String}

/-- Meeting a line changes nothing that is reckoned. -/
theorem meet (h : s.Reckons v lines) (line : String) : (s.meet line).Reckons v lines := by
  unfold Reckons
  rw [tracker_meet]
  exact h

/-- What a scan edits does not matter. -/
theorem edit (h : s.Reckons v lines) {d : Document} (hreader : d.reader = s.doc.reader)
    (hsource : d.sourceLines = s.doc.sourceLines) :
    ({ s with doc := d } : Session).Reckons v lines := by
  have hr : ({ s with doc := d } : Session).reader = s.reader := hreader
  unfold Reckons
  rw [hr]
  simp only [hsource]
  exact h

/-- Logging changes nothing that is reckoned. -/
theorem log (h : s.Reckons v lines) (record : Log.Record) : (s.log record).Reckons v lines := by
  unfold Reckons
  rw [tracker_log]
  exact h

/-- Taking the line that is held goes on to the next one. -/
theorem take (h : s.Reckons v lines) (hsteady : s.reader.Steady) (hlook : 0 < s.reader.lookAhead) :
    s.takeFront.2.Reckons v.next lines := by
  obtain ⟨line, rest, hfront⟩ := hsteady.exists_front hlook
  unfold Reckons
  rw [doc_takeFront, tracker_takeFront, reader_takeFront]
  exact Reckoned.take h hlook hfront

/-- Leaving a file goes on in the one around it. -/
theorem leave (h : s.Reckons v lines) (hidle : s.reader.Idle) (hlines : s.reader.scope.lines = [])
    {scope : Scope} {outer : List Scope} (houter : s.reader.outer = scope :: outer) :
    s.leave.Reckons (v.leave outer) lines :=
  (turns_leave houter).reckons (Reckoned.leave h hidle hlines houter)

/-! ### Looks -/

section Look

variable (h : s.Reckons v lines) (hidle : s.reader.Idle)
  (hfront : s.reader.scope.lines = line :: rest)

include h hidle hfront

/-- A line that is content waits to be taken. -/
theorem hold {unescape : Bool} (hturns : Turns s { s.reader.hold with unescape } [] s') :
    s'.Reckons v.hold (lines ++ v.passes [line]) :=
  hturns.reckons (Reckoned.hold h hidle hfront unescape)

/-- A line of a skipped region is passed over. -/
theorem pass (hskip : s.reader.skipping = true) (hturns : Turns s s.reader.shifted [] s') :
    s'.Reckons v.next (lines ++ v.passes [line]) :=
  hturns.reckons (Reckoned.pass h hidle hfront (Or.inl hskip) _ _)

/-- A conditional is passed, or leaves its text. -/
theorem conditional {c : Conditional} {consumed : Bool} {r : Reader}
    (hkind : LineKind.ofLine line = .conditional c) (hruled : Ruled s.reader c consumed r)
    (hturns : Turns s (if consumed then r.shifted else r) [c.event s.reader r consumed] s') :
    (consumed = true ∧ s'.Reckons v.next (lines ++ v.passes [line])) ∨
      ∃ text, consumed = false ∧ c.text = some text ∧
        s'.Reckons (v.keep text) (lines ++ v.passes [line]) := by
  have hquiet : (s.tracker true).observeAll [c.event s.reader r consumed] = s.tracker true := by
    simp [Conditional.event, Tracker.observe_conditional s.preserve_tracker]
  have hnot := LineKind.not_include_of_conditional hkind
  have hreckons : ∀ v', Reckoned s.doc.sourceLines (s.tracker true)
      (if consumed then r.shifted else r) v' (lines ++ v.passes [line]) →
      s'.Reckons v' (lines ++ v.passes [line]) := by
    intro v' hreckoned
    exact hturns.reckons (hquiet.symm ▸ hreckoned)
  have hpass := fun conditionals skipping =>
    Reckoned.pass h hidle hfront (Or.inr hnot) conditionals skipping
  cases hruled with
  -- nothing is opened or closed
  | idle => exact Or.inl ⟨rfl, hreckons _ (hpass _ _)⟩
  -- a conditional is opened
  | opened target skip skipping => exact Or.inl ⟨rfl, hreckons _ (hpass _ _)⟩
  -- a conditional is closed
  | closed top open' => exact Or.inl ⟨rfl, hreckons _ (hpass _ _)⟩
  -- a conditional whose line has its text in it
  | kept text hskip htext =>
    exact Or.inr ⟨text, rfl, htext, hreckons _ (Reckoned.keep h hidle hfront hskip hkind text)⟩

/-- An include directive that stays as a line of content waits to be taken. -/
theorem kept {d : Include} (hkind : LineKind.ofLine line = .directive d)
    (hturns : Turns s s.reader.hold
      [s.reader.found d, .includeResolved (.replaced d.line s.reader.includeDepth)] s') :
    s'.Reckons v.hold (lines ++ v.passes [line]) := by
  have hlook : s.reader.hold.lookAhead = 1 := by simp [Reader.hold, hidle.lookAhead]
  refine hturns.reckons ?_
  rw [LineKind.line_of_directive hkind]
  exact Reckoned.put h hidle hfront hkind line hlook hfront rfl rfl s.reader.includeDepth

/-- An include directive that was replaced by one line. -/
theorem replaced {d : Include} (hkind : LineKind.ofLine line = .directive d) (text : String)
    (hturns : Turns s (s.reader.shifted.unshift text)
      [s.reader.found d, .includeResolved (.replaced text s.reader.includeDepth)] s') :
    s'.Reckons v.hold (lines ++ v.passes [text]) := by
  refine hturns.reckons (Reckoned.put h hidle hfront hkind text ?_ ?_ ?_ ?_ _)
  · simp [Reader.unshift, Reader.advance, hidle.lookAhead]
  · simp [Reader.shifted_of_lines hfront, Reader.unshift, Reader.advance]
  · simp only [Reader.shifted_of_lines hfront, Reader.unshift, Reader.advance, Reader.cursor]
    omega
  · simp [Reader.unshift, Reader.advance]

/-- What follows of an include directive that is followed. Unless it strays, the lines that were
yielded are the same, or one line was yielded in its place. -/
theorem followed {d : Include} {es : List Event} {r : Reader}
    (hkind : LineKind.ofLine line = .directive d) (hfollowed : Followed s.reader d es r)
    (hturns : Turns s r es s') :
    (s'.tracker true).tree.Strayed s'.doc.sourceLines ∨
      ∃ v' left, s'.Reckons v' (lines ++ left) := by
  by_cases hhome : v = .text → s.reader.outer = []
  · right
    cases hfollowed with
    -- the directive stays
    | kept => exact ⟨_, _, kept h hidle hfront hkind hturns⟩
    -- nothing comes in its place
    | gone ends frame hends =>
      refine ⟨v.next, [], hturns.reckons ?_⟩
      rw [List.append_nil]
      exact Reckoned.vanish h hidle hfront hkind hends frame s.reader.includeDepth
    -- a line comes in its place
    | replaced text => exact ⟨_, _, replaced h hidle hfront hkind text hturns⟩
    -- the file is entered
    | entered content cursor frame ends _ hends =>
      refine ⟨v.enter, [], hturns.reckons ?_⟩
      rw [List.append_nil]
      exact Reckoned.enter h hidle hfront hkind hends content cursor frame hhome
  · -- the text of a conditional that is not one of the document
    left
    rcases Classical.not_imp.mp hhome with ⟨rfl, houter⟩
    have hsource : s'.doc.sourceLines = s.doc.sourceLines := by rw [hturns.doc]
    rw [hsource, hturns.tracker]
    exact Reckoned.strayed h hidle hfront houter hkind hfollowed

end Look

end Reckons

end DocFlatten.Session
