import DocFlatten.Proofs.Looking
import DocFlatten.Proofs.Preserving

/-! # One reader inside of includes, one outside

A document with includes is read in nested scopes; the lines that it yields are read in one scope. A
reader of the one and a reader of the other have the same line in front whenever that line is
yielded, and inside of an include that has no place they are in the same scopes.

* `Reader.Beside`: two readers for which a line means the same;
* `Reader.Mirror`: what is in front of the second reader, by how the first one's line stands to the
  lines that are yielded.
-/

namespace DocFlatten.Reader

open DocFlatten.Replacement DocFlatten.Session DocFlatten.Text

/-! ## The document's scope -/

/-- Where the next line of the document is, seen from inside of all includes. -/
def home (r : Reader) : Cursor :=
  (r.outer.getLastD r.scope).cursor

/-- The document is in the same place if the scopes around are and the cursor is. -/
theorem home_of_same {r r' : Reader} (houter : r'.outer = r.outer)
    (hcursor : r'.cursor.SamePlace r.cursor) : r'.home.SamePlace r.home := by
  unfold home
  rw [houter]
  cases r.outer with
  | nil => exact hcursor
  | cons scope outer => exact ⟨rfl, rfl, rfl⟩

theorem home_shifted (r : Reader) : r.shifted.home.SamePlace r.home :=
  home_of_same (by simp) (samePlace_shifted r)

theorem home_keeping (r : Reader) (text : String) : (r.keeping text).home.SamePlace r.home := by
  unfold keeping
  split
  · exact home_of_same rfl ⟨rfl, rfl, rfl⟩
  · exact home_of_same rfl ⟨rfl, rfl, rfl⟩

/-- Putting a line in front does not move the reader to another place. -/
theorem home_unshift (r : Reader) (text : String) : (r.unshift text).home.SamePlace r.home :=
  home_of_same rfl ⟨rfl, rfl, rfl⟩

/-- A scope that is entered lies within the document. -/
theorem home_entered (r : Reader) (lines : List String) (cursor : Cursor) (frame : Nat) :
    (r.entered lines cursor frame).home = r.home := by
  unfold home entered
  rw [List.getLastD_cons]

/-- Leaving a scope does not leave the document. -/
theorem home_leave {r : Reader} {scope : Scope} {outer : List Scope} (h : r.outer = scope :: outer) :
    ({ r with scope, outer, lookAhead := 0 } : Reader).home = r.home := by
  unfold home
  rw [h, List.getLastD_cons]

/-! ## Readers beside each other -/

/-- Readers for which a line of the document means the same. -/
structure Beside (r r' : Reader) : Prop where
  lookAhead : r'.lookAhead = r.lookAhead
  unescape : r'.unescape = r.unescape
  conditionals : r'.conditionals = r.conditionals
  skipping : r'.skipping = r.skipping
  place : r'.home.SamePlace r.home

namespace Beside

variable {r r' : Reader}

/-- If one reader is idle, so is the other one. -/
theorem idle (h : r.Beside r') (hidle : r.Idle) : r'.Idle :=
  ⟨h.lookAhead.trans hidle.lookAhead, h.unescape.trans hidle.plain⟩

/-- The first reader moves on alone. -/
theorem alone (h : r.Beside r') (hidle : r.Idle) {moved : Reader} (hmoved : moved.Idle)
    (hconditionals : moved.conditionals = r.conditionals) (hskipping : moved.skipping = r.skipping)
    (hplace : moved.home.SamePlace r.home) : moved.Beside r' where
  lookAhead := (h.idle hidle).lookAhead.trans hmoved.lookAhead.symm
  unescape := (h.idle hidle).plain.trans hmoved.plain.symm
  conditionals := h.conditionals.trans hconditionals.symm
  skipping := h.skipping.trans hskipping.symm
  place := h.place.trans hplace.symm

theorem hold (h : r.Beside r') : r.hold.Beside r'.hold where
  lookAhead := congrArg (· + 1) h.lookAhead
  unescape := h.unescape
  conditionals := h.conditionals
  skipping := h.skipping
  place := h.place

theorem escape (h : r.Beside r') :
    Beside { r.hold with unescape := true } { r'.hold with unescape := true } where
  lookAhead := congrArg (· + 1) h.lookAhead
  unescape := rfl
  conditionals := h.conditionals
  skipping := h.skipping
  place := h.place

/-- A line is used up on both sides. -/
theorem shifted (h : r.Beside r') {line line' : String} {rest rest' : List String}
    (hlines : r.scope.lines = line :: rest) (hlines' : r'.scope.lines = line' :: rest') :
    r.shifted.Beside r'.shifted := by
  have hplace := ((home_shifted r').trans h.place).trans (home_shifted r).symm
  rw [shifted_of_lines hlines, shifted_of_lines hlines'] at hplace ⊢
  exact
    { lookAhead := congrArg (· - 1) h.lookAhead
      unescape := rfl
      conditionals := h.conditionals
      skipping := h.skipping
      place := hplace }

theorem keeping (h : r.Beside r') (text : String) : (r.keeping text).Beside (r'.keeping text) := by
  refine ⟨?_, by simpa using h.unescape, by simpa using h.conditionals,
    by simpa using h.skipping, ?_⟩
  · rw [Reader.lookAhead_keeping, Reader.lookAhead_keeping, h.lookAhead]
  · exact ((home_keeping r' text).trans h.place).trans (home_keeping r text).symm

theorem set (h : r.Beside r') (conditionals : List OpenConditional) (skipping : Bool) :
    Beside { r with conditionals, skipping } { r' with conditionals, skipping } :=
  ⟨h.lookAhead, h.unescape, rfl, rfl, h.place⟩

theorem unframed (h : r.Beside r') : Beside { r with frame := 0 } { r' with frame := 0 } :=
  ⟨h.lookAhead, h.unescape, h.conditionals, h.skipping, h.place⟩

/-- A line is put in front on both sides. -/
theorem unshift (h : r.Beside r') (text : String) : (r.unshift text).Beside (r'.unshift text) where
  lookAhead := congrArg (· + 1) h.lookAhead
  unescape := h.unescape
  conditionals := h.conditionals
  skipping := h.skipping
  place := ((home_unshift r' text).trans h.place).trans (home_unshift r text).symm

/-- The first reader has one line in the place of a directive, the second one has that line. -/
theorem put (h : r.Beside r') (hidle : r.Idle) {line : String} {rest : List String}
    (hlines : r.scope.lines = line :: rest) (text : String) :
    (r.shifted.unshift text).Beside r'.hold := by
  have hplace := h.place.trans ((home_unshift r.shifted text).trans (home_shifted r)).symm
  rw [shifted_of_lines hlines] at hplace ⊢
  exact
    { lookAhead := by
        simp [Reader.hold, Reader.unshift, advance, hidle.lookAhead, (h.idle hidle).lookAhead]
      unescape := (h.idle hidle).plain
      conditionals := h.conditionals
      skipping := h.skipping
      place := hplace }

/-- A file is entered on both sides. -/
theorem entered (h : r.Beside r') (lines : List String) (cursor : Cursor) (frame : Nat) :
    (r.entered lines cursor frame).Beside (r'.entered lines cursor frame) where
  lookAhead := rfl
  unescape := h.unescape
  conditionals := h.conditionals
  skipping := h.skipping
  place := by
    rw [home_entered, home_entered]
    exact h.place

/-- A scope is left on both sides. -/
theorem leave (h : r.Beside r') {scope scope' : Scope} {outer outer' : List Scope}
    (houter : r.outer = scope :: outer) (houter' : r'.outer = scope' :: outer') :
    Beside { r with scope, outer, lookAhead := 0 }
      { r' with scope := scope', outer := outer', lookAhead := 0 } where
  lookAhead := rfl
  unescape := h.unescape
  conditionals := h.conditionals
  skipping := h.skipping
  place := by
    rw [home_leave houter, home_leave houter']
    exact h.place

end Beside

/-! ## Mirrored readers -/

/-- What is in front of a reader of given lines, `n` of which are behind, while another reader has
yielded these and is inside of includes: the next one of the lines, or the text that is in front of
the other reader as well. Inside of an include that has no place both are in the same scopes. -/
inductive Mirror (target : List String) (n : Nat) (r r' : Reader) : View → Prop where
  | raw (houter : r'.outer = []) (hlines : r'.scope.lines = target.drop n) :
    Mirror target n r r' .raw
  | front (v : View) (text : String) (rest : List String) (hview : v = .text ∨ v = .held)
      (houter : r'.outer = []) (hfront : r.scope.lines = text :: rest)
      (hlines : r'.scope.lines = text :: target.drop n) : Mirror target n r r' v
  | live (inner : List Scope) (root root' : Scope) (hscope : r'.scope = r.scope)
      (houter : r.outer = inner ++ [root]) (houter' : r'.outer = inner ++ [root'])
      (hlines : root'.lines = target.drop n) : Mirror target n r r' .live

namespace Mirror

variable {target : List String} {n : Nat} {r r' : Reader} {v : View}

/-- If one reader is steady, so is the other one. -/
theorem steady (h : Mirror target n r r' v) (hbeside : r.Beside r') (hsteady : r.Steady)
    (hraw : v = .raw → r.Idle) : r'.Steady := by
  rcases hsteady with hidle | ⟨hone, hne⟩
  · exact Or.inl (hbeside.idle hidle)
  · refine Or.inr ⟨hbeside.lookAhead.trans hone, ?_⟩
    cases h with
    | raw =>
      have := (hraw rfl).lookAhead
      omega
    | front v text rest hview houter hfront hlines => simp [hlines]
    | live inner root root' hscope => rwa [hscope]

/-- What readers have besides their scopes does not matter. -/
theorem of_scopes (h : Mirror target n r r' v) {q q' : Reader} (hscope : q.scope = r.scope)
    (houter : q.outer = r.outer) (hscope' : q'.scope = r'.scope) (houter' : q'.outer = r'.outer) :
    Mirror target n q q' v := by
  cases h with
  | raw hend hlines => exact .raw (houter'.trans hend) (hscope' ▸ hlines)
  | front v text rest hview hend hfront hlines =>
    exact .front v text rest hview (houter'.trans hend) (hscope ▸ hfront) (hscope' ▸ hlines)
  | live inner root root' hsame hinner hinner' hlines =>
    exact .live inner root root' (by rw [hscope', hscope, hsame]) (houter.trans hinner)
      (houter'.trans hinner') hlines

/-- In the same scope the same lines follow the one in front. -/
theorem rest_eq {line : String} {rest rest' : List String} (hscope : r'.scope = r.scope)
    (hfront : r.scope.lines = line :: rest) (hfront' : r'.scope.lines = line :: rest') :
    rest = rest' := by
  rw [hscope, hfront, List.cons.injEq] at hfront'
  exact hfront'.2

section

variable {line : String} {rest rest' : List String} (h : Mirror target n r r' v)
  (hfront : r.scope.lines = line :: rest) (hfront' : r'.scope.lines = line :: rest')

include h hfront hfront'

/-- Both readers hold the line in front. -/
theorem hold (unescape unescape' : Bool) : Mirror target (n + (v.passes [line]).length)
    { r.hold with unescape } { r'.hold with unescape := unescape' } v.hold := by
  cases h with
  | raw houter hlines =>
    rcases of_drop_eq_cons (hlines.symm.trans hfront') with ⟨-, rfl⟩
    exact .front .held line rest (Or.inr rfl) houter hfront hfront'
  | front v text after hview houter htext hlines =>
    rcases hview with rfl | rfl
    · exact .front .held text after (Or.inr rfl) houter htext hlines
    · exact .front .held text after (Or.inr rfl) houter htext hlines
  | live inner root root' hscope houter houter' hlines =>
    exact .live inner root root' hscope houter houter' hlines

/-- Both readers take the line in front. -/
theorem shifted : Mirror target (n + (v.passes [line]).length) r.shifted r'.shifted v.next := by
  rw [shifted_of_lines hfront, shifted_of_lines hfront']
  cases h with
  | raw houter hlines =>
    rcases of_drop_eq_cons (hlines.symm.trans hfront') with ⟨-, rfl⟩
    exact .raw houter rfl
  | front v text after hview houter htext hlines =>
    rw [hfront', List.cons.injEq] at hlines
    rcases hlines with ⟨-, rfl⟩
    rcases hview with rfl | rfl
    · exact .raw houter rfl
    · exact .raw houter rfl
  | live inner root root' hscope houter houter' hlines =>
    obtain rfl := rest_eq hscope hfront hfront'
    refine .live inner root root' ?_ houter houter' hlines
    simp only [cursor, hscope]

/-- Both readers have the text of a conditional in front. -/
theorem keeping (text : String) : Mirror target (n + (v.passes [line]).length) (r.keeping text)
    (r'.keeping text) (v.keep text) := by
  -- in front of the lines that are left, the text looks like an include directive or waits
  have hfronts : ∀ n, r'.outer = [] → rest' = target.drop n → ∀ v, v = .text ∨ v = .held →
      Mirror target n (r.keeping text) (r'.keeping text) v := by
    intro n houter hrest v hview
    refine .front v (stripEnd text) rest hview ((r'.outer_keeping text).trans houter) ?_ ?_
    · rw [Reader.scope_keeping, hfront]
      rfl
    · rw [Reader.scope_keeping, hfront', ← hrest]
      rfl
  have hview : v ≠ .live → v.keep text = .text ∨ v.keep text = .held := by
    intro hlive
    unfold View.keep
    split
    · exact absurd rfl hlive
    · split
      · exact Or.inl rfl
      · exact Or.inr rfl
  cases h with
  | raw houter hlines =>
    rcases of_drop_eq_cons (hlines.symm.trans hfront') with ⟨-, hrest⟩
    exact hfronts (n + 1) houter hrest _ (hview (by simp))
  | front v text' after hkind houter htext hlines =>
    rw [hfront', List.cons.injEq] at hlines
    rcases hkind with rfl | rfl
    · exact hfronts n houter hlines.2 _ (hview (by simp))
    · exact hfronts n houter hlines.2 _ (hview (by simp))
  | live inner root root' hscope houter houter' hlines =>
    refine .live inner root root' ?_ ((r.outer_keeping text).trans houter)
      ((r'.outer_keeping text).trans houter') hlines
    rw [Reader.scope_keeping, Reader.scope_keeping, hscope]

/-- Both readers have a line in the place of an include directive. -/
theorem unshift (hview : v = .text ∨ v = .live) (text : String) :
    Mirror target n (r.shifted.unshift text) (r'.shifted.unshift text) v.hold := by
  rw [shifted_of_lines hfront, shifted_of_lines hfront']
  cases h with
  | raw => simp at hview
  | front v text' after hkind houter htext hlines =>
    rw [hfront', List.cons.injEq] at hlines
    rcases hlines with ⟨-, rfl⟩
    rcases hkind with rfl | rfl
    · exact .front .held text rest (Or.inr rfl) houter rfl rfl
    · simp at hview
  | live inner root root' hscope houter houter' hlines =>
    obtain rfl := rest_eq hscope hfront hfront'
    refine .live inner root root' ?_ houter houter' hlines
    simp only [Reader.unshift, advance, cursor, hscope]

/-- Both readers enter the same content. -/
theorem entered (hview : v = .text ∨ v = .live) (hhome : v = .text → r.outer = [])
    (lines : List String) (cursor : Cursor) (frame : Nat) :
    Mirror target n (r.shifted.entered lines cursor frame) (r'.shifted.entered lines cursor frame)
      .live := by
  have hshifted := h.shifted hfront hfront'
  cases h with
  | raw => simp at hview
  | front v text' after hkind houter htext hlines =>
    -- a directive that is the text of a conditional of the document
    rcases hkind with rfl | rfl
    · cases hshifted with
      | raw _ hleft =>
        refine .live [] r.shifted.scope r'.shifted.scope rfl ?_ ?_ hleft
        · simp [Reader.entered, hhome rfl]
        · simp [Reader.entered, houter]
      | front _ _ _ hkind' => simp [View.next] at hkind'
    · simp at hview
  -- a directive of an included file: the scope around is one more inside
  | live inner root root' hscope houter houter' hlines =>
    refine .live (r.shifted.scope :: inner) root root' rfl ?_ ?_ hlines
    · simp [Reader.entered, houter]
    · have hsame : r'.shifted.scope = r.shifted.scope := by
        cases hshifted with
        | live _ _ _ hsame => exact hsame
        | front _ _ _ hkind' => simp [View.next] at hkind'
      simp [Reader.entered, houter', hsame]

end

/-- Inside of an include that has no place both readers leave a scope. -/
theorem leave (h : Mirror target n r r' .live) {scope : Scope} {outer : List Scope}
    (houter : r.outer = scope :: outer) :
    ∃ scope' outer', r'.outer = scope' :: outer' ∧
      Mirror target n { r with scope, outer, lookAhead := 0 }
        { r' with scope := scope', outer := outer', lookAhead := 0 } (View.live.leave outer) := by
  cases h with
  | front v text rest hview => simp at hview
  | live inner root root' hscope hinner hinner' hlines =>
    rw [hinner] at houter
    cases inner with
    | nil =>
      -- the document goes on
      rw [List.nil_append, List.cons.injEq] at houter
      rcases houter with ⟨rfl, rfl⟩
      exact ⟨root', [], hinner', .raw rfl hlines⟩
    | cons first inner =>
      rw [List.cons_append, List.cons.injEq] at houter
      rcases houter with ⟨rfl, rfl⟩
      have hview : View.live.leave (inner ++ [root]) = .live := by
        simp [View.leave]
      rw [hview]
      exact ⟨first, inner ++ [root'], hinner', .live inner root root' rfl rfl rfl hlines⟩

end Mirror

end DocFlatten.Reader
