import DocFlatten.Condition
import DocFlatten.Proofs.References
import Mathlib.Data.String.Basic

/-! # Comparing texts in quotes

A condition can compare two texts that stand in double quotes. The expression is cut at the first
operator in it, and nothing tells an operator between the operands from one inside of the first operand.

* `Comparison.Relates`: what a comparison says of two texts; `quotedComparison`: how it is written;
* `HasOperator`: an operator occurs in a text;
* `splitExpression?_quoted`: if none occurs in the first operand, the expression is cut between the
  operands, whatever the second one is;
* `exists_split`: otherwise it is cut inside of the first operand, whatever comes behind it.

So the condition is decided as it is written for all second operands exactly if no operator occurs in
the first one (`quoted_comparison_decided`); `quoted_operator_splits` is a text that does not even equal
itself.
-/

namespace DocFlatten.Condition

open DocFlatten.Text DocFlatten.Number

/-! ## Comparisons as they are meant and written -/

/-- What a comparison says of two texts, which are ordered by their code points. -/
def Comparison.Relates : Comparison → String → String → Prop
  | .eq, s, t => s = t
  | .ne, s, t => s ≠ t
  | .lt, s, t => s < t
  | .le, s, t => s ≤ t
  | .gt, s, t => t < s
  | .ge, s, t => t ≤ s

instance (c : Comparison) (s t : String) : Decidable (c.Relates s t) :=
  match c with
  | .eq => inferInstanceAs (Decidable (s = t))
  | .ne => inferInstanceAs (Decidable (s ≠ t))
  | .lt => inferInstanceAs (Decidable (s < t))
  | .le => inferInstanceAs (Decidable (s ≤ t))
  | .gt => inferInstanceAs (Decidable (t < s))
  | .ge => inferInstanceAs (Decidable (t ≤ s))

/-- How a comparison is written. -/
def Comparison.spelling : Comparison → List Char
  | .eq => ['=', '=']
  | .ne => ['!', '=']
  | .lt => ['<']
  | .le => ['<', '=']
  | .gt => ['>']
  | .ge => ['>', '=']

/-- A text that is an operand by itself if it stands in double quotes: it has no such quotes, refers to
no attributes and is in one line. -/
structure IsLiteral (cs : List Char) : Prop where
  unquoted : '"' ∉ cs
  unbraced : '\x7b' ∉ cs
  oneLine : '\n' ∉ cs

/-- A blank that can stand beside an operator. -/
def IsSpacing (c : Char) : Prop :=
  isBlank c = true ∧ c ≠ '\n'

/-- A comparison of two texts in double quotes, with blanks around the operator. -/
def quotedComparison (s : String) (before : List Char) (c : Comparison) (after : List Char)
    (t : String) : String :=
  String.ofList (('"' :: s.toList ++ '"' :: before) ++
    (c.spelling ++ (after ++ ('"' :: t.toList ++ ['"']))))

/-- A conditional with an expression. -/
def ifeval (text : String) : Conditional :=
  { keyword := .ifeval, target := "", delimiter := none, text := some text }

/-- An operator occurs in a text. -/
def HasOperator (cs : List Char) : Prop :=
  ∃ c : Comparison, c.spelling <:+: cs

/-- A comparison of two texts is decided by their order. -/
theorem holds_compareText (c : Comparison) (s t : String) :
    c.holds (compareText s t) = decide (c.Relates s t) := by
  unfold compareText
  rcases lt_trichotomy s t with h | rfl | h
  · cases c <;> simp [Comparison.holds, Comparison.Relates, h, h.ne, h.le, h.not_gt, h.not_ge]
  · cases c <;> simp [Comparison.holds, Comparison.Relates]
  · cases c <;> simp [Comparison.holds, Comparison.Relates, h, h.ne', h.le, h.not_gt, h.not_ge]

/-! ## The first operator -/

variable {cs more : List Char} {x : Char}

/-- Of a text up to a certain character, only what comes before that character can be a prefix without
it. -/
theorem prefix_append_cons_iff {w : List Char} (hx : x ∉ w) : w <+: cs ++ x :: more ↔ w <+: cs := by
  refine ⟨fun h => ?_, fun h => h.trans (List.prefix_append _ _)⟩
  rcases Nat.lt_or_ge cs.length w.length with hlt | hle
  · have hlonger : cs ++ [x] <+: w :=
      List.prefix_of_prefix_length_le ⟨more, by simp⟩ h (by simpa using Nat.succ_le_of_lt hlt)
    exact absurd (hlonger.subset (by simp)) hx
  · exact List.prefix_of_prefix_length_le h (List.prefix_append _ _) hle

/-- The operators are listed with their spelling. -/
theorem of_mem_operators {entry : List Char × Comparison} (h : entry ∈ operators) :
    entry.1 = entry.2.spelling := by
  simp only [operators, List.mem_cons, List.not_mem_nil, or_false] at h
  rcases h with rfl | rfl | rfl | rfl | rfl | rfl <;> rfl

theorem mem_operators (c : Comparison) : (c.spelling, c) ∈ operators := by
  cases c <;> simp [operators, Comparison.spelling]

/-- A search that succeeds where a test does finds what the first success yields. -/
theorem findSome?_eq_map_find? {α β : Type} {f : α → Option β} {p : α → Bool} {g : α → β} {l : List α}
    (h : ∀ a ∈ l, f a = if p a then some (g a) else none) : l.findSome? f = (l.find? p).map g := by
  induction l with
  | nil => rfl
  | cons a l ih =>
    obtain ⟨ha, hl⟩ := List.forall_mem_cons.mp h
    rw [List.findSome?_cons, List.find?_cons, ha, ih hl]
    cases p a <;> rfl

/-- Which operator stands at the front of a text is decided before the first character that is in no
operator. -/
theorem takeOperator?_append (hx : ∀ c : Comparison, x ∉ c.spelling)
    (hline : '\n' ∉ cs ++ x :: more) :
    takeOperator? (cs ++ x :: more) = (operators.find? fun entry => entry.1.isPrefixOf cs).map
      fun entry => (entry.2, cs.drop entry.1.length ++ x :: more) := by
  refine findSome?_eq_map_find? fun entry hentry => ?_
  have hfront : entry.1.isPrefixOf (cs ++ x :: more) = entry.1.isPrefixOf cs := by
    rw [Bool.eq_iff_iff, List.isPrefixOf_iff_prefix, List.isPrefixOf_iff_prefix]
    exact prefix_append_cons_iff (of_mem_operators hentry ▸ hx entry.2)
  dsimp only
  rw [hfront]
  by_cases hstarts : entry.1.isPrefixOf cs = true
  · have hlength : entry.1.length ≤ cs.length := (List.isPrefixOf_iff_prefix.mp hstarts).length_le
    have hdrop : (cs ++ x :: more).drop entry.1.length = cs.drop entry.1.length ++ x :: more :=
      List.drop_append_of_le_length hlength
    have hrest : '\n' ∉ cs.drop entry.1.length ++ x :: more :=
      fun hmem => hline (List.mem_of_mem_drop (hdrop ▸ hmem))
    rw [hdrop, hstarts]
    simp [hrest]
  · simp [hstarts]

/-- No operator stands in front of a character that is in none. -/
theorem takeOperator?_cons (hx : ∀ c : Comparison, x ∉ c.spelling) (hline : '\n' ∉ x :: more) :
    takeOperator? (x :: more) = none := by
  rw [← List.nil_append (x :: more), takeOperator?_append hx hline]
  rfl

/-- An operator is found where it is written, unless an equals sign makes it a longer one. -/
theorem takeOperator?_spelling {c : Comparison} (hx : x ≠ '=') (hline : '\n' ∉ x :: more) :
    takeOperator? (c.spelling ++ x :: more) = some (c, x :: more) := by
  cases c <;> simp [takeOperator?, operators, Comparison.spelling, hx.symm, hline]

/-- A character at which no operator starts belongs to the left side. -/
theorem splitExpression?_skip (hx : x ≠ '\n') (htake : takeOperator? cs = none) :
    splitExpression? (x :: cs) = (splitExpression? cs).map fun parts => (x :: parts.1, parts.2) := by
  rw [splitExpression?, if_neg (by simpa using hx), htake]

theorem splitExpression?_found {c : Comparison} {rest : List Char} (hx : x ≠ '\n')
    (htake : takeOperator? cs = some (c, rest)) :
    splitExpression? (x :: cs) = some ([x], c, rest) := by
  rw [splitExpression?, if_neg (by simpa using hx), htake]

/-- No operator is spelled with a quote, so quotes end each of them. -/
theorem quote_not_mem_spelling (c : Comparison) : '"' ∉ c.spelling := by
  cases c <;> decide

theorem blank_not_mem_spelling (hx : isBlank x = true) (c : Comparison) : x ∉ c.spelling := by
  intro hmem
  have hall : c.spelling.all (fun d => !isBlank d) = true := by cases c <;> decide
  simpa [hx] using List.all_eq_true.mp hall x hmem

/-- A quoted text without operators is passed over. -/
theorem splitExpression?_literal (hcs : ¬ HasOperator cs) (hx : x ≠ '\n')
    (hline : '\n' ∉ cs ++ '"' :: more) :
    splitExpression? (x :: cs ++ '"' :: more) =
      (splitExpression? ('"' :: more)).map fun parts => (x :: cs ++ parts.1, parts.2) := by
  induction cs generalizing x with
  | nil => exact splitExpression?_skip hx (takeOperator?_cons quote_not_mem_spelling hline)
  | cons d cs ih =>
    -- no operator starts here, or the text would have one
    have hnone : operators.find? (fun entry => entry.1.isPrefixOf (d :: cs)) = none := by
      rw [List.find?_eq_none]
      intro entry hentry hprefix
      refine hcs ⟨entry.2, ?_⟩
      rw [← of_mem_operators hentry]
      exact (List.isPrefixOf_iff_prefix.mp hprefix).isInfix
    have htake : takeOperator? (d :: cs ++ '"' :: more) = none := by
      rw [takeOperator?_append quote_not_mem_spelling hline, hnone]
      rfl
    have hd : d ≠ '\n' := by
      rintro rfl
      exact hline List.mem_cons_self
    -- and none starts further on
    have hrest : ¬ HasOperator cs := by
      rintro ⟨c, hc⟩
      exact hcs ⟨c, hc.trans (List.suffix_cons d cs).isInfix⟩
    rw [List.cons_append, splitExpression?_skip hx htake,
      ih hrest hd fun hmem => hline (List.mem_cons_of_mem d hmem), Option.map_map]
    rfl

/-- Blanks in front of an operator are passed over. -/
theorem splitExpression?_spacing {before : List Char} {c : Comparison} {d : Char}
    (hbefore : ∀ b ∈ before, IsSpacing b) (hx : x ≠ '\n') (hd : d ≠ '=')
    (hline : '\n' ∉ d :: more) :
    splitExpression? (x :: before ++ (c.spelling ++ d :: more)) =
      some (x :: before, c, d :: more) := by
  induction before generalizing x with
  | nil => exact splitExpression?_found hx (takeOperator?_spelling hd hline)
  | cons b before ih =>
    obtain ⟨⟨hblank, hb⟩, hrest⟩ := List.forall_mem_cons.mp hbefore
    have hall : '\n' ∉ b :: (before ++ (c.spelling ++ d :: more)) := by
      have hspelling : '\n' ∉ c.spelling := by cases c <;> decide
      have hspacing : '\n' ∉ before := fun hmem => (hrest _ hmem).2 rfl
      simp only [List.mem_cons, List.mem_append, not_or] at hline ⊢
      exact ⟨hb.symm, hspacing, hspelling, hline⟩
    rw [List.cons_append, List.cons_append,
      splitExpression?_skip hx (takeOperator?_cons (blank_not_mem_spelling hblank) hall),
      ← List.cons_append, ih hrest hb]
    rfl

/-- A text without operators in double quotes is the first operand as a whole. -/
theorem splitExpression?_quoted {before : List Char} {c : Comparison} {d : Char}
    (hcs : ¬ HasOperator cs) (hbefore : ∀ b ∈ before, IsSpacing b) (hd : d ≠ '=')
    (hline : '\n' ∉ ('"' :: cs ++ '"' :: before) ++ (c.spelling ++ d :: more)) :
    splitExpression? (('"' :: cs ++ '"' :: before) ++ (c.spelling ++ d :: more)) =
      some ('"' :: cs ++ '"' :: before, c, d :: more) := by
  simp only [List.append_assoc, List.cons_append, List.mem_cons, List.mem_append, not_or] at hline
  obtain ⟨-, hfront, -, hspacing, hspelling, hrest⟩ := hline
  have hmore : '\n' ∉ d :: more := by simpa using hrest
  have hliteral : '\n' ∉ cs ++ '"' :: (before ++ (c.spelling ++ d :: more)) := by
    simp only [List.mem_append, List.mem_cons, not_or]
    exact ⟨hfront, by decide, hspacing, hspelling, hrest⟩
  have hbehind : ('"' :: cs ++ '"' :: before) ++ (c.spelling ++ d :: more) =
      '"' :: cs ++ '"' :: (before ++ (c.spelling ++ d :: more)) := by simp
  rw [hbehind, splitExpression?_literal hcs (by decide) hliteral, ← List.cons_append,
    splitExpression?_spacing hbefore (by decide) hd hmore]
  rfl

/-! ## Operands -/

/-- Without a brace there is no reference to expand. -/
theorem expand_of_not_mem {attributes : Attributes} (h : '\x7b' ∉ cs) :
    expand attributes cs = String.ofList cs := by
  unfold expand
  rw [Attribute.substitute?_of_not_mem (by rwa [String.toList_ofList])]
  rfl

/-- A text in double quotes, whatever blanks are around it, is an operand as it is. -/
theorem operand_quoted {attributes : Attributes} {before after : List Char}
    (hbefore : ∀ c ∈ before, isBlank c = true) (hafter : ∀ c ∈ after, isBlank c = true)
    (hcs : '\x7b' ∉ cs) :
    operand attributes (before ++ ('"' :: cs ++ ['"']) ++ after) = .ok (.text (String.ofList cs)) := by
  have hquote : isBlank '"' = false := by decide
  have hstrip : stripChars (before ++ ('"' :: cs ++ ['"']) ++ after) = '"' :: cs ++ ['"'] :=
    stripChars_pad hbefore hafter (by simp [hquote]) (by simp [List.getLast?_cons, hquote])
  have hquoted : isQuoted ('"' :: cs ++ ['"']) = true := by simp [isQuoted]
  unfold operand
  rw [hstrip, if_pos hquoted, List.cons_append, List.tail_cons, List.dropLast_concat,
    expand_of_not_mem hcs]

/-! ## A first operand without operators -/

/-- A comparison of literals stands on one line. -/
theorem IsLiteral.quotedComparison_oneLine {s t : String} (hs : IsLiteral s.toList)
    (ht : IsLiteral t.toList) {before after : List Char} (hbefore : ∀ b ∈ before, IsSpacing b)
    (hafter : ∀ b ∈ after, IsSpacing b) (c : Comparison) :
    '\n' ∉ (quotedComparison s before c after t).toList := by
  have hspelling : '\n' ∉ c.spelling := by cases c <;> decide
  have hfront : '\n' ∉ before := fun hmem => (hbefore _ hmem).2 rfl
  have hback : '\n' ∉ after := fun hmem => (hafter _ hmem).2 rfl
  rw [quotedComparison, String.toList_ofList]
  simp [hs.oneLine, ht.oneLine, hspelling, hfront, hback]

/-- A comparison starts and ends with a quote, so there is nothing to strip. -/
theorem stripChars_quotedComparison (s : String) (before : List Char) (c : Comparison)
    (after : List Char) (t : String) :
    stripChars (quotedComparison s before c after t).toList =
      (quotedComparison s before c after t).toList := by
  have hquote : isBlank '"' = false := by decide
  rw [quotedComparison, String.toList_ofList]
  refine stripChars_of_edges ?_ ?_ <;> simp [List.getLast?_append, List.getLast?_cons, hquote]

/-- If no operator occurs in the first text, the texts are compared as they are written. -/
theorem skips_quotedComparison {attributes : Attributes} {s t : String} (hs : IsLiteral s.toList)
    (ht : IsLiteral t.toList) {before after : List Char} (hbefore : ∀ b ∈ before, IsSpacing b)
    (hafter : ∀ b ∈ after, IsSpacing b) (c : Comparison) (hfree : ¬ HasOperator s.toList) :
    skips attributes (ifeval (quotedComparison s before c after t)) =
      .ok (!decide (c.Relates s t)) := by
  have hline := hs.quotedComparison_oneLine ht hbefore hafter c
  have hleft : operand attributes ('"' :: s.toList ++ '"' :: before) = .ok (.text s) := by
    have hplain := @operand_quoted _ attributes [] before nofun (fun b hb => (hbefore b hb).1)
      hs.unbraced
    simpa using hplain
  have hright : operand attributes (after ++ ('"' :: t.toList ++ ['"'])) = .ok (.text t) := by
    have hplain := @operand_quoted _ attributes after [] (fun b hb => (hafter b hb).1) nofun
      ht.unbraced
    simpa using hplain
  have hsplit : splitExpression? (quotedComparison s before c after t).toList =
      some ('"' :: s.toList ++ '"' :: before, c, after ++ ('"' :: t.toList ++ ['"'])) := by
    rw [quotedComparison, String.toList_ofList] at hline ⊢
    -- the second operand starts with a blank or a quote, so not with an equals sign
    obtain ⟨d, more, hmore, hd⟩ : ∃ d more, after ++ ('"' :: t.toList ++ ['"']) = d :: more ∧
        d ≠ '=' := by
      cases after with
      | nil => exact ⟨'"', t.toList ++ ['"'], rfl, by decide⟩
      | cons b after =>
        refine ⟨b, _, rfl, ?_⟩
        rintro rfl
        exact absurd (hafter '=' List.mem_cons_self).1 (by decide)
    rw [hmore] at hline ⊢
    exact splitExpression?_quoted hfree hbefore hd hline
  have hevaluate : evaluate attributes (quotedComparison s before c after t) =
      .ok (decide (c.Relates s t)) := by
    unfold evaluate
    rw [stripChars_quotedComparison, hsplit]
    simp only [hleft, hright]
    change Except.ok (c.holds (compareText s t)) = _
    rw [holds_compareText]
  unfold skips ifeval
  simp only [Option.getD_some, hevaluate]
  rfl

/-! ## A first operand with operators -/

/-- A text with an operator in it is cut at the first one, whatever comes behind the text. -/
theorem exists_split (h : HasOperator cs) (hx : x ≠ '\n') (hcs : '\n' ∉ cs) :
    ∃ front c back, cs = front ++ Comparison.spelling c ++ back ∧ ∀ more, '\n' ∉ more →
      splitExpression? (x :: cs ++ '"' :: more) = some (x :: front, c, back ++ '"' :: more) := by
  induction cs generalizing x with
  | nil =>
    obtain ⟨c, hc⟩ := h
    cases c <;> simp [Comparison.spelling] at hc
  | cons d cs ih =>
    obtain ⟨hd, hrest⟩ : '\n' ≠ d ∧ '\n' ∉ cs := by simpa using hcs
    have htake : ∀ more, '\n' ∉ more → takeOperator? (d :: cs ++ '"' :: more) =
        (operators.find? fun entry => entry.1.isPrefixOf (d :: cs)).map fun entry =>
          (entry.2, (d :: cs).drop entry.1.length ++ '"' :: more) := by
      intro more hmore
      exact takeOperator?_append quote_not_mem_spelling (by simp [hd, hrest, hmore])
    cases hfind : operators.find? fun entry => entry.1.isPrefixOf (d :: cs) with
    | some entry =>
      -- the text starts with an operator
      have hentry := of_mem_operators (List.mem_of_find?_eq_some hfind)
      have hfront : entry.1.isPrefixOf (d :: cs) = true :=
        List.find?_some (p := fun entry : List Char × Comparison => entry.1.isPrefixOf (d :: cs)) hfind
      have hprefix := List.isPrefixOf_iff_prefix.mp hfront
      refine ⟨[], entry.2, (d :: cs).drop entry.1.length, ?_, fun more hmore => ?_⟩
      · rw [List.nil_append, ← hentry]
        exact (List.prefix_iff_eq_append.mp hprefix).symm
      · rw [List.cons_append, splitExpression?_found hx]
        rw [htake more hmore, hfind]
        rfl
    | none =>
      have hlater : HasOperator cs := by
        obtain ⟨c, hc⟩ := h
        refine ⟨c, (List.infix_cons_iff.mp hc).resolve_left fun hprefix => ?_⟩
        have hfront : c.spelling.isPrefixOf (d :: cs) = true :=
          List.isPrefixOf_iff_prefix.mpr hprefix
        exact List.find?_eq_none.mp hfind _ (mem_operators c) hfront
      obtain ⟨front, c, back, hcut, hsplit⟩ := ih hlater hd.symm hrest
      refine ⟨d :: front, c, back, by rw [hcut]; rfl, fun more hmore => ?_⟩
      have hnone : takeOperator? (d :: cs ++ '"' :: more) = none := by
        rw [htake more hmore, hfind]
        rfl
      rw [List.cons_append, splitExpression?_skip hx hnone, hsplit more hmore]
      rfl

/-- What has a double quote in it is neither a number nor a truth value. -/
theorem plainOperand_of_mem {value : String} (h : '"' ∈ value.toList) :
    plainOperand value = .ok (.text value) := by
  have hdecimal : isDecimal '"' = false := by decide
  have hsign : '"' ∈ (takeSign value.toList).2 := mem_takeSign h (by decide) (by decide)
  have hinteger : isPlainInteger value.toList = false := by
    unfold isPlainInteger
    rw [Bool.and_eq_false_iff]
    refine Or.inr (List.all_eq_false.mpr ⟨'"', hsign, by simp [hdecimal]⟩)
  -- a number with a point has digits behind it only, but the quote is kept up to there
  have hpointed : readPointed? value.toList = none := by
    unfold readPointed?
    dsimp only
    split
    · rename_i fraction hdrop
      rw [if_neg]
      intro hall
      have hfraction : ∀ c ∈ fraction, isDecimal c = true := by
        have := (Bool.and_eq_true_iff.mp hall).1
        simpa using this
      have hkept := mem_dropWhile hsign hdecimal
      rw [hdrop] at hkept
      rcases List.mem_cons.mp hkept with hpoint | hmem
      · exact absurd hpoint (by decide)
      · simpa [hdecimal] using hfraction _ hmem
    · rfl
  have hword : ∀ word : String, '"' ∉ word.toList → (value == word) = false := by
    intro word hword
    rw [beq_eq_false_iff_ne]
    rintro rfl
    exact hword h
  unfold plainOperand
  rw [hword "" (by decide), hword "true" (by decide), hword "false" (by decide), hinteger, hpointed]
  rfl

/-- A side that starts otherwise than it ends is compared without the blanks around it, if it has a
double quote in it. -/
theorem operand_of_mem {attributes : Attributes} {first : Char} {rest : List Char}
    (hstrip : stripChars cs = first :: rest) (hquoted : isQuoted (first :: rest) = false)
    (hfirst : isBlank first = false) (hunbraced : '\x7b' ∉ first :: rest)
    (hmem : '"' ∈ first :: dropEndWhile isBlank rest) :
    operand attributes cs =
      .ok (.text (String.ofList (first :: dropEndWhile isBlank rest))) := by
  unfold operand
  rw [hstrip]
  dsimp only
  rw [hquoted, if_neg Bool.false_ne_true, expand_of_not_mem hunbraced, strip, String.toList_ofList,
    stripChars_cons hfirst]
  exact plainOperand_of_mem (by rwa [String.toList_ofList])

/-- What is left of the first text before an operator is compared together with its quote. -/
theorem operand_front {attributes : Attributes} {front : List Char} (hquote : '"' ∉ front)
    (hbrace : '\x7b' ∉ front) :
    ∃ rest, operand attributes ('"' :: front) = .ok (.text (String.ofList ('"' :: rest))) := by
  have hblank : isBlank '"' = false := by decide
  have hsub := dropEndWhile_subset isBlank front
  refine ⟨_, operand_of_mem (stripChars_cons hblank front) ?_ hblank ?_ List.mem_cons_self⟩
  · unfold isQuoted
    rw [Bool.and_eq_false_iff]
    refine Or.inr (beq_eq_false_iff_ne.mpr fun hlast => ?_)
    exact hquote (hsub (List.mem_of_mem_getLast? hlast))
  · simpa using fun hmem => hbrace (hsub hmem)

/-- What is left of the first text behind an operator is compared together with all that follows, so its
first character does not depend on the second text. -/
theorem operand_back {back : List Char} (hquote : '"' ∉ back) (hbrace : '\x7b' ∉ back) :
    ∃ d ≠ '"', ∀ (attributes : Attributes) (t : List Char), '\x7b' ∉ t → ∃ rest,
      operand attributes (back ++ '"' :: (['=', '='] ++ ('"' :: t ++ ['"']))) =
        .ok (.text (String.ofList (d :: rest))) := by
  have hblank : isBlank '"' = false := by decide
  cases hdrop : back.dropWhile isBlank with
  | nil =>
    -- only blanks are left, and the rest is in quotes by itself
    have hall : ∀ c ∈ back, isBlank c = true := List.dropWhile_eq_nil_iff.mp hdrop
    refine ⟨'=', by decide, fun attributes t ht => ⟨'=' :: '"' :: t, ?_⟩⟩
    have hplain := @operand_quoted _ attributes back [] hall nofun
      (show '\x7b' ∉ '=' :: '=' :: '"' :: t by simpa using ht)
    simpa using hplain
  | cons d others =>
    have hd : isBlank d = false := by
      have := List.head?_dropWhile_not isBlank back
      rwa [hdrop] at this
    have hcut : back = back.takeWhile isBlank ++ d :: others := by
      rw [← hdrop, List.takeWhile_append_dropWhile]
    have hne : d ≠ '"' := by
      rintro rfl
      exact hquote (by rw [hcut]; simp)
    refine ⟨d, hne, fun attributes t ht => ?_⟩
    have hlast : (others ++ '"' :: (['=', '='] ++ ('"' :: t ++ ['"']))).getLast? = some '"' := by
      simp [List.getLast?_append, List.getLast?_cons]
    have hstrip : stripChars (back ++ '"' :: (['=', '='] ++ ('"' :: t ++ ['"']))) =
        d :: (others ++ '"' :: (['=', '='] ++ ('"' :: t ++ ['"']))) := by
      have hpad := @stripChars_pad (back.takeWhile isBlank)
        (d :: (others ++ '"' :: (['=', '='] ++ ('"' :: t ++ ['"'])))) []
        (fun c hc => List.mem_takeWhile_imp hc) nofun (by simp [hd])
        (by simp [List.getLast?_cons, hblank])
      conv_lhs at hpad => rw [List.append_nil, ← List.cons_append, ← List.append_assoc, ← hcut]
      exact hpad
    refine ⟨_, operand_of_mem hstrip ?_ hd ?_ ?_⟩
    · unfold isQuoted
      dsimp only
      rw [hlast, Bool.and_eq_false_iff]
      exact Or.inr (beq_eq_false_iff_ne.mpr (by simpa using hne.symm))
    · have hback : '\x7b' ∉ d :: others := by
        intro hmem
        exact hbrace (by rw [hcut]; exact List.mem_append_right _ hmem)
      simpa [ht] using hback
    · rw [dropEndWhile_of_getLast? (by rw [hlast]; simp [hblank])]
      simp

/-- Texts that start differently are ordered by their first characters. -/
theorem compareText_cons {c d : Char} (h : c ≠ d) (l r : List Char) :
    compareText (String.ofList (c :: l)) (String.ofList (d :: r)) =
      if c < d then .lt else .gt := by
  unfold compareText
  have hlt : String.ofList (c :: l) < String.ofList (d :: r) ↔ c < d := by
    rw [String.lt_iff_toList_lt, String.toList_ofList, String.toList_ofList, List.cons_lt_cons_iff]
    simp [h]
  have hne : String.ofList (c :: l) ≠ String.ofList (d :: r) := by
    rw [ne_eq, String.ofList_inj]
    simp [h]
  simp only [hlt, hne, if_false]

/-- If an operator occurs in the first text, whether it equals the second one is decided without the
second one. -/
theorem skips_of_hasOperator {s : String} (hs : IsLiteral s.toList) (h : HasOperator s.toList)
    (attributes : Attributes) :
    ∃ skipped, ∀ t : String, IsLiteral t.toList →
      skips attributes (ifeval (quotedComparison s [] .eq [] t)) = .ok skipped := by
  -- the expression is split at the operator in the first text, whatever the second one is
  obtain ⟨front, c, back, hcut, hsplit⟩ :=
    exists_split h (x := '"') (by decide) hs.oneLine
  have hparts : ∀ d ∉ s.toList, d ∉ front ∧ d ∉ back := by
    intro d hd
    rw [hcut] at hd
    simp only [List.mem_append, not_or] at hd
    exact ⟨hd.1.1, hd.2⟩
  obtain ⟨left, hleft⟩ := @operand_front attributes _ (hparts _ hs.unquoted).1
    (hparts _ hs.unbraced).1
  obtain ⟨d, hd, hright⟩ := operand_back (hparts _ hs.unquoted).2 (hparts _ hs.unbraced).2
  refine ⟨!c.holds (if '"' < d then .lt else .gt), fun t ht => ?_⟩
  obtain ⟨rest, hrest⟩ := hright attributes t.toList ht.unbraced
  have hsides : splitExpression? (quotedComparison s [] .eq [] t).toList =
      some ('"' :: front, c, back ++ '"' :: (['=', '='] ++ ('"' :: t.toList ++ ['"']))) := by
    have hmore : '\n' ∉ ['=', '='] ++ ('"' :: t.toList ++ ['"']) := by simp [ht.oneLine]
    rw [quotedComparison, String.toList_ofList, List.append_assoc]
    exact hsplit _ hmore
  have hevaluate : evaluate attributes (quotedComparison s [] .eq [] t) =
      .ok (c.holds (if '"' < d then .lt else .gt)) := by
    unfold evaluate
    rw [stripChars_quotedComparison, hsides]
    simp only [hleft, hrest]
    change Except.ok (c.holds (compareText _ _)) = _
    rw [compareText_cons hd.symm]
  unfold skips ifeval
  simp only [Option.getD_some, hevaluate]
  rfl

/-- A condition that compares two texts in double quotes is decided as it is written, whatever the second
text, the operator between them, the blanks around it and the attributes are, exactly if no operator
occurs in the first text. -/
theorem quoted_comparison_decided {s : String} (hs : IsLiteral s.toList) :
    (∀ (attributes : Attributes) (t : String) (before : List Char) (c : Comparison)
      (after : List Char), IsLiteral t.toList → (∀ b ∈ before, IsSpacing b) →
      (∀ b ∈ after, IsSpacing b) →
      skips attributes (ifeval (quotedComparison s before c after t)) =
        .ok (!decide (c.Relates s t))) ↔ ¬ HasOperator s.toList := by
  constructor
  · intro hdecided hoperator
    obtain ⟨skipped, hskipped⟩ := skips_of_hasOperator hs hoperator []
    have hlonger : IsLiteral (s ++ "x").toList := by
      rw [String.toList_append]
      exact ⟨by simp [hs.unquoted], by simp [hs.unbraced], by simp [hs.oneLine]⟩
    -- the text equals itself and not a longer one, but both are decided alike
    have hsame := hdecided [] s [] .eq [] hs nofun nofun
    have hother := hdecided [] (s ++ "x") [] .eq [] hlonger nofun nofun
    have hne : ¬ Comparison.eq.Relates s (s ++ "x") := by
      intro heq
      have := congrArg String.length heq
      simp at this
    rw [hskipped s hs, decide_eq_true (show Comparison.eq.Relates s s from rfl)] at hsame
    rw [hskipped _ hlonger, decide_eq_false hne, hsame] at hother
    simp at hother
  · intro hfree attributes t before c after ht hbefore hafter
    exact skips_quotedComparison hs ht hbefore hafter c hfree

/-- An equals sign by itself is no operator, and operators on the right side are not looked for. -/
theorem quoted_comparison_decided_sign :
    IsLiteral "a = !b".toList ∧
      skips [] (ifeval "\"a = !b\"<=\t\"a > b == c\"") = .ok false := by
  have hs : IsLiteral "a = !b".toList := ⟨by decide, by decide, by decide⟩
  have ht : IsLiteral "a > b == c".toList := ⟨by decide, by decide, by decide⟩
  have hfree : ¬ HasOperator "a = !b".toList := by
    rintro ⟨c, hc⟩
    cases c <;> exact absurd hc (by decide +kernel)
  have hafter : ∀ b ∈ ['\t'], IsSpacing b := by
    intro b hb
    obtain rfl := List.mem_singleton.mp hb
    exact ⟨by decide, by decide⟩
  have hdecided := (quoted_comparison_decided hs).mpr hfree [] "a > b == c" [] .le ['\t'] ht nofun
    hafter
  have htext : quotedComparison "a = !b" [] .le ['\t'] "a > b == c" =
      "\"a = !b\"<=\t\"a > b == c\"" := by decide +kernel
  have hrelates : Comparison.le.Relates "a = !b" "a > b == c" := by decide +kernel
  rw [htext, decide_eq_true hrelates] at hdecided
  exact ⟨hs, hdecided⟩

/-- A text with an operator in it does not even equal itself. -/
theorem quoted_operator_splits :
    quotedComparison "a>b" [' '] .eq [' '] "a>b" = "\"a>b\" == \"a>b\"" ∧
      Comparison.eq.Relates "a>b" "a>b" ∧
      (skips [] (ifeval "\"a>b\" == \"a>b\"")).toOption = some true := by
  decide +kernel

end DocFlatten.Condition
