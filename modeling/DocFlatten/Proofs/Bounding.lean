import DocFlatten.Proofs.Ending

/-! # Larger bounds

A step that has a result within a bound has the same one within a larger bound (`Within`). This passes
from looks to every loop of a scan, by induction on the bound of the loop, and so a document that is
loaded within a bound is the same within all larger ones (`load_eq_ok_of_le`).
-/

namespace DocFlatten

namespace Scan

variable {α β : Type}

/-- Whatever the first step results in, the second one does. -/
def Within (m n : Step α) : Prop :=
  ∀ s a s', m s = .ok (a, s') → n s = .ok (a, s')

namespace Within

theorem refl (m : Step α) : Within m m :=
  fun _ _ _ hrun => hrun

theorem halt (halt : Session.Halt) (n : Step α) : Within (throw halt) n := by
  intro s a s' hrun
  cases hrun

/-- A bound on each part is one on the whole. -/
theorem bind {m n : Step α} {f g : α → Step β} (hm : Within m n) (hf : ∀ a, Within (f a) (g a)) :
    Within (m >>= f) (n >>= g) := by
  intro s b s' hrun
  obtain ⟨a, s₁, ha, hb⟩ := bind_eq_ok.mp hrun
  exact bind_eq_ok.mpr ⟨a, s₁, hm s a s₁ ha, hf a s₁ b s' hb⟩

theorem ite {c : Bool} {m n m' n' : Step α} (h : Within m n) (h' : Within m' n') :
    Within (if c = true then m else m') (if c = true then n else n') := by
  cases c with
  | true => exact h
  | false => exact h'

end Within

/-! ## Loops -/

variable (fuel : Nat)

/-- A look that ends within a bound ends within a larger one. -/
theorem within_peek : Within (peek fuel) (peek (fuel + 1)) :=
  fun _ _ _ hrun => Session.peekLine_eq_ok_of_le (Nat.le_succ fuel) hrun

theorem within_take : Within (take fuel) (take (fuel + 1)) :=
  fun _ _ _ hrun => Session.readLine_eq_ok_of_le (Nat.le_succ fuel) hrun

theorem within_skipToContent : Within (skipToContent fuel) (skipToContent (fuel + 1)) := by
  induction fuel with
  | zero => exact .halt _ _
  | succ fuel ih =>
    refine .bind (within_peek _) fun line => ?_
    cases line with
    | none => exact .refl _
    | some line => exact .ite (.bind (within_take _) fun _ => ih) (.refl _)

/-- So do the lines of a header. -/
theorem within_headerLines : Within (headerLines fuel) (headerLines (fuel + 1)) := by
  induction fuel with
  | zero => exact .halt _ _
  | succ fuel ih =>
    refine .bind (within_peek _) fun line => ?_
    cases line with
    | none => exact .refl _
    | some line =>
      refine .ite (.refl _) (.bind (within_take _) fun _ => ?_)
      refine .ite ?_ ih
      cases Attribute.Entry.parse? line with
      | none => exact ih
      | some entry => exact .bind (.refl _) fun _ => .ite (.bind (.refl _) fun _ => ih) ih

theorem within_header : Within (header fuel) (header (fuel + 1)) := by
  refine .bind (within_skipToContent fuel) fun line => ?_
  cases line with
  | none => exact .refl _
  | some line =>
    dsimp only
    cases LineShape.documentTitle? line with
    | none => exact .refl _
    | some title =>
      exact .bind (within_take fuel) fun _ => .bind (.refl _) fun _ => within_headerLines fuel

/-- And the lines of a block up to its delimiter. -/
theorem within_delimitedLines (delimiter : String) :
    Within (delimitedLines delimiter fuel) (delimitedLines delimiter (fuel + 1)) := by
  induction fuel with
  | zero => exact .halt _ _
  | succ fuel ih =>
    refine .bind (within_take _) fun line => ?_
    cases line with
    | none => exact .refl _
    | some line => exact .ite (.refl _) (.bind ih fun _ => .refl _)

/-- And the lines of a paragraph. -/
theorem within_paragraphLines (isFirst : Bool) :
    Within (paragraphLines fuel isFirst) (paragraphLines (fuel + 1) isFirst) := by
  induction fuel generalizing isFirst with
  | zero => exact .halt _ _
  | succ fuel ih =>
    refine .bind (within_peek _) fun line => ?_
    cases line with
    | none => exact .refl _
    | some line =>
      exact .ite (.refl _) (.bind (within_take _) fun _ => .bind (ih false) fun _ => .refl _)

/-- An element ends within a larger bound as well. -/
theorem within_element (line : String) : Within (element fuel line) (element (fuel + 1) line) := by
  have htake : Within (do let _ ← take fuel) (do let _ ← take (fuel + 1)) :=
    .bind (within_take fuel) fun _ => .refl _
  refine .ite htake ?_
  cases Attribute.Entry.parse? line with
  | some entry => exact .bind (within_take fuel) fun _ => .refl _
  | none =>
    refine .ite htake (.bind (.refl _) fun location => ?_)
    cases LineShape.sectionLevel? line with
    | some level => exact .bind (within_take fuel) fun _ => .refl _
    | none =>
      cases LineShape.delimited? line with
      | none => exact .bind (within_paragraphLines fuel true) fun _ => .refl _
      | some context =>
        refine .bind (.refl _) fun start => .bind (within_take fuel) fun first => ?_
        exact .bind (within_delimitedLines fuel line) fun _ => .refl _

/-- And so does the body. -/
theorem within_body : Within (body fuel) (body (fuel + 1)) := by
  induction fuel with
  | zero => exact .halt _ _
  | succ fuel ih =>
    refine .bind (within_peek _) fun line => ?_
    cases line with
    | none => exact .refl _
    | some line => exact .bind (within_element _ line) fun _ => ih

/-- A scan that ends within a bound ends in the same way within a larger one. -/
theorem within_document : Within (document fuel) (document (fuel + 1)) := by
  refine .bind (.refl _) fun s => .ite (.bind (within_header fuel) fun _ => ?_) (.refl _)
  exact .bind (within_body fuel) fun _ => .refl _

end Scan

namespace Session

/-! ## Loading -/

/-- A document that is loaded within a bound is the same within a larger one. -/
theorem load_eq_ok_of_le {n m : Nat} {files : FileTree} {source : Source} {o : LoadOptions}
    {s : Session} (hle : n ≤ m) (h : load n files source o = .ok s) :
    load m files source o = .ok s := by
  induction hle with
  | refl => exact h
  | step _ ih =>
    obtain ⟨s₀, hopen, hscan⟩ := load_eq_ok.mp ih
    refine load_eq_ok.mpr ⟨s₀, hopen, ?_⟩
    exact scan_eq_ok.mpr (Scan.within_document _ s₀ () s (scan_eq_ok.mp hscan))

end Session

end DocFlatten
