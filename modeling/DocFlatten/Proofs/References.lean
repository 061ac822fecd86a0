import DocFlatten.Attribute.Reference
import Mathlib.Data.List.Basic
import Mathlib.Data.List.TakeWhile

/-! # References in a text

A reference is a name between braces, with or without a backslash in front. References can touch,
look as if they were nested and stand behind any number of backslashes, and a value may read like a
reference itself.

* `Scan`: cutting a text from left to right, a reference where one starts and a single character
  elsewhere, said without the functions that do it; `scan_iff`: these functions cut a text in this
  way, and it is the only one;
* `Filled`: what comes of a text whose references all have values, each of which is put in as it is;
* `Piece.guarded`: a piece with one more backslash if it is a reference; `Scan.guarded`: such
  backslashes make no further references, and no reference is lost.

`references_substituted` puts them together.
-/

namespace DocFlatten.Attribute

open DocFlatten.Text

/-! ## The scan -/

/-- A name that may stand between braces. -/
def IsName (name : List Char) : Prop :=
  ∃ first others, name = first :: others ∧ isWord first = true ∧ others.all isNameChar = true

/-- The scan of a text from left to right: a reference is one piece, together with a backslash in front
of it; a character is a piece by itself if no reference starts there. -/
inductive Scan : List Char → List Piece → Prop where
  | done : Scan [] []
  | reference {escaped : Bool} {name cs : List Char} {ps : List Piece} (hname : IsName name)
      (hrest : Scan cs ps) :
      Scan ((Piece.reference escaped name).chars ++ cs) (.reference escaped name :: ps)
  | plain {c : Char} {cs : List Char} {ps : List Piece}
      (hnone : ∀ escaped name, IsName name → ¬ (Piece.reference escaped name).chars <+: c :: cs)
      (hrest : Scan cs ps) : Scan (c :: cs) (.plain c :: ps)

/-- A name ends at the first character that cannot be part of one. -/
theorem takeName?_append_cons {first c : Char} {others rest : List Char}
    (hfirst : isWord first = true) (hothers : others.all isNameChar = true)
    (hc : isNameChar c = false) :
    takeName? (first :: others ++ c :: rest) = some (first :: others, c :: rest) := by
  have hname : ∀ d ∈ first :: others, isNameChar d = true := by
    intro d hd
    rcases List.mem_cons.mp hd with rfl | hd
    · simp [isNameChar, hfirst]
    · exact List.all_eq_true.mp hothers d hd
  have hstop : ¬ isNameChar c = true := by simp [hc]
  unfold takeName?
  rw [List.takeWhile_append_of_pos hname, List.dropWhile_append_of_pos hname,
    List.takeWhile_cons_of_neg hstop, List.dropWhile_cons_of_neg hstop, List.append_nil]
  exact if_pos hfirst

/-- What is taken as a name is one. -/
theorem isName_of_takeName? {cs name rest : List Char} (h : takeName? cs = some (name, rest)) :
    IsName name := by
  unfold takeName? at h
  split at h
  · rename_i first others
    split at h
    · rename_i hfirst
      obtain ⟨rfl, -⟩ := Prod.mk.inj (Option.some.inj h)
      have hhead : isNameChar first = true := by simp [isNameChar, hfirst]
      refine ⟨first, others.takeWhile isNameChar, List.takeWhile_cons_of_pos hhead, hfirst, ?_⟩
      exact List.all_eq_true.mpr fun c hc => List.mem_takeWhile_imp hc
    · cases h
  · cases h

/-- Behind an opening brace a reference is taken exactly if a name and a closing brace follow. -/
theorem takeReference?_eq_some_iff {cs name rest : List Char} :
    takeReference? cs = some (name, rest) ↔ IsName name ∧ cs = name ++ '\x7d' :: rest := by
  constructor
  · intro h
    refine ⟨?_, (takeReference?_append h).symm⟩
    unfold takeReference? at h
    split at h
    · rename_i htaken
      obtain ⟨rfl, -⟩ := Prod.mk.inj (Option.some.inj h)
      exact isName_of_takeName? htaken
    · cases h
  · rintro ⟨⟨first, others, rfl, hfirst, hothers⟩, rfl⟩
    unfold takeReference?
    rw [takeName?_append_cons hfirst hothers (by decide)]
    rfl

/-- A reference at the front of a text is taken as a whole. -/
theorem takePiece_reference {c : Char} {cs name rest : List Char} {escaped : Bool}
    (hname : IsName name) (h : (Piece.reference escaped name).chars ++ rest = c :: cs) :
    takePiece c cs = (.reference escaped name, rest) := by
  have htake : takeReference? (name ++ '\x7d' :: rest) = some (name, rest) :=
    takeReference?_eq_some_iff.mpr ⟨hname, rfl⟩
  cases escaped with
  | false =>
    obtain ⟨rfl, rfl⟩ : '\x7b' = c ∧ name ++ '\x7d' :: rest = cs := by
      simpa [Piece.chars, braced] using h
    simp only [takePiece, htake]
  | true =>
    obtain ⟨rfl, rfl⟩ : '\\' = c ∧ '\x7b' :: (name ++ '\x7d' :: rest) = cs := by
      simpa [Piece.chars, braced] using h
    simp only [takePiece, htake]

/-- A character at which no reference starts is taken by itself. -/
theorem takePiece_plain {c : Char} {cs : List Char}
    (h : ∀ escaped name, IsName name → ¬ (Piece.reference escaped name).chars <+: c :: cs) :
    takePiece c cs = (.plain c, cs) := by
  unfold takePiece
  split
  · split
    · rename_i name rest htake
      obtain ⟨hname, rfl⟩ := takeReference?_eq_some_iff.mp htake
      exact absurd ⟨rest, by simp [Piece.chars, braced]⟩ (h false name hname)
    · rfl
  · split
    · rename_i name rest htake
      obtain ⟨hname, rfl⟩ := takeReference?_eq_some_iff.mp htake
      exact absurd ⟨rest, by simp [Piece.chars, braced]⟩ (h true name hname)
    · rfl
  · rfl

/-- A scan is the division into pieces. -/
theorem Scan.pieces_eq {cs : List Char} {ps : List Piece} (h : Scan cs ps) : pieces cs = ps := by
  induction h with
  | done => simp only [pieces]
  | @reference escaped name cs ps hname _ ih =>
    cases hchars : (Piece.reference escaped name).chars ++ cs with
    | nil => cases escaped <;> simp [Piece.chars, braced] at hchars
    | cons c rest => rw [pieces, takePiece_reference hname hchars, ih]
  | plain hnone _ ih => rw [pieces, takePiece_plain hnone, ih]

/-- The division into pieces is a scan. -/
theorem scan_pieces (cs : List Char) : Scan cs (pieces cs) := by
  fun_induction pieces cs with
  | case1 => exact .done
  | case2 c cs ih =>
    by_cases hstarts : ∃ escaped name, IsName name ∧
        (Piece.reference escaped name).chars <+: c :: cs
    · obtain ⟨escaped, name, hname, rest, hrest⟩ := hstarts
      rw [takePiece_reference hname hrest] at ih ⊢
      rw [← hrest]
      exact .reference hname ih
    · have hnone : ∀ escaped name, IsName name →
          ¬ (Piece.reference escaped name).chars <+: c :: cs :=
        fun escaped name hname hprefix => hstarts ⟨escaped, name, hname, hprefix⟩
      rw [takePiece_plain hnone] at ih ⊢
      exact .plain hnone ih

/-- A text has one scan, the pieces it is cut into. -/
theorem scan_iff {cs : List Char} {ps : List Piece} : Scan cs ps ↔ pieces cs = ps :=
  ⟨Scan.pieces_eq, fun h => h ▸ scan_pieces cs⟩

/-- The pieces together are the text. -/
theorem Scan.chars_eq {cs : List Char} {ps : List Piece} (h : Scan cs ps) :
    ps.flatMap Piece.chars = cs := by
  rw [← h.pieces_eq, flatMap_chars_pieces]

/-! ## Texts without references -/

/-- A text without opening braces refers to nothing. -/
theorem pieces_of_not_mem {cs : List Char} (h : '\x7b' ∉ cs) : pieces cs = cs.map .plain := by
  refine Scan.pieces_eq ?_
  induction cs with
  | nil => exact .done
  | cons c cs ih =>
    refine .plain ?_ (ih fun hmem => h (List.mem_cons_of_mem c hmem))
    intro escaped name _ hstarts
    refine h (hstarts.subset ?_)
    cases escaped <;> simp [Piece.chars, braced]

/-- Without an opening brace nothing is missing. -/
theorem missingNames_of_not_mem {attributes : Attributes} {text : String}
    (h : '\x7b' ∉ text.toList) : missingNames attributes text = [] := by
  unfold missingNames
  rw [pieces_of_not_mem h, List.filterMap_map, List.filterMap_eq_nil_iff]
  intro c _
  rfl

/-- A text without opening braces stays as it is. -/
theorem substitute?_of_not_mem {mode : Missing} {attributes : Attributes} {text : String}
    (h : '\x7b' ∉ text.toList) : substitute? mode attributes text = some text := by
  have hexpand : ∀ cs : List Char,
      (cs.map Piece.plain).flatMap (Piece.expand mode attributes) = cs := by
    intro cs
    induction cs with
    | nil => rfl
    | cons c cs ih => rw [List.map_cons, List.flatMap_cons, ih]; rfl
  unfold substitute?
  rw [missingNames_of_not_mem h, pieces_of_not_mem h, hexpand]
  simp

/-! ## Values for references -/

variable {attributes : Attributes} {ps : List Piece}

/-- Some reference without a backslash is to an attribute that is neither set nor intrinsic. -/
def Lacks (attributes : Attributes) (ps : List Piece) : Prop :=
  ∃ name, Piece.reference false name ∈ ps ∧
    Mapping.get? attributes (lower (String.ofList name)) = none ∧
    Mapping.get? intrinsic (lower (String.ofList name)) = none

/-- What comes of a text whose references all have values: a value is put in as it is, a reference
behind a backslash loses the backslash, all else stays. -/
inductive Filled (attributes : Attributes) : List Piece → List Char → Prop where
  | done : Filled attributes [] []
  | plain {c : Char} {ps : List Piece} {out : List Char} (hrest : Filled attributes ps out) :
      Filled attributes (.plain c :: ps) (c :: out)
  | escaped {name : List Char} {ps : List Piece} {out : List Char}
      (hrest : Filled attributes ps out) :
      Filled attributes (.reference true name :: ps) (braced name ++ out)
  | own {name : List Char} {value : String} {ps : List Piece} {out : List Char}
      (hvalue : Mapping.get? attributes (lower (String.ofList name)) = some value)
      (hrest : Filled attributes ps out) :
      Filled attributes (.reference false name :: ps) (value.toList ++ out)
  | intrinsic {name : List Char} {value : String} {ps : List Piece} {out : List Char}
      (hnone : Mapping.get? attributes (lower (String.ofList name)) = none)
      (hvalue : Mapping.get? intrinsic (lower (String.ofList name)) = some value)
      (hrest : Filled attributes ps out) :
      Filled attributes (.reference false name :: ps) (value.toList ++ out)

/-- No name is missing exactly if no reference lacks a value. -/
theorem filterMap_missing?_eq_nil_iff :
    ps.filterMap (Piece.missing? attributes) = [] ↔ ¬ Lacks attributes ps := by
  have hresolve : ∀ name, resolve? attributes name = none ↔
      Mapping.get? attributes name = none ∧ Mapping.get? intrinsic name = none := by
    intro name
    unfold resolve?
    cases Mapping.get? attributes name <;> simp
  rw [List.filterMap_eq_nil_iff]
  constructor
  · rintro h ⟨name, hmem, hnone⟩
    have hname := h _ hmem
    simp [Piece.missing?, lookupName, (hresolve _).mpr hnone] at hname
  · intro h piece hmem
    match piece with
    | .plain _ | .reference true _ => rfl
    | .reference false name =>
      cases hfound : resolve? attributes (lookupName name) with
      | some value => simp [Piece.missing?, hfound]
      | none => exact absurd ⟨name, hmem, (hresolve _).mp hfound⟩ h

/-- If all references have values, every treatment of missing ones fills in the same text. -/
theorem exists_filled (h : ¬ Lacks attributes ps) :
    ∃ out, Filled attributes ps out ∧ ∀ mode, ps.flatMap (Piece.expand mode attributes) = out := by
  induction ps with
  | nil => exact ⟨[], .done, fun _ => rfl⟩
  | cons piece ps ih =>
    have hrest : ¬ Lacks attributes ps := by
      rintro ⟨name, hmem, hnone⟩
      exact h ⟨name, List.mem_cons_of_mem piece hmem, hnone⟩
    obtain ⟨out, hout, hexpand⟩ := ih hrest
    match piece with
    -- a character of the text
    | .plain c => exact ⟨_, .plain hout, fun mode => by rw [List.flatMap_cons, hexpand]; rfl⟩
    -- an escaped reference, which stays
    | .reference true name =>
      exact ⟨_, .escaped hout, fun mode => by rw [List.flatMap_cons, hexpand]; rfl⟩
    -- a reference with a value, of the document or of the language
    | .reference false name =>
      cases hown : Mapping.get? attributes (lower (String.ofList name)) with
      | some value =>
        refine ⟨_, .own hown hout, fun mode => ?_⟩
        rw [List.flatMap_cons, hexpand]
        simp [Piece.expand, lookupName, resolve?, hown]
      | none =>
        cases hintrinsic : Mapping.get? intrinsic (lower (String.ofList name)) with
        | some value =>
          refine ⟨_, .intrinsic hown hintrinsic hout, fun mode => ?_⟩
          rw [List.flatMap_cons, hexpand]
          simp [Piece.expand, lookupName, resolve?, hown, hintrinsic]
        | none => exact absurd ⟨name, List.mem_cons_self, hown, hintrinsic⟩ h

/-! ## Backslashes in front of all references -/

/-- The characters of a piece, with one more backslash in front of the opening brace if it is a
reference. -/
def Piece.guarded : Piece → List Char
  | .plain c => [c]
  | .reference true name => '\\' :: '\\' :: braced name
  | .reference false name => '\\' :: braced name

/-- The pieces that a guarded piece is cut into: the backslash that was there before stands alone. -/
def Piece.guardedPieces : Piece → List Piece
  | .plain c => [.plain c]
  | .reference true name => [.plain '\\', .reference true name]
  | .reference false name => [.reference true name]

/-- Added backslashes do not change what a text starts with up to its first backslash. -/
theorem prefix_of_prefix_guarded {w : List Char} (hw : '\\' ∉ w)
    (h : w <+: ps.flatMap Piece.guarded) : w <+: ps.flatMap Piece.chars := by
  induction ps generalizing w with
  | nil => exact h
  | cons piece ps ih =>
    cases w with
    | nil => exact List.nil_prefix
    | cons d w =>
      obtain ⟨hd, hw⟩ : '\\' ≠ d ∧ '\\' ∉ w := by simpa using hw
      match piece with
      | .plain c =>
        obtain ⟨rfl, hrest⟩ := List.cons_prefix_cons.mp h
        exact List.cons_prefix_cons.mpr ⟨rfl, ih hw hrest⟩
      | .reference true _ | .reference false _ =>
        exact absurd (List.cons_prefix_cons.mp h).1.symm hd

/-- A reference has no backslash behind its first character. -/
theorem not_mem_tail_chars {escaped : Bool} {name : List Char} (h : IsName name) :
    '\\' ∉ (Piece.reference escaped name).chars.tail := by
  obtain ⟨first, others, rfl, hfirst, hothers⟩ := h
  have hword : isWord '\\' = false := by decide
  have hchar : isNameChar '\\' = false := by decide
  have hhead : '\\' ≠ first := by
    rintro rfl
    simp [hword] at hfirst
  have htail : '\\' ∉ others := by
    intro hmem
    simpa [hchar] using List.all_eq_true.mp hothers _ hmem
  cases escaped <;> simp [Piece.chars, braced, hhead, htail]

/-- With backslashes in front of its references a text has the same references, all of them behind a
backslash. -/
theorem Scan.guarded {cs : List Char} (h : Scan cs ps) :
    Scan (ps.flatMap Piece.guarded) (ps.flatMap Piece.guardedPieces) := by
  induction h with
  | done => exact .done
  | @reference escaped name cs ps hname _ ih =>
    cases escaped with
    | false => exact @Scan.reference true name _ _ hname ih
    | true =>
      refine .plain ?_ (@Scan.reference true name _ _ hname ih)
      -- two backslashes in a row start no reference
      intro escaped other _ hprefix
      cases escaped <;> simp [Piece.chars, braced, List.cons_prefix_cons] at hprefix
  | @plain c cs ps hnone hrest ih =>
    refine .plain ?_ ih
    intro escaped name hname hprefix
    refine hnone escaped name hname ?_
    -- what follows the first character of a reference has no backslash, so it was there before
    cases hchars : (Piece.reference escaped name).chars with
    | nil => exact List.nil_prefix
    | cons d w =>
      rw [hchars] at hprefix
      obtain ⟨rfl, hw⟩ := List.cons_prefix_cons.mp hprefix
      have hfree : '\\' ∉ w := by
        have htail := @not_mem_tail_chars escaped name hname
        rwa [hchars] at htail
      have hbefore := prefix_of_prefix_guarded hfree hw
      rw [hrest.chars_eq] at hbefore
      exact List.cons_prefix_cons.mpr ⟨rfl, hbefore⟩

/-- References that all stand behind backslashes lose them, and nothing else happens. -/
theorem flatMap_expand_guardedPieces (mode : Missing) :
    (ps.flatMap Piece.guardedPieces).flatMap (Piece.expand mode attributes) =
      ps.flatMap Piece.chars := by
  rw [List.flatMap_assoc]
  refine List.flatMap_congr ?_
  intro piece _
  match piece with
  | .plain _ => rfl
  | .reference true _ | .reference false _ => simp [Piece.guardedPieces, Piece.expand, Piece.chars]

/-- Guarded pieces lack nothing. -/
theorem not_lacks_guardedPieces : ¬ Lacks attributes (ps.flatMap Piece.guardedPieces) := by
  rintro ⟨name, hmem, -⟩
  obtain ⟨piece, -, hpiece⟩ := List.mem_flatMap.mp hmem
  match piece with
  | .plain _ | .reference true _ | .reference false _ => simp [Piece.guardedPieces] at hpiece

/-! ## Substitution -/

/-- The result of substitution, told by the scan of the text. -/
theorem substitute?_of_scan {text : String} (h : Scan text.toList ps) (mode : Missing) :
    (mode = .dropLine ∧ Lacks attributes ps ∧ substitute? mode attributes text = none) ∨
      (¬ (mode = .dropLine ∧ Lacks attributes ps) ∧ substitute? mode attributes text =
        some (String.ofList (ps.flatMap (Piece.expand mode attributes)))) := by
  have hmissing : missingNames attributes text = ps.filterMap (Piece.missing? attributes) := by
    rw [missingNames, h.pieces_eq]
  unfold substitute?
  rw [hmissing, h.pieces_eq]
  by_cases hlacks : Lacks attributes ps
  · have hsome : ps.filterMap (Piece.missing? attributes) ≠ [] :=
      fun hnil => filterMap_missing?_eq_nil_iff.mp hnil hlacks
    by_cases hmode : mode = .dropLine
    · exact Or.inl ⟨hmode, hlacks, by simp [hmode, hsome]⟩
    · exact Or.inr ⟨fun hboth => hmode hboth.1, by simp [hmode]⟩
  · have hnil := filterMap_missing?_eq_nil_iff.mpr hlacks
    exact Or.inr ⟨fun hboth => hlacks hboth.2, by simp [hnil]⟩

/-- The references of a text are those of its one scan from left to right. A missing one drops the line
exactly if lines are to be dropped. If none is missing, the text that is filled in does not depend on
how missing ones are treated. Backslashes in front of all references give back the text as it is. -/
theorem references_substituted (attributes : Attributes) (text : String) :
    ∃ ps, (∀ qs, Scan text.toList qs ↔ qs = ps) ∧
      (substitute? .dropLine attributes text = none ↔ Lacks attributes ps) ∧
      (¬ Lacks attributes ps → ∃ out, Filled attributes ps out ∧
        ∀ mode, substitute? mode attributes text = some (String.ofList out)) ∧
      ∀ mode, substitute? mode attributes (String.ofList (ps.flatMap Piece.guarded)) =
        some text := by
  have hscan := scan_pieces text.toList
  refine ⟨pieces text.toList, fun qs => scan_iff.trans eq_comm, ?_, ?_, ?_⟩
  · -- a line is dropped exactly if a reference lacks a value
    rcases substitute?_of_scan hscan .dropLine with ⟨-, hlacks, hdropped⟩ | ⟨hnot, hkept⟩
    · exact iff_of_true hdropped hlacks
    · exact iff_of_false (by simp [hkept]) fun hlacks => hnot ⟨rfl, hlacks⟩
  · -- without such a reference it is filled
    intro hlacks
    obtain ⟨out, hfilled, hexpand⟩ := exists_filled hlacks
    refine ⟨out, hfilled, fun mode => ?_⟩
    rcases substitute?_of_scan hscan mode with ⟨-, h, -⟩ | ⟨-, hkept⟩
    · exact absurd h hlacks
    · rw [hkept, hexpand]
  · -- guarded references are what the text is
    intro mode
    have hguarded := hscan.guarded
    rw [← String.toList_ofList (l := (pieces text.toList).flatMap Piece.guarded)] at hguarded
    rcases @substitute?_of_scan attributes _ _ hguarded mode with
      ⟨-, h, -⟩ | ⟨-, hkept⟩
    · exact absurd h not_lacks_guardedPieces
    · rw [hkept, flatMap_expand_guardedPieces, flatMap_chars_pieces, String.ofList_toList]

/-- A reference is found by its name in lower case, among attributes and intrinsic ones. -/
theorem references_substituted_cased :
    ∃ ps, Scan "{Name}{AMP} \\{Name}".toList ps ∧ ¬ Lacks [("name", "x")] ps ∧
      Filled [("name", "x")] ps "x& {Name}".toList := by
  have htext : ∀ mode, substitute? mode [("name", "x")] "{Name}{AMP} \\{Name}" =
      some "x& {Name}" := by
    intro mode
    cases mode <;> decide +kernel
  obtain ⟨ps, hscan, hdropped, hfilled, -⟩ :=
    references_substituted [("name", "x")] "{Name}{AMP} \\{Name}"
  have hlacks : ¬ Lacks [("name", "x")] ps := by
    rw [← hdropped, htext]
    simp
  obtain ⟨out, hout, hsubstituted⟩ := hfilled hlacks
  have heq : String.ofList out = "x& {Name}" :=
    Option.some.inj ((hsubstituted .skip).symm.trans (htext .skip))
  refine ⟨ps, (hscan ps).mpr rfl, hlacks, ?_⟩
  rw [← heq, String.toList_ofList]
  exact hout

end DocFlatten.Attribute
