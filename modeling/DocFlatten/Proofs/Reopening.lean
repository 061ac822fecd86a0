import DocFlatten.Proofs.Resolving
import DocFlatten.Proofs.Loading

/-! # Opening a document again

The options of a document load it again: its safe mode is given by number, its file by the path that
was resolved before. So a document that is opened with them starts out with the same attributes
(`initial_reload`), as long as its settings mean the same when they are given anew.
-/

namespace DocFlatten

/-! ## Splitting a text -/

namespace Text

/-- Splitting is that of the library. -/
theorem splitWhere_eq (p : Char → Bool) (cs : List Char) : splitWhere p cs = cs.splitOnP p := by
  induction cs with
  | nil => rfl
  | cons c cs ih =>
    conv_lhs => unfold splitWhere
    rw [List.splitOnP_cons_eq_if_modifyHead, ih]
    split
    · rfl
    · cases hcs : cs.splitOnP p with
      | nil => exact absurd hcs (List.splitOnP_ne_nil _ _)
      | cons piece pieces => rfl

/-- No piece of a split has a separator. -/
theorem not_mem_splitWhere {p : Char → Bool} {cs piece : List Char} (h : piece ∈ splitWhere p cs) :
    ∀ c ∈ piece, p c = false := by
  induction cs generalizing piece with
  | nil =>
    obtain rfl := List.mem_singleton.mp h
    intro c hc
    cases hc
  | cons first cs ih =>
    unfold splitWhere at h
    cases hfirst : p first with
    | true =>
      rw [if_pos hfirst] at h
      rcases List.mem_cons.mp h with rfl | h
      · intro c hc
        cases hc
      · exact ih h
    | false =>
      rw [if_neg (by simp [hfirst])] at h
      -- the first character belongs to the piece that comes first
      cases hrest : splitWhere p cs with
      | nil =>
        rw [hrest] at h
        obtain rfl := List.mem_singleton.mp h
        simpa using hfirst
      | cons head pieces =>
        rw [hrest] at h ih
        rcases List.mem_cons.mp h with rfl | h
        · intro c hc
          rcases List.mem_cons.mp hc with rfl | hc
          · exact hfirst
          · exact ih List.mem_cons_self c hc
        · exact ih (List.mem_cons_of_mem _ h)

end Text

open DocFlatten.Text

/-! ## Resolving a path again -/

namespace Path

/-- A text that can stand between the slashes of a path. -/
structure IsComponent (part : String) : Prop where
  ne : part ≠ ""
  dot : part ≠ "."
  slash : '/' ∉ part.toList

instance (part : String) : Decidable (IsComponent part) :=
  decidable_of_iff (part ≠ "" ∧ part ≠ "." ∧ '/' ∉ part.toList)
    ⟨fun h => ⟨h.1, h.2.1, h.2.2⟩, fun h => ⟨h.ne, h.dot, h.slash⟩⟩

/-- The components of a path are those that can stand in one. -/
theorem isComponent_of_mem {path part : String} (h : part ∈ components path) :
    IsComponent part := by
  unfold components splitAt at h
  obtain ⟨hpart, hkept⟩ := List.mem_filter.mp h
  obtain ⟨piece, hpiece, rfl⟩ := List.mem_map.mp hpart
  simp only [Bool.and_eq_true, bne_iff_ne, ne_eq] at hkept
  refine ⟨hkept.1, hkept.2, ?_⟩
  rw [String.toList_ofList]
  intro hslash
  have := not_mem_splitWhere hpiece '/' hslash
  simp at this

/-- Slashes and components give the components back. -/
theorem components_ofParts {parts : List String} (h : ∀ part ∈ parts, IsComponent part) :
    components (ofParts parts) = parts := by
  have hlist : (ofParts parts).toList = '/' :: (['/'].intercalate (parts.map String.toList)) := by
    unfold ofParts build
    simp [String.toList_intercalate]
  have hsplit : parts ≠ [] → splitAt (· == '/') (ofParts parts) = "" :: parts := by
    intro hne
    unfold splitAt
    rw [splitWhere_eq, hlist, List.splitOnP_cons_eq_if_modifyHead, if_pos (by rfl)]
    have hslash : ∀ piece ∈ parts.map String.toList, '/' ∉ piece := by
      simpa using fun part hpart => (h part hpart).slash
    have hpieces := List.splitOn_intercalate '/' hslash (by simpa using hne)
    rw [List.splitOn_eq_splitOnP] at hpieces
    rw [hpieces]
    simp
  have hkept : parts.filter (fun part => part != "" && part != ".") = parts := by
    refine List.filter_eq_self.mpr fun part hpart => ?_
    simp [(h part hpart).ne, (h part hpart).dot]
  unfold components
  by_cases hne : parts = []
  · subst hne
    decide
  · rw [hsplit hne, List.filter_cons_of_neg (by simp), hkept]

/-- No step back is left of a path that starts at the root. -/
theorem dots_not_mem_reduceParts (parts : List String) : ".." ∉ reduceParts true parts := by
  have hpush : ∀ (parts stack : List String), ".." ∉ stack →
      ".." ∉ parts.foldl (push true) stack := by
    intro parts
    induction parts with
    | nil => exact fun stack h => h
    | cons part parts ih =>
      intro stack hstack
      refine ih _ ?_
      unfold push
      split
      · -- the parts lead upwards, and a part is removed
        cases stack with
        | nil => exact hstack
        | cons top rest =>
          have htop : (top == "..") = false := by
            simpa using fun h : top = ".." => hstack (h ▸ List.mem_cons_self)
          simp only [htop, Bool.false_eq_true, if_false]
          exact fun h => hstack (List.mem_cons_of_mem _ h)
      · -- a part is added that does not lead upwards
        rename_i hpart
        intro h
        rcases List.mem_cons.mp h with rfl | h
        · exact hpart rfl
        · exact hstack h
  unfold reduceParts
  rw [List.mem_reverse]
  exact hpush parts [] List.not_mem_nil

/-- Without steps back there is nothing to carry out. -/
theorem reduceParts_of_not_mem {parts : List String} (h : ".." ∉ parts) :
    reduceParts true parts = parts := by
  have hpush : ∀ (parts stack : List String), ".." ∉ parts →
      parts.foldl (push true) stack = parts.reverse ++ stack := by
    intro parts
    induction parts with
    | nil => exact fun stack _ => rfl
    | cons part parts ih =>
      intro stack hparts
      have hpart : (part == "..") = false := by
        simpa using fun h : part = ".." => hparts (h ▸ List.mem_cons_self)
      have hone : push true stack part = part :: stack := by
        unfold push
        simp [hpart]
      rw [List.foldl_cons, hone, ih _ fun h => hparts (List.mem_cons_of_mem _ h)]
      simp
  unfold reduceParts
  rw [hpush parts [] h]
  simp

/-- A path that was resolved means itself. -/
theorem resolve_resolve {workingDir : List String} (h : ∀ part ∈ workingDir, IsComponent part)
    (path : String) :
    resolve workingDir (resolve workingDir path) = resolve workingDir path := by
  have hparts : ∀ part ∈ resolveParts workingDir path, IsComponent part := by
    intro part hpart
    have hin := mem_reduceParts hpart
    split at hin
    · -- a part of the path
      exact isComponent_of_mem hin
    · -- a part of the directory or of the path
      rcases List.mem_append.mp hin with hin | hin
      · exact h part hin
      · exact isComponent_of_mem hin
  have habsolute : isAbsolute (ofParts (resolveParts workingDir path)) = true := by
    unfold isAbsolute ofParts build
    rw [String.startsWith_string_iff]
    simp
  have hroot : ∀ path, isAbsolute path = true →
      resolveParts workingDir path = reduceParts true (components path) := by
    intro path hpath
    unfold resolveParts
    rw [if_pos hpath]
  have hagain : resolveParts workingDir (ofParts (resolveParts workingDir path)) =
      resolveParts workingDir path := by
    have hsame := reduceParts_of_not_mem (dots_not_mem_reduceParts
      (if isAbsolute path then components path else workingDir ++ components path))
    rw [hroot _ habsolute, components_ofParts hparts]
    exact hsame
  unfold resolve
  rw [hagain]

/-- A path that was resolved is not empty. -/
theorem resolve_ne_empty (workingDir : List String) (path : String) :
    resolve workingDir path ≠ "" := by
  unfold resolve ofParts build
  simp

end Path

/-! ## The options of a document -/

/-- A mode is read back from its level. -/
theorem SafeMode.ofValue_level (mode : SafeMode) :
    SafeMode.ofValue (.int mode.level) = .ok mode := by
  cases mode <;> rfl

/-- Settings that mean the same when they are given anew. -/
def Attribute.Given.Stable (given : Attribute.Given) : Prop :=
  (Document.givenAgain given.settings).settings = given.settings

instance (given : Attribute.Given) : Decidable given.Stable :=
  inferInstanceAs (Decidable (_ = _))

namespace Document

/-- A document that is loaded anew starts out with the attributes of the first one. -/
theorem initial_reload {workingDir : List String} (h : ∀ part ∈ workingDir, Path.IsComponent part)
    {o : LoadOptions} (hstable : o.attributes.Stable) (mode : SafeMode) (source source' : Source) :
    let d := initial workingDir source o mode
    let d' := initial workingDir source' { d.reloadOptions with reduced := true } mode
    d'.attributes = d.attributes ∧ d'.locked = d.locked := by
  intro d d'
  have hdocfile : (d.reloadOptions.docfile.filter (· != "")).map (Path.resolve workingDir) =
      (o.docfile.filter (· != "")).map (Path.resolve workingDir) := by
    change (Option.filter (· != "") ((o.docfile.filter (· != "")).map
      (Path.resolve workingDir))).map (Path.resolve workingDir) = _
    cases o.docfile.filter (· != "") with
    | none => rfl
    | some file =>
      rw [Option.map_some, Option.filter_some, if_pos (by simp [Path.resolve_ne_empty]),
        Option.map_some, Path.resolve_resolve h]
  have hsettings : d.reloadOptions.attributes.settings = o.attributes.settings := hstable
  unfold d'
  constructor
  · -- the attributes
    change (applySettings _ _).1 = (applySettings _ _).1
    rw [hdocfile, hsettings]
  · -- the names that are locked
    change (applySettings _ _).2 = (applySettings _ _).2
    rw [hdocfile, hsettings]

end Document

end DocFlatten
