import Mathlib.Data.List.DropRight
import DocFlatten.Directive

/-! # Lines that are directives

What can be told about a line from what it is to a reader: an include directive is spelled by its
parts, and a line that starts like an include directive is no conditional.
-/

namespace DocFlatten

open DocFlatten.Text

/-- What is left of a text without its trailing blanks starts like an include directive if the text
does. -/
theorem startsWith_include_stripEnd {text : String} (h : text.startsWith "include::" = true) :
    (Text.stripEnd text).startsWith "include::" = true := by
  obtain ⟨rest, hrest⟩ := String.startsWith_string_iff.mp h
  have hkept : ∀ rest : List Char,
      "include::".toList <+: ("include::".toList ++ rest).rdropWhile Text.isBlank := by
    intro rest
    induction rest using List.reverseRecOn with
    | nil => decide
    | append_singleton rest c ih =>
      rw [← List.append_assoc]
      by_cases hblank : Text.isBlank c = true
      · rwa [List.rdropWhile_concat_pos _ _ _ hblank]
      · rw [List.rdropWhile_concat_neg _ _ _ hblank, List.append_assoc]
        exact List.prefix_append _ _
  have htrimmed : (Text.stripEnd text).toList = text.toList.rdropWhile Text.isBlank :=
    String.toList_ofList
  rw [String.startsWith_string_iff, htrimmed, ← hrest]
  exact hkept rest

/-- What starts like an include directive without its trailing blanks, does so with them. -/
theorem startsWith_of_stripEnd {text : String}
    (h : (Text.stripEnd text).startsWith "include::" = true) :
    text.startsWith "include::" = true := by
  have htrimmed : (Text.stripEnd text).toList = text.toList.rdropWhile Text.isBlank :=
    String.toList_ofList
  rw [String.startsWith_string_iff] at h ⊢
  rw [htrimmed] at h
  exact h.trans (List.rdropWhile_prefix _ _)

namespace Directive

/-- What is behind a word is the rest of the line. -/
theorem of_after? {word : String} {cs rest : List Char} (h : after? word cs = some rest) :
    cs = word.toList ++ rest := by
  unfold after? at h
  split at h
  · rename_i hprefix
    cases h
    rw [List.isPrefixOf_iff_prefix] at hprefix
    obtain ⟨rest, rfl⟩ := hprefix
    simp [String.length_toList]
  · cases h

/-- A text in brackets stands before the closing one. -/
theorem of_bracketed? {cs : List Char} {text : Option String} (h : bracketed? cs = some text) :
    cs = (text.getD "").toList ++ [']'] := by
  unfold bracketed? at h
  split at h
  · cases h
  · rename_i hlast
    have hlast : cs.getLast? = some ']' := by simpa using hlast
    have hsplit : cs = cs.dropLast ++ [']'] := by
      obtain ⟨init, rfl⟩ := List.getLast?_eq_some_iff.mp hlast
      simp
    simp only at h
    split at h
    · cases h
    · split at h
      · -- nothing stands in the brackets
        rename_i hempty
        cases h
        rw [List.isEmpty_iff.mp hempty] at hsplit
        simpa using hsplit
      · -- the text is what stands before the last character
        cases h
        simpa using hsplit

/-- An include directive is spelled by its parts. -/
theorem of_include? {cs : List Char} {i : Include} (h : include? cs = some i) :
    cs = i.line.toList := by
  unfold include? at h
  split at h
  · cases h
  · rename_i rest hafter
    have hcs := of_after? hafter
    simp only at h
    have htarget := List.prefix_iff_eq_append.mp (@List.takeWhile_prefix _ rest (· != '['))
    generalize rest.takeWhile (· != '[') = target at h htarget
    split at h
    · cases h
    · split at h
      · rename_i tail htail
        obtain ⟨text, htext, rfl⟩ := Option.map_eq_some_iff.mp h
        rw [htail, of_bracketed? htext] at htarget
        rw [hcs, ← htarget]
        simp [Include.line]
      · cases h

/-- A conditional starts with its keyword and two colons. -/
theorem keyword_of_conditional? {cs : List Char} {c : Conditional}
    (h : conditional? cs = some c) : ∃ (k : Keyword) (rest : List Char),
      cs = (k.name ++ "::").toList ++ rest := by
  unfold conditional? at h
  split at h
  · cases h
  · rename_i keyword rest htake
    unfold takeKeyword? at htake
    obtain ⟨k, -, hk⟩ := List.exists_of_findSome?_eq_some htake
    obtain ⟨tail, hafter, -⟩ := Option.map_eq_some_iff.mp hk
    exact ⟨k, tail, of_after? hafter⟩

end Directive

namespace LineKind

/-- Only lines with certain letters in front are directives, and lines with a backslash there. -/
theorem plain_of_toList {line : String} {c : Char} {rest : List Char}
    (h : line.toList = c :: rest) (hc : c ∉ ['\\', 'i', 'e']) : ofLine line = .plain := by
  -- a conditional would start with the first letter of a keyword
  have hconditional : Directive.conditional? (c :: rest) = none := by
    cases hfound : Directive.conditional? (c :: rest) with
    | none => rfl
    | some d =>
      rcases Directive.keyword_of_conditional? hfound with ⟨k, tail, hk⟩
      cases k <;> simp [Keyword.name] at hk <;> simp [hk.1] at hc
  -- and an include with that of its name
  have hinclude : Directive.include? (c :: rest) = none := by
    cases hfound : Directive.include? (c :: rest) with
    | none => rfl
    | some i =>
      have hi := Directive.of_include? hfound
      simp [Include.line] at hi
      simp [hi.1] at hc
  unfold ofLine ofChars
  rw [h]
  split
  · split
    · rename_i heq
      cases heq
      simp at hc
    · simp [hconditional, hinclude]
  · rfl

/-- An include directive is spelled by its parts. -/
theorem line_of_directive {line : String} {i : Include} (h : ofLine line = .directive i) :
    i.line = line := by
  unfold ofLine ofChars at h
  split at h
  · split at h
    · split at h
      · cases h
      · split at h <;> cases h
    · split at h
      · cases h
      · rename_i hinclude
        cases h
        rw [← String.toList_inj, ← Directive.of_include? hinclude]
      · cases h
  · cases h

theorem ofLine_empty : ofLine "" = .plain := by decide

/-- A directive starts with the name of the directive. -/
theorem startsWith_of_directive {line : String} {i : Include} (h : ofLine line = .directive i) :
    line.startsWith "include::" = true := by
  rw [← line_of_directive h, String.startsWith_string_iff]
  simp [Include.line]

/-- A line that starts like an include directive is one, or plain. -/
theorem of_startsWith_include {line : String} (h : line.startsWith "include::" = true) :
    ofLine line = .plain ∨ ∃ i, ofLine line = .directive i := by
  obtain ⟨rest, hrest⟩ := String.startsWith_string_iff.mp h
  unfold ofLine ofChars
  rw [← hrest]
  split
  · split
    · rename_i heq
      simp at heq
    · split
      · rename_i c _ hconditional
        obtain ⟨k, tail, hk⟩ := Directive.keyword_of_conditional? hconditional
        cases k <;> simp [Keyword.name] at hk
      · exact Or.inr ⟨_, rfl⟩
      · exact Or.inl rfl
  · exact Or.inl rfl

theorem not_include_of_conditional {line : String} {c : Conditional}
    (h : ofLine line = .conditional c) : line.startsWith "include::" = false := by
  rw [Bool.eq_false_iff]
  intro hinclude
  rcases of_startsWith_include hinclude with hplain | ⟨i, hdirective⟩
  · rw [h] at hplain
    cases hplain
  · rw [h] at hdirective
    cases hdirective

end LineKind

end DocFlatten
