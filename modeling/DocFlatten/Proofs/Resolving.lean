import DocFlatten.Proofs.DirectiveLines
import DocFlatten.Proofs.Failing
import DocFlatten.Proofs.Turning

/-! # What an include directive leads to

Two sessions that agree resolve a directive in the same way (`resolve_alongside`), even if their
files differ: then they enter contents that are related as the files are.

* `Alongside`: sessions in which an include directive means the same;
* `Resolution.Alike`, `Way.Alike`: resolutions that differ in what is entered;
* `Pushed`: what a processor that pushes content does.
-/

namespace DocFlatten.Path

/-- A part on the stack was there before, or is the one that is pushed. -/
theorem mem_push {absolute : Bool} {stack : List String} {part p : String}
    (h : p ∈ push absolute stack part) : p = part ∨ p ∈ stack := by
  unfold push at h
  by_cases hdots : (part == "..") = true
  · rw [if_pos hdots] at h
    cases stack with
    | nil =>
      cases absolute <;> simp at h
      exact Or.inl h
    | cons top rest =>
      by_cases htop : (top == "..") = true
      · simp only [htop, if_true] at h
        exact List.mem_cons.mp h
      · simp only [htop] at h
        exact Or.inr (List.mem_cons_of_mem _ h)
  · rw [if_neg hdots] at h
    exact List.mem_cons.mp h

/-- What is left of parts is one of them. -/
theorem mem_reduceParts {absolute : Bool} {parts : List String} {p : String}
    (h : p ∈ reduceParts absolute parts) : p ∈ parts := by
  have hfold : ∀ (parts stack : List String), p ∈ parts.foldl (push absolute) stack →
      p ∈ parts ∨ p ∈ stack := by
    intro parts
    induction parts with
    | nil => exact fun stack h => Or.inr h
    | cons part parts ih =>
      intro stack h
      rcases ih _ h with hin | hin
      · exact Or.inl (List.mem_cons_of_mem _ hin)
      · rcases mem_push hin with rfl | hin
        · exact Or.inl List.mem_cons_self
        · exact Or.inr hin
  unfold reduceParts at h
  rcases hfold parts [] (List.mem_reverse.mp h) with hin | hin
  · exact hin
  · cases hin

/-- A path that is built is not empty. -/
theorem build_ne_empty {root : String} {parts : List String} (h : ∀ p ∈ parts, p ≠ "") :
    build root parts ≠ "" := by
  unfold build
  split
  · decide
  · rename_i hsome
    intro hempty
    rcases String.append_eq_empty_iff.mp hempty with ⟨hroot, hparts⟩
    cases parts with
    | nil => simp [hroot] at hsome
    | cons part rest =>
      have hpart := h part List.mem_cons_self
      cases rest with
      | nil => exact hpart (by rwa [String.intercalate_singleton] at hparts)
      | cons next rest =>
        rw [String.intercalate_cons_cons] at hparts
        exact hpart (String.append_eq_empty_iff.mp
          (String.append_eq_empty_iff.mp hparts).1).1

/-- A path is never empty. -/
theorem normalize_ne_empty (path : String) : normalize path ≠ "" := by
  refine build_ne_empty fun p hp => ?_
  have hin := mem_reduceParts hp
  unfold components at hin
  have hkept := (List.mem_filter.mp hin).2
  intro hempty
  simp [hempty] at hkept

end DocFlatten.Path

namespace DocFlatten

variable {R : Cursor → List String → List String → Prop}

/-- Two file trees with the same files, of which related lines are included, whatever a directive
selects. -/
structure FileTree.Alike (R : Cursor → List String → List String → Prop)
    (files files' : FileTree) : Prop where
  workingDir : files'.workingDir = files.workingDir
  isFile : ∀ path, files'.isFile path = files.isFile path
  read : ∀ path, path ≠ "" →
    (∃ e e', files.readText path = .error e ∧ files'.readText path = .error e') ∨
    ∃ text text', files.readText path = .ok text ∧ files'.readText path = .ok text' ∧
      ∀ attributes shownPath,
        let selection := (Selection.ofAttributes attributes shownPath (Source.text text).prepare).1
        let selection' := (Selection.ofAttributes attributes shownPath (Source.text text').prepare).1
        selection'.lineno = selection.lineno ∧ selection'.isPartial = selection.isPartial ∧
          ∀ cursor : Cursor, cursor.file = some path → cursor.lineno = selection.lineno →
            R cursor (Source.lines selection.lines).prepare (Source.lines selection'.lines).prepare

/-- Files are alike themselves. -/
theorem FileTree.Alike.refl (hR : ∀ cursor lines, R cursor lines lines) (files : FileTree) :
    FileTree.Alike R files files where
  workingDir := rfl
  isFile _ := rfl
  read path _ := by
    cases hread : files.readText path with
    | error e => exact Or.inl ⟨e, e, rfl, rfl⟩
    | ok text =>
      refine Or.inr ⟨text, text, rfl, rfl, ?_⟩
      intro attributes shownPath
      exact ⟨rfl, rfl, fun cursor _ _ => hR cursor _⟩

/-- Ways that differ at most in what is entered. -/
inductive Way.Alike (R : Cursor → List String → List String → Prop) : Way → Way → Prop where
  | vanished : Alike R .vanished .vanished
  | empty : Alike R .empty .empty
  | replaced (text : String) : Alike R (.replaced text) (.replaced text)
  | entered (lines lines' : List String) (cursor : Cursor) (frame : Nat)
      (h : R cursor lines lines') :
    Alike R (.entered lines cursor frame) (.entered lines' cursor frame)

namespace Session

/-- Resolutions that differ at most in what is entered. -/
inductive Resolution.Alike (R : Cursor → List String → List String → Prop) :
    Resolution → Resolution → Prop where
  | kept : Alike R .kept .kept
  | vanished : Alike R .vanished .vanished
  | replaced (line : String) (hplain : LineKind.ofLine line = .plain)
      (hne : line ≠ "" ∧ Text.stripEnd line = line) : Alike R (.replaced line) (.replaced line)
  | entered (selection selection' : Selection) (path shownPath : String)
      (attributes : Attributes) (hpath : path ≠ "")
      (hlineno : selection'.lineno = selection.lineno)
      (hpartial : selection'.isPartial = selection.isPartial)
      (h : ∀ cursor : Cursor, cursor.file = some path → cursor.lineno = selection.lineno →
        R cursor (Source.lines selection.lines).prepare (Source.lines selection'.lines).prepare) :
    Alike R (.entered selection path shownPath attributes)
      (.entered selection' path shownPath attributes)
  | handed (processor : Processor) (target : String) (attributes : Attributes) :
    Alike R (.handed processor target attributes) (.handed processor target attributes)
  | refused (e : FileError) : Alike R (.refused e) (.refused e)

/-! ## Resolving directives -/

/-- Sessions in which an include directive means the same. -/
structure Alongside (R : Cursor → List String → List String → Prop) (s t : Session) : Prop
    extends Agree s t where
  files : FileTree.Alike R s.files t.files
  options : t.doc.options = s.doc.options
  place : t.reader.cursor.SamePlace s.reader.cursor
  depth : t.reader.includeDepth = s.reader.includeDepth

/-- A line with a certain letter in front and a bracket at its end is content. -/
theorem replaced_of_prepend {R : Cursor → List String → List String → Prop} {head : Char}
    (first rest : String) (h : first.toList.head? = some head) (hhead : head ∉ ['\\', 'i', 'e'])
    (hrest : ∃ text, rest = text ++ "]") :
    Resolution.Alike R (.replaced (first ++ rest)) (.replaced (first ++ rest)) := by
  have hchars : (first ++ rest).toList = head :: (first.toList.tail ++ rest.toList) := by
    rw [String.toList_append]
    cases hfirst : first.toList with
    | nil => simp [hfirst] at h
    | cons c cs =>
      rw [hfirst] at h
      rcases Option.some.inj h with rfl
      rfl
  refine .replaced _ (LineKind.plain_of_toList hchars hhead) ⟨?_, ?_⟩
  · intro hempty
    simp [hempty] at hchars
  · obtain ⟨text, rfl⟩ := hrest
    rw [← String.append_assoc]
    exact stripEnd_append_bracket _

/-- A directive that cannot be resolved leads to the same line in both sessions. -/
theorem replaced_unresolved {R : Cursor → List String → List String → Prop} (s : Session)
    (i : Include) : Resolution.Alike R (.replaced (s.unresolved i)) (.replaced (s.unresolved i)) := by
  unfold unresolved
  rw [String.append_assoc, String.append_assoc]
  refine replaced_of_prepend "Unresolved directive in " _ rfl (by decide) ?_
  exact ⟨s.reader.cursor.path ++ (" - " ++ ("include::" ++ i.target ++ "[" ++ i.attrlist)), by
    simp [Include.line, String.append_assoc]⟩

/-- A link leads to the same line in both sessions. -/
theorem replaced_link {R : Cursor → List String → List String → Prop} (target : String) :
    Resolution.Alike R (.replaced (link target)) (.replaced (link target)) := by
  unfold link
  rw [String.append_assoc]
  exact replaced_of_prepend "link:" _ rfl (by decide)
    ⟨target ++ "[role=include", by rw [String.append_assoc]; rfl⟩

namespace Alongside

variable {s t : Session}

/-- A session goes alongside itself. -/
theorem refl (hR : ∀ cursor lines, R cursor lines lines) (s : Session) : Alongside R s s :=
  { Agree.refl s with
    files := .refl hR s.files, options := rfl, place := ⟨rfl, rfl, rfl⟩, depth := rfl }

/-- What stands for a directive that cannot be resolved is the same. -/
theorem unresolved (h : Alongside R s t) (i : Include) : t.unresolved i = s.unresolved i := by
  unfold Session.unresolved
  rw [h.place.path]

/-- The attributes of a directive are the same. -/
theorem directiveAttributes (h : Alongside R s t) (attrlist : String) :
    t.directiveAttributes attrlist = s.directiveAttributes attrlist := by
  unfold Session.directiveAttributes
  rw [h.attributes]

/-- A blank target leads to the same. -/
theorem resolveBlank (h : Alongside R s t) (i : Include) :
    Resolution.Alike R (s.resolveBlank i).1 (t.resolveBlank i).1 := by
  unfold Session.resolveBlank
  simp only [h.directiveAttributes, h.attributes, h.unresolved]
  split
  · exact .vanished
  · split
    · exact .vanished
    · exact replaced_unresolved _ _

/-- A file is found in both sessions or in none, and gives lines that are related. -/
theorem resolveFile (h : Alongside R s t) (i : Include) (target : String)
    (attributes : Attributes) :
    Resolution.Alike R (s.resolveFile i target attributes).1
      (t.resolveFile i target attributes).1 := by
  have hrelative : ∀ path, t.doc.relativePath s.files.workingDir path =
      s.doc.relativePath s.files.workingDir path := by
    intro path
    unfold Document.relativePath
    rw [h.options]
  unfold Session.resolveFile
  simp only [h.files.isFile, h.files.workingDir, h.place.dir, h.unresolved, hrelative]
  have hpath := Path.normalize_ne_empty (Path.join s.reader.cursor.dir target)
  generalize Path.normalize (Path.join s.reader.cursor.dir target) = path at hpath ⊢
  rcases s.files.isFile path with e | _ | _
  · -- the file cannot be looked at
    exact .refused e
  · -- there is no such file
    dsimp only
    split
    · -- an optional include leaves nothing
      exact .vanished
    · exact replaced_unresolved _ _
  · -- the file is there
    dsimp only
    rcases h.files.read _ hpath with
      ⟨e, e', hs, ht⟩ | ⟨text, text', hs, ht, hselect⟩
    · -- its text cannot be read
      rw [hs, ht]
      exact replaced_unresolved _ _
    · rw [hs, ht]
      rcases hselect attributes (s.doc.relativePath s.files.workingDir path) with
        ⟨hlineno, hpartial, hlines⟩
      exact .entered _ _ _ _ _ hpath hlineno hpartial hlines

/-- A target leads to what is related. -/
theorem resolveTarget (h : Alongside R s t) (i : Include) (target : String) :
    Resolution.Alike R (s.resolveTarget i target).1 (t.resolveTarget i target).1 := by
  have hdepth : t.maxIncludeDepth = s.maxIncludeDepth := by
    unfold maxIncludeDepth
    rw [h.attributes]
  unfold Session.resolveTarget
  simp only [h.directiveAttributes, hdepth, h.attributes, h.options, h.depth, h.unresolved]
  cases s.doc.options.processors.find? (·.handles target) with
  | some processor => exact .handed _ _ _
  | none =>
    simp only
    split
    · exact replaced_link _
    · split
      · exact .kept
      · split
        · split
          · exact replaced_unresolved _ _
          · exact replaced_link _
        · exact h.resolveFile i target _

/-- An include directive leads to the same in sessions in which it means the same. -/
theorem resolve (h : Alongside R s t) (i : Include) :
    Resolution.Alike R (s.resolve i).1 (t.resolve i).1 := by
  have hmissing : t.targetMissing = s.targetMissing := by
    unfold targetMissing
    rw [h.attributes]
  unfold Session.resolve
  simp only [hmissing, h.attributes]
  generalize (Attribute.substitute? s.targetMissing s.doc.attributes i.target).getD "" = target
  by_cases hblank : (target == "") = true
  · simp only [hblank, if_true]
    exact h.resolveBlank i
  · simp only [hblank]
    exact h.resolveTarget i target

end Alongside

/-! ## The ways in which directives are resolved -/

/-- What an include directive can lead to. Only a file that can be read is entered, outside of the
secure mode and above the limit of nested includes. Only there the system can refuse something. -/
inductive Resolves (s : Session) (i : Include) : Resolution → Prop where
  | vanished : Resolves s i .vanished
  | unresolved : Resolves s i (.replaced (s.unresolved i))
  | link : Resolves s i
      (.replaced (link ((Attribute.substitute? s.targetMissing s.doc.attributes i.target).getD "")))
  | kept (hdepth : s.maxIncludeDepth ≤ s.reader.includeDepth) : Resolves s i .kept
  | handed (processor : Processor) (target : String) (attributes : Attributes)
      (hmem : processor ∈ s.doc.options.processors) :
    Resolves s i (.handed processor target attributes)
  | entered (selection : Selection) (path shownPath text : String) (attributes : Attributes)
      (hsafe : s.doc.options.safe ≠ .secure)
      (hdepth : (s.reader.includeDepth : Int) < s.maxIncludeDepth)
      (hshown : shownPath = s.doc.relativePath s.files.workingDir path)
      (hread : s.files.readText path = .ok text)
      (hselection : selection =
        (Selection.ofAttributes attributes shownPath (Source.text text).prepare).1) :
    Resolves s i (.entered selection path shownPath attributes)
  | refused (target : String) (e : FileError)
      (htarget : (Attribute.substitute? s.targetMissing s.doc.attributes i.target).getD "" = target)
      (hsafe : s.doc.options.safe ≠ .secure)
      (hstat : s.files.stat (Path.normalize (Path.join s.reader.cursor.dir target)) = .error e) :
    Resolves s i (.refused e)

/-- A blank target leads to one of the outcomes that there are. -/
theorem resolves_blank (s : Session) (i : Include) : Resolves s i (s.resolveBlank i).1 := by
  unfold resolveBlank
  dsimp only
  split
  · exact .vanished
  · split
    · exact .vanished
    · exact .unresolved

/-- A file leads to one of the outcomes that there are. -/
theorem resolves_file {s : Session} {i : Include} {target : String} (attributes : Attributes)
    (htarget : (Attribute.substitute? s.targetMissing s.doc.attributes i.target).getD "" = target)
    (hsafe : s.doc.options.safe ≠ .secure)
    (hdepth : (s.reader.includeDepth : Int) < s.maxIncludeDepth) :
    Resolves s i (s.resolveFile i target attributes).1 := by
  unfold resolveFile
  dsimp only
  split
  · rename_i e hfile
    exact .refused target e htarget hsafe (FileTree.stat_of_isFile_error hfile)
  · split
    · exact .vanished
    · exact .unresolved
  · split
    · exact .unresolved
    · rename_i text hread
      exact .entered _ _ _ text attributes hsafe hdepth rfl hread rfl

/-- A target leads to one of the outcomes that there are. -/
theorem resolves_target {s : Session} {i : Include} {target : String}
    (htarget : (Attribute.substitute? s.targetMissing s.doc.attributes i.target).getD "" = target) :
    Resolves s i (s.resolveTarget i target).1 := by
  have hlink : Resolves s i (.replaced (link target)) := htarget ▸ .link
  unfold resolveTarget
  dsimp only
  split
  · rename_i processor hfound
    exact .handed processor target _ (List.mem_of_find?_eq_some hfound)
  · split
    · exact hlink
    · rename_i hsafe
      split
      · rename_i hdepth
        exact .kept hdepth
      · rename_i hdepth
        split
        · split
          · exact .unresolved
          · exact hlink
        · exact resolves_file _ htarget (by simpa using hsafe) (Int.not_le.mp hdepth)

/-- A directive leads to one of the outcomes that there are. -/
theorem resolves (s : Session) (i : Include) : Resolves s i (s.resolve i).1 := by
  unfold resolve
  dsimp only
  split
  · exact resolves_blank s i
  · exact resolves_target rfl

/-- A directive is handed only to one of the document's processors. -/
theorem mem_of_resolve_handed {s : Session} {i : Include} {processor : Processor}
    {target : String} {attributes : Attributes}
    (h : (s.resolve i).1 = .handed processor target attributes) :
    processor ∈ s.doc.options.processors := by
  have hresolves := resolves s i
  rw [h] at hresolves
  cases hresolves with
  | handed _ _ _ hmem => exact hmem

/-- Without processors no directive is handed over. -/
theorem resolve_ne_handed {s : Session} {i : Include} {processor : Processor} {target : String}
    {attributes : Attributes} (hprocessors : s.doc.options.processors = []) :
    (s.resolve i).1 ≠ .handed processor target attributes := by
  intro h
  have hmem := mem_of_resolve_handed h
  rw [hprocessors] at hmem
  cases hmem

/-- A directive is followed only into a file that can be read, and only above the limit of nested
includes. -/
theorem resolve_entered {s : Session} {i : Include} {selection : Selection}
    {path shownPath : String} {attributes : Attributes}
    (h : (s.resolve i).1 = .entered selection path shownPath attributes) :
    (s.reader.includeDepth : Int) < s.maxIncludeDepth ∧
      shownPath = s.doc.relativePath s.files.workingDir path ∧
      ∃ text, s.files.readText path = .ok text ∧
        selection = (Selection.ofAttributes attributes shownPath (Source.text text).prepare).1 := by
  have hresolves := resolves s i
  rw [h] at hresolves
  cases hresolves with
  | entered _ _ _ text _ _ hdepth hshown hread hselection =>
    exact ⟨hdepth, hshown, text, hread, hselection⟩

/-! ## Following directives -/

/-- Contents that are the same. -/
theorem framing_eq : Framing fun _ => Eq where
  refl _ _ := rfl
  nil_iff h := by rw [h]
  framed offset previous h := by rw [h]

/-- Replacing the line in front puts the text there. -/
theorem replaceNext_of_lines {r : Reader} {line : String} {rest : List String} (text : String)
    (h : r.scope.lines = line :: rest) : (r.replaceNext text).2 = r.shifted.unshift text := by
  simp [Reader.replaceNext, Reader.shifted, Reader.shift, h]

/-- Nothing was entered if the reader is no deeper than before. -/
theorem outcomeFrom_of_le {s : Session} {depth : Nat} (h : s.reader.includeDepth ≤ depth) :
    s.outcomeFrom depth = .vanished depth := by
  unfold outcomeFrom
  exact if_neg (Nat.not_lt.mpr h)

/-- Something was entered if the reader is deeper than before. -/
theorem outcomeFrom_of_lt {s : Session} {depth : Nat} (h : depth < s.reader.includeDepth) :
    s.outcomeFrom depth =
      .entered s.reader.scope.lines (s.reader.cursor.lineno + s.reader.frame) s.reader.frame
        s.reader.includeDepth := by
  unfold outcomeFrom
  exact if_pos h

@[simp] theorem includeDepth_shifted (r : Reader) : r.shifted.includeDepth = r.includeDepth := by
  unfold Reader.shifted Reader.shift
  cases r.scope.lines <;> rfl

@[simp] theorem lookAhead_shifted (r : Reader) : r.shifted.lookAhead = r.lookAhead - 1 := by
  unfold Reader.shifted Reader.shift
  cases r.scope.lines <;> rfl

/-- A session on the way from an include directive to its outcome: contents are entered, of which
at most one is not empty. The flag says whether one was. -/
inductive Pushed (s : Session) (i : Include) : Bool → Session → Prop where
  | outside (t : Session) (frame : Nat) (ends : List Event)
      (hends : AreEnds s.reader.includeDepth ends)
      (h : Turns s { s.reader.shifted with frame } (s.reader.found i :: ends) t) :
    Pushed s i false t
  | inside (t : Session) (lines : List String) (cursor : Cursor) (frame : Nat)
      (ends : List Event) (hlines : AreEntered lines) (hends : AreEnds s.reader.includeDepth ends)
      (h : Turns s (s.reader.shifted.entered lines cursor frame) (s.reader.found i :: ends) t) :
    Pushed s i true t

/-- The end of one more include may follow. -/
theorem areEnds_concat {depth : Nat} {ends : List Event} (h : AreEnds depth ends)
    {before after : Int} (hafter : (depth : Int) ≤ after) :
    AreEnds depth (ends ++ [.scopeEnd before after]) := by
  intro e he
  rcases List.mem_append.mp he with hold | hnew
  · exact h e hold
  · rw [List.mem_singleton] at hnew
    exact ⟨before, after, hnew, hafter⟩

/-- Entering an include takes the reader one level deeper. -/
theorem includeDepth_entered (r : Reader) (lines : List String) (cursor : Cursor) (frame : Nat) :
    (r.shifted.entered lines cursor frame).includeDepth = r.includeDepth + 1 := by
  unfold Reader.includeDepth
  simp [Reader.entered]

/-- Taking a line stays in the same place. -/
theorem samePlace_shifted (r : Reader) : r.shifted.cursor.SamePlace r.cursor := by
  unfold Reader.shifted Reader.shift
  cases r.scope.lines <;> exact ⟨rfl, rfl, rfl⟩

/-- Readers in the same place stay so when both take a line. -/
theorem samePlace_shifted_congr {r r' : Reader} (h : r'.cursor.SamePlace r.cursor) :
    r'.shifted.cursor.SamePlace r.shifted.cursor :=
  ((samePlace_shifted r').trans h).trans (samePlace_shifted r).symm

/-- A directive whose content was empty has vanished. -/
theorem followed_of_empty {s s₁ s₂ : Session} {i : Include} (hlook : s.reader.lookAhead = 0)
    (h : Turns s s.reader.shifted [s.reader.found i] s₁)
    (hentered : Turns s₁ { s₁.reader with lookAhead := 0, frame := 0 }
      [.scopeEnd (s₁.reader.includeDepth + 1) s₁.reader.includeDepth] s₂) :
    ∃ es, Way.Reported s.reader i .empty es ∧
      Turns s (Way.apply .empty s.reader) es
        (s₂.report (.includeResolved (s₂.outcomeFrom s.reader.includeDepth))) := by
  have hdepth : s₁.reader.includeDepth = s.reader.includeDepth := by
    rw [h.reader]
    exact includeDepth_shifted _
  have hreader : ({ s₁.reader with lookAhead := 0, frame := 0 } : Reader) =
      Way.apply .empty s.reader := by
    have hzero : s.reader.shifted.lookAhead = 0 := by simp [hlook]
    rw [h.reader]
    exact congrArg (fun n => ({ s.reader.shifted with lookAhead := n, frame := 0 } : Reader))
      hzero.symm
  have hends : AreEnds s.reader.includeDepth
      [.scopeEnd (s₁.reader.includeDepth + 1) s₁.reader.includeDepth] := by
    intro e he
    rw [List.mem_singleton] at he
    exact ⟨_, _, he, by omega⟩
  have hall := h.trans hentered
  rw [hreader] at hall
  refine ⟨_, .empty _ hends, ?_⟩
  have hout : s₂.reader.includeDepth ≤ s.reader.includeDepth := by
    rw [hall.reader]
    exact Nat.le_of_eq (includeDepth_shifted _)
  rw [outcomeFrom_of_le hout]
  exact hall.report _

/-- A directive whose content was entered. -/
theorem followed_of_full {s s₁ s₂ : Session} {i : Include} {lines : List String}
    {cursor : Cursor} {frame : Nat} (h : Turns s s.reader.shifted [s.reader.found i] s₁)
    (hlines : AreEntered lines) (hentered : Turns s₁ (s₁.reader.entered lines cursor frame) [] s₂) :
    ∃ es, Way.Reported s.reader i (.entered lines cursor frame) es ∧
      Turns s (Way.apply (.entered lines cursor frame) s.reader) es
        (s₂.report (.includeResolved (s₂.outcomeFrom s.reader.includeDepth))) := by
  have hall := h.trans hentered
  rw [h.reader, List.append_nil] at hall
  have hnone : AreEnds s.reader.includeDepth [] := fun e he => by cases he
  refine ⟨_, .entered lines cursor frame [] hlines hnone, ?_⟩
  have hdepth := includeDepth_entered s.reader lines cursor frame
  rw [outcomeFrom_of_lt (by rw [hall.reader, hdepth]; exact Nat.lt_succ_self _), hall.reader,
    hdepth]
  exact hall.report _

namespace Pushed

variable {s t : Session} {i : Include} {b : Bool}

/-- Entering further content, unless both it and what was entered before have lines. -/
theorem enter (h : Pushed s i b t) (hlook : s.reader.lookAhead = 0) (content : Source)
    (file path : Option String) (lineno : Int) (attributes : Attributes)
    (hone : content.prepare = [] ∨ b = false) :
    Pushed s i (b || !content.prepare.isEmpty)
      (t.enter content file path lineno attributes) := by
  have hzero : s.reader.shifted.lookAhead = 0 := by simp [hlook]
  cases h with
  | outside t frame ends hends h =>
    have hdepth : t.reader.includeDepth = s.reader.includeDepth := by
      rw [h.reader]
      exact includeDepth_shifted _
    -- nothing has lines so far, so this is the first content that may have some
    rcases t.enter_cases content file path lineno attributes with
      ⟨hempty, hturns⟩ | ⟨hfull, lines, cursor, frame', hlines, hturns⟩
    · have hreader : ({ t.reader with lookAhead := 0, frame := 0 } : Reader) =
          { s.reader.shifted with frame := 0 } := by
        rw [h.reader, ← hzero]
      have hleft := h.trans hturns
      rw [hreader] at hleft
      simp only [hempty, List.isEmpty_nil, Bool.not_true, Bool.or_false]
      exact .outside _ 0 _ (areEnds_concat hends (by omega)) hleft
    · have hin := h.trans hturns
      rw [h.reader, List.append_nil] at hin
      simp only [List.isEmpty_eq_false_iff.mpr hfull, Bool.not_false, Bool.or_true]
      exact .inside _ lines cursor frame' ends hlines hends hin
  | inside t lines cursor frame ends hlines hends h =>
    have hempty : content.prepare = [] := by simpa using hone
    have hdepth : t.reader.includeDepth = s.reader.includeDepth + 1 := by
      rw [h.reader, includeDepth_entered]
    -- one content had lines, so this one is empty and leaves at once
    rcases t.enter_cases content file path lineno attributes with
      ⟨-, hturns⟩ | ⟨hfull, -⟩
    · have hreader : ({ t.reader with lookAhead := 0, frame := 0 } : Reader) =
          s.reader.shifted.entered lines cursor 0 := by
        rw [h.reader]
        rfl
      have hleft := h.trans hturns
      rw [hreader] at hleft
      simp only [hempty, List.isEmpty_nil, Bool.not_true, Bool.or_false]
      exact .inside _ lines cursor 0 _ hlines (areEnds_concat hends (by rw [hdepth]; omega)) hleft
    · exact absurd hempty hfull

/-- What was entered is the outcome of the directive. -/
theorem followed (h : Pushed s i b t) :
    ∃ es r, Followed s.reader i es r ∧
      Turns s r es (t.report (.includeResolved (t.outcomeFrom s.reader.includeDepth))) := by
  cases h with
  | outside t frame ends hends h =>
    refine ⟨_, _, .gone ends frame hends, ?_⟩
    rw [outcomeFrom_of_le (by rw [h.reader]; exact Nat.le_of_eq (includeDepth_shifted _))]
    exact h.report _
  | inside t lines cursor frame ends hlines hends h =>
    refine ⟨_, _, .entered lines cursor frame ends hlines hends, ?_⟩
    have hdepth := includeDepth_entered s.reader lines cursor frame
    rw [outcomeFrom_of_lt (by rw [h.reader, hdepth]; exact Nat.lt_succ_self _), h.reader, hdepth]
    exact h.report _

end Pushed

end Session

end DocFlatten
