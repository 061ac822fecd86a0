import DocFlatten.Proofs.LevelOffsets

/-! # Positions of lines

A reader says where the line in front of it is. Selections move that position on, frames move it
back, placeholders take a line and put one in its place, and scopes save and restore it.

* `ShownAs`: the texts as which a line of a file is delivered;
* `Tracks`: a scope whose lines are still in step with its position, whether it is being read or
  waits; each move keeps that or leaves the scope (`Tracks.moves`);
* `Selection.kept`: the lines that are selected, with their numbers.
-/

namespace DocFlatten

open DocFlatten.Text

/-- The position some lines further down. -/
def Cursor.down (c : Cursor) (n : Nat) : Cursor :=
  { c with lineno := c.lineno + n }

@[simp] theorem Cursor.next_down (c : Cursor) (n : Nat) : (c.down n).next = c.down (n + 1) := by
  simp only [next, down, Int.natCast_add, Int.natCast_one, Int.add_assoc]

@[simp] theorem Cursor.down_zero (c : Cursor) : c.down 0 = c := by
  simp [down]

namespace Session

/-! ## What lines are delivered as -/

/-- An include directive on a line: the line itself, or the text of a single-line conditional. -/
inductive HasInclude (line : String) (i : Include) : Prop where
  | alone (h : LineKind.ofLine line = .directive i)
  | within {c : Conditional} {text : String} (h : LineKind.ofLine line = .conditional c)
      (htext : c.text = some text) (hinclude : LineKind.ofLine (stripEnd text) = .directive i)

/-- The texts as which a line of a file is delivered, if the file is shown with a path. -/
inductive ShownAs (path : String) (line : String) : String → Prop where
  | same : ShownAs path line line
  | unescaped (h : LineKind.ofLine line = .escapedConditional ∨
      LineKind.ofLine line = .escapedInclude) : ShownAs path line (Reader.dropFirst line)
  | text {c : Conditional} {text : String} (h : LineKind.ofLine line = .conditional c)
      (htext : c.text = some text) : ShownAs path line (stripEnd text)
  | unresolved {i : Include} (h : HasInclude line i) :
    ShownAs path line ("Unresolved directive in " ++ path ++ " - " ++ i.line)
  | link {i : Include} (h : HasInclude line i) (mode : Attribute.Missing)
      (attributes : Attributes) :
    ShownAs path line (link ((Attribute.substitute? mode attributes i.target).getD ""))

/-- Lines of no special kind are delivered as they are. -/
theorem ShownAs.of_plain {path line text : String} (h : ShownAs path line text)
    (hplain : LineKind.ofLine line = .plain) : text = line := by
  have hnone : ∀ i, ¬ HasInclude line i := by
    intro i hinclude
    cases hinclude with
    | alone hline => simp [hplain] at hline
    | within hline => simp [hplain] at hline
  cases h with
  | same => rfl
  | unescaped hline => simp [hplain] at hline
  | text hline => simp [hplain] at hline
  | unresolved hinclude => exact absurd hinclude (hnone _)
  | link hinclude => exact absurd hinclude (hnone _)

/-- What stands in the place of a line as long as it is not processed: the line, or the text of a
single-line conditional that may be an include directive. -/
inductive Pending (line : String) : String → Prop where
  | same : Pending line line
  | text {c : Conditional} {text : String} (h : LineKind.ofLine line = .conditional c)
      (htext : c.text = some text) (hinclude : (stripEnd text).startsWith "include::" = true) :
    Pending line (stripEnd text)

namespace Pending

variable {path line front text : String} {s : Session}

/-- A processed line is delivered without the backslash that escapes it. -/
theorem shown (h : Pending line front) (r : Reader) (hunescape : r.unescape = true →
    LineKind.ofLine front = .escapedConditional ∨ LineKind.ofLine front = .escapedInclude) :
    ShownAs path line (r.shown front) := by
  unfold Reader.shown
  cases h with
  | same =>
    split
    · exact .unescaped (hunescape ‹_›)
    · exact .same
  | text hline htext hinclude =>
    split
    · rename_i hescaped
      have hkinds := hunescape hescaped
      rcases LineKind.of_startsWith_include hinclude with hkind | ⟨i, hkind⟩ <;>
        simp [hkind] at hkinds
    · exact .text hline htext

/-- The text of a conditional that may be an include directive is no conditional. -/
theorem eq_of_conditional {c : Conditional} (h : Pending line front)
    (hfront : LineKind.ofLine front = .conditional c) : front = line := by
  cases h with
  | same => rfl
  | text _ _ hinclude =>
    rw [LineKind.not_include_of_conditional hfront] at hinclude
    cases hinclude

/-- A directive that a line was read as is one that the line contains. -/
theorem hasInclude {i : Include} (h : Pending line front)
    (hfront : LineKind.ofLine front = .directive i) : HasInclude line i := by
  cases h with
  | same => exact .alone hfront
  | text hline htext => exact .within hline htext hfront

/-- What takes the place of a line is delivered for it. -/
theorem supplanted (h : Pending line front) (hsupplants : Supplants s front text) :
    ShownAs s.reader.cursor.path line text := by
  cases hsupplants with
  | text hfront htext =>
    obtain rfl := h.eq_of_conditional hfront
    exact .text hfront htext
  | unresolved hfront => exact .unresolved (h.hasInclude hfront)
  | link hfront => exact .link (h.hasInclude hfront) _ _

end Pending

/-! ## Scopes in step -/

/-- A scope with some content, above some other scopes, in which the line in front is where the
position says. -/
inductive Tracks (total : List String) (base : Cursor) (below : List Scope) (r : Reader) : Prop
    where
  /-- The line in front is as it is in the content. -/
  | unread (i : Nat) (hscope : r.scope = ⟨total.drop i, base.down i⟩) (houter : r.outer = below)
      (hunescape : r.unescape = false)
  /-- Something may have taken the place of the line in front. -/
  | front (i : Nat) {line front : String} {rest : List String}
      (hdrop : total.drop i = line :: rest) (hscope : r.scope = ⟨front :: rest, base.down i⟩)
      (houter : r.outer = below) (hpending : r.lookAhead = 0 → Pending line front)
      (hshown : 0 < r.lookAhead → ShownAs base.path line (r.shown front))
  /-- Scopes inside of it are read. -/
  | waiting (inner : List Scope) (i : Nat)
      (houter : r.outer = inner ++ ⟨total.drop i, base.down i⟩ :: below)

namespace Tracks

variable {total : List String} {base : Cursor} {below : List Scope} {s t : Session}

theorem drop_succ {i : Nat} {line : String} {rest : List String} (h : total.drop i = line :: rest) :
    rest = total.drop (i + 1) := by
  rw [← List.tail_drop, h]
  rfl

/-- A line is taken. -/
theorem take_front {i : Nat} {line front : String} {rest : List String}
    (hdrop : total.drop i = line :: rest) (hscope : s.reader.scope = ⟨front :: rest, base.down i⟩)
    (houter : s.reader.outer = below) : Tracks total base below s.taken.reader := by
  have hlines : s.reader.scope.lines = front :: rest := by rw [hscope]
  have hcursor : s.reader.cursor = base.down i := congrArg Scope.cursor hscope
  rw [reader_taken]
  refine .unread (i + 1) ?_ ((Reader.outer_shifted _).trans houter) ?_
  · rw [Reader.shifted_of_lines hlines, ← drop_succ hdrop, ← Cursor.next_down, ← hcursor]
    rfl
  · rw [Reader.shifted_of_lines hlines]

/-- A line is looked at. -/
theorem look_front {i : Nat} {line front : String} {rest : List String}
    (hdrop : total.drop i = line :: rest) (hscope : s.reader.scope = ⟨front :: rest, base.down i⟩)
    (houter : s.reader.outer = below) (hpending : Pending line front)
    (hadvances : Advances s front rest t) : Tracks total base below t.reader := by
  have hcursor : s.reader.cursor = base.down i := congrArg Scope.cursor hscope
  cases hadvances with
  | held hscope' houter' hunescape =>
    exact .front i hdrop (hscope'.trans hscope) (houter'.trans houter) (fun _ => hpending)
      fun _ => hpending.shown _ hunescape
  | passed hscope' houter' hunescape =>
    refine .unread (i + 1) (hscope'.trans ?_) (houter'.trans houter) hunescape
    rw [hcursor, Cursor.next_down, drop_succ hdrop]
  | @replaced text hsupplants hscope' houter' hunescape hinclude =>
    rw [hcursor] at hscope'
    -- what comes in the place of the line in front keeps its position
    refine .front i hdrop hscope' (houter'.trans houter) ?_ ?_
    · intro hlook
      obtain ⟨c, raw, hline, htext, rfl, hstart⟩ := hinclude hlook
      obtain rfl := hpending.eq_of_conditional hline
      exact .text hline htext hstart
    · intro _
      have hshown : t.reader.shown text = text := by simp [Reader.shown, hunescape]
      have hpath : s.reader.cursor.path = base.path := by rw [hcursor]; rfl
      rw [hshown, ← hpath]
      exact hpending.supplanted hsupplants
  | entered _ _ hopens =>
    refine .waiting [] (i + 1) (hopens.outer.trans ?_)
    rw [hcursor, Cursor.next_down, drop_succ hdrop, houter]
    rfl

/-- The innermost scope is left: the scope itself, or one inside of it. -/
theorem leave (h : Tracks total base below s.reader) (hidle : s.reader.Idle)
    (hlines : s.reader.scope.lines = []) (hnot : s.reader.outer ≠ []) :
    Tracks total base below s.leave.reader ∨ s.leave.reader.includeDepth < below.length := by
  cases h with
  -- the node has no lines of its own, so the one below goes on
  | unread i _ houter =>
    right
    cases below with
    | nil => exact absurd houter hnot
    | cons scope below =>
      rw [(turns_leave houter).reader]
      exact Nat.lt_succ_self _
  -- there is a line in front, so it cannot be left
  | front i _ hscope =>
    rw [hscope] at hlines
    cases hlines
  -- a file within the node is left
  | waiting inner i houter =>
    left
    cases inner with
    | nil =>
      rw [(turns_leave houter).reader]
      exact .unread i rfl rfl hidle.plain
    | cons scope inner =>
      rw [(turns_leave houter).reader]
      exact .waiting inner i rfl

/-- A line is looked at, in the scope itself or inside of it. -/
theorem look (h : Tracks total base below s.reader) (hlook : s.reader.lookAhead = 0) {line : String}
    {rest : List String} (hfront : s.reader.scope.lines = line :: rest)
    (hadvances : Advances (s.meet line) line rest t) : Tracks total base below t.reader := by
  cases h with
  | unread i hscope houter =>
    have hdrop : total.drop i = line :: rest := by
      rw [← hfront, hscope]
    rw [hdrop] at hscope
    exact look_front (s := s.meet line) hdrop hscope houter .same hadvances
  | front i hdrop hscope houter hpending =>
    have hlines := hfront
    rw [hscope] at hlines
    obtain ⟨rfl, rfl⟩ := List.cons.inj hlines
    exact look_front (s := s.meet _) hdrop hscope houter (hpending hlook) hadvances
  | waiting inner i houter =>
    cases hadvances with
    | held _ houter' | passed _ houter' | replaced _ _ houter' _ _ =>
      exact .waiting inner i (houter'.trans houter)
    | entered _ _ hopens =>
      refine .waiting (⟨rest, s.reader.cursor.next⟩ :: inner) i ?_
      exact hopens.outer.trans (congrArg (List.cons _) houter)

/-- A line is taken, from the scope itself or inside of it. -/
theorem take (h : Tracks total base below s.reader) (hfront : s.reader.scope.lines ≠ []) :
    Tracks total base below s.taken.reader := by
  cases h with
  | unread i hscope houter =>
    rw [hscope] at hfront
    obtain ⟨line, rest, hdrop⟩ := List.exists_cons_of_ne_nil hfront
    simp only at hdrop
    rw [hdrop] at hscope
    exact take_front hdrop hscope houter
  | front i hdrop hscope houter => exact take_front hdrop hscope houter
  | waiting inner i houter =>
    rw [reader_taken]
    exact .waiting inner i ((Reader.outer_shifted _).trans houter)

/-- A move keeps a scope in step, or leaves it. -/
theorem moves (h : Tracks total base below s.reader) (hsound : Scan.Sound s) (hmoves : Move s t) :
    Tracks total base below t.reader ∨ t.reader.includeDepth < below.length := by
  cases hmoves with
  | leave hlook hlines houter => exact h.leave (hsound.1.idle (by omega)) hlines houter
  | look hlook hfront hglance =>
    exact Or.inl (h.look hlook hfront
      (advances_glance (s := s.meet _) (hsound.1.idle (by omega)) hfront hglance))
  | take hheld =>
    obtain ⟨line, rest, hfront⟩ := hsound.1.exists_front hheld
    exact Or.inl (h.take (by rw [hfront]; exact List.cons_ne_nil _ _))
  | @edit d hedit =>
    have hreader : ({ s with doc := d } : Session).reader = s.reader := hedit.reader
    rw [hreader]
    exact Or.inl h
  | log record => exact Or.inl h

/-- A scope with nothing around it is never left. -/
theorem runs (h : Tracks total base [] s.reader) (hsound : Scan.Sound s) (hruns : Runs s t) :
    Tracks total base [] t.reader := by
  induction hruns with
  | refl => exact h
  | tail hbefore hmoves ih =>
    rcases ih.moves (Scan.harmless_processors.runs hsound hbefore) hmoves with htracks | hleft
    · exact htracks
    · cases hleft

end Tracks

/-- Any number of moves inside of more scopes than some number. -/
def RunsInside (depth : Nat) : Session → Session → Prop :=
  Relation.ReflTransGen fun s t => Move s t ∧ depth < t.reader.includeDepth

namespace Tracks

variable {total : List String} {base : Cursor} {below : List Scope} {s t : Session}

/-- A scope is in step until it is left. -/
theorem inside {depth : Nat} (h : Tracks total base below s.reader) (hsound : Scan.Sound s)
    (hdepth : below.length ≤ depth + 1) (hruns : RunsInside depth s t) :
    Tracks total base below t.reader ∧ Scan.Sound t := by
  induction hruns with
  | refl => exact ⟨h, hsound⟩
  | tail _ hstep ih =>
    obtain ⟨htracks, hsound⟩ := ih
    refine ⟨?_, Scan.harmless_processors.moves hsound hstep.1⟩
    rcases htracks.moves hsound hstep.1 with hstill | hleft
    · exact hstill
    · have := hstep.2
      omega

/-- While the scope itself is read, the position tells which line is delivered. -/
theorem delivered (h : Tracks total base below s.reader) {text : String} (hheld : Scan.Held s text)
    (hdepth : s.reader.includeDepth = below.length) :
    ∃ i line, total[i]? = some line ∧ s.reader.cursor = base.down i ∧
      ShownAs base.path line text := by
  have hline : ∀ {i line} {rest : List String}, total.drop i = line :: rest →
      total[i]? = some line := by
    intro i line rest hdrop
    rw [← List.head?_drop, hdrop]
    rfl
  cases h with
  | unread i hscope houter hunescape =>
    have hhead := hheld.head
    unfold Reader.head? at hhead
    rw [hscope] at hhead
    cases hdrop : total.drop i with
    | nil => simp [hdrop] at hhead
    | cons line rest =>
      obtain rfl : line = text := by simpa [hdrop, Reader.shown, hunescape] using hhead
      exact ⟨i, line, hline hdrop, congrArg Scope.cursor hscope, .same⟩
  | @front i line front rest hdrop hscope houter hpending hshown =>
    have hhead := hheld.head
    unfold Reader.head? at hhead
    rw [hscope] at hhead
    obtain rfl : s.reader.shown front = text := by simpa using hhead
    exact ⟨i, line, hline hdrop, congrArg Scope.cursor hscope, hshown hheld.lookAhead⟩
  | waiting inner i houter =>
    -- the reader is deeper than this scope
    unfold Reader.includeDepth at hdepth
    rw [houter, List.length_append, List.length_cons] at hdepth
    omega

end Tracks

end Session

/-! ## Kept lines -/

namespace Selection

variable {attributes : Attributes} {lines : List String}

/-- The lines that are kept for their tags, with their numbers. -/
def keptByTags (attributes : Attributes) (lines : List String) : List (String × Nat) :=
  match given? attributes "tag" <|> given? attributes "tags" with
  | none => numbered lines
  | some spec =>
    match parseTags spec with
    | [] => numbered lines
    | tags => (TagRule.ofTags tags).keep [] (numbered lines)

/-- The lines that a directive's attributes ask for, with their numbers. -/
def kept (attributes : Attributes) (lines : List String) : List (String × Nat) :=
  match given? attributes "lines" with
  | none => keptByTags attributes lines
  | some spec =>
    match parseRanges spec with
    | [] => keptByTags attributes lines
    | ranges => inRangesOnly ranges (numbered lines)

/-- A selection has some lines, and the number of the first of them. -/
structure Keeps (selection : Selection) (entries : List (String × Nat)) : Prop where
  lines : selection.lines = entries.map (·.1)
  lineno : ∀ first ∈ entries.head?, selection.lineno = first.2

/-- A whole file is selected with the numbers of its lines. -/
theorem keeps_whole (lines : List String) : (whole lines).Keeps (numbered lines) := by
  refine ⟨?_, ?_⟩
  · unfold whole numbered
    rw [List.zipIdx_map_fst]
  · intro first hfirst
    cases lines with
    | nil => simp [numbered] at hfirst
    | cons line rest =>
      obtain rfl : (line, 1) = first := by simpa [numbered] using hfirst
      rfl

/-- Lines that are kept keep their numbers. -/
theorem keeps_ofKept (entries : List (String × Nat)) : (ofKept entries).Keeps entries := by
  refine ⟨rfl, ?_⟩
  intro first hfirst
  simp [ofKept, Option.mem_def.mp hfirst]

/-- A selection by tags keeps the numbers of its lines. -/
theorem keeps_byTags (attributes : Attributes) (path : String) (lines : List String) :
    (byTags attributes path lines).1.Keeps (keptByTags attributes lines) := by
  unfold byTags keptByTags
  cases given? attributes "tag" <|> given? attributes "tags" with
  | none => exact keeps_whole lines
  | some spec =>
    cases htags : parseTags spec with
    | nil => simpa only [htags] using keeps_whole lines
    | cons tag tags => simpa only [htags] using keeps_ofKept _

/-- A selection keeps the numbers of its lines, whatever the attributes ask for. -/
theorem keeps_ofAttributes (attributes : Attributes) (path : String) (lines : List String) :
    (ofAttributes attributes path lines).1.Keeps (kept attributes lines) := by
  unfold ofAttributes kept
  have hbyTags := keeps_byTags attributes path lines
  cases given? attributes "lines" with
  | none => exact hbyTags
  | some spec =>
    cases hranges : parseRanges spec with
    | nil => simpa only [hranges] using hbyTags
    | cons range ranges => simpa only [hranges] using keeps_ofKept _

/-- The numbers of consecutive lines go on from the first one. -/
theorem Keeps.getElem? {selection : Selection} {entries : List (String × Nat)}
    (h : selection.Keeps entries) (hrun : entries <:+: numbered lines) {k : Nat} {line : String}
    (hline : selection.lines[k]? = some line) :
    ∃ n, lines[n]? = some line ∧ n + 1 = selection.lineno + k := by
  obtain ⟨before, after, hnumbered⟩ := hrun
  have hplace : ∀ j entry, entries[j]? = some entry →
      lines[before.length + j]? = some entry.1 ∧ entry.2 = before.length + j + 1 := by
    intro j entry hentry
    have hin : (numbered lines)[before.length + j]? = some entry := by
      have hj : j < entries.length := (List.getElem?_eq_some_iff.mp hentry).1
      rw [← hnumbered, List.append_assoc, List.getElem?_append_right (by omega),
        Nat.add_sub_cancel_left, List.getElem?_append_left hj, hentry]
    unfold numbered at hin
    rw [List.getElem?_zipIdx] at hin
    obtain ⟨found, hfound, rfl⟩ := Option.map_eq_some_iff.mp hin
    exact ⟨hfound, by simp only; omega⟩
  rw [h.lines, List.getElem?_map] at hline
  obtain ⟨entry, hentry, rfl⟩ := Option.map_eq_some_iff.mp hline
  obtain ⟨first, hhead⟩ : ∃ first, entries[0]? = some first := by
    cases entries with
    | nil => simp at hentry
    | cons first rest => exact ⟨first, rfl⟩
  have hlineno := h.lineno first (by rw [List.head?_eq_getElem?]; exact hhead)
  have hnumber := (hplace 0 first hhead).2
  exact ⟨before.length + k, (hplace k entry hentry).1, by omega⟩

end Selection

end DocFlatten
