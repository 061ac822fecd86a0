import DocFlatten.Proofs.Gathering
import DocFlatten.Proofs.Positions

/-! # Cursors and blocks name physical lines

Whenever a line waits to be taken, the reader's cursor gives the file it comes from and its number
there, unless lines were left out in front of it or it belongs to the frame of a level offset
(`cursor_names_line`). Blocks that are located have the cursor of their first line.

* `Entered`: the directive that has led to the scope that is read (`entered_of_runs`);
* `Entered.tracks`: that scope is in step with the cursor;
* `scopeIn_cases`: which line of a file, or of a frame, stands at a position of the scope.
-/

namespace DocFlatten

open DocFlatten.Text

/-- The scope that an inclusion opens in some session. -/
def Inclusion.scopeIn (e : Inclusion) (s : Session) : Scope :=
  (Session.scopeOf (Mapping.get? s.doc.attributes "leveloffset") e.attributes
    (Session.scopeCursor s.reader.cursor.next (some e.path) (some e.shownPath) e.selection.lineno)
    e.lines).1

namespace Session

open Scan

/-- The line that waits to be taken comes from the line at the reader's position, among the lines of
some file. -/
def NamesLine (lines : List String) (s : Session) (text : String) : Prop :=
  ∃ (n : Nat) (line : String), lines[n]? = some line ∧ s.reader.cursor.lineno = n + 1 ∧
    ShownAs s.reader.cursor.path line text

/-- One of the four lines around the content of an include with a level offset, by its number. -/
inductive OnFrame (e : Inclusion) (previous : Option String) (lineno : Int) : String → Prop where
  | offset {offset : String} (h : Mapping.get? e.attributes "leveloffset" = some offset)
      (hlineno : lineno = e.selection.lineno - 2) :
    OnFrame e previous lineno (":leveloffset: " ++ offset)
  | above {offset : String} (h : Mapping.get? e.attributes "leveloffset" = some offset)
      (hlineno : lineno = e.selection.lineno - 1) : OnFrame e previous lineno ""
  | below {offset : String} (h : Mapping.get? e.attributes "leveloffset" = some offset)
      (hlineno : lineno = e.selection.lineno + e.lines.length) : OnFrame e previous lineno ""
  | restoring {offset : String} (h : Mapping.get? e.attributes "leveloffset" = some offset)
      (hlineno : lineno = e.selection.lineno + e.lines.length + 1) :
    OnFrame e previous lineno (restoring previous)

/-- An include directive that was met has led to the scope that is read. -/
structure Entered (start met : Session) (line : String) (rest : List String) (e : Inclusion)
    (s : Session) : Prop where
  runs : Runs start met
  front : met.reader.scope.lines = line :: rest
  inclusion : met.inclusion? line = some e
  inside : RunsInside met.reader.includeDepth met s
  depth : s.reader.includeDepth = met.reader.includeDepth + 1

/-! ## The root document -/

theorem tracks_openSource {files : FileTree} {source : Source} {o : LoadOptions} {start : Session}
    (hopen : openSource files source o = .ok start) :
    Tracks source.prepare start.reader.cursor [] start.reader ∧
      start.reader.cursor.lineno = 1 ∧ start.reader.cursor.file = start.doc.options.docfile := by
  obtain ⟨mode, -, rfl⟩ := openSource_eq_ok.mp hopen
  refine ⟨.unread 0 ?_ rfl rfl, rfl, rfl⟩
  rw [Cursor.down_zero, List.drop_zero]
  rfl

variable {start met s t : Session} {line text : String} {rest : List String} {e : Inclusion}

/-! ## Entering scopes -/

/-- A file that is entered has a path. -/
theorem path_ne_empty (h : met.inclusion? line = some e) : e.path ≠ "" := by
  obtain ⟨i, -, -, hresolve⟩ := inclusion?_eq_some h
  have halike := (Alongside.refl (R := fun _ => Eq) (fun _ _ => rfl) met).resolve i
  rw [hresolve] at halike
  cases halike with
  | entered _ _ _ _ _ hpath => exact hpath

/-- A move goes deeper by following a directive in front, and by nothing else. -/
theorem depth_of_move (hsound : Sound s) (hmove : Move s t) :
    t.reader.includeDepth ≤ s.reader.includeDepth ∨ ∃ line rest e,
      s.reader.scope.lines = line :: rest ∧ s.inclusion? line = some e ∧
      Opens (s.meet line) rest e t := by
  -- if the scopes around are the same, so is the depth
  have hsame : ∀ {u : Session}, u.reader.outer = s.reader.outer →
      u.reader.includeDepth ≤ s.reader.includeDepth :=
    fun houter => (congrArg List.length houter).le
  cases hmove with
  | leave _ _ houter =>
    left
    obtain ⟨scope, outer, hscopes⟩ := List.exists_cons_of_ne_nil houter
    unfold Reader.includeDepth
    rw [(turns_leave hscopes).reader, hscopes]
    exact Nat.le_succ _
  | @look line rest _ hlook hfront hglance =>
    have hidle := hsound.1.idle (by omega)
    cases advances_glance (s := s.meet line) hidle hfront hglance with
    -- the line is still in the scope, or it is used up
    | held _ houter | passed _ houter | replaced _ _ houter _ _ => exact Or.inl (hsame houter)
    | @entered e hinclusion _ hopens =>
      -- a file is entered
      right
      rw [inclusion?_of_doc (s := s) (t := s.meet line) rfl rfl] at hinclusion
      exact ⟨line, rest, e, hfront, hinclusion, hopens⟩
  | take => exact Or.inl (hsame (by rw [reader_taken, Reader.outer_shifted]))
  | edit hedit => exact Or.inl (hsame (congrArg Reader.outer hedit.reader))
  | log => exact Or.inl (hsame rfl)

/-- Each scope around the one that is read waits for what a directive has led to. -/
theorem exists_inside (hsound : Sound start) (hroot : start.reader.outer = [])
    (hruns : Runs start s) {depth : Nat} (hdepth : depth < s.reader.includeDepth) :
    ∃ met line rest e, Runs start met ∧ met.reader.scope.lines = line :: rest ∧
      met.inclusion? line = some e ∧ met.reader.includeDepth = depth ∧ RunsInside depth met s := by
  induction hruns with
  | refl =>
    unfold Reader.includeDepth at hdepth
    rw [hroot] at hdepth
    cases hdepth
  | @tail s t hbefore hmove ih =>
    by_cases hinside : depth < s.reader.includeDepth
    · obtain ⟨met, line, rest, e, hmet, hfront, hinclusion, hequal, hruns⟩ := ih hinside
      exact ⟨met, line, rest, e, hmet, hfront, hinclusion, hequal, hruns.tail ⟨hmove, hdepth⟩⟩
    · -- this very move has gone deeper
      rcases depth_of_move (harmless_processors.runs hsound hbefore) hmove with
        hle | ⟨line, rest, e, hfront, hinclusion, hopens⟩
      · omega
      · have hdeeper : t.reader.includeDepth = s.reader.includeDepth + 1 :=
          congrArg List.length hopens.outer
        exact ⟨s, line, rest, e, hbefore, hfront, hinclusion, by omega, .single ⟨hmove, hdepth⟩⟩

/-- Every scope but that of the root document is one that a directive has led to. -/
theorem entered_of_runs (hsound : Sound start) (hroot : start.reader.outer = [])
    (hruns : Runs start s) (hinside : s.reader.outer ≠ []) :
    ∃ met line rest e, Entered start met line rest e s := by
  have hdepth : s.reader.includeDepth - 1 < s.reader.includeDepth :=
    Nat.sub_one_lt_of_lt (List.length_pos_of_ne_nil hinside)
  obtain ⟨met, line, rest, e, hmet, hfront, hinclusion, hequal, hruns⟩ :=
    exists_inside hsound hroot hruns hdepth
  refine ⟨met, line, rest, e, hmet, hfront, hinclusion, ?_, by omega⟩
  rw [hequal]
  exact hruns

/-- The scope that a directive has led to is in step. -/
theorem Entered.tracks (h : Entered start met line rest e s) (hsound : Sound start) :
    Tracks (e.scopeIn met).lines (e.scopeIn met).cursor
      (⟨rest, met.reader.cursor.next⟩ :: met.reader.outer) s.reader := by
  have hmet : Sound met := harmless_processors.runs hsound h.runs
  rcases Relation.ReflTransGen.cases_head h.inside with rfl | ⟨pushed, ⟨hmove, hdeeper⟩, hruns⟩
  · have := h.depth
    omega
  · have hopens : Opens (met.meet line) rest e pushed := by
      rcases depth_of_move hmet hmove with hle | ⟨line', rest', e', hfront, hinclusion, hopens⟩
      · omega
      · obtain ⟨rfl, rfl⟩ := List.cons.inj (hfront.symm.trans h.front)
        obtain rfl := Option.some.inj (hinclusion.symm.trans h.inclusion)
        exact hopens
    have hpushed : Tracks (e.scopeIn met).lines (e.scopeIn met).cursor
        (⟨rest, met.reader.cursor.next⟩ :: met.reader.outer) pushed.reader := by
      refine .unread 0 ?_ hopens.outer hopens.unescape
      rw [Cursor.down_zero, List.drop_zero]
      exact hopens.scope
    exact (hpushed.inside (harmless_processors.moves hmet hmove) le_rfl hruns).1

/-! ## Lines of a scope -/

/-- A position in the content of an include with a level offset is one in its frame, or one in the
content itself. -/
theorem framed_cases {offset : String} {previous : Option String} {lines : List String} {i : Nat}
    (h : (framed offset previous lines)[i]? = some line) :
    (i = 0 ∧ line = ":leveloffset: " ++ offset) ∨ (i = 1 ∧ line = "") ∨
      (∃ k, i = k + 2 ∧ lines[k]? = some line) ∨ (i = lines.length + 2 ∧ line = "") ∨
      i = lines.length + 3 ∧ line = restoring previous := by
  rw [framed_eq] at h
  match i with
  | 0 =>
    -- the entry that sets the offset, and the empty line behind it
    left
    exact ⟨rfl, by simpa using h.symm⟩
  | 1 =>
    right; left
    exact ⟨rfl, by simpa using h.symm⟩
  | k + 2 =>
    right; right
    have hrest : (lines ++ ["", restoring previous])[k]? = some line := by simpa using h
    by_cases hk : k < lines.length
    · -- the lines of the file
      left
      rw [List.getElem?_append_left hk] at hrest
      exact ⟨k, rfl, hrest⟩
    · right
      -- the empty line behind them, and the entry that restores the offset
      rw [List.getElem?_append_right (by omega)] at hrest
      match hj : k - lines.length with
      | 0 =>
        rw [hj] at hrest
        exact Or.inl ⟨by omega, by simpa using hrest.symm⟩
      | 1 =>
        rw [hj] at hrest
        exact Or.inr ⟨by omega, by simpa using hrest.symm⟩
      | j + 2 =>
        rw [hj] at hrest
        simp at hrest

/-- The lines of a frame are delivered as they are. -/
theorem OnFrame.plain {previous : Option String} {lineno : Int}
    (h : OnFrame e previous lineno line) : LineKind.ofLine line = .plain := by
  cases h with
  | offset => exact ofLine_restoring (some _)
  | above | below => exact LineKind.ofLine_empty
  | restoring => exact ofLine_restoring previous

/-- A line of the frame is there only with an offset. -/
theorem OnFrame.exists_offset {previous : Option String} {lineno : Int}
    (h : OnFrame e previous lineno line) :
    ∃ offset, Mapping.get? e.attributes "leveloffset" = some offset := by
  cases h with
  | offset h | above h | below h | restoring h => exact ⟨_, h⟩

/-- Which line stands at a position of a scope: one of its frame, or one of its content. -/
theorem scopeIn_cases {i : Nat} {front : String} (hinclusion : met.inclusion? line = some e)
    (h : (e.scopeIn met).lines[i]? = some front) :
    (e.scopeIn met).cursor.file = some e.path ∧
      (OnFrame e (Mapping.get? met.doc.attributes "leveloffset")
          ((e.scopeIn met).cursor.down i).lineno front ∨
        ∃ k : Nat, e.lines[k]? = some front ∧
          ((e.scopeIn met).cursor.down i).lineno = e.selection.lineno + k) := by
  obtain ⟨hfile, hlineno⟩ := scopeCursor_of_file met.reader.cursor.next (path_ne_empty hinclusion)
    (some e.shownPath) e.selection.lineno
  unfold Inclusion.scopeIn scopeOf at h ⊢
  unfold Cursor.down
  cases hoffset : Mapping.get? e.attributes "leveloffset" with
  -- without an offset the scope has the lines of the file only
  | none =>
    simp only [hoffset, hlineno] at h ⊢
    exact ⟨hfile, Or.inr ⟨i, h, rfl⟩⟩
  | some offset =>
    -- with one there are two lines before them and two behind
    simp only [hoffset, hlineno] at h ⊢
    refine ⟨hfile, ?_⟩
    rcases framed_cases h with ⟨rfl, rfl⟩ | ⟨rfl, rfl⟩ | ⟨k, rfl, hcontent⟩ | ⟨rfl, rfl⟩ |
      ⟨rfl, rfl⟩
    · exact Or.inl (.offset hoffset (by omega))
    · exact Or.inl (.above hoffset (by omega))
    · exact Or.inr ⟨k, hcontent, by omega⟩
    · exact Or.inl (.below hoffset (by omega))
    · exact Or.inl (.restoring hoffset (by omega))

/-- A line of the content is a line of the file, if the lines that are kept stand one below the
other there. -/
theorem getElem?_of_inclusion {content : String} {k : Nat} {front : String}
    (hselection : e.selection = (Selection.ofAttributes e.attributes e.shownPath
      (Source.text content).prepare).1)
    (hrun : Selection.kept e.attributes (Source.text content).prepare <:+:
      Selection.numbered (Source.text content).prepare)
    (h : e.lines[k]? = some front) :
    ∃ n : Nat, (Source.text content).prepare[n]? = some front ∧ n + 1 = e.selection.lineno + k := by
  unfold Inclusion.lines at h
  have hstripped : (e.selection.lines.map stripEnd)[k]? = some front := by
    simpa [Source.prepare] using h
  rw [List.getElem?_map] at hstripped
  obtain ⟨kept, hkept, rfl⟩ := Option.map_eq_some_iff.mp hstripped
  have hkeeps : e.selection.Keeps (Selection.kept e.attributes (Source.text content).prepare) :=
    hselection ▸ Selection.keeps_ofAttributes e.attributes e.shownPath _
  obtain ⟨n, hline, hnumber⟩ := hkeeps.getElem? hrun hkept
  refine ⟨n, ?_, hnumber⟩
  rw [← map_stripEnd_prepare, List.getElem?_map, hline]
  rfl

/-! ## Positions of delivered lines -/

theorem root_named {files : FileTree} {source : Source} {o : LoadOptions}
    (hopen : openSource files source o = .ok start) (hprocessors : o.processors = [])
    (hruns : Runs start s) (hheld : Held s text) (hroot : s.reader.outer = []) :
    s.reader.cursor.file = start.doc.options.docfile ∧ NamesLine source.prepare s text := by
  have hsound := sound_openSource hopen hprocessors
  obtain ⟨htracks, hlineno, hfile⟩ := tracks_openSource hopen
  have hdepth : s.reader.includeDepth = ([] : List Scope).length := congrArg List.length hroot
  obtain ⟨n, line, hline, hcursor, hshown⟩ := (htracks.runs hsound hruns).delivered hheld hdepth
  rw [hcursor]
  refine ⟨hfile, n, line, hline, ?_, ?_⟩
  · rw [hcursor]
    show start.reader.cursor.lineno + (n : Int) = n + 1
    omega
  · rw [hcursor]
    exact hshown

/-- The cursor in a scope that a directive has led to. -/
theorem Entered.named (h : Entered start met line rest e s) (hsound : Sound start)
    (hheld : Held s text) {content : String}
    (hselection : e.selection = (Selection.ofAttributes e.attributes e.shownPath
      (Source.text content).prepare).1) :
    s.reader.cursor.file = some e.path ∧
      (OnFrame e (Mapping.get? met.doc.attributes "leveloffset") s.reader.cursor.lineno text ∨
        (Selection.kept e.attributes (Source.text content).prepare <:+:
            Selection.numbered (Source.text content).prepare →
          NamesLine (Source.text content).prepare s text)) := by
  obtain ⟨i, front, hfront, hcursor, hshown⟩ := (h.tracks hsound).delivered hheld h.depth
  obtain ⟨hfile, hplace⟩ := scopeIn_cases h.inclusion hfront
  rw [hcursor]
  refine ⟨hfile, ?_⟩
  rcases hplace with hframe | ⟨k, hcontent, hlineno⟩
  · -- a line of the frame has no line in the file
    left
    rw [hshown.of_plain hframe.plain]
    exact hframe
  · -- a line of the selection has the number that it has in the file, if the selection is in one
    -- piece
    right
    intro hrun
    obtain ⟨n, hline, hnumber⟩ := getElem?_of_inclusion hselection hrun hcontent
    refine ⟨n, front, hline, ?_, ?_⟩
    · rw [hcursor, hlineno]
      omega
    · rw [hcursor]
      exact hshown

/-- What an inclusion enters is what its attributes select of a file. -/
theorem Entered.file {files : FileTree} (h : Entered start met line rest e s)
    (hsound : Sound start) (hfiles : start.files = files) :
    ∃ content, files.readText e.path = .ok content ∧
      e.selection = (Selection.ofAttributes e.attributes e.shownPath
        (Source.text content).prepare).1 := by
  obtain ⟨i, -, -, hresolve⟩ := inclusion?_eq_some h.inclusion
  obtain ⟨-, -, content, hread, hselection⟩ := resolve_entered hresolve
  have hmet : met.files = files :=
    ((harmless_files files).runs ⟨hsound.1, hfiles⟩ h.runs).2
  rw [hmet] at hread
  exact ⟨content, hread, hselection⟩

/-- The cursor gives the file and the number of the line that waits to be taken. -/
structure Pinpoints (files : FileTree) (source : Source) (start s : Session) (text : String) :
    Prop where
  root : s.reader.outer = [] →
    s.reader.cursor.file = start.doc.options.docfile ∧ NamesLine source.prepare s text
  entered : s.reader.outer ≠ [] → ∃ met line rest e, Entered start met line rest e s
  /-- The lines of an include are numbered as in its file, if they stand one below the other there;
  only those of the frame are not in the file. -/
  included : ∀ met line rest e, Entered start met line rest e s →
    ∃ content, files.readText e.path = .ok content ∧ s.reader.cursor.file = some e.path ∧
      (OnFrame e (Mapping.get? met.doc.attributes "leveloffset") s.reader.cursor.lineno text ∨
        (Selection.kept e.attributes (Source.text content).prepare <:+:
            Selection.numbered (Source.text content).prepare →
          NamesLine (Source.text content).prepare s text))

/-- Every line that waits is pinpointed. -/
theorem pinpoints {files : FileTree} {source : Source} {o : LoadOptions}
    (hopen : openSource files source o = .ok start) (hprocessors : o.processors = [])
    (hruns : Runs start s) (hheld : Held s text) : Pinpoints files source start s text := by
  have hsound := sound_openSource hopen hprocessors
  obtain ⟨hroot, hfiles⟩ : start.reader.outer = [] ∧ start.files = files := by
    obtain ⟨mode, -, rfl⟩ := openSource_eq_ok.mp hopen
    exact ⟨rfl, rfl⟩
  refine ⟨root_named hopen hprocessors hruns hheld, entered_of_runs hsound hroot hruns, ?_⟩
  intro met line rest e hentered
  obtain ⟨content, hread, hselection⟩ := hentered.file hsound hfiles
  exact ⟨content, hread, hentered.named hsound hheld hselection⟩

end Session

open Scan Scan.Moment Session

/-- Blocks have the position of their first line, if they are to be located. -/
theorem blocks_located {files : FileTree} {source : Source} {o : LoadOptions} {start s : Session}
    (hopen : openSource files source o = .ok start) (hprocessors : o.processors = []) {fuel : Nat}
    (hload : load fuel files source o = .ok s) {before after : List Block} {b : Block}
    (hblocks : s.doc.blocks = before ++ b :: after) :
    ∃ m line, Reaches ⟨.opening, start⟩ m ∧ m.Reaches ⟨.done, s⟩ ∧ m.mode = .body ∧
      m.session.doc.blocks = before ∧ Held m.session line ∧ b.lines.head? = some line ∧
      b.location = if o.sourcemap then some m.session.reader.cursor else none := by
  have hsound := sound_openSource hopen hprocessors
  obtain ⟨hempty, hsourcemap⟩ :
      start.doc.blocks = [] ∧ start.doc.options.sourcemap = o.sourcemap := by
    obtain ⟨mode, -, rfl⟩ := openSource_eq_ok.mp hopen
    exact ⟨rfl, rfl⟩
  have hgathered := (reaches_load hopen hprocessors hload).gathered hsound rfl hempty
  -- the block began at a moment of the body, with its first line waiting
  obtain ⟨m, hreach, hbegins⟩ := hgathered.closed before b after hblocks
  obtain ⟨line, hheld, hhead⟩ := hbegins.held
  have hoptions : m.session.doc.options = start.doc.options :=
    ((harmless_reads start.doc.sourceLines start.doc.options).runs ⟨hsound.1, rfl, rfl⟩
      hreach.runs).2.2
  refine ⟨m, line, hreach, hreach.load hopen hprocessors hload, hbegins.mode, hbegins.blocks, hheld,
    hhead, ?_⟩
  rw [hbegins.location]
  unfold locationOf
  rw [hoptions, hsourcemap]

/-- Cursors name physical lines. Let no processors act on includes. Whenever a line is about to be
taken, the cursor gives the file that is read and the number of the line there, in the root document
as well as in an include whose lines stand one below the other in its file; only the lines of the
frame around an include with a level offset are not in the file. That holds for whoever drives the
reader. If blocks are to be located, each has the cursor of its first line. -/
theorem cursor_names_line {files : FileTree} {source : Source} {o : LoadOptions} {start : Session}
    (hopen : openSource files source o = .ok start) (hprocessors : o.processors = []) :
    (∀ s text, Runs start s → Held s text → Pinpoints files source start s text) ∧
    (∀ s fuel text s', Driven Document.Edited files source o s →
      s.peekLine fuel = .ok (some text, s') → Runs start s' ∧ Held s' text) ∧
    ∀ fuel s before b after, load fuel files source o = .ok s →
      s.doc.blocks = before ++ b :: after →
      ∃ m line, Reaches ⟨.opening, start⟩ m ∧ m.Reaches ⟨.done, s⟩ ∧ m.mode = .body ∧
        m.session.doc.blocks = before ∧ Held m.session line ∧ b.lines.head? = some line ∧
        Pinpoints files source start m.session line ∧
        b.location = if o.sourcemap then some m.session.reader.cursor else none := by
  have hsound := sound_openSource hopen hprocessors
  refine ⟨?_, ?_, ?_⟩
  · -- every line that a run has in front
    intro s text hruns hheld
    exact pinpoints hopen hprocessors hruns hheld
  · -- so also the lines that are looked for from outside
    intro s fuel text s' hdriven hpeek
    have hruns := runs_driven hopen hprocessors hdriven
    obtain ⟨hreach, -, hheld⟩ :=
      reaches_peek .body rfl (harmless_processors.runs hsound hruns) hpeek
    exact ⟨hruns.trans hreach.runs, hheld text rfl⟩
  · -- and the lines that blocks begin with
    intro fuel s before b after hload hblocks
    obtain ⟨m, line, hreach, hafter, hmode, hbefore, hheld, hhead, hlocation⟩ :=
      blocks_located hopen hprocessors hload hblocks
    exact ⟨m, line, hreach, hafter, hmode, hbefore, hheld, hhead,
      pinpoints hopen hprocessors hreach.runs hheld, hlocation⟩

/-- A file with three lines. -/
def threeLines : FileTree :=
  .ofTexts [("a.adoc", "one\ntwo\nthree\n")]

/-- A document that includes the last two of them. -/
def lastTwo : Source :=
  .lines ["include::a.adoc[lines=2..3]"]

set_option synthInstance.maxSize 400 in
/-- The last two lines of an included file, and the paragraph they are. -/
theorem cursor_names_line_selected :
    ∃ start, openSource threeLines lastTwo { sourcemap := true } = .ok start ∧
      (∃ e s, Entered start start "include::a.adoc[lines=2..3]" [] e s ∧ Held s "two" ∧
        s.reader.cursor.file = some "/w/a.adoc" ∧ NamesLine ["one", "two", "three"] s "two") ∧
      ∃ s ∈ (load 20 threeLines lastTwo { sourcemap := true }).toOption,
        ∃ b, s.doc.blocks = [b] ∧ b.lines = ["two", "three"] ∧
          ∃ m : Moment, Runs start m.session ∧ Held m.session "two" ∧
            b.location = some m.session.reader.cursor := by
  have hrun : ∃ start ∈ (openSource threeLines lastTwo { sourcemap := true }).toOption,
      start.reader.lookAhead = 0 ∧
      start.reader.scope.lines = ["include::a.adoc[lines=2..3]"] ∧
      start.reader.includeDepth = 0 ∧
      (∃ e ∈ start.inclusion? "include::a.adoc[lines=2..3]", e.path = "/w/a.adoc" ∧
        Mapping.get? e.attributes "leveloffset" = none ∧
        Selection.kept e.attributes ["one", "two", "three"] = [("two", 2), ("three", 3)]) ∧
      ∃ pushed ∈ next ⟨.opening, start⟩, pushed.session.reader.lookAhead = 0 ∧
        pushed.session.reader.scope.lines = ["two", "three"] ∧
        pushed.session.reader.includeDepth = 1 ∧
        ∃ held ∈ pushed.next, held.session.reader.includeDepth = 1 ∧
          0 < held.session.reader.lookAhead ∧ held.session.reader.head? = some "two" := by
    decide +kernel
  have hend : ∃ s ∈ (load 20 threeLines lastTwo { sourcemap := true }).toOption,
      s.doc.blocks.map Block.lines = [["two", "three"]] := by
    decide +kernel
  have hread : threeLines.readText "/w/a.adoc" = .ok "one\ntwo\nthree\n" ∧
      (Source.text "one\ntwo\nthree\n").prepare = ["one", "two", "three"] := by
    decide +kernel
  obtain ⟨start, hopen, hlook, hfront, hroot, ⟨e, hinclusion, hpath, hoffset, hkept⟩, pushed,
    hpushed, hlook', hlines, hdepth, held, hheld, hdepth', hwaits, hhead⟩ := hrun
  have hstart := eq_ok_of_mem_toOption hopen
  obtain ⟨hpinpoints, -, hblocks⟩ := cursor_names_line hstart rfl
  have henter : Move start pushed.session :=
    move_of_next (m := ⟨.opening, start⟩) hlook (by simp [hfront]) hpushed
  have hlooked : Move pushed.session held.session :=
    move_of_next hlook' (by simp [hlines]) hheld
  have hentered : Entered start start "include::a.adoc[lines=2..3]" [] e held.session := by
    refine ⟨.refl, hfront, hinclusion, ?_, by omega⟩
    exact .tail (.single ⟨henter, by omega⟩) ⟨hlooked, by omega⟩
  refine ⟨start, hstart, ⟨e, held.session, hentered, ⟨hwaits, hhead⟩, ?_⟩, ?_⟩
  · have hruns : Runs start held.session := .tail (.single henter) hlooked
    obtain ⟨content, hcontent, hfile, hplace⟩ :=
      (hpinpoints held.session "two" hruns ⟨hwaits, hhead⟩).included _ _ _ _ hentered
    rw [hpath] at hcontent hfile
    obtain rfl := Except.ok.inj (hcontent.symm.trans hread.1)
    refine ⟨hfile, ?_⟩
    rcases hplace with hframe | hnamed
    · obtain ⟨offset, hsome⟩ := hframe.exists_offset
      simp [hoffset] at hsome
    · rw [hread.2, hkept] at hnamed
      exact hnamed ⟨[("one", 1)], [], rfl⟩
  · obtain ⟨s, hload, hlines⟩ := hend
    obtain ⟨b, hb, hblock⟩ : ∃ b, s.doc.blocks = [b] ∧ b.lines = ["two", "three"] := by
      cases hsplit : s.doc.blocks with
      | nil => simp [hsplit] at hlines
      | cons b rest =>
        refine ⟨b, ?_⟩
        simpa [hsplit, and_comm] using hlines
    obtain ⟨m, line, hreach, -, -, -, hheld, hfirst, -, hlocation⟩ :=
      hblocks 20 s [] b [] (eq_ok_of_mem_toOption hload) hb
    obtain rfl : "two" = line := by simpa [hblock] using hfirst
    exact ⟨s, hload, b, hb, hblock, m, hreach.runs, hheld, hlocation⟩

end DocFlatten
