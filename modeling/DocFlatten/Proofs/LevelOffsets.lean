import DocFlatten.Proofs.Advancing
import DocFlatten.Proofs.Ending
import DocFlatten.Proofs.Moments
import DocFlatten.Proofs.References

/-! # Level offsets around includes

The lines of an include with a level offset stand between an entry that sets the offset and one
that restores what was there before. The second one is a line like any other: it counts only if the
reader does not skip it and the scan takes it for an entry.

* `parse?_restoring`, `get?_applied`: what the restoring entry spells, and what it does;
* `Guarded`: what is left of a scope that ends with that entry, however deep scopes are nested
  inside of it; `Watched.next`: each step keeps it, or leaves the scope;
* `level_offset_restored`: so the attribute is restored when the scope is left, unless its end is
  read inside a delimited block or a false conditional; `level_offset_leaks`: in the latter it is
  not.
-/

namespace DocFlatten

open DocFlatten.Text

/-! ## The restoring entry -/

namespace Attribute

/-- A value that an entry gives back as it is. -/
structure Plain (value : String) : Prop where
  stripped : strip value = value
  unbraced : '\x7b' ∉ value.toList
  oneLine : '\n' ∉ value.toList

/-- The entry that gives an attribute the value it had, or none if it had none. -/
def Entry.giving (name : String) : Option String → Entry
  | some value => .set name value
  | none => .unset name

theorem isBlank_of_isSpaceOrTab {c : Char} (h : isSpaceOrTab c = true) : isBlank c = true := by
  have hcases : c = ' ' ∨ c = '\t' := by simpa [isSpaceOrTab] using h
  rcases hcases with rfl | rfl <;> decide

/-- A plain value does not start with a space. -/
theorem Plain.dropWhile_eq {value : String} (h : Plain value) :
    value.toList.dropWhile isSpaceOrTab = value.toList := by
  have hstripped : stripChars value.toList = value.toList := by
    rw [← String.toList_ofList (l := stripChars value.toList)]
    exact congrArg String.toList h.stripped
  cases hchars : value.toList with
  | nil => rfl
  | cons c cs =>
    apply List.dropWhile_cons_of_neg
    intro hc
    -- a blank in front would be stripped
    rw [hchars] at hstripped
    have hlength : (stripChars (c :: cs)).length ≤ cs.length := by
      unfold stripChars dropEndWhile
      rw [List.dropWhile_cons_of_pos (isBlank_of_isSpaceOrTab hc), List.length_reverse]
      refine (List.dropWhile_suffix _).length_le.trans ?_
      rw [List.length_reverse]
      exact (List.dropWhile_suffix _).length_le
    rw [hstripped] at hlength
    simp at hlength

/-- A plain value is read from an entry as it is. -/
theorem entryValue?_plain {value : String} (h : Plain value) :
    entryValue? (' ' :: value.toList) = some value.toList := by
  have hline : value.toList.takeWhile (· != '\n') = value.toList := by
    rw [List.takeWhile_eq_self_iff]
    intro c hc
    have hne : c ≠ '\n' := fun heq => h.oneLine (heq ▸ hc)
    simpa using hne
  have hrest : restOfLine? value.toList = some value.toList := by
    unfold restOfLine?
    simp [hline, endsLine]
  have hspace : isSpaceOrTab ' ' = true := by decide
  unfold entryValue?
  simp only [hspace, if_true]
  rw [List.dropWhile_cons_of_pos hspace, h.dropWhile_eq, hrest]

/-- A name, a colon and a value spell an entry. -/
theorem Entry.ofChars?_set {first : Char} {others name rest value : List Char}
    (hfirst : first ≠ '!') (hname : takeName? (first :: others) = some (name, ':' :: rest))
    (hvalue : entryValue? rest = some value) :
    ofChars? (':' :: first :: others) =
      some (.set (lower (String.ofList name)) (String.ofList (stripChars value))) := by
  simp [ofChars?, hfirst, hname, hvalue]

/-- An entry that sets a level offset, as the frame of an include has it. -/
theorem Entry.parse?_offset {value : String} (h : Plain value) :
    parse? (":leveloffset: " ++ value) = some (.set "leveloffset" value) := by
  have hchars : (":leveloffset: " ++ value).toList =
      ':' :: 'l' :: ("eveloffset".toList ++ ':' :: ' ' :: value.toList) := by
    rw [String.toList_append]
    rfl
  have hname : takeName? ('l' :: ("eveloffset".toList ++ ':' :: ' ' :: value.toList)) =
      some ('l' :: "eveloffset".toList, ':' :: ' ' :: value.toList) :=
    takeName?_append_cons (by decide) (by decide) (by decide)
  have hlower : lower (String.ofList ('l' :: "eveloffset".toList)) = "leveloffset" := by decide
  have hvalue : String.ofList (stripChars value.toList) = value := h.stripped
  unfold parse?
  rw [hchars, ofChars?_set (by decide) hname (entryValue?_plain h), hlower, hvalue]

end Attribute

namespace Session

open Attribute

/-- The last line of the frame around an include: it restores the level offset. -/
def restoring : Option String → String
  | some value => ":leveloffset: " ++ value
  | none => ":leveloffset!:"

/-- A file with an offset is read between two entries, each with an empty line. -/
theorem framed_eq (offset : String) (previous : Option String) (lines : List String) :
    framed offset previous lines =
      (":leveloffset: " ++ offset) :: "" :: lines ++ ["", restoring previous] := by
  cases previous <;> simp [framed, restoring]

variable {previous : Option String}

/-- The entry that restores an offset starts with a colon. -/
theorem toList_restoring (previous : Option String) :
    ∃ rest, (restoring previous).toList = ':' :: rest := by
  cases previous with
  | none => exact ⟨_, rfl⟩
  | some value => exact ⟨_, String.toList_append⟩

theorem restoring_ne_empty (previous : Option String) : restoring previous ≠ "" := by
  obtain ⟨rest, hrest⟩ := toList_restoring previous
  intro hempty
  simp [hempty] at hrest

/-- So it is a line of content. -/
theorem ofLine_restoring (previous : Option String) :
    LineKind.ofLine (restoring previous) = .plain := by
  obtain ⟨rest, hrest⟩ := toList_restoring previous
  exact LineKind.plain_of_toList hrest (by decide)

theorem isComment_restoring (previous : Option String) :
    LineShape.isComment (restoring previous) = false := by
  obtain ⟨rest, hrest⟩ := toList_restoring previous
  have hstart : (restoring previous).startsWith "//" = false := by
    rw [Bool.eq_false_iff]
    intro hstart
    rw [String.startsWith_string_iff, hrest] at hstart
    simp at hstart
  unfold LineShape.isComment
  rw [hstart]
  rfl

/-- It is no title. -/
theorem documentTitle?_restoring (previous : Option String) :
    LineShape.documentTitle? (restoring previous) = none := by
  obtain ⟨rest, hrest⟩ := toList_restoring previous
  unfold LineShape.documentTitle?
  rw [hrest]
  rfl

/-- No block is delimited by it. -/
theorem restoring_ne_delimiter {delimiter : String}
    (h : (LineShape.delimited? delimiter).isSome = true) : restoring previous ≠ delimiter := by
  rintro rfl
  obtain ⟨rest, hrest⟩ := toList_restoring previous
  have hnone : ∀ entry ∈ LineShape.delimiters, entry.1.toList.head? ≠ some ':' := by decide
  unfold LineShape.delimited? at h
  rw [Option.isSome_map, List.find?_isSome] at h
  obtain ⟨entry, hentry, hsame⟩ := h
  refine hnone entry hentry ?_
  rw [eq_of_beq hsame, hrest]
  rfl

/-- It gives the offset its old value, or takes it away if there was none. -/
theorem parse?_restoring (hplain : ∀ value ∈ previous, Plain value) :
    Entry.parse? (restoring previous) = some (.giving "leveloffset" previous) := by
  cases previous with
  | none => rfl
  | some value => exact Entry.parse?_offset (hplain value rfl)

/-- The entry gives the attribute the value it had, unless the caller has locked it. -/
theorem get?_applied (hplain : ∀ value ∈ previous, Plain value) (name : String) (s : Session) :
    Mapping.get? (s.applied (.giving name previous)).doc.attributes name =
      if s.doc.isLocked name then Mapping.get? s.doc.attributes name else previous := by
  cases previous with
  | none =>
    simp only [Entry.giving, Session.applied, edit, Document.setAttribute]
    split
    · rfl
    · simp [Mapping.get?_erase]
  | some value =>
    simp only [Entry.giving, Session.applied, edit, Document.setAttribute, doc_logAll,
      substitute?_of_not_mem (hplain value rfl).unbraced]
    split
    · rfl
    · simp

end Session

namespace Scan

open Session

/-! ## The lines at the end of the frame -/

/-- Whether the scan is inside a delimited block. -/
def Mode.isDelimited : Mode → Bool
  | .delimited .. => true
  | _ => false

/-- Neither below the title nor in a paragraph, where an entry belongs to what is in front of it. -/
def Mode.isLoose : Mode → Bool
  | .heading | .paragraph .. => false
  | _ => true

/-- A delimited block was opened by a delimiter. -/
def Mode.Proper : Mode → Prop
  | .delimited delimiter _ _ _ _ => (LineShape.delimited? delimiter).isSome = true
  | _ => True

namespace Moment

variable {m m' : Moment} {previous : Option String}

/-- Whatever a line is, the mode stays a proper one. -/
theorem proper_found (h : m.mode.Proper) (line : String) : (m.found line).mode.Proper := by
  unfold found
  cases hmode : m.mode with
  | opening =>
    simp only [inOpening]
    split
    · trivial
    · split <;> trivial
  | heading =>
    simp only [inHeading]
    split
    · trivial
    · split
      · trivial
      · split <;> trivial
  | body =>
    simp only [inBody]
    split
    · trivial
    · split
      · trivial
      · split
        · trivial
        · split
          · trivial
          · split
            · -- a delimiter opens a block of its kind
              rename_i hcontext
              exact Option.isSome_iff_exists.mpr ⟨_, hcontext⟩
            · trivial
  | paragraph lines location =>
    simp only [inParagraph]
    split <;> trivial
  | delimited delimiter context start lines location =>
    rw [hmode] at h
    simp only [inDelimited]
    split
    · -- the end of a block leads back to the body
      trivial
    · exact h
  | done =>
    simp only [hmode]
    trivial

/-- And so it does in every step. -/
theorem proper_next (h : m.mode.Proper) (hnext : m.next = some m') : m'.mode.Proper := by
  obtain ⟨-, hstep⟩ := next_cases hnext
  cases hstep with
  | found => exact proper_found h _
  | ended =>
    unfold ended
    cases hmode : m.mode with
    | done =>
      simp only [hmode]
      trivial
    | _ => trivial
  | leave => exact h
  | look => exact h

/-- A blank line ends headers and paragraphs before it is taken. -/
theorem found_blank (hmode : m.mode.isDone = false) :
    (m.found "").session.reader = m.session.reader ∨
      (m.found "").session.reader = m.session.reader.shifted ∧ (m.found "").mode.isLoose = true := by
  unfold found
  cases hcase : m.mode with
  | opening => exact Or.inr ⟨reader_taken _, rfl⟩
  | heading => exact Or.inl rfl
  | body => exact Or.inr ⟨reader_taken _, rfl⟩
  | paragraph lines location => exact Or.inl rfl
  | delimited delimiter context start lines location =>
    simp only [inDelimited]
    split
    · exact Or.inr ⟨reader_taken _, rfl⟩
    · exact Or.inr ⟨reader_taken _, rfl⟩
  | done => simp [hcase, Mode.isDone] at hmode

/-- What becomes of the restoring entry: it is left to the body, it is applied, or it is content of
a delimited block. -/
inductive Restores (previous : Option String) (m m' : Moment) : Prop where
  | left (hmode : m'.mode.isLoose = true) (hsession : m'.session = m.session)
  | applied (hsession : m'.session = m.session.taken.applied (.giving "leveloffset" previous))
  | swallowed (hmode : m'.mode.isDelimited = true) (hsession : m'.session = m.session.taken)

/-- The entry is applied, unless a block swallows it. -/
theorem found_restoring (hplain : ∀ value ∈ previous, Attribute.Plain value)
    (hmode : m.mode.isDone = false) (hloose : m.mode.isLoose = true) (hproper : m.mode.Proper) :
    Restores previous m (m.found (restoring previous)) := by
  have hcontent : ¬ (restoring previous == "" || LineShape.isComment (restoring previous)) = true := by
    simp [restoring_ne_empty, isComment_restoring]
  unfold found
  cases hcase : m.mode with
  | opening =>
    simp only [inOpening, if_neg hcontent, documentTitle?_restoring]
    exact .left rfl rfl
  | body =>
    simp only [inBody, if_neg hcontent, parse?_restoring hplain]
    exact .applied rfl
  | delimited delimiter context start lines location =>
    rw [hcase] at hproper
    simp only [inDelimited]
    rw [if_neg (by simpa using restoring_ne_delimiter hproper)]
    exact .swallowed rfl rfl
  | heading => simp [hcase, Mode.isLoose] at hloose
  | paragraph lines location => simp [hcase, Mode.isLoose] at hloose
  | done => simp [hcase, Mode.isDone] at hmode

end Moment

end Scan

/-! ## Locks -/

namespace Session

/-- Nothing that the caller has locked has changed. -/
structure Upheld (s s' : Session) : Prop where
  locked : s'.doc.locked = s.doc.locked
  kept : ∀ name, s.doc.isLocked name = true →
    Mapping.get? s'.doc.attributes name = Mapping.get? s.doc.attributes name

namespace Upheld

variable {s t u : Session}

/-- What is locked stays locked. -/
theorem isLocked (h : Upheld s t) (name : String) : t.doc.isLocked name = s.doc.isLocked name :=
  Document.isLocked_congr h.locked name

theorem trans (h : Upheld s t) (h' : Upheld t u) : Upheld s u := by
  refine ⟨h'.locked.trans h.locked, ?_⟩
  intro name hlocked
  exact (h'.kept name ((h.isLocked name).trans hlocked)).trans
    (h.kept name hlocked)

theorem of_eq (hlocked : t.doc.locked = s.doc.locked)
    (hattributes : t.doc.attributes = s.doc.attributes) : Upheld s t :=
  ⟨hlocked, fun _ _ => by rw [hattributes]⟩

/-- A turn changes neither attributes nor locks. -/
theorem of_turns {r : Reader} {es : List Event} (h : Turns s r es t) : Upheld s t :=
  of_eq (by rw [h.doc]) h.attributes

theorem taken (s : Session) : Upheld s s.taken := by
  have hdoc : s.taken.doc = { s.doc with reader := s.reader.shifted } := doc_takeFront s
  exact of_eq (by rw [hdoc]) (by rw [hdoc])

/-- An entry that is applied leaves locked attributes alone. -/
theorem applied (entry : Attribute.Entry) (s : Session) : Upheld s (s.applied entry) := by
  have hset : ∀ t : Session, ∀ name value, Upheld t (t.edit (·.setAttribute name value)) := by
    intro t name value
    have h := Document.amended_setAttribute t.doc name value
    exact ⟨h.locked, h.kept⟩
  have hlogged : ∀ records, Upheld s (s.logAll records) := fun records =>
    of_eq (by rw [doc_logAll]) (by rw [doc_logAll])
  cases entry with
  | unset name => exact hset s name none
  | set name value => exact (hlogged _).trans (hset _ name _)

end Upheld

end Session

namespace Scan

open Session

/-- Whatever a line is, locked attributes keep their values. -/
theorem Reaction.upheld {s t : Session} {line : String} (h : Reaction s line t) : Upheld s t := by
  induction h with
  | left => exact .of_eq rfl rfl
  | taken => exact .taken s
  | applied => exact (Upheld.taken s).trans (.applied _ _)
  | noted _ hf ih => exact ih.trans (.of_eq hf.locked hf.attributes)

/-- And so they do in every step. -/
theorem Moment.upheld_next {m m' : Moment} (h : m.next = some m') :
    Upheld m.session m'.session := by
  obtain ⟨-, hstep⟩ := next_cases h
  cases hstep with
  | found => exact (reaction_found m _).upheld
  | ended => exact .of_eq (retouched_ended m).locked (retouched_ended m).attributes
  | leave hlook hlines houter =>
    cases hscopes : m.session.reader.outer with
    | nil => exact absurd hscopes houter
    | cons scope outer => exact .of_turns (turns_leave hscopes)
  | @look line rest t hlook hfront hglance =>
    have hlooked : Look (m.session.meet line) line _ := look_glance hlook hfront
    obtain ⟨r, es, hturns⟩ := hlooked.turns
    have hmet : Upheld m.session (m.session.meet line) := .of_eq rfl rfl
    refine hmet.trans ?_
    obtain ⟨text, hglance⟩ | hglance := hglance <;> rw [hglance] at hturns
    · exact .of_turns hturns
    · exact .of_turns hturns

/-! ## The scope of the frame -/

/-- The value of the level offset. -/
abbrev offsetOf (m : Moment) : Option String :=
  Mapping.get? m.session.doc.attributes "leveloffset"

/-- What is left of a scope that was entered with a frame, and that lies directly above some other
ones. -/
inductive Guarded (previous : Option String) (below : List Scope) (m : Moment) : Prop where
  /-- The two lines at its end are still to be read, whatever else is. -/
  | ahead (front : List String)
      (hlines : m.session.reader.scope.lines = front ++ ["", restoring previous])
      (houter : m.session.reader.outer = below)
  /-- So they are while scopes inside of it are read. -/
  | waiting (inner : List Scope) (scope : Scope) {front : List String}
      (hlines : scope.lines = front ++ ["", restoring previous])
      (houter : m.session.reader.outer = inner ++ scope :: below)
  /-- The blank line has ended a paragraph and a header. -/
  | close (hlines : m.session.reader.scope.lines = [restoring previous])
      (houter : m.session.reader.outer = below) (hplain : m.session.reader.unescape = false)
      (hloose : m.mode.isLoose = true)
  /-- Nothing is left, and the entry has had its effect unless it was hidden. -/
  | gone (hlines : m.session.reader.scope.lines = []) (houter : m.session.reader.outer = below)
      (heffect : m.mode.isDelimited = true ∨ m.session.reader.skipping = true ∨
        offsetOf m = previous)

namespace Guarded

variable {previous : Option String} {below : List Scope} {m m' : Moment} {s t : Session}
  {line : String} {rest : List String}

/-- A scope is never left with something in front of it. -/
theorem length_le (h : Guarded previous below m) :
    below.length ≤ m.session.reader.includeDepth := by
  unfold Reader.includeDepth
  cases h with
  | ahead _ _ houter | close _ houter | gone _ houter => rw [houter]
  | waiting inner scope _ houter =>
    rw [houter]
    simp only [List.length_append, List.length_cons]
    omega

/-- While lines are ahead of the entry, a line that is found leaves it guarded. -/
theorem found_ahead {front : List String}
    (hlines : m.session.reader.scope.lines = front ++ ["", restoring previous])
    (houter : m.session.reader.outer = below) (hmode : m.mode.isDone = false) :
    Guarded previous below (m.found (m.session.reader.head?.getD "")) := by
  cases front with
  -- the empty line before the entry is next
  | nil =>
    have hblank : m.session.reader.head?.getD "" = "" := by
      simp [Reader.head?, hlines, Reader.shown, Reader.dropFirst]
    rw [hblank]
    rcases Moment.found_blank hmode with hreader | ⟨hreader, hloose⟩
    · exact .ahead [] (hreader ▸ hlines) (hreader ▸ houter)
    · rw [Reader.shifted_of_lines hlines] at hreader
      refine .close ?_ ?_ ?_ hloose
      · rw [hreader]
      · rw [hreader]
        exact houter
      · rw [hreader]
  -- a line of the file is next
  | cons line front =>
    rcases (Moment.reaction_found m (m.session.reader.head?.getD "")).reader with
      hreader | hreader
    · exact .ahead _ ((congrArg (·.scope.lines) hreader).trans hlines)
        ((congrArg Reader.outer hreader).trans houter)
    · rw [Reader.shifted_of_lines hlines] at hreader
      refine .ahead front ?_ ?_
      · rw [hreader]
        rfl
      · rw [hreader]
        exact houter

/-- The entry counts unless it is hidden. -/
theorem found_close (hplain : ∀ value ∈ previous, Attribute.Plain value)
    (hlocked : m.session.doc.isLocked "leveloffset" = true → offsetOf m = previous)
    (hlines : m.session.reader.scope.lines = [restoring previous])
    (houter : m.session.reader.outer = below) (hunescape : m.session.reader.unescape = false)
    (hloose : m.mode.isLoose = true) (hproper : m.mode.Proper) (hmode : m.mode.isDone = false) :
    Guarded previous below (m.found (m.session.reader.head?.getD "")) := by
  have hline : m.session.reader.head?.getD "" = restoring previous := by
    simp [Reader.head?, hlines, Reader.shown, hunescape]
  have htaken := Reader.shifted_of_lines hlines
  rw [hline]
  cases Moment.found_restoring hplain hmode hloose hproper with
  -- the line stays in front, as the start of something that ends here
  | left hloose' hsession =>
    have hreader := congrArg Session.reader hsession
    exact .close (hreader ▸ hlines) (hreader ▸ houter) (hreader ▸ hunescape) hloose'
  | applied hsession =>
    -- the entry is applied; if the name is locked, the value was the old one anyway
    have hreader : (m.found (restoring previous)).session.reader = m.session.reader.shifted := by
      rw [hsession, reader_applied, reader_taken]
    rw [htaken] at hreader
    refine .gone ?_ ?_ (Or.inr (Or.inr ?_))
    · rw [hreader]
    · rw [hreader]
      exact houter
    · unfold offsetOf
      rw [hsession, get?_applied hplain]
      split
      · rename_i hlock
        have hupheld := Upheld.taken m.session
        rw [hupheld.isLocked] at hlock
        exact (hupheld.kept _ hlock).trans (hlocked hlock)
      · rfl
  | swallowed hmode' hsession =>
    -- the line belongs to a delimited block, and the offset stays
    have hreader : (m.found (restoring previous)).session.reader = m.session.reader.shifted := by
      rw [hsession, reader_taken]
    rw [htaken] at hreader
    refine .gone ?_ ?_ (Or.inl hmode')
    · rw [hreader]
    · rw [hreader]
      exact houter

/-- While lines are ahead of the entry, a look leaves it guarded. -/
theorem look_ahead {front : List String} {mode : Mode} (hidle : s.reader.Idle)
    (hlines : s.reader.scope.lines = front ++ ["", restoring previous])
    (houter : s.reader.outer = below) (hfront : s.reader.scope.lines = line :: rest)
    (hglance : (∃ text, s.glance line = .line text t) ∨ s.glance line = .again t) :
    Guarded previous below ⟨mode, t⟩ := by
  have hsame : line :: rest = front ++ ["", restoring previous] := hfront.symm.trans hlines
  cases front with
  | nil =>
    obtain ⟨rfl, -⟩ := List.cons.inj hsame
    -- a blank line only waits to be taken
    have hblank : s.glance "" = .line "" (s.withReader Reader.hold) := rfl
    rw [hblank] at hglance
    obtain ⟨_, hglance⟩ | hglance := hglance
    · cases hglance
      exact .ahead [] hlines houter
    · cases hglance
  | cons first front =>
    obtain ⟨rfl, rfl⟩ := List.cons.inj hsame
    cases advances_glance hidle hfront hglance with
    | held hscope houter' =>
      exact .ahead (m := ⟨mode, t⟩) (line :: front) (hscope ▸ hlines) (houter'.trans houter)
    | passed hscope houter' =>
      refine .ahead (m := ⟨mode, t⟩) front ?_ (houter'.trans houter)
      rw [hscope]
      rfl
    | @replaced text _ hscope houter' =>
      refine .ahead (m := ⟨mode, t⟩) (text :: front) ?_ (houter'.trans houter)
      rw [hscope]
      rfl
    | entered _ _ hopens =>
      have houter' := hopens.outer
      rw [houter] at houter'
      exact .waiting [] ⟨front ++ ["", restoring previous], s.reader.cursor.next⟩ rfl houter'

/-- A look at the entry itself leaves it in front, or it is hidden. -/
theorem look_close {mode : Mode} (hlines : s.reader.scope.lines = [restoring previous])
    (houter : s.reader.outer = below) (hunescape : s.reader.unescape = false)
    (hloose : mode.isLoose = true)
    (hglance : (∃ text, s.glance (restoring previous) = .line text t) ∨
      s.glance (restoring previous) = .again t) : Guarded previous below ⟨mode, t⟩ := by
  cases hskip : s.reader.skipping with
  | true =>
    -- in a false conditional the entry is passed over, and the offset stays
    have hpassed : isPassedOver (restoring previous) = true := by
      simp [isPassedOver, ofLine_restoring, restoring_ne_empty]
    rw [glance_passed hskip hpassed] at hglance
    obtain ⟨_, hglance⟩ | hglance := hglance
    · cases hglance
    · cases hglance
      have hreader : (s.withReader Reader.shifted).reader = s.reader.shifted := rfl
      rw [Reader.shifted_of_lines hlines] at hreader
      refine .gone ?_ ?_ (Or.inr (Or.inl ?_))
      · rw [hreader]
      · rw [hreader]
        exact houter
      · rw [hreader]
        exact hskip
  | false =>
    -- outside of one it waits to be taken
    rw [glance_of_plain (Or.inr ⟨hskip, ofLine_restoring previous⟩)] at hglance
    obtain ⟨_, hglance⟩ | hglance := hglance
    · cases hglance
      exact .close hlines houter hunescape hloose
    · cases hglance

end Guarded

/-- A scan that has met an include with a level offset and has not left its scope. -/
structure Watched (previous : Option String) (below : List Scope) (m : Moment) : Prop where
  sound : Sound m.session
  proper : m.mode.Proper
  locked : m.session.doc.isLocked "leveloffset" = true → offsetOf m = previous
  guarded : Guarded previous below m

/-- The scope of the frame was left for the one below it, after the entry at its end had its effect
or was hidden. -/
structure Leaves (previous : Option String) (saved : Scope) (outer : List Scope) (m m' : Moment) :
    Prop where
  attributes : m'.session.doc.attributes = m.session.doc.attributes
  scope : m'.session.reader.scope = saved
  outer : m'.session.reader.outer = outer
  effect : m.mode.isDelimited = true ∨ m.session.reader.skipping = true ∨ offsetOf m = previous

section

variable {previous : Option String} {saved : Scope} {outer : List Scope} {m m' : Moment}

/-- While scopes inside of a frame are read its own scope waits, or it is read again. -/
theorem next_waiting {below inner : List Scope} {scope : Scope} {front : List String}
    (hsound : Sound m.session) (hlines : scope.lines = front ++ ["", restoring previous])
    (houter : m.session.reader.outer = inner ++ scope :: below) (hstep : Moment.Next m m') :
    Guarded previous below m' := by
  cases hstep with
  | found =>
    refine .waiting inner scope hlines (Eq.trans ?_ houter)
    rcases (Moment.reaction_found m (m.session.reader.head?.getD "")).reader with hreader | hreader
    · rw [hreader]
    · rw [hreader, Reader.outer_shifted]
  | ended =>
    have hreader : m.ended.session.reader = m.session.reader := (Moment.retouched_ended m).reader
    exact .waiting inner scope hlines ((congrArg Reader.outer hreader).trans houter)
  | leave =>
    -- the scope with the entry is the one that is read now
    cases inner with
    | nil =>
      have hreader := (turns_leave houter).reader
      exact .ahead (m := ⟨m.mode, m.session.leave⟩) _ (by rw [hreader]; exact hlines)
        (by rw [hreader])
    -- a scope further inside was left
    | cons first inner =>
      have hreader := (turns_leave houter).reader
      exact .waiting (m := ⟨m.mode, m.session.leave⟩) inner scope hlines (by rw [hreader]; rfl)
  | @look line rest t hlook hfront hglance =>
    have hidle := hsound.1.idle (by omega)
    -- a look changes only the scopes inside
    cases advances_glance (s := m.session.meet _) hidle hfront hglance with
    | held _ houter' | passed _ houter' | replaced _ _ houter' _ _ =>
      exact .waiting inner scope hlines (houter'.trans houter)
    | entered _ _ hopens =>
      refine .waiting (⟨rest, m.session.reader.cursor.next⟩ :: inner) scope hlines ?_
      exact hopens.outer.trans (congrArg (List.cons _) houter)

/-- With nothing left in the scope of a frame, all that can come is that it is left. -/
theorem next_gone (hsound : Sound m.session) (hlines : m.session.reader.scope.lines = [])
    (houter : m.session.reader.outer = saved :: outer)
    (heffect : m.mode.isDelimited = true ∨ m.session.reader.skipping = true ∨ offsetOf m = previous)
    (hstep : Moment.Next m m') : Leaves previous saved outer m m' := by
  cases hstep with
  | found hheld =>
    obtain ⟨line, rest, hfront⟩ := hsound.1.exists_front hheld
    simp [hlines] at hfront
  | ended _ _ hnil => simp [houter] at hnil
  | leave =>
    have hturns := turns_leave houter
    refine ⟨hturns.attributes, ?_, ?_, heffect⟩
    · rw [hturns.reader]
    · rw [hturns.reader]
  | look _ hfront => simp [hlines] at hfront

/-- One step in the scope of a frame. -/
theorem Guarded.next (hplain : ∀ value ∈ previous, Attribute.Plain value)
    (h : Watched previous (saved :: outer) m) (hnext : m.next = some m') :
    Guarded previous (saved :: outer) m' ∨ Leaves previous saved outer m m' := by
  obtain ⟨hmode, hstep⟩ := Moment.next_cases hnext
  cases h.guarded with
  | ahead front hlines houter =>
    left
    -- lines of the file are still ahead, so the scope is not left
    cases hstep with
    | found => exact found_ahead hlines houter hmode
    | ended _ hnil => simp [hnil] at hlines
    | leave _ hnil => simp [hnil] at hlines
    | look hlook hfront hglance =>
      have hidle := h.sound.1.idle (by omega)
      exact look_ahead (s := m.session.meet _) hidle hlines houter hfront hglance
  | waiting inner scope hlines houter => exact Or.inl (next_waiting h.sound hlines houter hstep)
  | close hlines houter hunescape hloose =>
    left
    -- the entry itself is next
    cases hstep with
    | found =>
      exact found_close hplain h.locked hlines houter hunescape hloose h.proper hmode
    | ended _ hnil => simp [hnil] at hlines
    | leave _ hnil => simp [hnil] at hlines
    | look hlook hfront hglance =>
      obtain ⟨rfl, -⟩ := List.cons.inj (hlines.symm.trans hfront)
      exact look_close (s := m.session.meet _) hlines houter hunescape hloose hglance
  | gone hlines houter heffect => exact Or.inr (next_gone h.sound hlines houter heffect hstep)

/-- Until the scope is left, the entry stays watched. -/
theorem Watched.next (hplain : ∀ value ∈ previous, Attribute.Plain value)
    (h : Watched previous (saved :: outer) m) (hnext : m.next = some m') :
    Watched previous (saved :: outer) m' ∨ Leaves previous saved outer m m' := by
  refine (Guarded.next hplain h hnext).imp_left fun hguarded => ?_
  have hupheld := Moment.upheld_next hnext
  refine ⟨harmless_processors.runs h.sound (Moment.runs_next hnext),
    Moment.proper_next h.proper hnext, ?_, hguarded⟩
  intro hlock
  rw [hupheld.isLocked] at hlock
  exact (hupheld.kept _ hlock).trans (h.locked hlock)

end

/-! ## Leaving the scope -/

namespace Moment

/-- A run that stays inside of more scopes than some number. -/
def Inside (depth : Nat) : Moment → Moment → Prop :=
  Relation.ReflTransGen fun m m' => m.next = some m' ∧ depth < m'.session.reader.includeDepth

variable {m m' : Moment} {line : String} {rest : List String} {e : Inclusion}

/-- What goes on inside a scope was reached. -/
theorem Inside.reaches {depth : Nat} (h : Inside depth m m') : m.Reaches m' := by
  induction h with
  | refl => exact .refl
  | tail _ hstep ih => exact ih.tail hstep.1

/-- A scope that waits for its frame to be read stays so while the scan is inside of it. -/
theorem Inside.watched {previous : Option String} {saved : Scope} {outer : List Scope}
    (hplain : ∀ value ∈ previous, Attribute.Plain value)
    (hinside : Inside outer.length m m') (h : Watched previous (saved :: outer) m) :
    Watched previous (saved :: outer) m' := by
  induction hinside with
  | refl => exact h
  | tail _ hstep ih =>
    rcases ih.next hplain hstep.1 with hwatched | hleaves
    · exact hwatched
    · have hdepth := hstep.2
      unfold Reader.includeDepth at hdepth
      rw [hleaves.outer] at hdepth
      omega

/-- An include with a level offset that pushes a scope frames it. -/
theorem watched_of_inclusion {offset : String} (hsound : Sound m.session) (hproper : m.mode.Proper)
    (hlook : m.session.reader.lookAhead = 0) (hfront : m.session.reader.scope.lines = line :: rest)
    (hinclusion : m.session.inclusion? line = some e) (hlines : e.lines ≠ [])
    (hoffset : Mapping.get? e.attributes "leveloffset" = some offset)
    (hnext : m.next = some m') :
    Watched (offsetOf m) (⟨rest, m.session.reader.cursor.next⟩ :: m.session.reader.outer) m' := by
  have hupheld := upheld_next hnext
  -- the attribute has the value of before, which is the one to restore
  refine ⟨harmless_processors.runs hsound (runs_next hnext), proper_next hproper hnext, ?_, ?_⟩
  · intro hlock
    rw [hupheld.isLocked] at hlock
    exact hupheld.kept _ hlock
  · obtain ⟨-, hstep⟩ := next_cases hnext
    cases hstep with
    | found hheld => omega
    | ended _ hnil => simp [hnil] at hfront
    | leave _ hnil => simp [hnil] at hfront
    | @look line' rest' t _ hfront' hglance =>
      -- the only step that enters a file is a look at the line
      obtain ⟨rfl, rfl⟩ := List.cons.inj (hfront'.symm.trans hfront)
      have hmet : (m.session.meet line').inclusion? line' = some e := by
        rw [inclusion?_of_doc (s := m.session) (t := m.session.meet line') rfl rfl, hinclusion]
      have hopens :=
        (advances_inclusion (s := m.session.meet line') hlook hfront hmet hglance).2 hlines
      refine .ahead ((":leveloffset: " ++ offset) :: "" :: e.lines) ?_ hopens.outer
      have hscope := congrArg Scope.lines hopens.scope
      rw [scopeOf, hoffset] at hscope
      exact hscope.trans (framed_eq _ _ _)

/-- A number of steps that stay inside of more scopes than some number. -/
def walk (depth : Nat) : Nat → Moment → Option Moment
  | 0, m => some m
  | n + 1, m => m.next.bind fun m' =>
    if depth < m'.session.reader.includeDepth then walk depth n m' else none

/-- A walk goes on inside of the scope. -/
theorem inside_of_walk {depth n : Nat} (h : walk depth n m = some m') : Inside depth m m' := by
  induction n generalizing m with
  | zero =>
    cases h
    exact .refl
  | succ n ih =>
    obtain ⟨next, hnext, hrest⟩ := Option.bind_eq_some_iff.mp h
    split at hrest
    · rename_i hdepth
      exact .head ⟨hnext, hdepth⟩ (ih hrest)
    · cases hrest

end Moment

end Scan

open Scan Scan.Moment Session

/-- A level offset does not leak out of its include. Let a scan meet an include directive with a
level offset that is followed into a scope, and let that scope be left some time later, after any
other scopes, conditionals and blocks in it. Then the attribute is what it was when the directive
was met, and reading goes on behind the directive, unless the end of the scope was read inside a
delimited block or inside a false conditional. -/
theorem level_offset_restored {files : FileTree} {source : Source} {o : LoadOptions}
    {start : Session} (hopen : openSource files source o = .ok start)
    (hprocessors : o.processors = []) {met pushed last left : Moment}
    (hreach : Reaches ⟨.opening, start⟩ met) (hlook : met.session.reader.lookAhead = 0)
    {line : String} {rest : List String} (hfront : met.session.reader.scope.lines = line :: rest)
    {e : Inclusion} (hinclusion : met.session.inclusion? line = some e) (hlines : e.lines ≠ [])
    {offset : String} (hoffset : Mapping.get? e.attributes "leveloffset" = some offset)
    (hplain : ∀ value ∈ offsetOf met, Attribute.Plain value) (hpushed : met.next = some pushed)
    (hinside : Inside met.session.reader.includeDepth pushed last)
    (hleft : last.next = some left)
    (hdepth : left.session.reader.includeDepth ≤ met.session.reader.includeDepth)
    (hblock : last.mode.isDelimited = false) (hread : last.session.reader.skipping = false) :
    offsetOf left = offsetOf met ∧
      left.session.reader.scope = ⟨rest, met.session.reader.cursor.next⟩ ∧
      left.session.reader.outer = met.session.reader.outer ∧
      ∀ fuel s, load fuel files source o = .ok s → left.Reaches ⟨.done, s⟩ := by
  have hsound := sound_openSource hopen hprocessors
  have hproper : ∀ {m : Moment}, Reaches ⟨.opening, start⟩ m → m.mode.Proper := by
    intro m hm
    induction hm with
    | refl => trivial
    | tail _ hstep ih => exact proper_next ih hstep
  have hwatched := watched_of_inclusion (hreach.sound hsound) (hproper hreach) hlook hfront
    hinclusion hlines hoffset hpushed
  rcases (hinside.watched hplain hwatched).next hplain hleft with hstill | hleaves
  · -- the scope cannot be left and still be read
    have hdeep := hstill.guarded.length_le
    unfold Reader.includeDepth at hdepth hdeep
    simp only [List.length_cons] at hdeep
    omega
  · refine ⟨?_, hleaves.scope, hleaves.outer, ?_⟩
    · unfold offsetOf
      rw [hleaves.attributes]
      -- the effect of the entry was neither swallowed nor hidden
      rcases hleaves.effect with hhidden | hhidden | hrestored
      · simp [hblock] at hhidden
      · simp [hread] at hhidden
      · exact hrestored
    · intro fuel s hload
      have hrun : Reaches ⟨.opening, start⟩ left :=
        ((hreach.tail hpushed).trans hinside.reaches).tail hleft
      exact hrun.load hopen hprocessors hload

/-- A file with an offset of its own and a conditional that is left open. -/
def shiftingFiles : FileTree :=
  .ofTexts [("a.adoc", "text\n\n:leveloffset: 3\n\nifndef::x[]\n")]

/-- A document that includes it with an offset, and ends the conditional. -/
def shiftingSource : Source :=
  .lines ["include::a.adoc[leveloffset=+1]", "", "endif::[]"]

set_option synthInstance.maxSize 400 in
/-- An included file with an offset of its own and a conditional that is left open. -/
theorem level_offset_restored_own :
    ∃ start, openSource shiftingFiles shiftingSource
        { attributes := .mapping [("leveloffset", .text "1@")] } = .ok start ∧
      ∃ pushed ∈ next ⟨.opening, start⟩, ∃ inner ∈ walk 0 12 pushed, offsetOf inner = some "3" ∧
        ∃ last ∈ walk 0 7 inner, ∃ left ∈ last.next, left.session.reader.conditionalDepth = 1 ∧
          offsetOf left = offsetOf ⟨.opening, start⟩ ∧ left.session.reader.outer = [] := by
  have hrun : ∃ start ∈ (openSource shiftingFiles shiftingSource
        { attributes := .mapping [("leveloffset", .text "1@")] }).toOption,
      start.reader.lookAhead = 0 ∧
      start.reader.scope.lines = ["include::a.adoc[leveloffset=+1]", "", "endif::[]"] ∧
      (∃ e ∈ start.inclusion? "include::a.adoc[leveloffset=+1]",
        e.lines ≠ [] ∧ Mapping.get? e.attributes "leveloffset" = some "+1") ∧
      offsetOf ⟨.opening, start⟩ = some "1" ∧ start.reader.includeDepth = 0 ∧
      ∃ pushed ∈ next ⟨.opening, start⟩, ∃ inner ∈ walk 0 12 pushed, offsetOf inner = some "3" ∧
        ∃ last ∈ walk 0 7 inner, last.mode.isDelimited = false ∧
          last.session.reader.skipping = false ∧
          ∃ left ∈ last.next, left.session.reader.includeDepth ≤ 0 ∧
            left.session.reader.conditionalDepth = 1 := by
    decide +kernel
  obtain ⟨start, hopen, hlook, hfront, ⟨e, hinclusion, hlines, hoffset⟩, hvalue, hroot, pushed,
    hpushed, inner, hinner, hown, last, hlast, hblock, hread, left, hleft, hdepth, hopenLeft⟩ := hrun
  have hstart := eq_ok_of_mem_toOption hopen
  have hplain : ∀ value ∈ offsetOf ⟨.opening, start⟩, Attribute.Plain value := by
    intro value hsome
    rw [hvalue] at hsome
    cases hsome
    exact ⟨by decide, by decide, by decide⟩
  have hinside : Inside 0 pushed last := (inside_of_walk hinner).trans (inside_of_walk hlast)
  -- the file stands in the document, so its depth is above none
  rw [← hroot] at hinside hdepth
  obtain ⟨hrestored, -, houter, -⟩ := level_offset_restored hstart rfl (.refl) hlook hfront
    hinclusion hlines hoffset hplain hpushed hinside hleft hdepth hblock hread
  refine ⟨start, hstart, pushed, hpushed, inner, hinner, hown, last, hlast, left, hleft, hopenLeft,
    hrestored, ?_⟩
  rw [houter]
  exact List.length_eq_zero_iff.mp hroot

/-- A false conditional that an included file leaves open hides the entry that restores the offset:
it stays set for the rest of the document. -/
theorem level_offset_leaks :
    ∃ start ∈ (openSource (.ofTexts [("a.adoc", "ifdef::nope[]\n")])
        (.lines ["include::a.adoc[leveloffset=+1]", "endif::[]", "text"]) {}).toOption,
      offsetOf ⟨.opening, start⟩ = none ∧
      (∃ pushed ∈ next ⟨.opening, start⟩, ∃ last ∈ walk 0 9 pushed,
        last.mode.isDelimited = false ∧ ∃ left ∈ last.next,
          left.session.reader.includeDepth = 0 ∧ offsetOf left = some "+1") ∧
      ∃ s ∈ (load 20 (.ofTexts [("a.adoc", "ifdef::nope[]\n")])
          (.lines ["include::a.adoc[leveloffset=+1]", "endif::[]", "text"]) {}).toOption,
        Mapping.get? s.doc.attributes "leveloffset" = some "+1" ∧
        s.doc.blocks.map Block.lines = [["text"]] := by
  decide +kernel

end DocFlatten
