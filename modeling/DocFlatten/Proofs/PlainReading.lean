import DocFlatten.Proofs.Residue

/-! # Reading a source without directives

A source of which no line is a live directive is read in one scope, line by line: nothing is
entered, nothing is skipped and no event is reported. So a scan of it needs no more fuel than there
are lines, and its blocks are runs of its lines.

* `Plain`: a session at a line of such a source, kept by looking and taking;
* `Meets`: a triple for steps of a scan, which also says that the fuel is enough;
* `load_plain`: such a source is loaded without an event, and every block is located at its lines.
-/

namespace DocFlatten

open DocFlatten.Text

namespace Session

/-- Looking at a line that is no live directive shows it as content. -/
theorem glance_of_isInert {s : Session} {line : String} (hinert : isInert line = true)
    (hread : s.reader.skipping = false) (hidle : s.reader.Idle) :
    s.glance line = .line (contentOf line)
      (s.withReader fun r => { r.hold with unescape := isEscaped line }) := by
  have hheld : isEscaped line = false → s.withReader Reader.hold =
      s.withReader fun r => { r.hold with unescape := isEscaped line } := by
    intro hescaped
    have hplain : s.doc.reader.unescape = false := hidle.plain
    simp only [withReader, Reader.hold, hescaped, ← hplain]
  cases hkind : LineKind.ofLine line with
  | conditional c => simp [isInert, hkind] at hinert
  | directive i => simp [isInert, hkind] at hinert
  | plain =>
    have hescaped : isEscaped line = false := by simp [isEscaped, hkind]
    rw [glance_of_plain (Or.inr ⟨hread, hkind⟩), hheld hescaped]
    simp [contentOf, hescaped]
  | escapedConditional | escapedInclude =>
    have hescaped : isEscaped line = true := by simp [isEscaped, hkind]
    rw [glance_of_escaped (by simp [hkind, hread])]
    simp [showEscaped, contentOf, hescaped]

/-! ## Sessions at a line -/

/-- A session at line `n` of a source without live directives, before which nothing has happened.
The document started at the given position. -/
structure Plain (source : List String) (start : Cursor) (n : Nat) (s : Session) : Prop where
  inert : ∀ line ∈ source, isInert line = true
  le : n ≤ source.length
  outer : s.reader.outer = []
  reading : s.reader.skipping = false
  cursor : s.reader.cursor = { start with lineno := n + 1 }
  lines : s.reader.scope.lines = source.drop n
  front : s.reader.Idle ∨ s.reader.lookAhead = 1 ∧
    ∃ line, source[n]? = some line ∧ s.reader.unescape = isEscaped line
  quiet : s.journal.events = []
  taken : s.journal.taken.map (·.shown) = (source.take n).map contentOf
  includes : s.doc.includes = []

namespace Plain

variable {source : List String} {start : Cursor} {n : Nat} {s : Session}

theorem steady (h : Plain source start n s) : s.reader.Steady := by
  rcases h.front with hidle | ⟨hone, line, hline, -⟩
  · exact Or.inl hidle
  · refine Or.inr ⟨hone, ?_⟩
    rw [h.lines]
    intro hnil
    rw [List.drop_eq_nil_iff] at hnil
    have := (List.getElem?_eq_some_iff.mp hline).1
    omega

/-- The line that comes next is the first one that the reader has in front. -/
theorem lines_of_line (h : Plain source start n s) {line : String} (hline : source[n]? = some line) :
    s.reader.scope.lines = line :: source.drop (n + 1) := by
  obtain ⟨hlt, rfl⟩ := List.getElem?_eq_some_iff.mp hline
  rw [h.lines, List.drop_eq_getElem_cons hlt]

/-- Looking for the next line finds line `n`, and changes nothing but how the reader holds it. -/
theorem peekLine (h : Plain source start n s) (fuel : Nat) :
    ∃ s', s.peekLine (fuel + 1) = .ok ((source[n]?).map contentOf, s') ∧
      Plain source start n s' ∧ s'.doc = { s.doc with reader := s'.doc.reader } ∧
      (n < source.length → 0 < s'.reader.lookAhead) := by
  rcases h.front with hidle | ⟨hone, line, hline, hescaped⟩
  · cases hline : source[n]? with
    | none =>
      -- nothing is left, so there is nothing to show
      have hle := List.getElem?_eq_none_iff.mp hline
      have hlines : s.reader.scope.lines = [] := by
        rw [h.lines]
        exact List.drop_eq_nil_of_le hle
      rw [peekLine_of_nil fuel hidle hlines, h.outer]
      exact ⟨s, rfl, h, rfl, fun hlt => by omega⟩
    -- the line is inert, so the look holds it
    | some line =>
      have hinert := h.inert line (List.mem_of_getElem? hline)
      rw [peekLine_of_cons fuel hidle (h.lines_of_line hline),
        glance_of_isInert (s := s.meet line) hinert h.reading hidle]
      refine ⟨_, rfl, ?_, rfl, fun _ => Nat.succ_pos _⟩
      exact
        { h with
          front := Or.inr ⟨by simp [Reader.hold, hidle.lookAhead], line, hline, rfl⟩
          quiet := by simpa using h.quiet
          taken := by simpa using h.taken }
  · have hlook : 0 < s.reader.lookAhead := by omega
    -- the line is held already
    rw [peekLine_of_held fuel hlook]
    refine ⟨s, ?_, h, rfl, fun _ => hlook⟩
    simp [Reader.head?, h.lines_of_line hline, hline, Reader.shown, hescaped, contentOf]

/-- Taking the line that waits goes on to the next one. -/
theorem takeFront (h : Plain source start n s) (hlook : 0 < s.reader.lookAhead) :
    s.takeFront.1 = (source[n]?).map contentOf ∧ Plain source start (n + 1) s.takeFront.2 := by
  rcases h.front with hidle | ⟨-, line, hline, hescaped⟩
  · -- nothing is held yet, against the assumption
    have := hidle.lookAhead
    omega
  · -- the line that was looked at is taken
    have hlines := h.lines_of_line hline
    have hlt := (List.getElem?_eq_some_iff.mp hline).1
    have hdoc := doc_takeFront s
    constructor
    · simp [Session.takeFront, Reader.shift, hlines, hline, Reader.shown, hescaped, contentOf]
    · have hreader := reader_takeFront s
      have hidle := h.steady.idle_shifted hlook
      have hcursor := h.cursor
      rw [Reader.shifted_of_lines hlines] at hreader hidle
      refine ⟨h.inert, hlt, ?_, ?_, ?_, ?_, Or.inl ?_, ?_, ?_, ?_⟩
      · rw [hreader]
        exact h.outer
      · rw [hreader]
        exact h.reading
      · rw [hreader]
        simp only [Reader.cursor] at hcursor ⊢
        rw [hcursor]
        simp
      · rw [hreader]
      · rw [hreader]
        exact hidle
      · rw [journal_takeFront hlines, Journal.events_push_taken]
        exact h.quiet
      · rw [journal_takeFront hlines, Journal.taken_push_taken, List.map_append, h.taken,
          List.take_add_one, hline, List.map_append]
        simp [Reader.shown, hescaped, contentOf]
      · rw [hdoc]
        exact h.includes

/-- Reading a line takes line `n`. -/
theorem readLine (h : Plain source start n s) (fuel : Nat) :
    ∃ s', s.readLine (fuel + 1) = .ok ((source[n]?).map contentOf, s') ∧
      Plain source start (if n < source.length then n + 1 else n) s' ∧
      s'.doc = { s.doc with reader := s'.doc.reader } := by
  obtain ⟨s₁, hpeek, hplain, hdoc, hheld⟩ := h.peekLine fuel
  by_cases hlt : n < source.length
  · obtain ⟨htaken, hnext⟩ := hplain.takeFront (hheld hlt)
    have hsome : ((source[n]?).map contentOf).isSome = true := by simp [hlt]
    refine ⟨s₁.takeFront.2, ?_, by rw [if_pos hlt]; exact hnext, ?_⟩
    · rw [(Scan.readLine_of_peekLine h.steady hpeek).2 hsome, ← htaken]
    · rw [doc_takeFront, hdoc]
  · have hnone : (source[n]?).map contentOf = none := by simp [Nat.le_of_not_lt hlt]
    refine ⟨s₁, ?_, by rw [if_neg hlt]; exact hplain, hdoc⟩
    rw [(Scan.readLine_of_peekLine h.steady hpeek).1 hnone, hnone]

/-- Edits that leave the reader and the includes as they are. -/
theorem edit (h : Plain source start n s) {d : Document} (hreader : d.reader = s.doc.reader)
    (hincludes : d.includes = s.doc.includes) : Plain source start n { s with doc := d } := by
  have hr : ({ s with doc := d } : Session).reader = s.reader := hreader
  refine ⟨h.inert, h.le, ?_, ?_, ?_, ?_, ?_, h.quiet, h.taken, ?_⟩
  · rw [hr]; exact h.outer
  · rw [hr]; exact h.reading
  · rw [hr]; exact h.cursor
  · rw [hr]; exact h.lines
  · rw [hr]; exact h.front
  · exact hincludes.trans h.includes

theorem log (h : Plain source start n s) (record : Log.Record) :
    Plain source start n (s.log record) :=
  { h with
    quiet := by rw [events_log]; exact h.quiet
    taken := by rw [taken_log]; exact h.taken }

end Plain

/-- A document without live directives starts out at its first line. -/
theorem plain_openSource {files : FileTree} {source : Source} {o : LoadOptions} {s : Session}
    (h : openSource files source o = .ok s)
    (hinert : ∀ line ∈ source.prepare, isInert line = true) :
    Plain source.prepare s.reader.cursor 0 s := by
  obtain ⟨mode, -, rfl⟩ := openSource_eq_ok.mp h
  exact ⟨hinert, Nat.zero_le _, rfl, rfl, rfl, rfl, Or.inl ⟨rfl, rfl⟩, rfl, rfl, rfl⟩

end Session

/-! ## Blocks -/

/-- A block that is a run of lines of a source, located at the first one. -/
def Block.StandsIn (source : List String) (start : Cursor) (b : Block) : Prop :=
  ∃ n k, 0 < k ∧ n + k ≤ source.length ∧ b.lines = ((source.drop n).take k).map contentOf ∧
    b.location = some { start with lineno := n + 1 }

namespace Scan

open Session

/-! ## Triples -/

/-- From a session with `P`, a step ends in one with `Q`; if its fuel is not enough, that is
known. -/
def Meets {α : Type} (enough : Prop) (P : Session → Prop) (m : Step α) (Q : α → Session → Prop) :
    Prop :=
  ∀ s, P s → (∃ a s', m s = .ok (a, s') ∧ Q a s') ∨ (m s = .error .endless ∧ ¬ enough)

namespace Meets

variable {α β : Type} {enough enough' : Prop} {P P' : Session → Prop} {m : Step α}
  {Q Q' : α → Session → Prop}

/-- A step that does nothing meets what holds beforehand. -/
theorem pure {a : α} (h : ∀ s, P s → Q a s) : Meets enough P (Pure.pure a : Step α) Q :=
  fun s hs => Or.inl ⟨a, s, rfl, h s hs⟩

/-- An edit of the session meets what it establishes. -/
theorem modify {f : Session → Session} {Q : Unit → Session → Prop} (h : ∀ s, P s → Q () (f s)) :
    Meets enough P (modifyThe Session f : Step Unit) Q :=
  fun s hs => Or.inl ⟨(), f s, rfl, h s hs⟩

/-- Two steps in a row meet what the second one meets after the first. -/
theorem bind {f : α → Step β} {R : β → Session → Prop} (hm : Meets enough P m Q)
    (hf : ∀ a, Meets enough (Q a) (f a) R) : Meets enough P (m >>= f) R := by
  intro s hs
  rcases hm s hs with ⟨a, s₁, ha, hq⟩ | ⟨hnone, hnot⟩
  · rcases hf a s₁ hq with ⟨b, s', hb, hr⟩ | ⟨hnone, hnot⟩
    · exact Or.inl ⟨b, s', bind_eq_ok.mpr ⟨a, s₁, ha, hb⟩, hr⟩
    · refine Or.inr ⟨?_, hnot⟩
      change (m s >>= fun p => f p.1 p.2) = .error .endless
      rw [ha]
      exact hnone
  · refine Or.inr ⟨?_, hnot⟩
    change (m s >>= fun p => f p.1 p.2) = .error .endless
    rw [hnone]
    rfl

/-- A step meets less from more, and with more fuel. -/
theorem weaken (h : Meets enough P m Q) (henough : enough' → enough) (hpre : ∀ s, P' s → P s)
    (hpost : ∀ a s, Q a s → Q' a s) : Meets enough' P' m Q' := by
  intro s hs
  rcases h s (hpre s hs) with ⟨a, s', ha, hq⟩ | ⟨hnone, hnot⟩
  · exact Or.inl ⟨a, s', ha, hpost a s' hq⟩
  · exact Or.inr ⟨hnone, fun he => hnot (henough he)⟩

end Meets

/-! ## Scans of plain sources -/

variable {source : List String} {start : Cursor} {located : Bool}

/-- A plain session at line `n`, of whose document something is known. -/
def Standing (source : List String) (start : Cursor) (Known : Document → Prop) (n : Nat)
    (s : Session) : Prop :=
  Plain source start n s ∧ Known s.doc

/-- A plain session whose blocks, if they are located, are runs of lines of the source. -/
abbrev At (source : List String) (start : Cursor) (located : Bool) : Nat → Session → Prop :=
  Standing source start fun d => d.options.sourcemap = located ∧
    (located = true → ∀ b ∈ d.blocks, b.StandsIn source start)

namespace At

variable {n : Nat} {s : Session}

theorem plain (h : At source start located n s) : Plain source start n s :=
  h.1

theorem options (h : At source start located n s) : s.doc.options.sourcemap = located :=
  h.2.1

theorem blocks (h : At source start located n s) (hlocated : located = true) :
    ∀ b ∈ s.doc.blocks, b.StandsIn source start :=
  h.2.2 hlocated

end At

/-- A plain session at a line or after it. -/
def From (source : List String) (start : Cursor) (located : Bool) (n : Nat) (s : Session) : Prop :=
  ∃ m, n ≤ m ∧ At source start located m s

theorem At.from {n : Nat} {s : Session} (h : At source start located n s) :
    From source start located n s :=
  ⟨n, Nat.le_refl n, h⟩

theorem From.mono {n m : Nat} {s : Session} (hle : n ≤ m) (h : From source start located m s) :
    From source start located n s := by
  obtain ⟨k, hk, hat⟩ := h
  exact ⟨k, Nat.le_trans hle hk, hat⟩

/-- Edits that leave the reader, the options, the includes and the blocks as they are. -/
theorem At.edit {n : Nat} {s : Session} (h : At source start located n s) {d : Document}
    (hreader : d.reader = s.doc.reader) (hoptions : d.options = s.doc.options)
    (hincludes : d.includes = s.doc.includes)
    (hblocks : located = true → ∀ b ∈ d.blocks, b.StandsIn source start) :
    At source start located n { s with doc := d } := by
  refine ⟨h.plain.edit hreader hincludes, ?_, hblocks⟩
  simp only [hoptions]
  exact h.options

theorem At.log {n : Nat} {s : Session} (h : At source start located n s) (record : Log.Record) :
    At source start located n (s.log record) :=
  ⟨h.plain.log record, h.options, h.blocks⟩

theorem At.logAll {n : Nat} {s : Session} (h : At source start located n s) (records : List Log.Record) :
    At source start located n (s.logAll records) := by
  induction records generalizing s with
  | nil => exact h
  | cons record records ih => exact ih (h.log record)

section

variable {α : Type} {enough : Prop} {n fuel : Nat} {f : Option String → Step α}
  {Q : α → Session → Prop}

theorem meets_from {m : Step α} (h : ∀ k, n ≤ k → Meets enough (At source start located k) m Q) :
    Meets enough (From source start located n) m Q := by
  rintro s ⟨k, hk, hat⟩
  exact h k hk s hat

section

variable {Known : Document → Prop}

/-- After a look at line `n` it is known; at the end there is none. -/
theorem meets_peekStanding
    (hreader : ∀ (d : Document) (r : Reader), Known d → Known { d with reader := r })
    (hsome : ∀ line, source[n]? = some line →
      Meets enough (Standing source start Known n) (f (some (contentOf line))) Q)
    (hnone : n = source.length → Meets enough (Standing source start Known n) (f none) Q) :
    Meets enough (Standing source start Known n) (peek (fuel + 1) >>= f) Q := by
  have hpeek : Meets enough (Standing source start Known n) (peek (fuel + 1)) fun a s =>
      a = (source[n]?).map contentOf ∧ Standing source start Known n s := by
    rintro s ⟨hs, hknown⟩
    obtain ⟨s', hrun, hplain, hdoc, -⟩ := hs.peekLine fuel
    refine Or.inl ⟨_, s', hrun, rfl, hplain, ?_⟩
    rw [hdoc]
    exact hreader _ _ hknown
  refine hpeek.bind fun a s hs => ?_
  obtain ⟨rfl, hat⟩ := hs
  cases hline : source[n]? with
  | some line => exact hsome line hline s hat
  | none =>
    have hle := List.getElem?_eq_none_iff.mp hline
    exact hnone (Nat.le_antisymm hat.1.le hle) s hat

/-- Taking line `n` goes on to the next one; at the end there is none. -/
theorem meets_takeStanding
    (hreader : ∀ (d : Document) (r : Reader), Known d → Known { d with reader := r })
    (hsome : ∀ line, source[n]? = some line →
      Meets enough (Standing source start Known (n + 1)) (f (some (contentOf line))) Q)
    (hnone : n = source.length → Meets enough (Standing source start Known n) (f none) Q) :
    Meets enough (Standing source start Known n) (take (fuel + 1) >>= f) Q := by
  have htake : Meets enough (Standing source start Known n) (take (fuel + 1)) fun a s =>
      a = (source[n]?).map contentOf ∧
        Standing source start Known (if n < source.length then n + 1 else n) s := by
    rintro s ⟨hs, hknown⟩
    obtain ⟨s', hrun, hplain, hdoc⟩ := hs.readLine fuel
    refine Or.inl ⟨_, s', hrun, rfl, hplain, ?_⟩
    rw [hdoc]
    exact hreader _ _ hknown
  refine htake.bind fun a s hs => ?_
  obtain ⟨rfl, hat⟩ := hs
  cases hline : source[n]? with
  -- a line is taken, and the reading stands one line on
  | some line =>
    rw [if_pos (List.getElem?_eq_some_iff.mp hline).1] at hat
    exact hsome line hline s hat
  -- the lines are at their end
  | none =>
    have hle := List.getElem?_eq_none_iff.mp hline
    rw [if_neg (Nat.not_lt.mpr hle)] at hat
    exact hnone (Nat.le_antisymm hat.1.le hle) s hat

end

/-- What follows a look is to be shown for a line and for the end of the lines. -/
theorem meets_peek (hsome : ∀ line, source[n]? = some line →
      Meets enough (At source start located n) (f (some (contentOf line))) Q)
    (hnone : n = source.length → Meets enough (At source start located n) (f none) Q) :
    Meets enough (At source start located n) (peek (fuel + 1) >>= f) Q := by
  exact meets_peekStanding (fun _ _ h => h) hsome hnone

/-- What follows the taking of a line is to be shown for a line and for the end of the lines. -/
theorem meets_take (hsome : ∀ line, source[n]? = some line →
      Meets enough (At source start located (n + 1)) (f (some (contentOf line))) Q)
    (hnone : n = source.length → Meets enough (At source start located n) (f none) Q) :
    Meets enough (At source start located n) (take (fuel + 1) >>= f) Q := by
  exact meets_takeStanding (fun _ _ h => h) hsome hnone

end

variable {n : Nat}

/-- Edits of anything but the blocks. -/
theorem meets_modifyDocument {enough : Prop} {f : Document → Document}
    (hreader : ∀ d : Document, (f d).reader = d.reader)
    (hoptions : ∀ d : Document, (f d).options = d.options)
    (hincludes : ∀ d : Document, (f d).includes = d.includes)
    (hblocks : ∀ d : Document, (f d).blocks = d.blocks) :
    Meets enough (At source start located n) (modifyDocument f) fun _ => At source start located n :=
  .modify fun s hs => hs.edit (hreader _) (hoptions _) (hincludes _) fun hsourcemap b hb =>
    hs.blocks hsourcemap b (hblocks s.doc ▸ hb)

/-- Applying an entry leaves the reading where it is. -/
theorem meets_applyEntry {enough : Prop} (entry : Attribute.Entry) :
    Meets enough (At source start located n) (applyEntry entry) fun _ => At source start located n := by
  have hset : ∀ value, Meets enough (At source start located n)
      (modifyDocument fun d => d.setAttribute entry.name value) fun _ => At source start located n := by
    intro value
    refine meets_modifyDocument ?_ ?_ ?_ ?_ <;>
      exact fun d => by rw [Document.setAttribute_eq]
  rw [Simulation.applyEntry_eq]
  refine Meets.bind (Q := fun _ => At source start located n) (fun s hs => Or.inl ⟨_, s, rfl, hs⟩)
    fun known => ?_
  have hend : ∀ value, Meets enough (At source start located n)
      (do
        modifyDocument fun d => d.setAttribute entry.name value
        return !known.2)
      fun _ => At source start located n := fun value => by
    refine (hset value).bind fun _ => ?_
    exact .pure fun s hs => hs
  cases entry with
  -- the attribute is unset
  | unset name => exact hend none
  -- the attribute is set, and its value may be logged
  | set name value =>
    refine Meets.bind (Q := fun _ => At source start located n) ?_ fun _ => hend _
    exact .modify fun s hs => hs.logAll _

/-! ### The header -/

theorem meets_skipToContent (fuel : Nat) :
    Meets (source.length < fuel + n) (At source start located n) (skipToContent fuel) fun _ =>
      From source start located n := by
  induction fuel generalizing n with
  | zero =>
    intro s hs
    have := hs.plain.le
    exact Or.inr ⟨rfl, by omega⟩
  | succ fuel ih =>
    unfold skipToContent
    refine meets_peek (fun line hline => ?_)
      fun _ => .pure fun s hs => hs.from
    dsimp only
    split
    · refine meets_take (fun _ _ => ?_) fun hend => ?_
      · exact ih.weaken (fun h => by omega) (fun s hs => hs) fun _ s hs => hs.mono (Nat.le_succ n)
      · rw [hend] at hline
        simp at hline
    · exact .pure fun s hs => hs.from

/-- Reading the lines of a header goes on in the lines. -/
theorem meets_headerLines (fuel : Nat) :
    Meets (source.length < fuel + n) (At source start located n) (headerLines fuel) fun _ =>
      From source start located n := by
  induction fuel generalizing n with
  | zero =>
    intro s hs
    -- without fuel there is no result, and the lines left are more than the fuel
    have := hs.plain.le
    exact Or.inr ⟨rfl, by omega⟩
  | succ fuel ih =>
    unfold headerLines
    refine meets_peek (fun line hline => ?_)
      fun _ => .pure fun s hs => hs.from
    dsimp only
    split
    · exact .pure fun s hs => hs.from
    · refine meets_take (fun _ _ => ?_) fun hend => ?_
      · have hrest : Meets (source.length < fuel + 1 + n) (At source start located (n + 1))
            (headerLines fuel) fun _ => From source start located n :=
          ih.weaken (fun h => by omega) (fun s hs => hs) fun _ s hs => hs.mono (Nat.le_succ n)
        split
        · cases Attribute.Entry.parse? (contentOf line) with
          | none => exact hrest
          | some entry =>
            refine (meets_applyEntry entry).bind fun applied => ?_
            cases applied with
            | false => exact hrest
            | true =>
              refine Meets.bind (Q := fun _ => At source start located (n + 1)) ?_ fun _ => hrest
              exact meets_modifyDocument (fun _ => rfl) (fun _ => rfl) (fun _ => rfl) fun _ => rfl
        · exact hrest
      · rw [hend] at hline
        simp at hline

/-- Reading a header goes on in the lines. -/
theorem meets_header (fuel : Nat) :
    Meets (source.length < fuel + n) (At source start located n) (header fuel) fun _ =>
      From source start located n := by
  cases fuel with
  -- without fuel there are too few lines left for it to run out
  | zero =>
    intro s hs
    have := hs.plain.le
    exact Or.inr ⟨rfl, by omega⟩
  -- after the blank lines comes a title, or no header
  | succ fuel =>
  unfold header
  refine (meets_skipToContent (fuel + 1)).bind fun found => meets_from fun k hk => ?_
  cases found with
  | none => exact .pure fun s hs => ⟨k, hk, hs⟩
  | some line =>
    dsimp only
    cases LineShape.documentTitle? line with
    | none => exact .pure fun s hs => ⟨k, hk, hs⟩
    | some title =>
      have hafter : ∀ m, k ≤ m → Meets (source.length < fuel + 1 + n) (At source start located m)
          (do
            modifyDocument fun d => { d with title := some title }
            headerLines (fuel + 1))
          fun _ => From source start located n := by
        intro m hm
        refine Meets.bind (Q := fun _ => At source start located m)
          (meets_modifyDocument (fun _ => rfl) (fun _ => rfl) (fun _ => rfl) fun _ => rfl)
          fun _ => ?_
        exact (meets_headerLines (fuel + 1)).weaken (fun h => by omega) (fun s hs => hs)
          fun _ s hs => hs.mono (by omega)
      exact meets_take (fun _ _ => hafter _ (Nat.le_succ k)) fun _ => hafter _ (Nat.le_refl k)

/-! ### The body -/

/-- A run of lines from a line on. -/
def runAt (source : List String) (n k : Nat) : List String :=
  ((source.drop n).take k).map contentOf

theorem runAt_succ {line : String} (hline : source[n]? = some line) (k : Nat) :
    runAt source n (k + 1) = contentOf line :: runAt source (n + 1) k := by
  obtain ⟨hlt, rfl⟩ := List.getElem?_eq_some_iff.mp hline
  unfold runAt
  rw [List.drop_eq_getElem_cons hlt, List.take_succ_cons, List.map_cons]

/-- The lines of a delimited block are the run of lines from where it begins. -/
theorem meets_delimitedLines (delimiter : String) (fuel : Nat) :
    Meets (source.length < fuel + n) (At source start located n) (delimitedLines delimiter fuel)
      fun result s => ∃ k, result.1 = runAt source n k ∧ At source start located (n + k) s := by
  induction fuel generalizing n with
  | zero =>
    intro s hs
    have := hs.plain.le
    exact Or.inr ⟨rfl, by omega⟩
  | succ fuel ih =>
    unfold delimitedLines
    refine meets_take (fun line hline => ?_)
      fun _ => .pure fun s hs => ⟨0, rfl, hs⟩
    dsimp only
    split
    · -- the delimiter closes the block
      refine .pure fun s hs => ⟨1, ?_, hs⟩
      rw [runAt_succ hline]
      rfl
    · -- a line of the block, and the rest by induction
      refine Meets.bind (ih.weaken (fun h => by omega) (fun s hs => hs) fun _ _ h => h)
        fun result => .pure ?_
      rintro s ⟨k, hlines, hs⟩
      refine ⟨k + 1, ?_, ?_⟩
      · rw [runAt_succ hline, hlines]
      · rwa [Nat.add_assoc, Nat.add_comm 1 k] at hs

/-- The location of a block at line `n`, if blocks are located. -/
def Locates (start : Cursor) (located : Bool) (n : Nat) (location : Option Cursor) : Prop :=
  located = true → location = some { start with lineno := n + 1 }

/-- Adding a run of lines. -/
theorem meets_addBlock {enough : Prop} {m k : Nat} (hpos : 0 < k) {lines : List String}
    (hlines : lines = runAt source n k) (hend : n + k ≤ m) {location : Option Cursor}
    (hlocation : Locates start located n location) (context : String) (level : Option Nat) :
    Meets enough (At source start located m) (addBlock context lines location level)
      fun _ => At source start located m := by
  refine .modify fun s hs => hs.edit rfl rfl rfl fun hlocated b hb => ?_
  rcases List.mem_append.mp hb with hold | hnew
  · exact hs.blocks hlocated b hold
  · rw [List.mem_singleton] at hnew
    subst hnew
    exact ⟨n, k, hpos, Nat.le_trans hend hs.plain.le, hlines, hlocation hlocated⟩

/-- A delimited block stands where it begins, and the reading goes on after it. -/
theorem meets_delimitedBlock (fuel : Nat) (delimiter context : String) {location : Option Cursor}
    (hlocation : Locates start located n location) {line : String}
    (hline : source[n]? = some line) (hne : contentOf line ≠ "") :
    Meets (source.length < fuel + 1 + n) (At source start located n)
      (delimitedBlock (fuel + 1) delimiter context location) fun _ =>
        From source start located (n + 1) := by
  unfold delimitedBlock
  refine Meets.bind (Q := fun _ => At source start located n) (fun s hs => Or.inl ⟨_, s, rfl, hs⟩)
    fun start' => ?_
  refine meets_take (fun line' hline' => ?_) fun hend => ?_
  · -- the opening delimiter is there, since it was looked at
    rw [hline] at hline'
    cases hline'
    refine Meets.bind ((meets_delimitedLines delimiter (fuel + 1)).weaken (fun h => by omega)
      (fun s hs => hs) fun _ _ h => h) ?_
    rintro ⟨lines, closed⟩ s ⟨k, hlines, hs⟩
    have hfirst : (given (some (contentOf line))).getD delimiter = contentOf line := by
      rw [given, Option.filter_some, if_pos (by simpa using hne)]
      rfl
    have hadd : Meets (source.length < fuel + 1 + n) (At source start located (n + 1 + k))
        (addBlock context ((given (some (contentOf line))).getD delimiter :: lines) location none)
        fun _ => From source start located (n + 1) := by
      refine (meets_addBlock (n := n) (k := k + 1) (Nat.succ_pos k) ?_ (by omega) hlocation context
        none).weaken id (fun s hs => hs) fun _ s hs => ⟨_, by omega, hs⟩
      rw [runAt_succ hline, hfirst, ← hlines]
    cases closed with
    -- the block is closed
    | true => exact hadd s hs
    -- the end of the lines closes it, which is logged
    | false =>
      exact Meets.bind (Q := fun _ => At source start located (n + 1 + k))
        (.modify fun s hs => hs.log _) (fun _ => hadd) s hs
  · -- the lines cannot be at their end
    rw [hend] at hline
    simp at hline

/-- The lines of a paragraph are the run of lines from where it begins. -/
theorem meets_paragraphLines (fuel : Nat) (isFirst : Bool) :
    Meets (source.length < fuel + n) (At source start located n) (paragraphLines fuel isFirst)
      fun lines s => ∃ k, lines = runAt source n k ∧ At source start located (n + k) s ∧
        (isFirst = true → ∀ line, source[n]? = some line → contentOf line ≠ "" → 0 < k) := by
  induction fuel generalizing n isFirst with
  | zero =>
    intro s hs
    have := hs.plain.le
    exact Or.inr ⟨rfl, by omega⟩
  | succ fuel ih =>
    unfold paragraphLines
    refine meets_peek (fun line hline => ?_) fun hend => .pure fun s hs => ⟨0, rfl, hs, ?_⟩
    · dsimp only
      split
      · rename_i hstop
        refine .pure fun s hs => ⟨0, rfl, hs, fun hfirst line' hline' hne => ?_⟩
        rw [hline] at hline'
        cases hline'
        simp [hfirst, hne] at hstop
      · refine meets_take (fun line' hline' => ?_) fun hend => ?_
        · rw [hline] at hline'
          cases hline'
          refine Meets.bind ((ih false).weaken (fun h => by omega) (fun s hs => hs)
            fun _ _ h => h) fun lines => .pure ?_
          rintro s ⟨k, hlines, hs, -⟩
          -- one line is taken here, `k` by the rest
          refine ⟨k + 1, ?_, ?_, fun _ _ _ _ => Nat.succ_pos k⟩
          · rw [runAt_succ hline, hlines]
            rfl
          · rwa [Nat.add_assoc, Nat.add_comm 1 k] at hs
        · rw [hend] at hline
          simp at hline
    · intro _ line hline
      rw [hend] at hline
      simp at hline

/-- An element stands where it begins, and the reading goes on after it. -/
theorem meets_element (fuel : Nat) {line : String} (hline : source[n]? = some line) :
    Meets (source.length < fuel + 1 + n) (At source start located n)
      (element (fuel + 1) (contentOf line)) fun _ => From source start located (n + 1) := by
  have hnot : n ≠ source.length := by
    have := (List.getElem?_eq_some_iff.mp hline).1
    omega
  -- an element of one line that adds nothing
  have htaken : Meets (source.length < fuel + 1 + n) (At source start located n)
      (do let _ ← take (fuel + 1)) fun _ => From source start located (n + 1) :=
    meets_take (fun _ _ => .pure fun s hs => hs.from) fun hend => absurd hend hnot
  unfold element
  split
  · exact htaken
  · rename_i hcontent
    have hne : contentOf line ≠ "" := by
      intro hempty
      simp [hempty] at hcontent
    cases Attribute.Entry.parse? (contentOf line) with
    | some entry =>
      refine meets_take (fun _ _ => ?_) fun hend => absurd hend hnot
      exact (meets_applyEntry entry).bind fun _ => .pure fun s hs => hs.from
    | none =>
      dsimp only
      split
      · exact htaken
      · refine Meets.bind (Q := fun location s => At source start located n s ∧
            Locates start located n location) ?_ fun location => ?_
        · intro s hs
          refine Or.inl ⟨_, s, rfl, hs, fun hlocated => ?_⟩
          rw [hs.options, hlocated, hs.plain.cursor]
          rfl
        · rintro s ⟨hs, hlocation⟩
          revert s
          change Meets _ (At source start located n) _ _
          cases LineShape.sectionLevel? (contentOf line) with
          | some level =>
            refine meets_take (fun _ _ => ?_) fun hend => absurd hend hnot
            refine (meets_addBlock (n := n) (k := 1) (Nat.succ_pos 0) ?_ (Nat.le_refl _) hlocation
              _ _).weaken id (fun s hs => hs) fun _ s hs => hs.from
            rw [runAt_succ hline]
            rfl
          | none =>
            dsimp only
            cases LineShape.delimited? (contentOf line) with
            | some context => exact meets_delimitedBlock fuel _ context hlocation hline hne
            | none =>
              refine Meets.bind (meets_paragraphLines (fuel + 1) true) fun lines => ?_
              rintro s ⟨k, hlines, hs, hpos⟩
              have hk := hpos rfl line hline hne
              exact ((meets_addBlock (n := n) hk hlines (Nat.le_refl _) hlocation "paragraph"
                none).weaken id (fun s hs => hs) fun _ s hs => ⟨_, by omega, hs⟩) s hs

/-- The body is read from the lines that are left. -/
theorem meets_body (fuel : Nat) :
    Meets (source.length < fuel + n) (At source start located n) (body fuel) fun _ =>
      From source start located n := by
  induction fuel generalizing n with
  | zero =>
    intro s hs
    have := hs.plain.le
    exact Or.inr ⟨rfl, by omega⟩
  | succ fuel ih =>
    unfold body
    refine meets_peek (fun line hline => ?_) fun _ => .pure fun s hs => hs.from
    refine (meets_element fuel hline).bind fun _ => meets_from fun k hk => ?_
    exact ih.weaken (fun h => by omega) (fun s hs => hs) fun _ s hs => hs.mono (by omega)

/-- A scan of a plain source ends if there is more fuel than there are lines. -/
theorem meets_document (fuel : Nat) :
    Meets (source.length < fuel + n) (At source start located n) (document fuel) fun _ =>
      From source start located n := by
  unfold document
  refine Meets.bind (Q := fun _ => At source start located n) (fun s hs => Or.inl ⟨_, s, rfl, hs⟩)
    fun t => ?_
  split
  · refine (meets_header fuel).bind fun _ => meets_from fun k hk => ?_
    refine Meets.bind ((meets_body fuel).weaken (fun h => by omega) (fun s hs => hs)
      fun _ s hs => hs.mono hk) fun _ => ?_
    exact meets_from fun m hm => .modify fun s hs => ⟨m, hm, hs.edit rfl rfl rfl hs.blocks⟩
  · exact .pure fun s hs => hs.from

end Scan

namespace Session

open Scan

/-- A source without live directives is loaded without an event and without includes, if there is
more fuel than there are lines. Its lines are taken as they are, and every block, if it is located,
is a run of them. -/
theorem load_plain {files : FileTree} {source : Source} {o : LoadOptions} {s₀ : Session}
    (hopen : openSource files source o = .ok s₀)
    (hinert : ∀ line ∈ source.prepare, isInert line = true) (fuel : Nat) :
    (source.prepare.length < fuel → ∃ s, load fuel files source o = .ok s) ∧
      ∀ s, load fuel files source o = .ok s →
        s.journal.events = [] ∧ s.doc.includes = [] ∧
          s.journal.taken.map (·.shown) = source.prepare.map contentOf ∧
          (o.sourcemap = true → ∀ b ∈ s.doc.blocks,
            b.StandsIn source.prepare s₀.reader.cursor) := by
  have hplain := plain_openSource hopen hinert
  obtain ⟨mode, -, rfl⟩ := openSource_eq_ok.mp hopen
  have hat : At source.prepare (start files (.initial files.workingDir source o mode)).reader.cursor
      o.sourcemap 0 (start files (.initial files.workingDir source o mode)) := by
    refine ⟨hplain, rfl, ?_⟩
    intro _ b hb
    cases hb
  have hload : ∀ s, load fuel files source o = .ok s ↔
      Scan.document fuel (start files (.initial files.workingDir source o mode)) = .ok ((), s) := by
    intro s
    rw [load_eq_ok, hopen]
    simp [scan_eq_ok]
  simp only [hload]
  rcases meets_document fuel _ hat with ⟨u, s, hrun, m, -, hend⟩ | ⟨hnone, hnot⟩
  · refine ⟨fun _ => ⟨s, hrun⟩, fun s' hs' => ?_⟩
    cases hrun.symm.trans hs'
    refine ⟨hend.plain.quiet, hend.plain.includes, ?_, hend.blocks⟩
    -- nothing is left of the source
    have hleft := (exhausted_load ((hload s).mpr hrun)).lines
    rw [hend.plain.lines, List.drop_eq_nil_iff] at hleft
    rw [hend.plain.taken, List.take_of_length_le hleft]
  · refine ⟨fun hlt => absurd hlt hnot, fun s' hs' => ?_⟩
    cases hnone.symm.trans hs'

end Session

end DocFlatten
