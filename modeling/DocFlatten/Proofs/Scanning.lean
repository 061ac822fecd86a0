import DocFlatten.Document.Scan
import DocFlatten.Proofs.Looking
import Mathlib.Data.List.Forall2

/-! # Scans as programs

A scan touches its session only by looking at lines and taking them, by logging and by editing
the document outside of its reader. So two sessions stay related in a whole scan if looking and
taking keep them related:

* `Keeps`, `Abreast`: what a step keeps of one session, what two steps keep of two sessions, each
  with a rule for every way to compose steps;
* `Simulation`: a relation of sessions that reading keeps, until a property of the first one
  is lost or one of them has nothing but empty lines left;
* `Simulation.abreast_document`: then a whole scan keeps it;
* `Endures.document`, `Harmless.document`: what a whole scan keeps of one session.
-/

namespace DocFlatten

/-- A document that was edited outside of what is read. -/
structure Document.Edited (d d' : Document) : Prop where
  reader : d'.reader = d.reader
  sourceLines : d'.sourceLines = d.sourceLines
  options : d'.options = d.options
  includes : d'.includes = d.includes

end DocFlatten

namespace DocFlatten.Scan

/-! ## Running steps -/

variable {α β : Type}

theorem bind_eq_ok {m : Step α} {f : α → Step β} {s s' : Session} {b : β} :
    (m >>= f) s = .ok (b, s') ↔ ∃ a s₁, m s = .ok (a, s₁) ∧ f a s₁ = .ok (b, s') := by
  change (m s >>= fun p => f p.1 p.2) = .ok (b, s') ↔ _
  rw [Except.bind_eq_ok_iff]
  constructor
  · rintro ⟨⟨a, s₁⟩, hm, hf⟩
    exact ⟨a, s₁, hm, hf⟩
  · rintro ⟨a, s₁, hm, hf⟩
    exact ⟨(a, s₁), hm, hf⟩

theorem pure_eq_ok {a b : α} {s s' : Session} :
    (pure a : Step α) s = .ok (b, s') ↔ a = b ∧ s = s' := by
  change Except.ok (a, s) = .ok (b, s') ↔ _
  simp

theorem modify_eq_ok {f : Session → Session} {u : Unit} {s s' : Session} :
    (modify f : Step Unit) s = .ok (u, s') ↔ f s = s' := by
  change Except.ok ((), f s) = .ok (u, s') ↔ _
  simp

theorem get_eq_ok {s s' t : Session} :
    (get : Step Session) s = .ok (t, s') ↔ s = t ∧ s = s' := by
  change Except.ok (s, s) = .ok (t, s') ↔ _
  simp

/-! ## What every step keeps -/

/-- A property that a step keeps whenever it has a result. -/
def Keeps (P : Session → Prop) (m : Step α) : Prop :=
  ∀ s a s', P s → m s = .ok (a, s') → P s'

/-- A property that reading and logging keep, and that depends on nothing a scan edits. -/
structure Harmless (P : Session → Prop) : Prop where
  reading : Session.Kept P
  edit : ∀ s (d : Document), P s → s.doc.Edited d → P { s with doc := d }
  log : ∀ s record, P s → P (s.log record)

namespace Keeps

variable {P : Session → Prop}

/-- A result that is given keeps everything. -/
theorem pure (a : α) : Keeps P (Pure.pure a : Step α) := by
  intro s b s' hs hrun
  obtain ⟨-, rfl⟩ := pure_eq_ok.mp hrun
  exact hs

/-- A step without a result keeps everything. -/
theorem halt (halt : Session.Halt) : Keeps P (throw halt : Step α) := by
  intro s b s' _ hrun
  cases hrun

/-- Two steps in a row keep what both keep. -/
theorem bind {m : Step α} {f : α → Step β} (hm : Keeps P m) (hf : ∀ a, Keeps P (f a)) :
    Keeps P (m >>= f) := by
  intro s b s' hs hrun
  obtain ⟨a, s₁, ha, hb⟩ := bind_eq_ok.mp hrun
  exact hf a s₁ b s' (hm s a s₁ hs ha) hb

/-- Reading the session keeps everything. -/
theorem get : Keeps P (MonadState.get : Step Session) := by
  intro s t s' hs hrun
  obtain ⟨-, rfl⟩ := get_eq_ok.mp hrun
  exact hs

/-- An edit keeps what it preserves. -/
theorem modify {f : Session → Session} (h : ∀ s, P s → P (f s)) :
    Keeps P (modifyThe Session f : Step Unit) := by
  intro s u s' hs hrun
  rw [← modify_eq_ok.mp hrun]
  exact h s hs

/-- A choice keeps what both branches keep. -/
theorem ite {c : Bool} {m n : Step α} (hm : Keeps P m) (hn : Keeps P n) :
    Keeps P (if c = true then m else n) := by
  cases c
  · exact hn
  · exact hm

end Keeps

/-- A property together with a reader that processes one line at a time. -/
def Steadily (P : Session → Prop) (s : Session) : Prop :=
  s.reader.Steady ∧ P s

/-- A property that looking for lines, taking them, editing and logging keep, each as a whole. -/
structure Endures (P : Session → Prop) : Prop where
  peek : ∀ fuel, Keeps P (peek fuel)
  take : ∀ fuel, Keeps P (take fuel)
  edit : ∀ s (d : Document), P s → s.doc.Edited d → P { s with doc := d }
  log : ∀ s record, P s → P (s.log record)

/-- What every step of reading keeps, reading keeps as a whole. -/
theorem Harmless.endures {P : Session → Prop} (h : Harmless P) : Endures (Steadily P) where
  peek fuel := by
    rintro s a s' ⟨hsteady, hs⟩ hrun
    exact ⟨(Session.steady_peekLine hsteady hrun).1, h.reading.peekLine hsteady hs hrun⟩
  take fuel := by
    rintro s a s' ⟨hsteady, hs⟩ hrun
    exact ⟨Or.inl (Session.idle_readLine hsteady hrun), h.reading.readLine hsteady hs hrun⟩
  edit := by
    rintro s d ⟨hsteady, hs⟩ hedit
    refine ⟨?_, h.edit s d hs hedit⟩
    unfold Session.reader at hsteady ⊢
    simp only
    rwa [hedit.reader]
  log := by
    rintro s record ⟨hsteady, hs⟩
    exact ⟨hsteady, h.log s record hs⟩

/-! ## Two steps abreast -/

/-- What two steps make of a relation of two sessions: unless the first one is lost, the second step
has a result as well, and both are related anew. -/
structure Abreast (Lost : Session → Prop) (Pre : Session → Session → Prop) (m : Step α)
    (n : Step β) (Post : α → β → Session → Session → Prop) : Prop where
  lost : Keeps Lost m
  run : ∀ s t a s', Pre s t → m s = .ok (a, s') →
    Lost s' ∨ ∃ b t', n t = .ok (b, t') ∧ Post a b s' t'

namespace Abreast

variable {γ δ : Type} {Lost : Session → Prop} {Pre Pre' : Session → Session → Prop}
  {m : Step α} {n : Step β} {Post Post' : α → β → Session → Session → Prop}

/-- An empty line, or no line, in front is all that is told apart. -/
theorem of_empty {f : Option String → Step α} {line : Option String} (h : line.getD "" = "")
    (hend : Abreast Lost Pre (f none) n Post) (hblank : Abreast Lost Pre (f (some "")) n Post) :
    Abreast Lost Pre (f line) n Post := by
  cases line with
  | none => exact hend
  | some text =>
    obtain rfl : text = "" := h
    exact hblank

/-- Results that are given are related as the sessions are. -/
theorem pure {a : α} {b : β} (h : ∀ s t, Pre s t → Post a b s t) :
    Abreast Lost Pre (Pure.pure a) (Pure.pure b) Post := by
  refine ⟨.pure a, ?_⟩
  intro s t a' s' hpre hrun
  rcases pure_eq_ok.mp hrun with ⟨rfl, rfl⟩
  exact Or.inr ⟨b, t, rfl, h s t hpre⟩

/-- A first step without a result goes abreast of everything. -/
theorem halt (halt : Session.Halt) : Abreast Lost Pre (throw halt : Step α) n Post := by
  refine ⟨.halt halt, ?_⟩
  intro s t a s' _ hrun
  cases hrun

/-- Steps go abreast if what follows them does. -/
theorem bind [Nonempty β] {f : α → Step γ} {g : β → Step δ}
    {End : γ → δ → Session → Session → Prop} (hm : Abreast Lost Pre m n Post)
    (hf : ∀ a b, Abreast Lost (Post a b) (f a) (g b) End) :
    Abreast Lost Pre (m >>= f) (n >>= g) End := by
  refine ⟨.bind hm.lost fun a => (hf a (Classical.arbitrary β)).lost, ?_⟩
  intro s t c s' hpre hrun
  rcases bind_eq_ok.mp hrun with ⟨a, s₁, ha, hc⟩
  rcases hm.run s t a s₁ hpre ha with hlost | ⟨b, t₁, hb, hpost⟩
  · exact Or.inl ((hf a (Classical.arbitrary β)).lost s₁ c s' hlost hc)
  · rcases (hf a b).run s₁ t₁ c s' hpost hc with hlost | ⟨d, t', hd, hend⟩
    · exact Or.inl hlost
    · exact Or.inr ⟨d, t', bind_eq_ok.mpr ⟨b, t₁, hb, hd⟩, hend⟩

/-- A choice goes abreast of a choice, branch by branch. -/
theorem ite {c : Bool} {m' : Step α} {n' : Step β} (h : Abreast Lost Pre m n Post)
    (h' : Abreast Lost Pre m' n' Post) :
    Abreast Lost Pre (if c = true then m else m') (if c = true then n else n') Post := by
  cases c
  · exact h'
  · exact h

/-- Less is shown of more. -/
theorem weaken (h : Abreast Lost Pre m n Post) (hpre : ∀ s t, Pre' s t → Pre s t)
    (hpost : ∀ a b s t, Post a b s t → Post' a b s t) : Abreast Lost Pre' m n Post' := by
  refine ⟨h.lost, ?_⟩
  intro s t a s' hs hrun
  rcases h.run s t a s' (hpre s t hs) hrun with hlost | ⟨b, t', hb, hend⟩
  · exact Or.inl hlost
  · exact Or.inr ⟨b, t', hb, hpost a b s' t' hend⟩

/-- Steps that go abreast from either of two relations go abreast from both. -/
theorem or (h : Abreast Lost Pre m n Post) (h' : Abreast Lost Pre' m n Post) :
    Abreast Lost (fun s t => Pre s t ∨ Pre' s t) m n Post := by
  refine ⟨h.lost, ?_⟩
  rintro s t a s' (hs | hs) hrun
  · exact h.run s t a s' hs hrun
  · exact h'.run s t a s' hs hrun

/-- The second session waits while the first one takes a step. -/
theorem left {f : α → Step γ} {End : γ → β → Session → Session → Prop}
    {Mid : α → Unit → Session → Session → Prop} (hm : Abreast Lost Pre m (Pure.pure ()) Mid)
    (hf : ∀ a, Abreast Lost (Mid a ()) (f a) n End) : Abreast Lost Pre (m >>= f) n End := by
  have h := hm.bind (g := fun _ : Unit => n) fun a _ => hf a
  rwa [pure_bind] at h

/-- What is read in two sessions is related as the sessions relate it. -/
theorem read {f : Session → α} {g : Session → β} {R : α → β → Prop}
    (h : ∀ s t, Pre s t → R (f s) (g t)) :
    Abreast Lost Pre (do return f (← get)) (do return g (← get)) fun a b s t =>
      R a b ∧ Pre s t := by
  refine ⟨.bind .get fun _ => .pure _, ?_⟩
  intro s t a s' hs hrun
  rcases bind_eq_ok.mp hrun with ⟨u, s₁, hget, hpure⟩
  rcases get_eq_ok.mp hget with ⟨rfl, rfl⟩
  rcases pure_eq_ok.mp hpure with ⟨rfl, rfl⟩
  exact Or.inr ⟨g t, t, rfl, h s t hs, hs⟩

/-- Steps that go on with related results. -/
theorem bindRelated {n : Step α} {f : α → Step γ} {g : α → Step δ} {R : α → α → Prop}
    {Mid : Session → Session → Prop} {End : γ → δ → Session → Session → Prop} (hR : ∀ a, R a a)
    (hm : Abreast Lost Pre m n fun a b s t => R a b ∧ Mid s t)
    (hf : ∀ a b, R a b → Abreast Lost Mid (f a) (g b) End) :
    Abreast Lost Pre (m >>= f) (n >>= g) End := by
  refine ⟨.bind hm.lost fun a => (hf a a (hR a)).lost, ?_⟩
  intro s t c s' hpre hrun
  rcases bind_eq_ok.mp hrun with ⟨a, s₁, ha, hc⟩
  rcases hm.run s t a s₁ hpre ha with hlost | ⟨b, t₁, hb, hab, hmid⟩
  · exact Or.inl ((hf a a (hR a)).lost s₁ c s' hlost hc)
  · rcases (hf a b hab).run s₁ t₁ c s' hmid hc with hlost | ⟨d, t', hd, hend⟩
    · exact Or.inl hlost
    · exact Or.inr ⟨d, t', bind_eq_ok.mpr ⟨b, t₁, hb, hd⟩, hend⟩

/-- Steps with the same results go abreast if what follows them does. -/
theorem bindSame {n : Step α} {f : α → Step γ} {g : α → Step δ}
    {Mid : Session → Session → Prop} {End : γ → δ → Session → Session → Prop}
    (hm : Abreast Lost Pre m n fun a b s t => a = b ∧ Mid s t)
    (hf : ∀ a, Abreast Lost Mid (f a) (g a) End) : Abreast Lost Pre (m >>= f) (n >>= g) End :=
  bindRelated (fun _ => rfl) hm fun a _ hab => hab ▸ hf a

end Abreast

/-! ## Simulations -/

end DocFlatten.Scan

namespace DocFlatten

/-- Blocks that differ at most in where they start. -/
structure Block.Alike (Located : Option Cursor → Option Cursor → Prop) (b b' : Block) : Prop where
  context : b'.context = b.context
  lines : b'.lines = b.lines
  level : b'.level = b.level
  location : Located b.location b'.location

/-- Blocks of which the last one may have more empty lines at its end. -/
def Block.AlikeButEnd (Located : Option Cursor → Option Cursor → Prop)
    (blocks blocks' : List Block) : Prop :=
  List.Forall₂ (Block.Alike Located) blocks blocks' ∨
    ∃ init b blanks, blocks = init ++ [{ b with lines := b.lines ++ blanks }] ∧
      (∀ line ∈ blanks, line = "") ∧
      List.Forall₂ (Block.Alike Located) (init ++ [b]) blocks'

/-- Documents of the same content, with blocks as a relation wants them. -/
structure Document.Matches (Blocks : List Block → List Block → Prop) (d d' : Document) :
    Prop where
  attributes : d'.attributes = d.attributes
  locked : d'.locked = d.locked
  parsed : d'.parsed = d.parsed
  title : d'.title = d.title
  headerAttributes : d'.headerAttributes = d.headerAttributes
  blocks : Blocks d.blocks d'.blocks

/-- Documents of the same content, except for where blocks start. -/
abbrev Document.Alike (Located : Option Cursor → Option Cursor → Prop) :
    Document → Document → Prop :=
  Document.Matches (List.Forall₂ (Block.Alike Located))

/-- Documents of the same content, except for where blocks start and for empty lines at the end of
the last one. -/
abbrev Document.AlikeButEnd (Located : Option Cursor → Option Cursor → Prop) :
    Document → Document → Prop :=
  Document.Matches (Block.AlikeButEnd Located)

namespace Document.Matches

variable {Blocks Blocks' : List Block → List Block → Prop} {d d' : Document}

/-- Documents match in less when their blocks do. -/
theorem mono (h : d.Matches Blocks d') (hblocks : Blocks d.blocks d'.blocks →
    Blocks' d.blocks d'.blocks) : d.Matches Blocks' d' :=
  ⟨h.attributes, h.locked, h.parsed, h.title, h.headerAttributes, hblocks h.blocks⟩

/-- The first document may be one of the very same content. -/
theorem of_same (h : d.Matches Blocks d') {e : Document} (hsame : d.Matches Eq e) :
    e.Matches Blocks d' := by
  obtain ⟨hattributes, hlocked, hparsed, htitle, hheader, hblocks⟩ := hsame
  refine ⟨?_, ?_, ?_, ?_, ?_, hblocks ▸ h.blocks⟩
  · rw [hattributes, h.attributes]
  · rw [hlocked, h.locked]
  · rw [hparsed, h.parsed]
  · rw [htitle, h.title]
  · rw [hheader, h.headerAttributes]

/-- Documents that are alike are alike up to the end of the last block. -/
theorem butEnd {Located : Option Cursor → Option Cursor → Prop} (h : d.Alike Located d') :
    d.AlikeButEnd Located d' :=
  h.mono Or.inl

end Document.Matches

namespace Scan

/-- Sessions that a relation holds together, with documents of the same content. -/
structure Joined (Together : Session → Session → Prop)
    (Located : Option Cursor → Option Cursor → Prop) (s t : Session) : Prop where
  steady : s.reader.Steady
  steady' : t.reader.Steady
  together : Together s t
  doc : s.doc.Alike Located t.doc

/-- Where a block starts that is scanned next, if blocks are to record it. -/
def locationOf (s : Session) : Option Cursor :=
  if s.doc.options.sourcemap then some s.reader.cursor else none

/-- A relation that reading keeps in two sessions. It may end in two ways: the first session is
lost for good, or nothing but empty lines are left in the first session and none in the second one.
Then the two are apart. -/
structure Simulation (Lost : Session → Prop) (Together Apart : Session → Session → Prop)
    (Located : Option Cursor → Option Cursor → Prop) : Prop where
  lost : Harmless Lost
  peek : ∀ {fuel s t a s'}, Joined Together Located s t → s.peekLine fuel = .ok (a, s') →
    Lost s' ∨ (∃ t', t.peekLine fuel = .ok (a, t') ∧ Joined Together Located s' t') ∨
      (a.getD "" = "" ∧ ∃ t', t.peekLine fuel = .ok (none, t') ∧ Apart s' t' ∧
        s'.doc.Alike Located t'.doc)
  take : ∀ {s t}, Joined Together Located s t → 0 < s.reader.lookAhead →
    0 < t.reader.lookAhead ∧ t.takeFront.1 = s.takeFront.1 ∧
      (Lost s.takeFront.2 ∨ Together s.takeFront.2 t.takeFront.2)
  refl : ∀ location, Located location location
  located : ∀ {s t}, Joined Together Located s t → Located (locationOf s) (locationOf t)
  edit : ∀ {s t d d'}, Together s t → s.doc.Edited d → t.doc.Edited d' →
    Together { s with doc := d } { t with doc := d' }
  log : ∀ {s t} r r', Together s t → Together (s.log r) (t.log r')
  steady : ∀ {s t}, Apart s t → s.reader.Steady
  peekApart : ∀ {fuel s t a s'}, Apart s t → s.peekLine fuel = .ok (a, s') →
    Lost s' ∨ a.getD "" = "" ∧ Apart s' t ∧ s.doc.Matches Eq s'.doc
  takeApart : ∀ {s t}, Apart s t → 0 < s.reader.lookAhead →
    Lost s.takeFront.2 ∨ s.takeFront.1.getD "" = "" ∧ Apart s.takeFront.2 t
  exhausted : ∀ {fuel s t}, Apart s t → t.peekLine (fuel + 1) = .ok (none, t)
  editApart : ∀ {s t d d'}, Apart s t → s.doc.Edited d → t.doc.Edited d' →
    Apart { s with doc := d } { t with doc := d' }
  logApart : ∀ {s t} r r', Apart s t → Apart (s.log r) (t.log r')

/-! ## Reading -/

/-- Taking a line, once it is known what looking for one does. -/
theorem readLine_of_peekLine {t t' : Session} {fuel : Nat} {b : Option String}
    (hsteady : t.reader.Steady) (h : t.peekLine fuel = .ok (b, t')) :
    (b = none → t.readLine fuel = .ok (none, t')) ∧
      (b.isSome = true → t.readLine fuel = .ok t'.takeFront) := by
  unfold Session.readLine
  by_cases hlook : 0 < t.reader.lookAhead
  · -- the line in front waits, so looking for one changes nothing
    rw [Session.takeWith_of_held hlook]
    cases fuel with
    -- without fuel no line is found
    | zero => cases h
    -- the line is the one that is shown
    | succ fuel =>
      unfold Session.peekLine at h
      rw [if_pos hlook] at h
      rcases Prod.mk.inj (Except.ok.inj h) with ⟨rfl, rfl⟩
      refine ⟨?_, fun _ => rfl⟩
      intro hnone
      obtain ⟨line, rest, hfront⟩ := hsteady.exists_front hlook
      simp [Reader.head?, hfront] at hnone
  · rw [Session.takeWith_of_not_held hlook, h]
    cases b with
    -- no line was found, so none is taken
    | none =>
      refine ⟨fun _ => rfl, ?_⟩
      intro hsome
      cases hsome
    -- the line that was found is taken
    | some line =>
      refine ⟨?_, fun _ => rfl⟩
      intro hnone
      cases hnone

/-- Where looking for a line is refused, so is taking one. -/
theorem readLine_of_refused {s s' : Session} {fuel : Nat} {e : FileError}
    (h : s.peekLine fuel = .error (.refused e s')) :
    s.readLine fuel = .error (.refused e s') := by
  have hlook : ¬ 0 < s.reader.lookAhead := by
    intro hlook
    cases fuel with
    | zero => cases h
    | succ fuel =>
      rw [Session.peekLine_of_held fuel hlook] at h
      cases h
  unfold Session.readLine
  rw [Session.takeWith_of_not_held hlook, h]
  rfl

/-- Taking a line that does not wait in front is looking for it first. -/
theorem peekLine_of_readLine {s s' : Session} {fuel : Nat} {a : Option String}
    (hlook : ¬ 0 < s.reader.lookAhead) (h : s.readLine fuel = .ok (a, s')) :
    ∃ b s₁, s.peekLine fuel = .ok (b, s₁) ∧
      ((b = none ∧ a = none ∧ s' = s₁) ∨ (b.isSome = true ∧ s₁.takeFront = (a, s'))) := by
  rcases Session.takeWith_cases h with ⟨hwaits, -⟩ | ⟨-, hfound⟩
  · exact absurd hwaits hlook
  · exact hfound

namespace Simulation

section

variable {Lost : Session → Prop} {Together Apart : Session → Session → Prop}
  {Located : Option Cursor → Option Cursor → Prop}

/-- The first session is lost, at a moment when its reader works line by line. -/
abbrev Gone (_ : Simulation Lost Together Apart Located) : Session → Prop :=
  Steadily Lost

/-- Both sessions hold the line in front for being taken. -/
def Held (_ : Simulation Lost Together Apart Located) (s t : Session) : Prop :=
  Joined Together Located s t ∧ 0 < s.reader.lookAhead

/-- The sessions are apart; their blocks are as a relation wants them. -/
def Parted (_ : Simulation Lost Together Apart Located) (Blocks : List Block → List Block → Prop)
    (s t : Session) : Prop :=
  Apart s t ∧ s.doc.Matches Blocks t.doc

/-- The sessions are apart, with documents of the same content. -/
abbrev Split (sim : Simulation Lost Together Apart Located) : Session → Session → Prop :=
  sim.Parted (List.Forall₂ (Block.Alike Located))

/-- The sessions are apart; the last block may differ in empty lines at its end. -/
abbrev Ended (sim : Simulation Lost Together Apart Located) : Session → Session → Prop :=
  sim.Parted (Block.AlikeButEnd Located)

/-- The sessions are still together, or apart. -/
def Either (sim : Simulation Lost Together Apart Located) (s t : Session) : Prop :=
  Joined Together Located s t ∨ sim.Ended s t

/-- After looking for a line: it was found in both sessions or in none, or they are apart. -/
def Peeked (sim : Simulation Lost Together Apart Located) (a b : Option String) (s t : Session) :
    Prop :=
  (a = b ∧ Joined Together Located s t ∧ (a.isSome = true → 0 < s.reader.lookAhead)) ∨
    (a.getD "" = "" ∧ b = none ∧ sim.Split s t)

/-- After taking a line: both sessions have taken the same, or they are apart. -/
def Taken (sim : Simulation Lost Together Apart Located) (a b : Option String) (s t : Session) :
    Prop :=
  (a = b ∧ Joined Together Located s t) ∨ (a.getD "" = "" ∧ b = none ∧ sim.Split s t)

variable (sim : Simulation Lost Together Apart Located)
  {Blocks Blocks' : List Block → List Block → Prop}

include sim

/-- Looking for a line loses no session that is lost. -/
theorem keeps_peek (fuel : Nat) : Keeps sim.Gone (Scan.peek fuel) :=
  sim.lost.endures.peek fuel

/-- Taking a line loses no session that is lost. -/
theorem keeps_take (fuel : Nat) : Keeps sim.Gone (Scan.take fuel) :=
  sim.lost.endures.take fuel

/-- Two looks find the same, or the sessions part. -/
theorem abreast_peek (fuel : Nat) :
    Abreast sim.Gone (Joined Together Located) (Scan.peek fuel) (Scan.peek fuel) sim.Peeked := by
  refine ⟨sim.keeps_peek fuel, ?_⟩
  intro s t a s' h hrun
  have hsteady := Session.steady_peekLine h.steady hrun
  rcases sim.peek h hrun with hlost | ⟨t', ht, hjoined⟩ | ⟨hblank, t', ht, hapart⟩
  · exact Or.inl ⟨hsteady.1, hlost⟩
  · exact Or.inr ⟨a, t', ht, Or.inl ⟨rfl, hjoined, hsteady.2.mp⟩⟩
  · exact Or.inr ⟨none, t', ht, Or.inr ⟨hblank, rfl, hapart⟩⟩

/-- Taking a line that waits in front. -/
theorem takeFront_joined {s t : Session} (h : sim.Held s t) :
    0 < t.reader.lookAhead ∧ t.takeFront.1 = s.takeFront.1 ∧
      (sim.Gone s.takeFront.2 ∨ Joined Together Located s.takeFront.2 t.takeFront.2) := by
  rcases h with ⟨hjoined, hlook⟩
  rcases sim.take hjoined hlook with ⟨hlook', hsame, hrest⟩
  have hsteady : s.takeFront.2.reader.Steady := by
    rw [Session.reader_takeFront]
    exact Or.inl (hjoined.steady.idle_shifted hlook)
  have hsteady' : t.takeFront.2.reader.Steady := by
    rw [Session.reader_takeFront]
    exact Or.inl (hjoined.steady'.idle_shifted hlook')
  refine ⟨hlook', hsame, ?_⟩
  rcases hrest with hlost | htogether
  · -- the first session is lost
    exact Or.inl ⟨hsteady, hlost⟩
  · -- both documents are what they were
    refine Or.inr ⟨hsteady, hsteady', htogether, ?_⟩
    have hdoc := hjoined.doc
    rw [Session.doc_takeFront, Session.doc_takeFront]
    exact ⟨hdoc.attributes, hdoc.locked, hdoc.parsed, hdoc.title, hdoc.headerAttributes,
      hdoc.blocks⟩

/-- Two sessions with a line in front take the same one. -/
theorem abreast_takeHeld (fuel : Nat) :
    Abreast sim.Gone sim.Held (Scan.take fuel) (Scan.take fuel)
      fun a b s t => a = b ∧ Joined Together Located s t := by
  refine ⟨sim.keeps_take fuel, ?_⟩
  intro s t a s' h hrun
  have hheld : ∀ u : Session, 0 < u.reader.lookAhead → Scan.take fuel u = .ok u.takeFront :=
    fun u hu => Session.takeWith_of_held hu
  rcases sim.takeFront_joined h with ⟨hlook', hsame, hrest⟩
  rw [hheld s h.2] at hrun
  obtain rfl : s.takeFront.1 = a := congrArg Prod.fst (Except.ok.inj hrun)
  obtain rfl : s.takeFront.2 = s' := congrArg Prod.snd (Except.ok.inj hrun)
  rcases hrest with hlost | hjoined
  · exact Or.inl hlost
  · exact Or.inr ⟨t.takeFront.1, t.takeFront.2, hheld t hlook', hsame.symm, hjoined⟩

/-- A session stays lost when the line that it has found is taken. -/
theorem keeps_take_of_peek {s₁ s' : Session} {a b : Option String}
    (hsteady : s₁.reader.Steady ∧ (b.isSome = true ↔ 0 < s₁.reader.lookAhead))
    (htaken : (b = none ∧ a = none ∧ s' = s₁) ∨ (b.isSome = true ∧ s₁.takeFront = (a, s')))
    (hlost : Lost s₁) : sim.Gone s' := by
  rcases htaken with ⟨-, -, rfl⟩ | ⟨hsome, hfront⟩
  · exact ⟨hsteady.1, hlost⟩
  · have hlook := hsteady.2.mp hsome
    obtain rfl : s₁.takeFront.2 = s' := congrArg Prod.snd hfront
    refine ⟨Or.inl ?_, sim.lost.reading.take s₁ hlost hsteady.1 hlook⟩
    rw [Session.reader_takeFront]
    exact hsteady.1.idle_shifted hlook

/-- After the session was found to have an empty line at most, that line is taken. -/
theorem take_of_peek {s₁ s' t : Session} {a b : Option String}
    (hsteady : s₁.reader.Steady ∧ (b.isSome = true ↔ 0 < s₁.reader.lookAhead))
    (htaken : (b = none ∧ a = none ∧ s' = s₁) ∨ (b.isSome = true ∧ s₁.takeFront = (a, s')))
    (hapart : sim.Parted Blocks s₁ t) :
    sim.Gone s' ∨ a.getD "" = "" ∧ sim.Parted Blocks s' t := by
  rcases htaken with ⟨-, rfl, rfl⟩ | ⟨hsome, hfront⟩
  · -- no line was found, so none is taken
    exact Or.inr ⟨rfl, hapart⟩
  · have hlook := hsteady.2.mp hsome
    obtain rfl : s₁.takeFront.1 = a := congrArg Prod.fst hfront
    obtain rfl : s₁.takeFront.2 = s' := congrArg Prod.snd hfront
    have hsteady' : s₁.takeFront.2.reader.Steady := by
      rw [Session.reader_takeFront]
      exact Or.inl (hsteady.1.idle_shifted hlook)
    rcases sim.takeApart hapart.1 hlook with hlost | ⟨hempty, hrest⟩
    · -- the first session is lost
      exact Or.inl ⟨hsteady', hlost⟩
    · -- the line is empty, and the sessions stay apart
      refine Or.inr ⟨hempty, hrest, hapart.2.of_same ?_⟩
      rw [Session.doc_takeFront]
      exact ⟨rfl, rfl, rfl, rfl, rfl, rfl⟩

/-- A session that is apart takes an empty line or none. -/
theorem take_apart {fuel : Nat} {s s' t : Session} {a : Option String}
    (hapart : sim.Parted Blocks s t) (hrun : Scan.take fuel s = .ok (a, s')) :
    sim.Gone s' ∨ a.getD "" = "" ∧ sim.Parted Blocks s' t := by
  have hsteady := sim.steady hapart.1
  by_cases hlook : 0 < s.reader.lookAhead
  · have hheld : Scan.take fuel s = .ok s.takeFront := Session.takeWith_of_held hlook
    rw [hheld] at hrun
    exact sim.take_of_peek (b := some "") ⟨hsteady, by simp [hlook]⟩
      (Or.inr ⟨rfl, Except.ok.inj hrun⟩) hapart
  · rcases peekLine_of_readLine hlook hrun with ⟨b, s₁, hpeek, htaken⟩
    have hsteady₁ := Session.steady_peekLine hsteady hpeek
    rcases sim.peekApart hapart.1 hpeek with hlost | ⟨-, hapart₁, hsame⟩
    · exact Or.inl (sim.keeps_take_of_peek hsteady₁ htaken hlost)
    · exact sim.take_of_peek hsteady₁ htaken ⟨hapart₁, hapart.2.of_same hsame⟩

/-- Two sessions take the same line, or part. -/
theorem abreast_take (fuel : Nat) :
    Abreast sim.Gone (Joined Together Located) (Scan.take fuel) (Scan.take fuel) sim.Taken := by
  refine ⟨sim.keeps_take fuel, ?_⟩
  intro s t a s' h hrun
  by_cases hlook : 0 < s.reader.lookAhead
  · rcases (sim.abreast_takeHeld fuel).run s t a s' ⟨h, hlook⟩ hrun with
      hlost | ⟨b, t', ht, hsame, hjoined⟩
    · -- the first session is lost
      exact Or.inl hlost
    · exact Or.inr ⟨b, t', ht, Or.inl ⟨hsame, hjoined⟩⟩
  · rcases peekLine_of_readLine hlook hrun with ⟨b, s₁, hpeek, htaken⟩
    have hsteady := Session.steady_peekLine h.steady hpeek
    rcases sim.peek h hpeek with hlost | ⟨t₁, ht, hjoined⟩ | ⟨-, t₁, ht, hapart⟩
    · exact Or.inl (sim.keeps_take_of_peek hsteady htaken hlost)
    · -- both have found the same
      rcases htaken with ⟨rfl, rfl, rfl⟩ | ⟨hsome, hfront⟩
      · exact Or.inr ⟨none, t₁, (readLine_of_peekLine h.steady' ht).1 rfl, Or.inl ⟨rfl, hjoined⟩⟩
      · rcases sim.takeFront_joined ⟨hjoined, hsteady.2.mp hsome⟩ with ⟨-, hsame, hrest⟩
        rw [hfront] at hsame hrest
        rcases hrest with hlost | hjoined'
        · exact Or.inl hlost
        · refine Or.inr ⟨t₁.takeFront.1, t₁.takeFront.2, ?_, Or.inl ⟨hsame.symm, hjoined'⟩⟩
          exact (readLine_of_peekLine h.steady' ht).2 hsome
    · -- only empty lines are left in the first session
      rcases sim.take_of_peek hsteady htaken hapart with hlost | ⟨hempty, hapart'⟩
      · exact Or.inl hlost
      · refine Or.inr ⟨none, t₁, (readLine_of_peekLine h.steady' ht).1 rfl, ?_⟩
        exact Or.inr ⟨hempty, rfl, hapart'⟩

/-! ### Composing steps -/

variable {γ δ : Type} {Post : γ → δ → Session → Session → Prop}

/-- What follows a look goes abreast if it does for a line, for no line, and for sessions that part.
-/
theorem bind_peek {fuel : Nat} {f : Option String → Step γ} {g : Option String → Step δ}
    (hnone : Abreast sim.Gone (Joined Together Located) (f none) (g none) Post)
    (hsome : ∀ line, Abreast sim.Gone sim.Held (f (some line)) (g (some line)) Post)
    (hend : Abreast sim.Gone sim.Split (f none) (g none) Post)
    (hblank : Abreast sim.Gone sim.Split (f (some "")) (g none) Post) :
    Abreast sim.Gone (Joined Together Located) (Scan.peek fuel >>= f) (Scan.peek fuel >>= g)
      Post := by
  refine (sim.abreast_peek fuel).bind fun a b => ⟨?_, ?_⟩
  · cases a with
    | none => exact hnone.lost
    | some line => exact (hsome line).lost
  · rintro s t c s' (⟨rfl, hjoined, hlook⟩ | ⟨hempty, rfl, hapart⟩) hrun
    · cases a with
      | none => exact hnone.run s t c s' hjoined hrun
      | some line => exact (hsome line).run s t c s' ⟨hjoined, hlook rfl⟩ hrun
    · exact (Abreast.of_empty hempty hend hblank).run s t c s' hapart hrun

/-- What follows the taking of a line goes abreast if it does for every line, and for sessions that
part. -/
theorem bind_take {fuel : Nat} {f : Option String → Step γ} {g : Option String → Step δ}
    (hsame : ∀ a, Abreast sim.Gone (Joined Together Located) (f a) (g a) Post)
    (hend : Abreast sim.Gone sim.Split (f none) (g none) Post)
    (hblank : Abreast sim.Gone sim.Split (f (some "")) (g none) Post) :
    Abreast sim.Gone (Joined Together Located) (Scan.take fuel >>= f) (Scan.take fuel >>= g)
      Post := by
  refine (sim.abreast_take fuel).bind fun a b => ⟨(hsame a).lost, ?_⟩
  rintro s t c s' (⟨rfl, hjoined⟩ | ⟨hempty, rfl, hapart⟩) hrun
  · exact (hsame a).run s t c s' hjoined hrun
  · exact (Abreast.of_empty hempty hend hblank).run s t c s' hapart hrun

/-- What follows the taking of a held line goes abreast if it does for every line. -/
theorem bind_takeHeld {fuel : Nat} {f : Option String → Step γ} {g : Option String → Step δ}
    (hsame : ∀ a, Abreast sim.Gone (Joined Together Located) (f a) (g a) Post) :
    Abreast sim.Gone sim.Held (Scan.take fuel >>= f) (Scan.take fuel >>= g) Post := by
  refine (sim.abreast_takeHeld fuel).bind fun a b => ⟨(hsame a).lost, ?_⟩
  rintro s t c s' ⟨rfl, hjoined⟩ hrun
  exact (hsame a).run s t c s' hjoined hrun

/-- Of a session with nothing but empty lines left, a look shows an empty line or none. -/
theorem left_peek {fuel : Nat} {f : Option String → Step γ} {n : Step δ}
    (hkeeps : ∀ a, Keeps sim.Gone (f a))
    (hend : Abreast sim.Gone (sim.Parted Blocks) (f none) n Post)
    (hblank : Abreast sim.Gone (sim.Parted Blocks) (f (some "")) n Post) :
    Abreast sim.Gone (sim.Parted Blocks) (Scan.peek fuel >>= f) n Post := by
  have hpeek : Abreast sim.Gone (sim.Parted Blocks) (Scan.peek fuel) (pure ())
      fun a _ s t => a.getD "" = "" ∧ sim.Parted Blocks s t := by
    refine ⟨sim.keeps_peek fuel, ?_⟩
    intro s t a s' hapart hrun
    have hsteady := Session.steady_peekLine (sim.steady hapart.1) hrun
    rcases sim.peekApart hapart.1 hrun with hlost | ⟨hempty, hrest, hsame⟩
    · exact Or.inl ⟨hsteady.1, hlost⟩
    · exact Or.inr ⟨(), t, rfl, hempty, hrest, hapart.2.of_same hsame⟩
  refine hpeek.left fun a => ⟨hkeeps a, ?_⟩
  rintro s t c s' ⟨hempty, hapart⟩ hrun
  exact (Abreast.of_empty hempty hend hblank).run s t c s' hapart hrun

/-- Of a session with nothing but empty lines left, an empty line or none is taken. -/
theorem left_take {fuel : Nat} {f : Option String → Step γ} {n : Step δ}
    (hkeeps : ∀ a, Keeps sim.Gone (f a))
    (hend : Abreast sim.Gone (sim.Parted Blocks) (f none) n Post)
    (hblank : Abreast sim.Gone (sim.Parted Blocks) (f (some "")) n Post) :
    Abreast sim.Gone (sim.Parted Blocks) (Scan.take fuel >>= f) n Post := by
  have htake : Abreast sim.Gone (sim.Parted Blocks) (Scan.take fuel) (pure ())
      fun a _ s t => a.getD "" = "" ∧ sim.Parted Blocks s t := by
    refine ⟨sim.keeps_take fuel, ?_⟩
    intro s t a s' hapart hrun
    rcases sim.take_apart hapart hrun with hlost | hrest
    · exact Or.inl hlost
    · exact Or.inr ⟨(), t, rfl, hrest⟩
  refine htake.left fun a => ⟨hkeeps a, ?_⟩
  rintro s t c s' ⟨hempty, hapart⟩ hrun
  exact (Abreast.of_empty hempty hend hblank).run s t c s' hapart hrun

/-! ### Editing the document -/

omit sim in
/-- Setting an attribute is an edit. -/
theorem edited_setAttribute (d : Document) (name : String) (value : Option String) :
    d.Edited (d.setAttribute name value) := by
  rw [Document.setAttribute_eq]
  exact ⟨rfl, rfl, rfl, rfl⟩

omit sim in
/-- Documents stay alike when both set an attribute. -/
theorem alike_setAttribute {d d' : Document} (h : d.Alike Located d') (name : String)
    (value : Option String) : (d.setAttribute name value).Alike Located
      (d'.setAttribute name value) := by
  unfold Document.setAttribute
  rw [Document.isLocked_congr h.locked]
  split
  · exact h
  · rcases h with ⟨hattributes, hlocked, hparsed, htitle, hheader, hblocks⟩
    cases value with
    | none => exact ⟨by simp only [hattributes], hlocked, hparsed, htitle, hheader, hblocks⟩
    | some value =>
      exact ⟨by simp only [hattributes], hlocked, hparsed, htitle, hheader, hblocks⟩

/-- An edit loses no session that is lost. -/
theorem keeps_edit {f : Document → Document} (hf : ∀ d : Document, d.Edited (f d)) :
    Keeps sim.Gone (modifyDocument f) :=
  .modify fun s hs => sim.lost.endures.edit s _ hs (hf s.doc)

/-- Logging loses no session that is lost. -/
theorem keeps_log (record : Session → Log.Record) :
    Keeps sim.Gone (modify fun s => s.log (record s)) :=
  .modify fun s hs => sim.lost.endures.log s _ hs

/-- Both documents are edited alike. -/
theorem abreast_edit {f g : Document → Document} (hf : ∀ d : Document, d.Edited (f d))
    (hg : ∀ d : Document, d.Edited (g d))
    (hsame : ∀ d d' : Document, d.Alike Located d' → (f d).Alike Located (g d')) :
    Abreast sim.Gone (Joined Together Located) (modifyDocument f) (modifyDocument g)
      fun _ _ => Joined Together Located := by
  refine ⟨sim.keeps_edit hf, ?_⟩
  intro s t u s' h hrun
  rw [← modify_eq_ok.mp hrun]
  refine Or.inr ⟨(), { t with doc := g t.doc }, rfl, ?_⟩
  have hsteady := h.steady
  have hsteady' := h.steady'
  unfold Session.reader at hsteady hsteady'
  rw [← (hf s.doc).reader] at hsteady
  rw [← (hg t.doc).reader] at hsteady'
  exact ⟨hsteady, hsteady', sim.edit h.together (hf _) (hg _), hsame _ _ h.doc⟩

/-- Sessions that are apart stay so when both are edited. -/
theorem abreast_editApart {f g : Document → Document} (hf : ∀ d : Document, d.Edited (f d))
    (hg : ∀ d : Document, d.Edited (g d))
    (hsame : ∀ d d' : Document, d.Matches Blocks d' → (f d).Matches Blocks' (g d')) :
    Abreast sim.Gone (sim.Parted Blocks) (modifyDocument f) (modifyDocument g)
      fun _ _ => sim.Parted Blocks' := by
  refine ⟨sim.keeps_edit hf, ?_⟩
  intro s t u s' h hrun
  rw [← modify_eq_ok.mp hrun]
  exact Or.inr ⟨(), { t with doc := g t.doc }, rfl,
    sim.editApart h.1 (hf _) (hg _), hsame _ _ h.2⟩

/-- Logging goes abreast, whatever is logged. -/
theorem abreast_log (record record' : Session → Log.Record) :
    Abreast sim.Gone (Joined Together Located) (modify fun s => s.log (record s))
      (modify fun s => s.log (record' s)) fun _ _ => Joined Together Located := by
  refine ⟨sim.keeps_log record, ?_⟩
  intro s t u s' h hrun
  rw [← modify_eq_ok.mp hrun]
  exact Or.inr ⟨(), t.log (record' t), rfl, h.steady, h.steady', sim.log _ _ h.together, h.doc⟩

/-- Sessions that are apart stay so when something is logged. -/
theorem abreast_logApart (record record' : Session → Log.Record) :
    Abreast sim.Gone (sim.Parted Blocks) (modify fun s => s.log (record s))
      (modify fun s => s.log (record' s)) fun _ _ => sim.Parted Blocks := by
  refine ⟨sim.keeps_log record, ?_⟩
  intro s t u s' h hrun
  rw [← modify_eq_ok.mp hrun]
  exact Or.inr ⟨(), t.log (record' t), rfl, sim.logApart _ _ h.1, h.2⟩

/-- Logging several records goes abreast. -/
theorem abreast_logAll (records : List Log.Record) :
    Abreast sim.Gone (Joined Together Located) (modify fun s => s.logAll records)
      (modify fun s => s.logAll records) fun _ _ => Joined Together Located := by
  have hgone : ∀ s, sim.Gone s → sim.Gone (s.logAll records) := by
    induction records with
    | nil => exact fun s h => h
    | cons record records ih => exact fun s h => ih _ (sim.lost.endures.log s record h)
  have hjoined : ∀ s t, Joined Together Located s t →
      Joined Together Located (s.logAll records) (t.logAll records) := by
    clear hgone
    induction records with
    | nil => exact fun s t h => h
    | cons record records ih =>
      intro s t h
      exact ih _ _ ⟨h.steady, h.steady', sim.log record record h.together, h.doc⟩
  refine ⟨.modify hgone, ?_⟩
  intro s t u s' h hrun
  rw [← modify_eq_ok.mp hrun]
  exact Or.inr ⟨(), t.logAll records, rfl, hjoined s t h⟩

omit sim in
/-- An attribute entry is applied in two steps: what the document knows is read, then it is
edited. -/
theorem applyEntry_eq (entry : Attribute.Entry) :
    applyEntry entry = do
      let known ← (do let s ← get; return (s.doc.attributes, s.doc.isLocked entry.name))
      let value ← match entry with
        | .unset _ => pure none
        | .set _ value => do
          let mode := Attribute.Missing.ofAttributes known.1
          modify fun s => s.logAll (Attribute.substituteLog mode known.1 value)
          pure (some ((Attribute.substitute? mode known.1 value).getD ""))
      modifyDocument fun d => d.setAttribute entry.name value
      return !known.2 := by
  rw [bind_assoc]
  rfl

/-- Applying an entry goes abreast. -/
theorem abreast_applyEntry (entry : Attribute.Entry) :
    Abreast sim.Gone (Joined Together Located) (applyEntry entry) (applyEntry entry)
      fun a b s t => a = b ∧ Joined Together Located s t := by
  rw [applyEntry_eq]
  have hread : Abreast sim.Gone (Joined Together Located)
      (do let s ← get; return (s.doc.attributes, s.doc.isLocked entry.name))
      (do let s ← get; return (s.doc.attributes, s.doc.isLocked entry.name))
      fun known known' s t => known = known' ∧ Joined Together Located s t := by
    refine .read fun s t h => ?_
    rw [h.doc.attributes, Document.isLocked_congr h.doc.locked]
  have hset : ∀ value, Abreast sim.Gone (Joined Together Located)
      (modifyDocument fun d => d.setAttribute entry.name value)
      (modifyDocument fun d => d.setAttribute entry.name value)
      fun _ _ => Joined Together Located := fun value =>
    sim.abreast_edit (fun d => edited_setAttribute d _ _) (fun d => edited_setAttribute d _ _)
      fun d d' h => alike_setAttribute h _ _
  refine hread.bindSame fun known => ?_
  cases entry with
  -- the attribute is unset
  | unset name =>
    exact (hset none).bind fun _ _ => .pure fun s t h => ⟨rfl, h⟩
  -- the value may be logged before it is set
  | set name value =>
    exact (sim.abreast_logAll _).bind fun _ _ =>
      (hset (some _)).bind fun _ _ => .pure fun s t h => ⟨rfl, h⟩

omit sim in
/-- Recording an entry of the header is an edit. -/
theorem edited_recordHeader (entry : Attribute.Entry) :
    ∃ f : Document → Document, recordHeader entry = modifyDocument f ∧
      (∀ d : Document, d.Edited (f d)) ∧
      ∀ d d' : Document, d.Alike Located d' → (f d).Alike Located (f d') := by
  refine ⟨_, rfl, fun d => ⟨rfl, rfl, rfl, rfl⟩, ?_⟩
  intro d d' h
  refine ⟨h.attributes, h.locked, h.parsed, h.title, ?_, h.blocks⟩
  simp only [h.headerAttributes, h.attributes]

/-- Recording an entry of the header goes abreast. -/
theorem abreast_recordHeader (entry : Attribute.Entry) :
    Abreast sim.Gone (Joined Together Located) (recordHeader entry) (recordHeader entry)
      fun _ _ => Joined Together Located := by
  rcases @edited_recordHeader Located entry with ⟨f, hf, hedited, halike⟩
  rw [hf]
  exact sim.abreast_edit hedited hedited halike

/-- Adding a block goes abreast, if the places of the blocks are related. -/
theorem abreast_addBlock (context : String) (lines : List String) {location location'}
    (h : Located location location') (level : Option Nat) :
    Abreast sim.Gone (Joined Together Located) (addBlock context lines location level)
      (addBlock context lines location' level) fun _ _ => sim.Either := by
  refine .weaken (sim.abreast_edit (fun _ => ⟨rfl, rfl, rfl, rfl⟩)
    (fun _ => ⟨rfl, rfl, rfl, rfl⟩) ?_)
    (fun _ _ h => h) fun _ _ _ _ h => Or.inl h
  intro d d' hd
  refine ⟨hd.attributes, hd.locked, hd.parsed, hd.title, hd.headerAttributes, ?_⟩
  exact List.rel_append hd.blocks (.cons ⟨rfl, rfl, rfl, h⟩ .nil)

/-- After the sessions came apart a last block is added; it may have more empty lines. -/
theorem abreast_addBlockSplit (context : String) (lines blanks : List String)
    (hblanks : ∀ line ∈ blanks, line = "") {location location'} (h : Located location location')
    (level : Option Nat) :
    Abreast sim.Gone sim.Split (addBlock context (lines ++ blanks) location level)
      (addBlock context lines location' level) fun _ _ => sim.Either := by
  have hedit : Abreast sim.Gone sim.Split (addBlock context (lines ++ blanks) location level)
      (addBlock context lines location' level) fun _ _ => sim.Ended := by
    refine sim.abreast_editApart (fun _ => ⟨rfl, rfl, rfl, rfl⟩) (fun _ => ⟨rfl, rfl, rfl, rfl⟩) ?_
    intro d d' hd
    refine ⟨hd.attributes, hd.locked, hd.parsed, hd.title, hd.headerAttributes, Or.inr ?_⟩
    refine ⟨d.blocks, { context, lines, location, level }, blanks, rfl, hblanks, ?_⟩
    exact List.rel_append hd.blocks (.cons ⟨rfl, rfl, rfl, h⟩ .nil)
  exact hedit.weaken (fun _ _ h => h) fun _ _ _ _ h => Or.inr h

/-! ### The header -/

/-- After looking for content: it was found in both sessions or in none, or they are apart. -/
def Sought (sim : Simulation Lost Together Apart Located) (a b : Option String) (s t : Session) :
    Prop :=
  (a = b ∧ Joined Together Located s t ∧ (a.isSome = true → 0 < s.reader.lookAhead)) ∨
    (a = none ∧ b = none ∧ sim.Split s t)

omit sim in
/-- Sessions that have split are apart. -/
theorem either_of_split {sim : Simulation Lost Together Apart Located} {s t : Session}
    (h : sim.Split s t) : sim.Either s t :=
  Or.inr ⟨h.1, h.2.butEnd⟩

/-- A session that is apart finds no content. -/
theorem apart_skipToContent (fuel : Nat) :
    Abreast sim.Gone sim.Split (skipToContent fuel) (pure none) sim.Sought := by
  induction fuel with
  | zero => exact .halt _
  | succ fuel ih =>
    unfold skipToContent
    refine sim.left_peek ?_ (.pure fun s t h => Or.inr ⟨rfl, rfl, h⟩) ?_
    · intro line
      cases line with
      | none => exact .pure _
      | some line => exact .ite (.bind (sim.keeps_take _) fun _ => ih.lost) (.pure _)
    · exact sim.left_take (fun _ => ih.lost) ih ih

/-- Two sessions find the same content, or split. -/
theorem abreast_skipToContent (fuel : Nat) :
    Abreast sim.Gone (Joined Together Located) (skipToContent fuel) (skipToContent fuel)
      sim.Sought := by
  induction fuel with
  | zero => exact .halt _
  | succ fuel ih =>
    unfold skipToContent
    refine sim.bind_peek ?_ (fun line => ?_) ?_ ?_
    · exact .pure fun s t h => Or.inl ⟨rfl, h, fun hsome => by cases hsome⟩
    · exact .ite (sim.bind_takeHeld fun _ => ih)
        (.pure fun s t h => Or.inl ⟨rfl, h.1, fun _ => h.2⟩)
    · exact .pure fun s t h => Or.inr ⟨rfl, rfl, h⟩
    · exact sim.left_take (fun _ => ih.lost) (sim.apart_skipToContent fuel)
        (sim.apart_skipToContent fuel)

/-- The lines of two headers are read abreast. -/
theorem abreast_headerLines (fuel : Nat) :
    Abreast sim.Gone (Joined Together Located) (headerLines fuel) (headerLines fuel)
      fun _ _ => sim.Either := by
  induction fuel with
  | zero => exact .halt _
  | succ fuel ih =>
    unfold headerLines
    refine sim.bind_peek ?_ (fun line => ?_) ?_ ?_
    · -- the header has no more lines
      exact .pure fun s t h => Or.inl h
    · -- a line of the header is an entry, or else it only takes its place
      refine .ite (.pure fun s t h => Or.inl h.1) (sim.bind_takeHeld fun _ => .ite ?_ ih)
      cases Attribute.Entry.parse? line with
      | none => exact ih
      | some entry =>
        exact (sim.abreast_applyEntry entry).bindSame fun _ =>
          .ite ((sim.abreast_recordHeader entry).bind fun _ _ => ih) ih
    · -- the sessions split at the end of the header
      exact .pure fun s t h => either_of_split h
    · exact .pure fun s t h => either_of_split h

/-- Two headers are read abreast. -/
theorem abreast_header (fuel : Nat) :
    Abreast sim.Gone (Joined Together Located) (header fuel) (header fuel)
      fun _ _ => sim.Either := by
  have hnone : Abreast sim.Gone sim.Held (pure () : Step Unit) (pure () : Step Unit)
      fun _ _ => sim.Either := .pure fun s t h => Or.inl h.1
  have htitle : ∀ title : String, Abreast sim.Gone sim.Held
      (do
        let _ ← Scan.take fuel
        modifyDocument fun d => { d with title := some title }
        headerLines fuel)
      (do
        let _ ← Scan.take fuel
        modifyDocument fun d => { d with title := some title }
        headerLines fuel) fun _ _ => sim.Either := by
    intro title
    refine sim.bind_takeHeld fun _ => .bind ?_ fun _ _ => sim.abreast_headerLines fuel
    refine sim.abreast_edit (fun _ => ⟨rfl, rfl, rfl, rfl⟩) (fun _ => ⟨rfl, rfl, rfl, rfl⟩) ?_
    exact fun d d' h =>
      ⟨h.attributes, h.locked, h.parsed, rfl, h.headerAttributes, h.blocks⟩
  unfold header
  -- here the sessions may part: one of them may have only empty lines in front
  refine (sim.abreast_skipToContent fuel).bind fun a b => ⟨?_, ?_⟩
  · cases a with
    | none => exact .pure _
    | some line =>
      cases htitled : LineShape.documentTitle? line with
      | none =>
        simp only [htitled]
        exact hnone.lost
      | some title =>
        simp only [htitled]
        exact (htitle title).lost
  · rintro s t u s' (⟨rfl, hjoined, hlook⟩ | ⟨rfl, rfl, hapart⟩) hrun
    · cases a with
      | none =>
        rcases pure_eq_ok.mp hrun with ⟨-, rfl⟩
        exact Or.inr ⟨(), t, rfl, Or.inl hjoined⟩
      | some line =>
        have hheld : sim.Held s t := ⟨hjoined, hlook rfl⟩
        cases htitled : LineShape.documentTitle? line with
        | none =>
          simp only [htitled] at hrun ⊢
          exact hnone.run s t u s' hheld hrun
        | some title =>
          simp only [htitled] at hrun ⊢
          exact (htitle title).run s t u s' hheld hrun
    · rcases pure_eq_ok.mp hrun with ⟨-, rfl⟩
      exact Or.inr ⟨(), t, rfl, either_of_split hapart⟩

/-! ### The body -/

/-- After the lines of a delimited block: they are the same, or the block has no end, the sessions
are apart and the lines differ in empty ones at the end. -/
def Delimited (sim : Simulation Lost Together Apart Located) (a b : List String × Bool)
    (s t : Session) : Prop :=
  (a = b ∧ Joined Together Located s t) ∨
    ∃ lines blanks, a = (lines ++ blanks, false) ∧ b = (lines, false) ∧
      (∀ line ∈ blanks, line = "") ∧ sim.Split s t

/-- For a session that is apart a delimited block gets empty lines, and no end. -/
theorem apart_delimitedLines {delimiter : String} (hdelimiter : delimiter ≠ "") (fuel : Nat) :
    Abreast sim.Gone sim.Split (delimitedLines delimiter fuel) (pure ())
      fun a _ s t => ∃ blanks, a = (blanks, false) ∧ (∀ line ∈ blanks, line = "") ∧
        sim.Split s t := by
  induction fuel with
  | zero => exact .halt _
  | succ fuel ih =>
    unfold delimitedLines
    refine sim.left_take ?_ (.pure fun s t h => ⟨[], rfl, by simp, h⟩) ?_
    · -- a lost session stays lost
      intro line
      cases line with
      | none => exact .pure _
      | some line => exact .ite (.pure _) (.bind ih.lost fun _ => .pure _)
    · -- an empty line closes no block
      have hne : ¬ (("" : String) == delimiter) = true := by
        simpa using hdelimiter.symm
      simp only [if_neg hne]
      refine ih.left fun a => .pure ?_
      rintro s t ⟨blanks, rfl, hblanks, h⟩
      exact ⟨"" :: blanks, rfl, by simpa using hblanks, h⟩

/-- The lines of two delimited blocks are the same, up to empty ones at the end. -/
theorem abreast_delimitedLines {delimiter : String} (hdelimiter : delimiter ≠ "") (fuel : Nat) :
    Abreast sim.Gone (Joined Together Located) (delimitedLines delimiter fuel)
      (delimitedLines delimiter fuel) sim.Delimited := by
  induction fuel with
  | zero => exact .halt _
  | succ fuel ih =>
    unfold delimitedLines
    refine sim.bind_take (fun a => ?_) (.pure fun s t h => ?_) ?_
    · cases a with
      -- the block is not closed in either session
      | none => exact .pure fun s t h => Or.inl ⟨rfl, h⟩
      | some line =>
        refine .ite (.pure fun s t h => Or.inl ⟨rfl, h⟩) (ih.bind fun a b => .pure ?_)
        rintro s t (⟨rfl, h⟩ | ⟨lines, blanks, rfl, rfl, hblanks, h⟩)
        · exact Or.inl ⟨rfl, h⟩
        · exact Or.inr ⟨line :: lines, blanks, rfl, rfl, hblanks, h⟩
    · -- the first session has only empty lines left
      exact Or.inr ⟨[], [], rfl, rfl, by simp, h⟩
    · -- the first session takes an empty line where the second one is at its end
      have hne : ¬ (("" : String) == delimiter) = true := by
        simpa using hdelimiter.symm
      simp only [if_neg hne]
      refine (sim.apart_delimitedLines hdelimiter fuel).left fun a => .pure ?_
      rintro s t ⟨blanks, rfl, hblanks, h⟩
      exact Or.inr ⟨[], "" :: blanks, rfl, rfl, by simpa using hblanks, h⟩

/-- Two delimited blocks are read abreast. -/
theorem abreast_delimitedBlock {delimiter : String} (hdelimiter : delimiter ≠ "") (fuel : Nat)
    (context : String) {location location' : Option Cursor} (h : Located location location') :
    Abreast sim.Gone sim.Held (delimitedBlock fuel delimiter context location)
      (delimitedBlock fuel delimiter context location') fun _ _ => sim.Either := by
  have hcursor : Abreast sim.Gone sim.Held Scan.cursor Scan.cursor
      fun _ _ s t => True ∧ sim.Held s t := .read fun _ _ _ => trivial
  unfold delimitedBlock
  refine hcursor.bindRelated (fun _ => trivial) fun start start' _ =>
    sim.bind_takeHeld fun first => ?_
  have hadd := fun lines => sim.abreast_addBlock context lines h none
  refine (sim.abreast_delimitedLines hdelimiter fuel).bind fun a b => ⟨?_, ?_⟩
  · exact .ite (.bind (sim.keeps_log _) fun _ => (hadd _).lost) (hadd _).lost
  · rintro s t u s' (⟨rfl, hjoined⟩ | ⟨lines, blanks, rfl, rfl, hblanks, hsplit⟩) hrun
    · -- the lines are the same in both sessions
      exact (Abreast.ite ((sim.abreast_log _ _).bind fun _ _ => hadd _) (hadd _)).run s t u s'
        hjoined hrun
    · -- a block without an end: its lines differ by empty ones
      exact ((sim.abreast_logApart _ _).bind fun _ _ =>
        sim.abreast_addBlockSplit context (_ :: lines) blanks hblanks h none).run s t u s' hsplit
          hrun

/-- A paragraph ends before an empty line, so it has the same lines in both sessions. -/
theorem abreast_paragraphLines (fuel : Nat) (isFirst : Bool) :
    Abreast sim.Gone (Joined Together Located) (paragraphLines fuel isFirst)
      (paragraphLines fuel isFirst)
      fun a b s t => a = b ∧ (Joined Together Located s t ∨ sim.Split s t) := by
  induction fuel generalizing isFirst with
  | zero => exact .halt _
  | succ fuel ih =>
    unfold paragraphLines
    refine sim.bind_peek ?_ (fun line => ?_) ?_ ?_
    · exact .pure fun s t h => ⟨rfl, Or.inl h⟩
    · refine .ite (.pure fun s t h => ⟨rfl, Or.inl h.1⟩) (sim.bind_takeHeld fun taken => ?_)
      exact (ih false).bindSame fun rest => .pure fun s t h => ⟨rfl, h⟩
    · exact .pure fun s t h => ⟨rfl, Or.inr h⟩
    · exact .pure fun s t h => ⟨rfl, Or.inr h⟩

/-- What starts with the line in front is the same in both sessions, where it starts as well. -/
theorem abreast_element (fuel : Nat) (line : String) :
    Abreast sim.Gone sim.Held (element fuel line) (element fuel line) fun _ _ => sim.Either := by
  have htake : Abreast sim.Gone sim.Held (do let _ ← Scan.take fuel; pure ())
      (do let _ ← Scan.take fuel; pure ()) fun _ _ => sim.Either :=
    sim.bind_takeHeld fun _ => .pure fun s t h => Or.inl h
  unfold element
  refine .ite htake ?_
  cases Attribute.Entry.parse? line with
  | some entry =>
    exact sim.bind_takeHeld fun _ =>
      (sim.abreast_applyEntry entry).bindSame fun _ => .pure fun s t h => Or.inl h
  | none =>
    refine .ite htake ?_
    -- the positions are related rather than equal, and blocks are added with them
    have hlocation : Abreast sim.Gone sim.Held Scan.location Scan.location
        fun a b s t => Located a b ∧ sim.Held s t := .read fun s t h => sim.located h.1
    refine hlocation.bindRelated sim.refl fun location location' hlocated => ?_
    have hadd := fun context lines level => sim.abreast_addBlock context lines hlocated level
    cases LineShape.sectionLevel? line with
    | some level => exact sim.bind_takeHeld fun _ => hadd _ _ _
    | none =>
      cases hdelimited : LineShape.delimited? line with
      | some context =>
        have hne : line ≠ "" := by
          rintro rfl
          have hnone : LineShape.delimited? "" = none := by decide
          rw [hnone] at hdelimited
          cases hdelimited
        exact sim.abreast_delimitedBlock hne fuel context hlocated
      | none =>
        refine ((sim.abreast_paragraphLines fuel true).weaken (fun s t h => h.1)
          fun _ _ _ _ h => h).bindSame fun lines => .or (hadd _ _ _) ?_
        have hsplit := sim.abreast_addBlockSplit "paragraph" lines []
          (by simp) hlocated none
        rwa [List.append_nil] at hsplit

/-- An empty line adds nothing, so the sessions stay apart. -/
theorem apart_elementBlank (fuel : Nat) :
    Abreast sim.Gone (sim.Parted Blocks) (element fuel "") (pure ())
      fun _ _ => sim.Parted Blocks := by
  have hdone : Abreast sim.Gone (sim.Parted Blocks) (pure () : Step Unit) (pure () : Step Unit)
      fun _ _ => sim.Parted Blocks := .pure fun s t h => h
  have htake : element fuel "" = (do let _ ← Scan.take fuel; pure ()) := rfl
  rw [htake]
  exact sim.left_take (fun _ => .pure _) hdone hdone

/-- A session that is apart adds nothing to its body. -/
theorem apart_body (fuel : Nat) :
    Abreast sim.Gone (sim.Parted Blocks) (body fuel) (pure ()) fun _ _ => sim.Parted Blocks := by
  induction fuel with
  | zero => exact .halt _
  | succ fuel ih =>
    unfold body
    refine sim.left_peek ?_ (.pure fun s t h => h)
      ((sim.apart_elementBlank (fuel + 1)).left fun _ => ih)
    intro line
    cases line with
    | none => exact .pure _
    | some line => exact .bind (sim.abreast_element _ line).lost fun _ => ih.lost

/-- Two bodies are read abreast. -/
theorem abreast_body (fuel : Nat) :
    Abreast sim.Gone sim.Either (body fuel) (body fuel) fun _ _ => sim.Either := by
  -- a session with nothing left to be read is scanned at once
  have hapart : ∀ fuel, Abreast sim.Gone sim.Ended (body fuel) (body fuel)
      fun _ _ => sim.Either := by
    intro fuel
    have hwaits : ∀ fuel, Abreast sim.Gone sim.Ended (body fuel) (pure ()) fun _ _ => sim.Ended :=
      fun fuel => sim.apart_body fuel
    refine ⟨(hwaits fuel).lost, ?_⟩
    intro s t u s' h hrun
    cases fuel with
    | zero => cases hrun
    | succ fuel =>
      have hend : body (fuel + 1) t = .ok ((), t) :=
        bind_eq_ok.mpr ⟨none, t, sim.exhausted h.1, rfl⟩
      rcases (hwaits (fuel + 1)).run s t u s' h hrun with hlost | ⟨_, t', ht, h'⟩
      · exact Or.inl hlost
      · rcases pure_eq_ok.mp ht with ⟨-, rfl⟩
        exact Or.inr ⟨(), t, hend, Or.inr h'⟩
  induction fuel with
  | zero => exact .halt _
  | succ fuel ih =>
    refine Abreast.or ?_ (hapart (fuel + 1))
    unfold body
    refine sim.bind_peek ?_ (fun line => (sim.abreast_element _ line).bind fun _ _ => ih) ?_ ?_
    · exact .pure fun s t h => Or.inl h
    · exact .pure fun s t h => either_of_split h
    · refine ((sim.apart_elementBlank (fuel + 1)).left fun _ => sim.apart_body fuel).weaken
        (fun _ _ h => h) fun _ _ _ _ h => either_of_split h

/-- Two whole scans stay together, or end apart. -/
theorem abreast_document (fuel : Nat) :
    Abreast sim.Gone (Joined Together Located) (document fuel) (document fuel)
      fun _ _ => sim.Either := by
  have hread : Abreast sim.Gone (Joined Together Located) (do return (← get).doc.parsed)
      (do return (← get).doc.parsed) fun a b s t => a = b ∧ Joined Together Located s t :=
    .read fun s t h => h.doc.parsed.symm
  have hmark : Abreast sim.Gone sim.Either (modifyDocument fun d => { d with parsed := true })
      (modifyDocument fun d => { d with parsed := true }) fun _ _ => sim.Either := by
    have hedited : ∀ d : Document, d.Edited { d with parsed := true } :=
      fun _ => ⟨rfl, rfl, rfl, rfl⟩
    refine .or (.weaken (sim.abreast_edit hedited hedited ?_) (fun _ _ h => h)
      fun _ _ _ _ => Or.inl) (.weaken (sim.abreast_editApart hedited hedited ?_)
      (fun _ _ h => h) fun _ _ _ _ => Or.inr) <;>
    exact fun d d' h => ⟨h.attributes, h.locked, rfl, h.title, h.headerAttributes, h.blocks⟩
  exact hread.bindSame fun parsed => .ite ((sim.abreast_header fuel).bind fun _ _ =>
    (sim.abreast_body fuel).bind fun _ _ => hmark) (.pure fun s t h => Or.inl h)

end

end Simulation

/-! ## What every scan keeps -/

namespace Endures

variable {P : Session → Prop} (h : Endures P)

include h

theorem modifyDocument {f : Document → Document} (hf : ∀ d : Document, d.Edited (f d)) :
    Keeps P (modifyDocument f) :=
  .modify fun s hs => h.edit s _ hs (hf s.doc)

theorem logAll (records : List Log.Record) : Keeps P (modify fun s => s.logAll records) := by
  refine .modify ?_
  induction records with
  | nil => exact fun s hs => hs
  | cons record records ih => exact fun s hs => ih _ (h.log s record hs)

theorem applyEntry (entry : Attribute.Entry) : Keeps P (applyEntry entry) := by
  unfold Scan.applyEntry
  refine .bind .get fun s => ?_
  have hset : ∀ value, Keeps P (do
      Scan.modifyDocument fun d => d.setAttribute entry.name value
      return !s.doc.isLocked entry.name) := fun value =>
    .bind (h.modifyDocument fun d => Simulation.edited_setAttribute d _ _) fun _ => .pure _
  cases entry with
  | unset name => exact .bind (.pure _) hset
  | set name value => exact .bind (h.logAll _) fun _ => .bind (.pure _) hset

theorem skipToContent (fuel : Nat) : Keeps P (skipToContent fuel) := by
  induction fuel with
  | zero => exact .halt _
  | succ fuel ih =>
    unfold Scan.skipToContent
    refine .bind (h.peek _) fun found => ?_
    cases found with
    | none => exact .pure _
    | some line => exact .ite (.bind (h.take _) fun _ => ih) (.pure _)

theorem headerLines (fuel : Nat) : Keeps P (headerLines fuel) := by
  induction fuel with
  | zero => exact .halt _
  | succ fuel ih =>
    unfold Scan.headerLines
    refine .bind (h.peek _) fun found => ?_
    cases found with
    | none => exact .pure _
    | some line =>
      refine .ite (.pure _) (.bind (h.take _) fun _ => .ite ?_ ih)
      cases Attribute.Entry.parse? line with
      | none => exact ih
      | some entry =>
        refine .bind (h.applyEntry entry) fun _ => .ite (.bind ?_ fun _ => ih) ih
        exact h.modifyDocument fun _ => ⟨rfl, rfl, rfl, rfl⟩

theorem header (fuel : Nat) : Keeps P (header fuel) := by
  unfold Scan.header
  refine .bind (h.skipToContent fuel) fun found => ?_
  cases found with
  | none => exact .pure _
  | some line =>
    dsimp only
    cases LineShape.documentTitle? line with
    | none => exact .pure _
    | some title =>
      refine .bind (h.take _) fun _ => .bind ?_ fun _ => h.headerLines fuel
      exact h.modifyDocument fun _ => ⟨rfl, rfl, rfl, rfl⟩

theorem addBlock (context : String) (lines : List String) (location : Option Cursor)
    (level : Option Nat) : Keeps P (addBlock context lines location level) :=
  h.modifyDocument fun _ => ⟨rfl, rfl, rfl, rfl⟩

theorem delimitedLines (delimiter : String) (fuel : Nat) :
    Keeps P (delimitedLines delimiter fuel) := by
  induction fuel with
  | zero => exact .halt _
  | succ fuel ih =>
    unfold Scan.delimitedLines
    refine .bind (h.take _) fun found => ?_
    cases found with
    | none => exact .pure _
    | some line => exact .ite (.pure _) (.bind ih fun _ => .pure _)

theorem delimitedBlock (fuel : Nat) (delimiter context : String) (location : Option Cursor) :
    Keeps P (delimitedBlock fuel delimiter context location) := by
  unfold Scan.delimitedBlock
  refine .bind (.bind .get fun _ => .pure _) fun start => .bind (h.take _) fun first =>
    .bind (h.delimitedLines delimiter fuel) fun found => ?_
  have hadd := fun lines => h.addBlock context lines location none
  exact .ite (.bind (.modify fun s hs => h.log s _ hs) fun _ => hadd _) (hadd _)

theorem paragraphLines (fuel : Nat) (isFirst : Bool) : Keeps P (paragraphLines fuel isFirst) := by
  induction fuel generalizing isFirst with
  | zero => exact .halt _
  | succ fuel ih =>
    unfold Scan.paragraphLines
    refine .bind (h.peek _) fun found => ?_
    cases found with
    | none => exact .pure _
    | some line =>
      exact .ite (.pure _) (.bind (h.take _) fun _ => .bind (ih false) fun _ => .pure _)

theorem element (fuel : Nat) (line : String) : Keeps P (element fuel line) := by
  have htake : Keeps P (do let _ ← Scan.take fuel; pure ()) := .bind (h.take _) fun _ => .pure _
  unfold Scan.element
  refine .ite htake ?_
  cases Attribute.Entry.parse? line with
  | some entry => exact .bind (h.take _) fun _ => .bind (h.applyEntry entry) fun _ => .pure _
  | none =>
    refine .ite htake (.bind (.bind .get fun _ => .pure _) fun location => ?_)
    cases LineShape.sectionLevel? line with
    | some level => exact .bind (h.take _) fun _ => h.addBlock _ _ _ _
    | none =>
      cases LineShape.delimited? line with
      | some context => exact h.delimitedBlock fuel line context location
      | none => exact .bind (h.paragraphLines fuel true) fun _ => h.addBlock _ _ _ _

theorem body (fuel : Nat) : Keeps P (body fuel) := by
  induction fuel with
  | zero => exact .halt _
  | succ fuel ih =>
    unfold Scan.body
    refine .bind (h.peek _) fun found => ?_
    cases found with
    | none => exact .pure _
    | some line => exact .bind (h.element _ line) fun _ => ih

/-- A whole scan does nothing else. -/
theorem document (fuel : Nat) : Keeps P (document fuel) := by
  unfold Scan.document
  refine .bind .get fun s => .ite (.bind (h.header fuel) fun _ => .bind (h.body fuel) fun _ => ?_)
    (.pure _)
  exact h.modifyDocument fun _ => ⟨rfl, rfl, rfl, rfl⟩

end Endures

namespace Harmless

variable {P : Session → Prop}

theorem peek (h : Harmless P) (fuel : Nat) : Keeps (Steadily P) (Scan.peek fuel) :=
  h.endures.peek fuel

theorem header (h : Harmless P) (fuel : Nat) : Keeps (Steadily P) (Scan.header fuel) :=
  h.endures.header fuel

theorem element (h : Harmless P) (fuel : Nat) (line : String) :
    Keeps (Steadily P) (Scan.element fuel line) :=
  h.endures.element fuel line

/-- A whole scan keeps what every step of reading keeps. -/
theorem document (h : Harmless P) (fuel : Nat) : Keeps (Steadily P) (Scan.document fuel) :=
  h.endures.document fuel

end Harmless

end Scan

end DocFlatten
