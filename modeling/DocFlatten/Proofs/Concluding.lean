import DocFlatten.Proofs.Reducing
import DocFlatten.Proofs.Reopening
import DocFlatten.Proofs.Settling
import Mathlib.Algebra.Group.Nat.Defs

/-! # Loading and reducing end

Reading can only go on without end if scopes are entered without end. How many may be entered is an
attribute that every document can set; but it is read as an integer of a limited number of digits, so it
never exceeds one bound for all documents (`Session.maxIncludeDepth_le`). Under that bound a session
without processors has less left after each look (`Session.dwindles_bare`), whatever the files hold. So
loading a source ends (`Session.load_ends`), and so does what a reduction does after it
(`finishReduction_ends`); only the system can refuse to look up the file of an include.
-/

namespace DocFlatten

open DocFlatten.Scan DocFlatten.Replacement

/-! ## Integers are bounded -/

namespace Number

open DocFlatten.Text

/-- A digit is less than ten, whatever script it is written in. -/
theorem digitValue?_lt {c : Char} {d : Nat} (h : digitValue? c = some d) : d < 10 := by
  unfold digitValue? at h
  simp only at h
  split at h
  · split at h
    · rename_i hdigit
      -- an ASCII digit is one of ten characters
      have hrange : c.toNat ≤ '9'.toNat := by
        unfold Char.isDigit at hdigit
        simp only [Bool.and_eq_true, decide_eq_true_eq] at hdigit
        exact hdigit.2
      have hnine : '9'.toNat = '0'.toNat + 9 := rfl
      have hd : c.toNat - '0'.toNat = d := by simpa using h
      omega
    · cases h
  · rw [Option.map_eq_some_iff] at h
    obtain ⟨base, hbase, hd⟩ := h
    have hwithin := Array.find?_some hbase
    simp only [Bool.and_eq_true, decide_eq_true_eq] at hwithin
    omega

/-- So are all digits that are scanned. -/
theorem scanDigits_lt {cs : List Char} {d : Nat} (h : d ∈ (scanDigits cs).1) : d < 10 := by
  induction cs with
  | nil => cases h
  | cons c rest ih =>
    unfold scanDigits at h
    split at h
    · rename_i value hvalue
      rcases List.mem_cons.mp h with rfl | hrest
      · exact digitValue?_lt hvalue
      · exact ih hrest
    · split at h
      · split at h
        · exact ih h
        · cases h
      · cases h

/-- A number is less than the power of ten that has its digits as zeros. -/
theorem ofDigits_lt {digits : List Nat} (h : ∀ d ∈ digits, d < 10) :
    ofDigits digits < 10 ^ digits.length := by
  -- stated for any number in front of the digits, since the sum is built from the left
  have hgeneral : ∀ n, digits.foldl (fun n d => 10 * n + d) n < (n + 1) * 10 ^ digits.length := by
    induction digits with
    | nil =>
      intro n
      simp
    | cons d rest ih =>
      intro n
      have hd : d < 10 := h d List.mem_cons_self
      have hrest := ih (fun e he => h e (List.mem_cons_of_mem _ he)) (10 * n + d)
      calc (d :: rest).foldl (fun n d => 10 * n + d) n
          = rest.foldl (fun n d => 10 * n + d) (10 * n + d) := rfl
        _ < (10 * n + d + 1) * 10 ^ rest.length := hrest
        _ ≤ (10 * (n + 1)) * 10 ^ rest.length := Nat.mul_le_mul_right _ (by omega)
        _ = (n + 1) * 10 ^ (d :: rest).length := by
          rw [List.length_cons, Nat.pow_succ, Nat.mul_comm (10 ^ rest.length), ← Nat.mul_assoc,
            Nat.mul_comm 10]
  have hzero := hgeneral 0
  rw [Nat.zero_add, Nat.one_mul] at hzero
  exact hzero

/-- No integer that can be read has more digits than are allowed. -/
theorem readInteger_le {text : String} {n : Int} (h : readInteger text = .ok n) :
    n ≤ ((10 ^ digitLimit : Nat) : Int) := by
  unfold readInteger at h
  simp only at h
  generalize hscan : (if (takeSign (dropEndWhile isPadding
    (text.toList.dropWhile isPadding))).2.head? == some '_' then _ else _) = scanned at h
  -- the digits are those behind the padding and the sign
  have hdigits : ∀ d ∈ scanned.1, d < 10 := by
    intro d hd
    rw [← hscan] at hd
    split at hd
    · cases hd
    · exact scanDigits_lt hd
  split at h
  · -- more digits than the limit are refused
    cases h
  · rename_i hlength
    split at h
    · cases h
    · -- so the number is less than the power of ten of the limit, and a sign makes it smaller still
      have hlt : ofDigits scanned.1 < 10 ^ digitLimit :=
        Nat.lt_of_lt_of_le (ofDigits_lt hdigits) (Nat.pow_le_pow_right (by omega) (by omega))
      have hn : n ≤ Int.ofNat (ofDigits scanned.1) := by
        have hvalue : (if (takeSign (dropEndWhile isPadding
            (text.toList.dropWhile isPadding))).1 = true then -Int.ofNat (ofDigits scanned.1)
            else Int.ofNat (ofDigits scanned.1)) = n := by simpa using h
        split at hvalue <;> (simp only [Int.ofNat_eq_natCast] at hvalue ⊢; omega)
      exact Int.le_trans hn (Int.ofNat_le.mpr (Nat.le_of_lt hlt))

end Number

/-- An error of the system, which refuses to look up the file of an include. -/
def LoadError.IsRefusal (e : LoadError) : Prop :=
  ∃ cause journal, e = .refused cause journal

/-- A refusal stays one, whatever is done with the journal. -/
theorem LoadError.isRefusal_mapJournal {f : Journal → Journal} {e : LoadError}
    (h : e.IsRefusal) : (e.mapJournal f).IsRefusal := by
  obtain ⟨cause, journal, rfl⟩ := h
  exact ⟨cause, f journal, rfl⟩

/-! ## Sessions without processors -/

namespace Session

/-- More nested includes than any attribute can allow. -/
def depthBound : Nat := 10 ^ Number.digitLimit

/-- Whatever its attributes say, a document allows no more nested includes than that. -/
theorem maxIncludeDepth_le (s : Session) : s.maxIncludeDepth ≤ (depthBound : Int) := by
  have hdefault : (64 : Int) ≤ (depthBound : Int) := by
    have hpow : 10 ^ 2 ≤ depthBound := Nat.pow_le_pow_right (by omega) (by decide)
    omega
  unfold maxIncludeDepth
  split
  · rename_i text _
    cases hread : Number.readInteger text with
    | ok n => exact Number.readInteger_le hread
    | error e => exact hdefault
  · exact hdefault

/-- A session on given files without processors. -/
structure Bare (files : FileTree) (s : Session) : Prop where
  files : s.files = files
  processors : s.doc.options.processors = []

variable {files : FileTree}

/-- Without processors nothing changes the files. -/
theorem harmless_bare (files : FileTree) : Harmless (Bare files) := by
  refine harmless_of_turns ?_ ?_ ?_ ?_
  · intro s r es s' h hturns
    constructor
    · rw [hturns.files, h.files]
    · rw [hturns.doc]
      exact h.processors
  · intro s d h hedit
    constructor
    · exact h.files
    · exact hedit.options.symm ▸ h.processors
  · intro s line h
    exact ⟨h.files, h.processors⟩
  · intro s h
    constructor
    · rw [files_takeFront, h.files]
    · rw [doc_takeFront]
      exact h.processors

/-- Under the bound that holds for all documents there is less left after each look. -/
theorem dwindles_bare (files : FileTree) :
    Dwindles (files.lineCount + 4) depthBound (Bare files) where
  kept := (harmless_bare files).reading
  processors s h := h.processors
  less s line rest s' h hidle hfront hglance hlook := by
    have hwithin : Within (files.lineCount + 4) depthBound s :=
      ⟨h.processors, by rw [h.files], s.maxIncludeDepth_le⟩
    exact rank_glance hwithin hidle hfront hglance hlook

/-- Changing nothing is not noticed. -/
theorem unseen_id (P : Session → Prop) : Unseen P fun (_ : Unit) s => s where
  doc _ _ := rfl
  peek _ s fuel _ := by
    rcases s.peekLine fuel with halt | found
    · cases halt <;> rfl
    · rfl
  take _ _ := rfl
  edit _ _ _ _ := rfl
  log _ _ _ := rfl

/-- Loading a source ends if its safe mode is one and nothing else handles its includes. The source is
loaded then, unless the system refuses to look up the file of an include. -/
theorem load_ends (files : FileTree) (source : Source) {o : LoadOptions} {mode : SafeMode}
    (hmode : SafeMode.ofValue o.safe = .ok mode) (hprocessors : o.processors = []) :
    ∃ enough loaded, (∀ fuel, enough ≤ fuel → load fuel files source o = loaded) ∧
      (∀ s, loaded = .ok s → Bare files s) ∧ ∀ e, loaded = .error e → e.IsRefusal := by
  have hbare : Bare files (start files (.initial files.workingDir source o mode)) :=
    ⟨rfl, hprocessors⟩
  obtain ⟨enough, found, hrun, hcomes⟩ := settles_document (harmless_bare files)
    (dwindles_bare files) (unseen_id (Bare files)) (Or.inl ⟨rfl, rfl⟩) hbare
  have hload : ∀ fuel, load fuel files source o =
      scan fuel (start files (.initial files.workingDir source o mode)) := by
    intro fuel
    unfold load
    rw [openSource_of_mode hmode]
    rfl
  cases hcomes with
  | @result _ s hend =>
    -- the scan ends in a document
    refine ⟨enough, .ok s, fun fuel hfuel => ?_, ?_, nofun⟩
    · rw [hload, scan, hrun fuel hfuel ()]
      rfl
    · rintro _ ⟨⟩
      exact hend
  | @refused e s =>
    -- the scan is stopped by a refusal
    refine ⟨enough, .error (.refused e s.journal), fun fuel hfuel => ?_, ?_, ?_⟩
    · rw [hload, scan, hrun fuel hfuel ()]
      rfl
    · intro s' hs'
      cases hs'
    · rintro _ ⟨⟩
      exact ⟨e, s.journal, rfl⟩

end Session

/-! ## Reducing -/

/-- Putting the reduced document together ends. -/
theorem rebuild_ends (files : FileTree) {d : Document} (hprocessors : d.options.processors = [])
    (lines : List String) (changed : Bool) : ∃ enough rebuilt,
      (∀ fuel, enough ≤ fuel → rebuild fuel files d lines changed = rebuilt) ∧
      ∀ e, rebuilt = .error e → e.IsRefusal := by
  unfold rebuild
  cases d.options.sourcemap && changed with
  | false => exact ⟨0, _, fun fuel _ => rfl, nofun⟩
  | true =>
    have hmode : SafeMode.ofValue { d.reloadOptions with reduced := true }.safe =
        .ok d.options.safe := SafeMode.ofValue_level d.options.safe
    obtain ⟨enough, loaded, hload, -, hrefusal⟩ :=
      Session.load_ends files (.lines lines) hmode hprocessors
    refine ⟨enough, _, fun fuel hfuel => by rw [if_pos rfl, hload fuel hfuel], fun e he => ?_⟩
    dsimp only at he
    cases loaded with
    | error e' =>
      cases he
      exact LoadError.isRefusal_mapJournal (hrefusal e' rfl)
    | ok s => cases he

/-- Finishing a reduction ends, whatever was read. -/
theorem finishReduction_ends {s : Session} (hprocessors : s.doc.options.processors = [])
    (ro : ReduceOptions) : ∃ enough result,
      (∀ fuel, enough ≤ fuel → finishReduction fuel ro s = result) ∧
      ∀ e, result = .error e → e.IsRefusal := by
  obtain ⟨enough, rebuilt, hrebuild, hrefusal⟩ :=
    rebuild_ends s.files hprocessors (playBack ro s).lines (playBack ro s).changed
  refine ⟨enough, _, fun fuel hfuel => by rw [finishReduction, hrebuild fuel hfuel], fun e he => ?_⟩
  cases rebuilt with
  | error e' =>
    cases he
    exact LoadError.isRefusal_mapJournal (hrefusal e' rfl)
  | ok rebuilt => cases he

/-- Reading a document to reduce it ends, and then it is known whether it is loaded. -/
theorem readToReduce_ends (files : FileTree) (source : Source) {o : LoadOptions} {mode : SafeMode}
    (ro : ReduceOptions) (hmode : SafeMode.ofValue o.safe = .ok mode)
    (hprocessors : o.processors = []) :
    ∃ enough read, (∀ fuel, enough ≤ fuel → readToReduce fuel files source o ro = read) ∧
      (∀ s, read = .ok s → Session.Bare files s) ∧ ∀ e, read = .error e → e.IsRefusal := by
  obtain ⟨enough, loaded, hload, hbare, hrefusal⟩ :=
    Session.load_ends files source hmode hprocessors
  refine ⟨enough, _, fun fuel hfuel => by rw [readToReduce, hload fuel hfuel], ?_⟩
  cases loaded with
  | error e =>
    -- reading stops where loading does
    constructor
    · intro s hs
      cases hs
    · rintro _ ⟨⟩
      exact LoadError.isRefusal_mapJournal (hrefusal e rfl)
  | ok s =>
    constructor
    · rintro _ ⟨⟩
      exact hbare s rfl
    · intro e he
      cases he

end DocFlatten
