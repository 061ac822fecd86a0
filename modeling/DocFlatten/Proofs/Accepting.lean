import DocFlatten.CommandLine.Invocation
import DocFlatten.Proofs.Failing

/-! # Options are recorded with values that they accept

Reading a command line checks each value when it acts on an option. So whatever the words of a command
line are, and whichever options share a word or are cut short, what is recorded belongs to an option of the
grammar and is a value that this option takes (`recorded_of_read`). Words and the options in them come from
the grammar (`Word.IsOf`, `Item.IsOf`); acting on them keeps the record as it should be
(`Grammar.Recorded`).
-/

namespace DocFlatten.CommandLine

variable {g : Grammar}

/-! ## Words -/

/-- A name of a grammar is one of an option of it. -/
theorem Grammar.mem_options_of_mem_names {name : String} {spec : Spec} (h : (name, spec) ∈ g.names) :
    spec ∈ g.options := by
  unfold Grammar.names at h
  rcases List.mem_flatMap.mp h with ⟨s, hs, hname⟩
  rcases List.mem_map.mp hname with ⟨_, -, heq⟩
  cases heq
  exact hs

/-- What is found by a name is an option of the grammar. -/
theorem Grammar.mem_options_of_find? {name : String} {spec : Spec} (h : g.find? name = some spec) :
    spec ∈ g.options := by
  unfold Grammar.find? at h
  rcases Option.map_eq_some_iff.mp h with ⟨entry, hfound, rfl⟩
  exact g.mem_options_of_mem_names (List.mem_of_find?_eq_some hfound)

/-- Whether a word is an option of a grammar if it is an option at all. -/
def Word.IsOf (g : Grammar) : Word → Prop
  | .option spec _ _ => spec ∈ g.options
  | _ => True

/-- A long option that a word may stand for is one of the grammar. -/
theorem isOf_longCandidates {s : String} {word : Word} (h : word ∈ longCandidates g s) :
    word.IsOf g := by
  unfold longCandidates at h
  rcases List.mem_map.mp h with ⟨entry, hentry, rfl⟩
  exact g.mem_options_of_mem_names (List.mem_filter.mp hentry).1

/-- A short option that a word may stand for is one of the grammar. -/
theorem isOf_shortCandidates {s : String} {word : Word} (h : word ∈ shortCandidates g s) :
    word.IsOf g := by
  unfold shortCandidates at h
  rcases List.mem_filterMap.mp h with ⟨entry, hentry, hword⟩
  have hspec : entry.2 ∈ g.options := g.mem_options_of_mem_names hentry
  split at hword
  · cases hword
    exact hspec
  · split at hword
    · cases hword
      exact hspec
    · cases hword

/-- A word that is guessed is one of the grammar. -/
theorem isOf_guessWord {s : String} {word : Word} (h : guessWord g s = .ok word) : word.IsOf g := by
  unfold guessWord at h
  split at h
  · rename_i only honly
    cases h
    have hmem : word ∈ (if s.startsWith "--" then longCandidates g s else shortCandidates g s) := by
      rw [honly]
      exact List.mem_cons_self
    split at hmem
    · exact isOf_longCandidates hmem
    · exact isOf_shortCandidates hmem
  · cases h
  · cases h
    split <;> trivial

/-- An argument is read as a word of the grammar. -/
theorem isOf_wordOf {s : String} {word : Word} (h : wordOf g s = .ok word) : word.IsOf g := by
  unfold wordOf at h
  split at h
  · cases h
    trivial
  · split at h
    · rename_i spec hspec
      cases h
      exact g.mem_options_of_find? hspec
    · dsimp only at h
      split at h
      · rename_i value spec _ hspec
        cases h
        exact g.mem_options_of_find? hspec
      · exact isOf_guessWord h

/-- All arguments are read as words of the grammar. -/
theorem isOf_wordsOf {args : List String} {words : List (String × Word)}
    (h : wordsOf g args = .ok words) : ∀ entry ∈ words, entry.2.IsOf g := by
  induction args generalizing words with
  | nil =>
    cases h
    nofun
  | cons s rest ih =>
    unfold wordsOf at h
    split at h
    · -- behind the mark that ends the options there are only values
      cases h
      intro entry hentry
      rcases List.mem_cons.mp hentry with rfl | hrest
      · trivial
      · rcases List.mem_map.mp hrest with ⟨_, -, rfl⟩
        trivial
    · -- any other argument is read by itself
      obtain ⟨word, hword, h⟩ := Except.bind_eq_ok_iff.mp h
      obtain ⟨words', hrest, h⟩ := Except.bind_eq_ok_iff.mp h
      cases h
      intro entry hentry
      rcases List.mem_cons.mp hentry with rfl | hmem
      · exact isOf_wordOf hword
      · exact ih hrest entry hmem

/-! ## Options -/

/-- Whether an option with a value is one of a grammar. -/
def Item.IsOf (g : Grammar) (item : Item) : Prop :=
  item.spec ∈ g.options

/-- Whether an option that still needs a value is one of a grammar. -/
def Ending.IsOf (g : Grammar) : Ending → Prop
  | .needsWord spec => spec ∈ g.options
  | _ => True

/-- Whether all options of a word are those of a grammar. -/
def AreOf (g : Grammar) (found : List Item × Ending) : Prop :=
  (∀ item ∈ found.1, item.IsOf g) ∧ found.2.IsOf g

theorem areOf_bare {spec : Spec} (h : spec ∈ g.options) : AreOf g (bare spec) := by
  unfold bare
  split
  · exact ⟨nofun, h⟩
  · refine ⟨?_, trivial⟩
    intro item hitem
    rw [List.mem_singleton.mp hitem]
    exact h

theorem AreOf.cons {spec : Spec} {found : List Item × Ending} (hspec : spec ∈ g.options)
    (h : AreOf g found) : AreOf g (flag spec :: found.1, found.2) := by
  refine ⟨?_, h.2⟩
  intro item hitem
  rcases List.mem_cons.mp hitem with rfl | hmem
  · exact hspec
  · exact h.1 item hmem

theorem areOf_single {item : Item} (h : item.IsOf g) : AreOf g ([item], .complete) := by
  refine ⟨?_, trivial⟩
  intro other hother
  rw [List.mem_singleton.mp hother]
  exact h

/-- The options that share a word are all looked up in the grammar. -/
theorem areOf_cluster {cs : List Char} {spec : Spec} {equals : Bool} {found : List Item × Ending}
    (hspec : spec ∈ g.options) (h : cluster g spec equals cs = .ok found) : AreOf g found := by
  fun_induction cluster g spec equals cs generalizing found with
  | case1 | case3 =>
    cases h
    exact areOf_single hspec
  | case2 | case4 => cases h
  | case5 =>
    cases h
    refine ⟨?_, trivial⟩
    intro item hitem
    rw [List.mem_singleton.mp hitem]
    exact hspec
  | case6 _ _ _ _ _ next hnext =>
    cases h
    exact (areOf_bare (g.mem_options_of_find? hnext)).cons hspec
  | case7 _ _ _ _ _ next hnext d rest ih2 ih1 =>
    have hmem : next ∈ g.options := g.mem_options_of_find? hnext
    -- the rest is read with the next option, whichever way it goes on
    have hinner : ∃ inner spec', spec' ∈ g.options ∧ AreOf g inner ∧
        (flag spec' :: inner.1, inner.2) = found := by
      split at h
      · cases hrest : cluster g next true rest with
        | error e => simp [hrest, Except.map] at h
        | ok inner =>
          rw [hrest] at h
          cases h
          exact ⟨inner, _, hspec, ih2 hmem hrest, rfl⟩
      · cases hrest : cluster g next false (d :: rest) with
        | error e => simp [hrest, Except.map] at h
        | ok inner =>
          rw [hrest] at h
          cases h
          exact ⟨inner, _, hspec, ih1 hmem hrest, rfl⟩
    rcases hinner with ⟨inner, spec', hspec', hof, rfl⟩
    exact hof.cons hspec'

/-- An argument that starts with an option stands for options of the grammar. -/
theorem areOf_optionsOf {spec : Spec} {name : String} {attached : Option Attached}
    {found : List Item × Ending} (hspec : spec ∈ g.options)
    (h : optionsOf g spec name attached = .ok found) : AreOf g found := by
  unfold optionsOf at h
  split at h
  · cases h
    exact areOf_bare hspec
  · split at h
    · exact areOf_cluster hspec h
    · cases h

/-! ## Reading -/

/-- Whether everything recorded belongs to an option of a grammar, with a value that the option
accepts. -/
def Recorded (g : Grammar) (r : Reading) : Prop :=
  ∀ setting ∈ r.settings, ∃ spec ∈ g.options, spec.name = setting.1 ∧ spec.accepts setting.2 = true

/-- Acting on an option records it if its value is accepted, and only then. -/
theorem Recorded.perform {r r' : Reading} {item : Item} (h : Recorded g r) (hitem : item.IsOf g)
    (hperform : r.perform item = .ok r') : Recorded g r' := by
  unfold Reading.perform at hperform
  split at hperform
  · cases hperform
  · split at hperform
    · rename_i haccepts
      cases hperform
      intro setting hsetting
      rcases List.mem_append.mp hsetting with hbefore | hnew
      · exact h setting hbefore
      · rw [List.mem_singleton.mp hnew]
        exact ⟨item.spec, hitem, rfl, haccepts⟩
    · cases hperform

/-- What is recorded stays among the options of the grammar. -/
theorem Recorded.performAll {r r' : Reading} {items : List Item} (h : Recorded g r)
    (hitems : ∀ item ∈ items, item.IsOf g) (hperform : r.performAll items = .ok r') :
    Recorded g r' := by
  unfold Reading.performAll at hperform
  induction items generalizing r with
  | nil =>
    cases hperform
    exact h
  | cons item rest ih =>
    rw [List.foldlM_cons] at hperform
    obtain ⟨next, hfirst, hrest⟩ := Except.bind_eq_ok_iff.mp hperform
    have hnext : Recorded g next := h.perform (hitems item List.mem_cons_self) hfirst
    exact ih hnext (fun other hother => hitems other (List.mem_cons_of_mem _ hother)) hrest

/-- A step that follows on items may assume what holds once they are recorded. -/
theorem Recorded.then {r r' : Reading} {items : List Item} {next : Reading → Except Stop Reading}
    (h : Recorded g r) (hitems : ∀ item ∈ items, item.IsOf g)
    (hnext : ∀ between, Recorded g between → next between = .ok r' → Recorded g r')
    (hread : (r.performAll items >>= next) = .ok r') : Recorded g r' := by
  obtain ⟨between, hperform, hread⟩ := Except.bind_eq_ok_iff.mp hread
  exact hnext between (h.performAll hitems hperform) hread

/-- What is recorded while words are read is accepted. -/
theorem Recorded.readWords {words : List (String × Word)} {r r' : Reading} (h : Recorded g r)
    (hwords : ∀ entry ∈ words, entry.2.IsOf g) (hread : readWords g r words = .ok r') :
    Recorded g r' := by
  have hlater : ∀ {first : String × Word} {rest : List (String × Word)},
      (∀ entry ∈ first :: rest, entry.2.IsOf g) → ∀ entry ∈ rest, entry.2.IsOf g :=
    fun hall entry hentry => hall entry (List.mem_cons_of_mem _ hentry)
  fun_induction CommandLine.readWords g r words generalizing r' with
  | case1 | case8 | case11 | case12 | case13 =>
    -- the end is reached, with what was recorded so far
    cases hread
    exact h
  | case3 | case7 | case9 | case14 => cases hread
  | case2 _ _ _ ih | case16 _ _ _ _ _ _ ih | case17 _ _ _ _ _ ih =>
    exact ih h (hlater hwords) hread
  | case10 _ _ _ _ _ _ _ ih | case15 _ _ _ _ _ _ ih =>
    exact ih h (hlater (hlater hwords)) hread
  | case4 _ _ _ _ _ items _ hoptions ih =>
    have hof := areOf_optionsOf (hwords _ List.mem_cons_self) hoptions
    exact h.then hof.1 (fun between hbetween => ih between hbetween (hlater hwords)) hread
  | case5 _ _ _ _ _ items _ hoptions ih =>
    have hof := areOf_optionsOf (hwords _ List.mem_cons_self) hoptions
    exact h.then hof.1 (fun between hbetween => ih between hbetween (hlater hwords)) hread
  | case6 _ _ _ _ _ items last s _ hoptions ih =>
    have hof := areOf_optionsOf (hwords _ List.mem_cons_self) hoptions
    have hitems : ∀ item ∈ items ++ [{ spec := last, value := s }], item.IsOf g := by
      intro item hitem
      rcases List.mem_append.mp hitem with hbefore | hlast
      · exact hof.1 item hbefore
      · rw [List.mem_singleton.mp hlast]
        exact hof.2
    exact h.then hitems (fun between hbetween => ih between hbetween (hlater (hlater hwords))) hread

/-- Whatever a command line is made of, each of its options has a value that the option accepts. -/
theorem recorded_of_read {args : List String} {r : Reading} (h : read g args = .ok r) :
    Recorded g r := by
  unfold read at h
  obtain ⟨words, hwords, h⟩ := Except.bind_eq_ok_iff.mp h
  obtain ⟨r', hread, h⟩ := Except.bind_eq_ok_iff.mp h
  have hrecorded : Recorded g r' := by
    refine Recorded.readWords ?_ (isOf_wordsOf hwords) hread
    nofun
  split at h
  · cases h
  · cases h
    exact hrecorded

/-- The value that an option was given last is one of its choices. -/
theorem Recorded.mem_choices {r : Reading} (h : Recorded g r) {name value : String}
    (hlast : r.last? name = some value) {choices : List String}
    (hchoices : ∀ spec ∈ g.options, spec.name = name → spec.parameter = .oneOf choices) :
    value ∈ choices := by
  unfold Reading.last? at hlast
  rcases Option.map_eq_some_iff.mp hlast with ⟨setting, hfound, rfl⟩
  have hmem : setting ∈ r.settings := List.mem_reverse.mp (List.mem_of_find?_eq_some hfound)
  have hname : setting.1 = name := by simpa using List.find?_some hfound
  obtain ⟨spec, hspec, hspecName, haccepts⟩ := h setting hmem
  unfold Spec.accepts at haccepts
  rw [hchoices spec hspec (hspecName.trans hname)] at haccepts
  simpa using haccepts

/-! ## Invocations -/

/-- Only one command leads to a reduction. -/
theorem commandOf_cases (name : String) :
    commandOf name = (reduceGrammar, fun r => .reduce (.ofReading r)) ∨
      ∀ r a, (commandOf name).2 r ≠ .reduce a := by
  unfold commandOf
  split
  · exact Or.inl rfl
  · refine Or.inr ?_
    intro r a hreduce
    split at hreduce <;> injection hreduce

/-- A reduction is asked for by what was read with its grammar. -/
theorem exists_reading {args : List String} {a : ReduceArguments}
    (h : Invocation.read args = .ok (.reduce a)) :
    ∃ rest r, read reduceGrammar rest = .ok r ∧ a = .ofReading r := by
  unfold Invocation.read at h
  obtain ⟨main, -, h⟩ := Except.bind_eq_ok_iff.mp h
  split at h
  · split at h <;> cases h
  · rename_i name _
    have hcommand := commandOf_cases name
    generalize commandOf name = command at h hcommand
    obtain ⟨grammar, invocation⟩ := command
    obtain ⟨r, hread, h⟩ := Except.bind_eq_ok_iff.mp h
    split at h
    · cases h
    · have hinvocation : invocation r = .reduce a := Except.ok.inj h
      rcases hcommand with hreduce | hother
      · cases hreduce
        cases hinvocation
        exact ⟨main.rest, r, hread, rfl⟩
      · exact absurd hinvocation (hother r a)

/-- The options of a reduction that choose between values have one of them. -/
theorem choices_of_read {args : List String} {a : ReduceArguments}
    (h : Invocation.read args = .ok (.reduce a)) :
    (∀ name, a.safe = some name → name ∈ ["unsafe", "safe", "server", "secure"]) ∧
      ∀ name, a.logLevel = some name → name ∈ ["debug", "info", "warn", "error", "fatal"] := by
  obtain ⟨rest, r, hread, rfl⟩ := exists_reading h
  have hrecorded : Recorded reduceGrammar r := recorded_of_read hread
  constructor
  · intro name hname
    have hlast : r.last? "--safe" = some name := hname
    exact hrecorded.mem_choices hlast (by decide +kernel)
  · intro name hname
    have hlast : r.last? "--log-level" = some name := hname
    exact hrecorded.mem_choices hlast (by decide +kernel)

end DocFlatten.CommandLine
