import DocFlatten.Proofs.Aliasing
import DocFlatten.Proofs.Lenient
import DocFlatten.Proofs.Merging

/-! # Where the settings come from

Two accounts are kept of a configuration: its nested values, which layers are merged into and
overrides assigned to, and the flat listing of where its leaves come from. `Attributed` says that
they agree. Merging a layer and recording its leaves keeps it (`Attributed.layer`), and so does
assigning an override and recording what it sets (`Attributed.override`). In the end every leaf is
listed under the layer or the override that gave it last.
-/

namespace DocFlatten.Config

variable {m : Mapping Value} {sources : Mapping String}

/-! ## Recording keys -/

/-- Two dotted keys of which one lies below the other. -/
def comparable (key key' : String) : Bool :=
  isBelow key key' || isBelow key' key

/-- Being comparable is symmetric. -/
theorem comparable_comm (key key' : String) : comparable key key' = comparable key' key :=
  Bool.or_comm _ _

/-- Keys above a common one are the same or comparable. -/
theorem eq_or_comparable {key a b : String} (ha : isBelow key a = true)
    (hb : isBelow key b = true) : a = b ∨ comparable a b = true := by
  wlog hlength : a.toList.length ≤ b.toList.length generalizing a b
  · rw [comparable_comm, eq_comm]
    exact this hb ha (by omega)
  obtain ⟨resta, hresta⟩ := isBelow_iff.mp ha
  obtain ⟨restb, hrestb⟩ := isBelow_iff.mp hb
  have hpa : a.toList ++ ['.'] <+: key.toList := ⟨resta.toList, by rw [hresta]; simp⟩
  have hpb : b.toList <+: key.toList := ⟨'.' :: restb.toList, by rw [hrestb]; simp⟩
  rcases Nat.lt_or_eq_of_le hlength with hlt | heq
  · obtain ⟨rest, hrest⟩ := List.prefix_of_prefix_length_le hpa hpb (by
      rw [List.length_append]
      exact hlt)
    have hbelow : isBelow b a = true :=
      isBelow_iff.mpr ⟨String.ofList rest, by rw [← String.toList_inj, ← hrest]; simp⟩
    exact Or.inr (by simp [comparable, hbelow])
  · have hleads := List.prefix_of_prefix_length_le ((List.prefix_append _ _).trans hpa) hpb hlength
    exact Or.inl (String.toList_inj.mp (hleads.eq_of_length heq))

/-- A source is recorded under its key, and those of comparable keys are given up. -/
theorem get?_recordSource (sources : Mapping String) (key label k : String) :
    Mapping.get? (recordSource sources key label) k =
      if key = k then some label
      else if comparable k key then none else Mapping.get? sources k := by
  have hfilter : Mapping.get? (sources.filter fun entry => !comparable entry.1 key) k =
      if comparable k key then none else Mapping.get? sources k := by
    induction sources with
    | nil => simp
    | cons entry rest ih =>
      by_cases hk : entry.1 = k <;> by_cases hc : comparable entry.1 key <;>
        grind [Mapping.get?]
  change Mapping.get?
    (Mapping.insert (sources.filter fun entry => !comparable entry.1 key) key label) k = _
  rw [Mapping.get?_insert, hfilter]

/-- Recording a source keeps the keys apart. -/
theorem nodup_recordSource (h : (Mapping.keys sources).Nodup) (key label : String) :
    (Mapping.keys (recordSource sources key label)).Nodup :=
  Mapping.nodup_keys_insert (h.sublist (List.filter_sublist.map _)) key label

/-- Record some keys one after the other. -/
def recordAll (sources : Mapping String) (keys : List String) (label : String) : Mapping String :=
  keys.foldl (fun sources key => recordSource sources key label) sources

/-- Recording sources keeps the keys apart. -/
theorem nodup_recordAll (h : (Mapping.keys sources).Nodup) (keys : List String) (label : String) :
    (Mapping.keys (recordAll sources keys label)).Nodup := by
  induction keys generalizing sources with
  | nil => exact h
  | cons key keys ih => exact ih (nodup_recordSource h key label)

/-- Two keys that are recorded independently. -/
def Apart (key key' : String) : Prop :=
  key ≠ key' ∧ comparable key key' = false

/-- Recording sources under keys that are apart sets each of them, and gives up those that are
comparable to one. -/
theorem get?_recordAll {keys : List String} (h : keys.Pairwise Apart) (sources : Mapping String)
    (label k : String) :
    Mapping.get? (recordAll sources keys label) k =
      if k ∈ keys then some label
      else if keys.any (comparable k) then none else Mapping.get? sources k := by
  induction keys generalizing sources with
  | nil => simp [recordAll]
  | cons key keys ih =>
    obtain ⟨hkey, hkeys⟩ := List.pairwise_cons.mp h
    change Mapping.get? (recordAll (recordSource sources key label) keys label) k = _
    rw [ih hkeys, get?_recordSource]
    by_cases heq : key = k
    · subst heq
      have hnew : key ∉ keys := fun hmem => (hkey key hmem).1 rfl
      have hapart : keys.any (comparable key) = false :=
        List.any_eq_false.mpr fun k hk => by simp [(hkey k hk).2]
      simp [hnew, hapart]
    · simp only [List.mem_cons, Ne.symm heq, heq, if_false, false_or, List.any_cons]
      by_cases hc : comparable k key = true <;> simp [hc]

/-- After recording, a key is a new one or an old one. -/
theorem mem_keys_recordAll {keys : List String} {label key : String}
    (h : key ∈ Mapping.keys (recordAll sources keys label)) :
    key ∈ keys ∨ key ∈ Mapping.keys sources := by
  induction keys generalizing sources with
  | nil => exact Or.inr h
  | cons first keys ih =>
    rcases ih h with hmem | hmem
    · exact Or.inl (List.mem_cons_of_mem _ hmem)
    · rw [← Mapping.isSome_get?, get?_recordSource] at hmem
      by_cases heq : first = key
      · exact Or.inl (by simp [heq])
      · refine Or.inr (Mapping.isSome_get?.mp ?_)
        rw [if_neg heq] at hmem
        split at hmem
        · cases hmem
        · exact hmem

/-- What lies below a key is not touched by recording another one apart from it. -/
theorem any_isBelow_recordSource {key leaf : String} (h : Apart key leaf) (label : String) :
    (Mapping.keys (recordSource sources key label)).any (isBelow · leaf) =
      (Mapping.keys sources).any (isBelow · leaf) := by
  obtain ⟨hne, hapart⟩ := h
  have hapart' : isBelow key leaf = false := by
    unfold comparable at hapart
    exact (Bool.or_eq_false_iff.mp hapart).1
  rw [Bool.eq_iff_iff, List.any_eq_true, List.any_eq_true]
  simp only [← Mapping.isSome_get?, get?_recordSource]
  refine exists_congr fun k => and_congr_left fun hk => ?_
  have hkey : key ≠ k := by
    rintro rfl
    simp [hapart'] at hk
  have hfree : comparable k key = false := by
    by_contra hrelated
    rw [Bool.not_eq_false, comparable, Bool.or_eq_true] at hrelated
    rcases hrelated with hbelow | hbelow
    · rcases eq_or_comparable hbelow hk with heq | hc
      · exact hne heq
      · simp [hapart] at hc
    · simp [isBelow_trans hbelow hk] at hapart'
  rw [if_neg hkey, hfree, if_neg Bool.false_ne_true]

/-- The leaves of a layer that are recorded: an empty mapping is not if anything lies below it. -/
def recorded (sources : Mapping String) (leaves : List (String × Bool)) : List String :=
  (leaves.filter fun leaf => !(leaf.2 && (Mapping.keys sources).any (isBelow · leaf.1))).map (·.1)

/-- A layer is recorded by recording the leaves that count. -/
theorem recordLayer_eq (sources : Mapping String) {layer : Layer}
    (h : ((leafKeys "" layer.data).map (·.1)).Pairwise Apart) :
    recordLayer sources layer =
      recordAll sources (recorded sources (leafKeys "" layer.data)) layer.label := by
  unfold recordLayer
  generalize leafKeys "" layer.data = leaves at h
  induction leaves generalizing sources with
  | nil => rfl
  | cons leaf leaves ih =>
    obtain ⟨hleaf, hleaves⟩ := List.pairwise_cons.mp h
    rw [List.foldl_cons, ih _ hleaves]
    by_cases hskip : (leaf.2 && (Mapping.keys sources).any (isBelow · leaf.1)) = true
    · -- a leaf that is passed over leaves the sources as they are
      rw [if_pos hskip, recorded, recorded, List.filter_cons_of_neg (by simp [hskip])]
    · -- a leaf that counts changes none of those that the others depend on
      have hsame : recorded (recordSource sources leaf.1 layer.label) leaves =
          recorded sources leaves := by
        unfold recorded
        refine congrArg _ (List.filter_congr fun other hother => ?_)
        rw [any_isBelow_recordSource (hleaf other.1 (List.mem_map_of_mem hother))]
      rw [if_neg hskip, hsame]
      have hkept : recorded sources (leaf :: leaves) = leaf.1 :: recorded sources leaves := by
        rw [Bool.not_eq_true] at hskip
        unfold recorded
        rw [List.filter_cons, hskip]
        rfl
      rw [hkept]
      rfl

/-! ## What is given -/

/-- What a layer or an override gives: a value at a path. -/
structure Contribution where
  label : String
  path : List String
  value : Value

namespace Contribution

/-- The leaf that is given at a path. -/
def leaf? (c : Contribution) (path : List String) : Option Value :=
  if c.path <+: path then Config.leaf? (some c.value) (path.drop c.path.length) else none

/-- A contribution gives leaves below its path only. -/
theorem isSome_leaf? {c : Contribution} {path : List String} :
    (c.leaf? path).isSome = true ↔
      ∃ below, path = c.path ++ below ∧ (Config.leaf? (some c.value) below).isSome = true := by
  unfold leaf?
  constructor
  · intro h
    split at h
    · rename_i hleads
      obtain ⟨below, rfl⟩ := hleads
      exact ⟨below, rfl, by simpa using h⟩
    · cases h
  · rintro ⟨below, rfl, hleaf⟩
    simpa using hleaf

end Contribution

/-- The last one that gives a leaf at a path. -/
def lastGiving? (given : List Contribution) (path : List String) : Option Contribution :=
  given.reverse.find? fun c => (c.leaf? path).isSome

/-- Of two contributions that give a path, the later one counts. -/
theorem lastGiving?_append (given : List Contribution) (c : Contribution) (path : List String) :
    lastGiving? (given ++ [c]) path =
      if (c.leaf? path).isSome then some c else lastGiving? given path := by
  unfold lastGiving?
  rw [List.reverse_append, List.reverse_singleton, List.singleton_append, List.find?_cons]
  cases (c.leaf? path).isSome <;> rfl

/-- A configuration and the listing of its sources agree with what was given. -/
structure Attributed (given : List Contribution) (m : Mapping Value) (sources : Mapping String) :
    Prop where
  nodup : (Mapping.keys sources).Nodup
  /-- Dotted keys tell the paths of the leaves apart. -/
  dotless : ∀ path, (leaf? (some (.mapping m)) path).isSome = true →
    ∀ part ∈ path, '.' ∉ part.toList
  leaf : ∀ key ∈ Mapping.keys sources,
    ∃ path ≠ [], (leaf? (some (.mapping m)) path).isSome = true ∧ key = dotted path
  source : ∀ path ≠ [], (leaf? (some (.mapping m)) path).isSome = true →
    ∃ c, lastGiving? given path = some c ∧ Mapping.get? sources (dotted path) = some c.label ∧
      c.leaf? path = leaf? (some (.mapping m)) path

namespace Attributed

variable {given : List Contribution}

/-- Nothing is given to an empty configuration. -/
theorem nil : Attributed [] [] [] where
  nodup := List.nodup_nil
  dotless path h := by
    cases path with
    | nil => simp
    | cons key path => simp [Value.get?_mapping] at h
  leaf key h := absurd h List.not_mem_nil
  source path hne h := by
    obtain ⟨key, path, rfl⟩ := List.exists_cons_of_ne_nil hne
    simp [Value.get?_mapping] at h

/-- The sources list exactly the leaves. -/
theorem mem_keys (h : Attributed given m sources) {key : String} :
    key ∈ Mapping.keys sources ↔
      ∃ path ≠ [], (leaf? (some (.mapping m)) path).isSome = true ∧ key = dotted path := by
  refine ⟨h.leaf key, ?_⟩
  rintro ⟨path, hne, hleaf, rfl⟩
  obtain ⟨c, -, hget, -⟩ := h.source path hne hleaf
  exact Mapping.isSome_get?.mp (by rw [hget]; rfl)

/-- There is a source below a key exactly if there is a leaf below its path. -/
theorem any_isBelow (h : Attributed given m sources) {path : List String} (hne : path ≠ [])
    (hdot : ∀ part ∈ path, '.' ∉ part.toList) :
    (Mapping.keys sources).any (isBelow · (dotted path)) = true ↔
      ∃ below ≠ [], (leaf? (some (.mapping m)) (path ++ below)).isSome = true := by
  rw [List.any_eq_true]
  constructor
  · rintro ⟨key, hkey, hbelow⟩
    obtain ⟨path', hne', hleaf, rfl⟩ := h.leaf key hkey
    obtain ⟨below, hgoes, rfl⟩ := (isBelow_dotted hne' hne (h.dotless _ hleaf) hdot).mp hbelow
    exact ⟨below, hgoes, hleaf⟩
  · rintro ⟨below, hbelow, hleaf⟩
    have hne' : path ++ below ≠ [] := by simp [hne]
    exact ⟨_, h.mem_keys.mpr ⟨_, hne', hleaf, rfl⟩,
      (isBelow_dotted hne' hne (h.dotless _ hleaf) hdot).mpr ⟨below, hbelow, rfl⟩⟩

open scoped Classical in
/-- One more contribution. Leaves and sources change alike: at some paths the contribution is taken
over, some are cleared, all others are kept. -/
theorem step (h : Attributed given m sources) {c : Contribution} {m' : Mapping Value}
    {sources' : Mapping String} (taken cleared : List String → Prop)
    (hdot : ∀ path, (c.leaf? path).isSome = true → ∀ part ∈ path, '.' ∉ part.toList)
    (htaken : ∀ path, taken path → (c.leaf? path).isSome = true)
    (hpassed : ∀ path ≠ [], (c.leaf? path).isSome = true → ¬ taken path → ¬ cleared path →
      leaf? (some (.mapping m)) path = none)
    (hleaf : ∀ path ≠ [], leaf? (some (.mapping m')) path =
      if taken path then c.leaf? path else if cleared path then none
      else leaf? (some (.mapping m)) path)
    (hnodup : (Mapping.keys sources').Nodup)
    (hkeys : ∀ key ∈ Mapping.keys sources', key ∈ Mapping.keys sources ∨
      ∃ path ≠ [], taken path ∧ key = dotted path)
    (hsources : ∀ path ≠ [], (∀ part ∈ path, '.' ∉ part.toList) →
      Mapping.get? sources' (dotted path) =
        if taken path then some c.label else if cleared path then none
        else Mapping.get? sources (dotted path)) :
    Attributed (given ++ [c]) m' sources' := by
  -- a leaf is taken over, or it was there before and stays
  have hcases : ∀ path ≠ [], (leaf? (some (.mapping m')) path).isSome = true →
      taken path ∨
        ¬ taken path ∧ ¬ cleared path ∧ (leaf? (some (.mapping m)) path).isSome = true := by
    intro path hne hsome
    rw [hleaf path hne] at hsome
    by_cases ht : taken path
    · exact Or.inl ht
    · by_cases hc : cleared path
      · simp [ht, hc] at hsome
      · exact Or.inr ⟨ht, hc, by simpa [ht, hc] using hsome⟩
  have hparts : ∀ path ≠ [], (leaf? (some (.mapping m')) path).isSome = true →
      ∀ part ∈ path, '.' ∉ part.toList := by
    intro path hne hsome
    rcases hcases path hne hsome with ht | ⟨-, -, hm⟩
    · exact hdot path (htaken path ht)
    · exact h.dotless path hm
  refine ⟨hnodup, fun path hsome => ?_, fun key hkey => ?_, fun path hne hsome => ?_⟩
  · by_cases hne : path = []
    · simp [hne]
    · exact hparts path hne hsome
  · rcases hkeys key hkey with hold | ⟨path, hne, ht, rfl⟩
    · obtain ⟨path, hne, hm, rfl⟩ := h.leaf key hold
      refine ⟨path, hne, ?_, rfl⟩
      have hget := Mapping.isSome_get?.mpr hkey
      rw [hsources path hne (h.dotless path hm)] at hget
      rw [hleaf path hne]
      by_cases ht : taken path
      · simpa [ht] using htaken path ht
      · by_cases hc : cleared path
        · simp [ht, hc] at hget
        · simpa [ht, hc] using hm
    · exact ⟨path, hne, by rw [hleaf path hne, if_pos ht]; exact htaken path ht, rfl⟩
  · rw [lastGiving?_append, hsources path hne (hparts path hne hsome), hleaf path hne]
    rcases hcases path hne hsome with ht | ⟨ht, hc, hm⟩
    · exact ⟨c, by rw [if_pos (htaken path ht)], by rw [if_pos ht], by rw [if_pos ht]⟩
    · have hnot : (c.leaf? path).isSome ≠ true := fun hgiven => by
        simp [hpassed path hne hgiven ht hc] at hm
      obtain ⟨c', hlast, hlabel, hvalue⟩ := h.source path hne hm
      exact ⟨c', by rw [if_neg hnot, hlast], by rw [if_neg ht, if_neg hc, hlabel],
        by rw [if_neg ht, if_neg hc, hvalue]⟩

end Attributed

/-- Dotted keys are comparable exactly if one of two different paths leads to the other. -/
theorem comparable_dotted {p q : List String} (hp : p ≠ []) (hq : q ≠ [])
    (hpdot : ∀ part ∈ p, '.' ∉ part.toList) (hqdot : ∀ part ∈ q, '.' ∉ part.toList) :
    comparable (dotted p) (dotted q) = true ↔ p ≠ q ∧ Related p q := by
  rw [comparable, Bool.or_eq_true, isBelow_dotted hp hq hpdot hqdot,
    isBelow_dotted hq hp hqdot hpdot]
  constructor
  · rintro (⟨below, hbelow, rfl⟩ | ⟨below, hbelow, rfl⟩)
    · exact ⟨by simpa using hbelow, Or.inr (List.prefix_append _ _)⟩
    · exact ⟨by simpa [eq_comm] using hbelow, Or.inl (List.prefix_append _ _)⟩
  · rintro ⟨hne, ⟨below, rfl⟩ | ⟨below, rfl⟩⟩
    · exact Or.inr ⟨below, by simpa [eq_comm] using hne, rfl⟩
    · exact Or.inl ⟨below, by simpa using hne, rfl⟩

/-- Dotted keys of paths that do not meet are apart. -/
theorem apart_dotted {p q : List String} (hp : p ≠ []) (hq : q ≠ [])
    (hpdot : ∀ part ∈ p, '.' ∉ part.toList) (hqdot : ∀ part ∈ q, '.' ∉ part.toList)
    (h : ¬ Related p q) : Apart (dotted p) (dotted q) := by
  constructor
  · rw [ne_eq, dotted_inj hp hq hpdot hqdot]
    rintro rfl
    exact h (related_self p)
  · rw [← Bool.not_eq_true, comparable_dotted hp hq hpdot hqdot]
    exact fun hc => h hc.2

/-- The leaves of a mapping at a path are recorded independently. -/
theorem pairwise_leafKeys (above : List String) (habove : ∀ part ∈ above, '.' ∉ part.toList)
    {entries : List (String × Value)} (h : Value.PlainEntries entries) :
    ((leafKeys (stem above) entries).map (·.1)).Pairwise Apart := by
  have hpath : ∀ leaf ∈ leafPaths above entries,
      leaf.1 ≠ [] ∧ ∀ part ∈ leaf.1, '.' ∉ part.toList := by
    intro leaf hleaf
    obtain ⟨key, below, w, hw, rfl⟩ := (mem_leafPaths h).mp hleaf
    refine ⟨by simp, List.forall_mem_append.mpr ⟨habove, ?_⟩⟩
    refine parts_of_leaf (v := .mapping entries) (by simpa [Value.Plain] using h) ?_
    rw [leaf?_cons, Option.bind_some, Value.get?_mapping, hw]
    rfl
  rw [leafKeys_eq, List.map_map, List.pairwise_map]
  refine (pairwise_leafPaths above h).imp_of_mem fun ha hb hapart => ?_
  exact apart_dotted (hpath _ ha).1 (hpath _ hb).1 (hpath _ ha).2 (hpath _ hb).2 hapart

/-! ## A further layer -/

/-- What a layer gives: all of its data. -/
def Layer.contribution (layer : Layer) : Contribution :=
  { label := layer.label, path := [], value := .mapping layer.data }

/-- A layer gives the leaves of its data. -/
theorem Layer.leaf?_contribution (layer : Layer) (path : List String) :
    layer.contribution.leaf? path = Config.leaf? (some (.mapping layer.data)) path := by
  simp [Contribution.leaf?, contribution]

/-- The leaves of a layer that the merged configuration has. -/
def Taken (m data : Mapping Value) (path : List String) : Prop :=
  path ≠ [] ∧ Prevails (some (.mapping m)) (some (.mapping data)) path

/-- The paths that the leaves of a layer are in the way of. -/
def Cleared (m data : Mapping Value) (path : List String) : Prop :=
  ∃ q, Taken m data q ∧ Related path q

open scoped Classical in
/-- A leaf of the merged mapping is one of the layer, or one that the layer leaves alone. -/
theorem leaf?_merged (m : Mapping Value) {data : Mapping Value} (h : Value.PlainEntries data)
    {path : List String} (hne : path ≠ []) :
    leaf? (some (.mapping (Value.mergeEntries m data))) path =
      if Taken m data path then leaf? (some (.mapping data)) path
      else if Cleared m data path then none else leaf? (some (.mapping m)) path := by
  have hlaid := leaf?_laid (some (.mapping m)) (some (.mapping data))
    (by simpa [Value.Plain] using h) path
  change leaf? (laid (some (.mapping m)) (some (.mapping data))) path = _
  rw [hlaid]
  by_cases htaken : Taken m data path
  · rw [if_pos htaken, if_pos htaken.2]
  have hnot : ¬ Prevails (some (.mapping m)) (some (.mapping data)) path :=
    fun hprevails => htaken ⟨hne, hprevails⟩
  rw [if_neg htaken, if_neg hnot]
  by_cases hcleared : Cleared m data path
  · obtain ⟨q, hq, hrelated⟩ := id hcleared
    rw [if_pos hcleared, if_pos ⟨q, hq.2, hrelated⟩]
  · rw [if_neg hcleared]
    split
    · -- only the root of an empty layer is left, and it prevails only over nothing
      rename_i hroot
      obtain ⟨q, hq, hrelated⟩ := hroot
      obtain rfl : q = [] := by
        by_contra hq'
        exact hcleared ⟨q, ⟨hq', hq⟩, hrelated⟩
      exact (leaf?_of_prevails_nil hq hne).symm
    · rfl

/-- The parts of a path that a layer takes over have no dots. -/
theorem Taken.dotless {data : Mapping Value} (h : Value.PlainEntries data) {path : List String}
    (htaken : Taken m data path) : ∀ part ∈ path, '.' ∉ part.toList := by
  obtain ⟨-, w, hw, -⟩ := htaken
  exact parts_of_leaf (v := .mapping data) (by simpa [Value.Plain] using h) (by simp [hw])

namespace Attributed

variable {given : List Contribution}

/-- The leaves of a layer that are recorded are those that the merged configuration has. -/
theorem mem_recorded (h : Attributed given m sources) {data : Mapping Value}
    (hplain : Value.PlainEntries data) {key : String} :
    key ∈ recorded sources (leafKeys "" data) ↔ ∃ path, Taken m data path ∧ key = dotted path := by
  have hdot : ∀ path w, leaf? (some (.mapping data)) path = some w →
      ∀ part ∈ path, '.' ∉ part.toList := fun path w hw =>
    parts_of_leaf (v := .mapping data) (by simpa [Value.Plain] using hplain) (by simp [hw])
  -- an empty mapping is recorded unless there is a source below it
  have hrecord : ∀ path ≠ [], ∀ w, leaf? (some (.mapping data)) path = some w →
      (!(w.isEmptyMapping && (Mapping.keys sources).any (isBelow · (dotted path))) ↔
        (w.isEmptyMapping = true →
          ∀ below ≠ [], leaf? (some (.mapping m)) (path ++ below) = none)) := by
    intro path hne w hw
    rw [Bool.not_eq_true', Bool.and_eq_false_imp]
    refine imp_congr_right fun _ => ?_
    rw [← Bool.not_eq_true, h.any_isBelow hne (hdot path w hw)]
    simp
  unfold recorded
  rw [List.mem_map]
  constructor
  · rintro ⟨leaf, hleaf, rfl⟩
    obtain ⟨hlisted, hkept⟩ := List.mem_filter.mp hleaf
    obtain ⟨path, hne, w, hw, rfl⟩ := (mem_leafKeys [] hplain).mp hlisted
    exact ⟨path, ⟨hne, w, hw, (hrecord path hne w hw).mp hkept⟩, rfl⟩
  · rintro ⟨path, ⟨hne, w, hw, hover⟩, rfl⟩
    refine ⟨_, List.mem_filter.mpr ⟨(mem_leafKeys [] hplain).mpr ⟨path, hne, w, hw, rfl⟩,
      (hrecord path hne w hw).mpr hover⟩, rfl⟩

open scoped Classical in
/-- After recording a layer, its leaves have its label, and what they clear has none. -/
theorem get?_recordLayer (h : Attributed given m sources) {layer : Layer}
    (hplain : Value.PlainEntries layer.data) {path : List String} (hne : path ≠ [])
    (hpath : ∀ part ∈ path, '.' ∉ part.toList) :
    Mapping.get? (recordLayer sources layer) (dotted path) =
      if Taken m layer.data path then some layer.label
      else if Cleared m layer.data path then none else Mapping.get? sources (dotted path) := by
  have hpairwise := pairwise_leafKeys [] (by simp) hplain
  have hrecorded : (recorded sources (leafKeys "" layer.data)).Pairwise Apart :=
    hpairwise.sublist (List.filter_sublist.map _)
  rw [recordLayer_eq sources hpairwise, get?_recordAll hrecorded]
  by_cases htaken : Taken m layer.data path
  · -- the leaf is one of the layer
    rw [if_pos htaken, if_pos ((h.mem_recorded hplain).mpr ⟨path, htaken, rfl⟩)]
  have hmem : dotted path ∉ recorded sources (leafKeys "" layer.data) := by
    rw [h.mem_recorded hplain]
    rintro ⟨q, hq, heq⟩
    exact htaken ((dotted_inj hne hq.1 hpath (hq.dotless hplain)).mp heq ▸ hq)
  have hany : (recorded sources (leafKeys "" layer.data)).any (comparable (dotted path)) = true ↔
      Cleared m layer.data path := by
    rw [List.any_eq_true]
    constructor
    · rintro ⟨key, hkey, hc⟩
      obtain ⟨q, hq, rfl⟩ := (h.mem_recorded hplain).mp hkey
      exact ⟨q, hq, ((comparable_dotted hne hq.1 hpath (hq.dotless hplain)).mp hc).2⟩
    · rintro ⟨q, hq, hrelated⟩
      refine ⟨dotted q, (h.mem_recorded hplain).mpr ⟨q, hq, rfl⟩,
        (comparable_dotted hne hq.1 hpath (hq.dotless hplain)).mpr ⟨?_, hrelated⟩⟩
      rintro rfl
      exact htaken hq
  rw [if_neg htaken, if_neg hmem]
  by_cases hcleared : Cleared m layer.data path
  · -- the leaf is one that the layer replaces
    rw [if_pos hcleared, if_pos (hany.mpr hcleared)]
  · -- the leaf has nothing to do with the layer
    rw [if_neg hcleared, if_neg (mt hany.mp hcleared)]

/-- Merging a layer and recording its leaves. -/
theorem layer (h : Attributed given m sources) (layer : Layer)
    (hplain : Value.PlainEntries layer.data) :
    Attributed (given ++ [layer.contribution]) (Value.mergeEntries m layer.data)
      (recordLayer sources layer) := by
  refine h.step (Taken m layer.data) (Cleared m layer.data)
    (fun path hsome => ?_) ?_ ?_ ?_ ?_ ?_ ?_
  · rw [layer.leaf?_contribution] at hsome
    exact parts_of_leaf (v := .mapping layer.data) (by simpa [Value.Plain] using hplain) hsome
  · rintro path ⟨-, w, hw, -⟩
    rw [layer.leaf?_contribution, hw]
    rfl
  · -- what is passed over is an empty mapping over one that has entries
    intro path hne hsome hnot _
    rw [layer.leaf?_contribution] at hsome
    obtain ⟨w, hw⟩ := Option.isSome_iff_exists.mp hsome
    by_contra hm
    obtain ⟨b, hb⟩ := Option.ne_none_iff_exists'.mp hm
    exact hnot ⟨hne, w, hw, fun _ below hbelow => leaf?_below hb hbelow⟩
  · intro path hne
    rw [layer.leaf?_contribution]
    exact leaf?_merged m hplain hne
  · rw [recordLayer_eq sources (pairwise_leafKeys [] (by simp) hplain)]
    exact nodup_recordAll h.nodup _ _
  · intro key hkey
    rw [recordLayer_eq sources (pairwise_leafKeys [] (by simp) hplain)] at hkey
    rcases mem_keys_recordAll hkey with hnew | hold
    · obtain ⟨path, htaken, rfl⟩ := (h.mem_recorded hplain).mp hnew
      exact Or.inr ⟨path, htaken.1, htaken, rfl⟩
    · exact Or.inl hold
  · exact fun path hne hpath => h.get?_recordLayer hplain hne hpath

end Attributed

/-! ## A further override -/

/-- The dotted keys of the leaves below the root of a value at a path. -/
def keysBelow (keys : List String) : Value → List String
  | .mapping entries => (leafKeys (stem keys) entries).map (·.1)
  | _ => []

/-- An override is recorded under its own key and under those below it. -/
theorem overriddenKeys_eq {keys : List String} (hne : keys ≠ []) (v : Value) :
    overriddenKeys (dotted keys) v = dotted keys :: keysBelow keys v := by
  cases v with
  | mapping entries =>
    cases entries with
    | nil => rfl
    | cons entry rest => rw [overriddenKeys, keysBelow, stem_eq hne]
  | _ => rfl

/-- The keys below a path are those of the leaves of the value. -/
theorem mem_keysBelow {keys : List String} {v : Value} (hplain : v.Plain) {key : String} :
    key ∈ keysBelow keys v ↔
      ∃ below ≠ [], (leaf? (some v) below).isSome = true ∧ key = dotted (keys ++ below) := by
  match v, hplain with
  | .mapping entries, hplain =>
    rw [keysBelow, List.mem_map]
    constructor
    · rintro ⟨leaf, hleaf, rfl⟩
      obtain ⟨below, hne, w, hw, rfl⟩ :=
        (mem_leafKeys _ (by simpa [Value.Plain] using hplain)).mp hleaf
      exact ⟨below, hne, by simp [hw], rfl⟩
    · rintro ⟨below, hne, hsome, rfl⟩
      obtain ⟨w, hw⟩ := Option.isSome_iff_exists.mp hsome
      exact ⟨_, (mem_leafKeys _ (by simpa [Value.Plain] using hplain)).mpr ⟨below, hne, w, hw, rfl⟩,
        rfl⟩
  | .null, _ | .bool _, _ | .int _, _ | .float _, _ | .text _, _ | .list _, _ =>
    refine iff_of_false List.not_mem_nil ?_
    rintro ⟨below, hne, hsome, -⟩
    rw [leaf?_of_isLeaf rfl hne] at hsome
    cases hsome

/-- The keys below a path are apart. -/
theorem pairwise_keysBelow {keys : List String} (hkeys : ∀ part ∈ keys, '.' ∉ part.toList)
    {v : Value} (hplain : v.Plain) : (keysBelow keys v).Pairwise Apart := by
  match v, hplain with
  | .mapping entries, hplain => exact pairwise_leafKeys _ hkeys (by simpa [Value.Plain] using hplain)
  | .null, _ | .bool _, _ | .int _, _ | .float _, _ | .text _, _ | .list _, _ =>
    exact List.Pairwise.nil

/-- What meets a path that goes on meets the path. -/
theorem related_of_append {p q below : List String} (h : Related p (q ++ below)) : Related p q := by
  rcases h with h | h
  · exact List.prefix_or_prefix_of_prefix h (List.prefix_append _ _)
  · exact Or.inr ((List.prefix_append _ _).trans h)

section Overridden

variable {keys : List String} {v : Value} {path : List String}

/-- A key is comparable to one below a path exactly if the paths meet and differ. -/
theorem any_comparable_keysBelow (hne : keys ≠ []) (hkeys : ∀ part ∈ keys, '.' ∉ part.toList)
    (hplain : v.Plain) (hpath : path ≠ []) (hdot : ∀ part ∈ path, '.' ∉ part.toList) :
    (keysBelow keys v).any (comparable (dotted path)) = true ↔
      ∃ below ≠ [], (leaf? (some v) below).isSome = true ∧ path ≠ keys ++ below ∧
        Related path (keys ++ below) := by
  have hiff : ∀ {below}, (leaf? (some v) below).isSome = true →
      (comparable (dotted path) (dotted (keys ++ below)) = true ↔
        path ≠ keys ++ below ∧ Related path (keys ++ below)) := fun hleaf =>
    comparable_dotted hpath (by simp [hne]) hdot
      (List.forall_mem_append.mpr ⟨hkeys, parts_of_leaf hplain hleaf⟩)
  rw [List.any_eq_true]
  constructor
  · rintro ⟨key, hkey, hc⟩
    obtain ⟨below, hbelow, hleaf, rfl⟩ := (mem_keysBelow hplain).mp hkey
    exact ⟨below, hbelow, hleaf, (hiff hleaf).mp hc⟩
  · rintro ⟨below, hbelow, hleaf, hrelated⟩
    exact ⟨_, (mem_keysBelow hplain).mpr ⟨below, hbelow, hleaf, rfl⟩, (hiff hleaf).mpr hrelated⟩

/-- The key of an override is recorded first, and dropped with the first leaf below it. -/
theorem get?_recordOverridden_self (sources : Mapping String) (hne : keys ≠ [])
    (hkeys : ∀ part ∈ keys, '.' ∉ part.toList) (hplain : v.Plain) (label : String) :
    Mapping.get? (recordAll sources (overriddenKeys (dotted keys) v) label) (dotted keys) =
      if v.isLeaf then some label else none := by
  have hany := any_comparable_keysBelow hne hkeys hplain hne hkeys
  have hmem : dotted keys ∉ keysBelow keys v := by
    rw [mem_keysBelow hplain]
    rintro ⟨below, hbelow, hleaf, heq⟩
    have hdot := List.forall_mem_append.mpr ⟨hkeys, parts_of_leaf hplain hleaf⟩
    exact hbelow (by simpa using (dotted_inj hne (by simp [hne]) hkeys hdot).mp heq)
  rw [overriddenKeys_eq hne]
  change Mapping.get?
    (recordAll (recordSource sources (dotted keys) label) (keysBelow keys v) label) _ = _
  rw [get?_recordAll (pairwise_keysBelow hkeys hplain), get?_recordSource, if_neg hmem]
  by_cases hleaf : v.isLeaf = true
  · -- the value is a leaf, which keeps its source
    have hnone : ¬ (keysBelow keys v).any (comparable (dotted keys)) = true := by
      rw [hany]
      rintro ⟨below, hbelow, hsome, -⟩
      simp [leaf?_of_isLeaf hleaf hbelow] at hsome
    rw [if_neg hnone, if_pos rfl, if_pos hleaf]
  · -- the leaves of the value give up the source of their path
    obtain ⟨below, hbelow, hsome⟩ := exists_leaf_below (Bool.not_eq_true _ ▸ hleaf)
    have hdropped : (keysBelow keys v).any (comparable (dotted keys)) = true :=
      hany.mpr ⟨below, hbelow, hsome, by simpa using hbelow, Or.inl (List.prefix_append _ _)⟩
    rw [if_neg hleaf, if_pos hdropped]

open scoped Classical in
/-- Elsewhere an override gives the leaves of its value its label, and gives up the sources of what
they replace. -/
theorem get?_recordOverridden_of_ne (sources : Mapping String) (hne : keys ≠ [])
    (hkeys : ∀ part ∈ keys, '.' ∉ part.toList) (hplain : v.Plain) (label : String)
    (hpath : path ≠ []) (hdot : ∀ part ∈ path, '.' ∉ part.toList) (hother : path ≠ keys) :
    Mapping.get? (recordAll sources (overriddenKeys (dotted keys) v) label) (dotted path) =
      if ∃ below, path = keys ++ below ∧ (leaf? (some v) below).isSome = true then some label
      else if Related path keys then none else Mapping.get? sources (dotted path) := by
  have hany := any_comparable_keysBelow hne hkeys hplain hpath hdot
  have hmem : dotted path ∈ keysBelow keys v ↔
      ∃ below, path = keys ++ below ∧ (leaf? (some v) below).isSome = true := by
    rw [mem_keysBelow hplain]
    constructor
    · rintro ⟨below, -, hleaf, heq⟩
      have hdot' := List.forall_mem_append.mpr ⟨hkeys, parts_of_leaf hplain hleaf⟩
      exact ⟨below, (dotted_inj hpath (by simp [hne]) hdot hdot').mp heq, hleaf⟩
    · rintro ⟨below, rfl, hleaf⟩
      exact ⟨below, by simpa using hother, hleaf, rfl⟩
  rw [overriddenKeys_eq hne]
  change Mapping.get?
    (recordAll (recordSource sources (dotted keys) label) (keysBelow keys v) label) _ = _
  -- the keys below are recorded after the key itself, so they decide first
  rw [get?_recordAll (pairwise_keysBelow hkeys hplain), get?_recordSource]
  by_cases hgiven : ∃ below, path = keys ++ below ∧ (leaf? (some v) below).isSome = true
  · rw [if_pos (hmem.mpr hgiven), if_pos hgiven]
  rw [if_neg (mt hmem.mp hgiven), if_neg hgiven]
  have hkey : dotted keys ≠ dotted path := fun heq =>
    hother ((dotted_inj hne hpath hkeys hdot).mp heq).symm
  have hcomparable : comparable (dotted path) (dotted keys) = true ↔ Related path keys := by
    rw [comparable_dotted hpath hne hdot hkeys]
    exact and_iff_right hother
  rw [if_neg hkey]
  by_cases hrelated : Related path keys
  · rw [if_pos hrelated, if_pos (hcomparable.mpr hrelated), ite_self]
  · have hnone : ¬ (keysBelow keys v).any (comparable (dotted path)) = true := by
      rw [hany]
      rintro ⟨below, -, -, -, hbelow⟩
      exact hrelated (related_of_append hbelow)
    rw [if_neg hnone, if_neg hrelated, if_neg (mt hcomparable.mp hrelated)]

open scoped Classical in
/-- What is recorded of an override are the leaves of its value. -/
theorem get?_recordOverridden (sources : Mapping String) (hne : keys ≠ [])
    (hkeys : ∀ part ∈ keys, '.' ∉ part.toList) (hplain : v.Plain) (label : String)
    (hpath : path ≠ []) (hdot : ∀ part ∈ path, '.' ∉ part.toList) :
    Mapping.get? (recordAll sources (overriddenKeys (dotted keys) v) label) (dotted path) =
      if ∃ below, path = keys ++ below ∧ (leaf? (some v) below).isSome = true then some label
      else if Related path keys then none else Mapping.get? sources (dotted path) := by
  by_cases hother : path = keys
  · subst hother
    rw [get?_recordOverridden_self sources hne hkeys hplain]
    by_cases hleaf : v.isLeaf = true
    · rw [if_pos hleaf, if_pos ⟨[], by simp, by simp [Option.filter, hleaf]⟩]
    · have hnone : ¬ ∃ below, path = path ++ below ∧ (leaf? (some v) below).isSome = true := by
        rintro ⟨below, heq, hsome⟩
        obtain rfl : below = [] := by simpa using heq
        simp [Option.filter, hleaf] at hsome
      rw [if_neg hleaf, if_neg hnone, if_pos (related_self path)]
  · exact get?_recordOverridden_of_ne sources hne hkeys hplain label hpath hdot hother

end Overridden

/-- Assigning an override and recording what it sets. -/
theorem Attributed.override {given : List Contribution} (h : Attributed given m sources)
    {path : List String} (hpath : path ≠ []) (hdot : ∀ part ∈ path, '.' ∉ part.toList) {v : Value}
    (hplain : v.Plain) {keys : List String} {m' : Mapping Value}
    (hassign : assign? m path v = some (keys, m')) (label : String) :
    Attributed (given ++ [{ label, path := keys, value := v }]) m'
      (recordAll sources (overriddenKeys (dotted keys) v) label) := by
  have hne := keys_ne_nil hpath hassign
  have hkeys := keys_dotless hdot h.dotless hassign
  refine h.step
    (fun p => ∃ below, p = keys ++ below ∧ (leaf? (some v) below).isSome = true)
    (Related · keys) ?_ ?_ ?_ ?_ ?_ ?_ ?_
  · intro p hsome
    obtain ⟨below, rfl, hleaf⟩ := Contribution.isSome_leaf?.mp hsome
    exact List.forall_mem_append.mpr ⟨hkeys, parts_of_leaf hplain hleaf⟩
  · exact fun p htaken => Contribution.isSome_leaf?.mpr htaken
  · exact fun p _ hsome hnot => absurd (Contribution.isSome_leaf?.mp hsome) hnot
  · intro p _
    rw [leaf?_assign? hpath hassign]
    by_cases htaken : ∃ below, p = keys ++ below ∧ (leaf? (some v) below).isSome = true
    · have hleads : keys <+: p := by
        obtain ⟨below, rfl, -⟩ := htaken
        exact List.prefix_append _ _
      rw [if_pos htaken, if_pos hleads, Contribution.leaf?, if_pos hleads]
    · rw [if_neg htaken]
      by_cases hleads : keys <+: p
      · -- the place of the override, but no leaf of its value
        obtain ⟨below, rfl⟩ := hleads
        have hnone : leaf? (some v) below = none := by
          rw [← Option.not_isSome_iff_eq_none]
          exact fun hsome => htaken ⟨below, rfl, hsome⟩
        rw [if_pos (List.prefix_append _ _), List.drop_left, hnone,
          if_pos (related_of_append (related_self _))]
      · rw [if_neg hleads]
  · exact nodup_recordAll h.nodup _ _
  · intro key hkey
    rcases mem_keys_recordAll hkey with hnew | hold
    · rw [overriddenKeys_eq hne] at hnew
      rcases List.mem_cons.mp hnew with rfl | hbelow
      · have hself := get?_recordOverridden_self sources hne hkeys hplain label
        rw [← Mapping.isSome_get?, hself] at hkey
        have hleaf : v.isLeaf = true := by
          by_contra hleaf
          simp [hleaf] at hkey
        exact Or.inr ⟨keys, hne, ⟨[], by simp, by simp [Option.filter, hleaf]⟩, rfl⟩
      · obtain ⟨below, -, hleaf, rfl⟩ := (mem_keysBelow hplain).mp hbelow
        exact Or.inr ⟨keys ++ below, by simp [hne], ⟨below, rfl, hleaf⟩, rfl⟩
    · exact Or.inl hold
  · exact fun p hp hpdot => get?_recordOverridden sources hne hkeys hplain label hp hpdot

/-! ## The whole configuration -/

/-- What the data files in a directory give, each under a label that tells its name. -/
def Site.fileContributions (site : Site) (directory : String) (label : String → String) :
    Except Error (List Contribution) :=
  match dataFiles site.files directory with
  | .error e => .error (.system e)
  | .ok files => files.mapM fun file => do
    let (data, _) ← loadMapping site.libraries.parse site.files (Path.join directory file.1)
    return { label := label file.1, path := [], value := .mapping data }

/-- What overrides give to a configuration in which mappings may be shared. A variable is read when its
turn has come, and its path is matched against the configuration so far. -/
def overrideContributions : Sharing → Mapping Value → List (String × String) →
    Except Error (List Contribution)
  | _, _, [] => .ok []
  | shared, m, (name, text) :: rest => do
    match ← overrideOf false name text with
    | none => overrideContributions shared m rest
    | some o =>
      let (keys, m, shared) ← assignShared shared m o.path o.value
      return { label := "env:ADOC_REDUCER_" ++ name, path := keys, value := o.value } ::
        (← overrideContributions shared m rest)

/-- What the data files of a site give, lowest first: those that are bundled, those of the project, and
those of the project that are kept to oneself. -/
def Site.layerContributions (site : Site) : Except Error (List Contribution) := do
  let project := Path.join site.root ".adoc-reducer"
  let bundled ← site.fileContributions (Path.join site.dataDir "config") fun _ => "default"
  let shared ← site.fileContributions (Path.join project "config") ("project:" ++ ·)
  let own ← site.fileContributions (Path.join project "config.local") ("local:" ++ ·)
  return bundled ++ shared ++ own

/-- All that is given to the configuration of a site: what its data files give, then what the variables
do, in the order of their names. -/
def Site.contributions (site : Site) : Except Error (List Contribution) := do
  let layers ← site.layers
  return (← site.layerContributions) ++
    (← overrideContributions (sharedOf layers) (mergeLayers layers) site.overriding)

/-- Files of a directory that are loaded as layers give what the layers hold. -/
theorem fileContributions_of_layers {site : Site} {directory : String} (label : String → String)
    {files : List (String × Nat)} (hfiles : dataFiles site.files directory = .ok files)
    {layers : List Layer}
    (hlayers : (files.map fun file => (label file.1, Path.join directory file.1)).mapM
      site.loadLayer = .ok layers) :
    site.fileContributions directory label = .ok (layers.map Layer.contribution) := by
  unfold Site.fileContributions
  rw [hfiles]
  dsimp only
  clear hfiles
  induction files generalizing layers with
  | nil =>
    cases hlayers
    rfl
  | cons file rest ih =>
    rw [List.map_cons, List.mapM_cons] at hlayers
    obtain ⟨layer, hlayer, hlayers⟩ := Except.bind_eq_ok_iff.mp hlayers
    obtain ⟨others, hothers, hlayers⟩ := Except.bind_eq_ok_iff.mp hlayers
    cases hlayers
    obtain ⟨⟨data, shared⟩, hdata, hlayer⟩ := Except.bind_eq_ok_iff.mp hlayer
    cases hlayer
    rw [List.mapM_cons, ih hothers]
    dsimp only at hdata
    rw [hdata]
    rfl

/-- The layers of a site give what its data files hold. -/
theorem layerContributions_of_layers {site : Site} {layers : List Layer}
    (h : site.layers = .ok layers) :
    site.layerContributions = .ok (layers.map Layer.contribution) := by
  obtain ⟨files, hfiles, hlayers⟩ := Except.bind_eq_ok_iff.mp h
  unfold Site.layerFiles at hfiles
  cases hbundled : dataFiles site.files (Path.join site.dataDir "config") with
  | error e => simp [hbundled, bind, Except.bind] at hfiles
  | ok bundled =>
    cases hproject : dataFiles site.files (site.projectDir "config") with
    | error e => simp [hbundled, hproject, bind, Except.bind] at hfiles
    | ok project =>
      cases hown : dataFiles site.files (site.projectDir "config.local") with
      | error e => simp [hbundled, hproject, hown, bind, Except.bind] at hfiles
      | ok own =>
        simp only [hbundled, hproject, hown, bind, Except.bind, pure, Except.pure,
          Except.ok.injEq] at hfiles
        subst hfiles
        rw [List.mapM_append, List.mapM_append] at hlayers
        obtain ⟨first, hfirst, hlayers⟩ := Except.bind_eq_ok_iff.mp hlayers
        obtain ⟨last, hlast, hlayers⟩ := Except.bind_eq_ok_iff.mp hlayers
        cases hlayers
        obtain ⟨lowest, hlowest, hfirst⟩ := Except.bind_eq_ok_iff.mp hfirst
        obtain ⟨middle, hmiddle, hfirst⟩ := Except.bind_eq_ok_iff.mp hfirst
        cases hfirst
        have hlow := fileContributions_of_layers (fun _ => "default") hbundled hlowest
        have hmid := fileContributions_of_layers ("project:" ++ ·) hproject hmiddle
        have htop := fileContributions_of_layers ("local:" ++ ·) hown hlast
        unfold Site.projectDir at hmid htop
        unfold Site.layerContributions
        simp only [hlow, hmid, htop, bind, Except.bind, pure, Except.pure, List.map_append]

/-- Recording layers goes along with merging them. -/
theorem attributed_layers {given : List Contribution} (h : Attributed given m sources)
    {layers : List Layer} (hplain : ∀ layer ∈ layers, Value.PlainEntries layer.data) :
    Attributed (given ++ layers.map Layer.contribution)
      (layers.foldl (fun m layer => Value.mergeEntries m layer.data) m)
      (layers.foldl recordLayer sources) := by
  induction layers generalizing given m sources with
  | nil => simpa using h
  | cons layer layers ih =>
    obtain ⟨hlayer, hlayers⟩ := List.forall_mem_cons.mp hplain
    have hrest := ih (h.layer layer hlayer) hlayers
    rwa [List.append_assoc, List.singleton_append] at hrest

/-- An override is named by its variable, and spells a path. -/
theorem name_and_path {name text : String} {o : Override}
    (h : overrideOf false name text = .ok (some o)) : o.name = name ∧ o.path ≠ [] := by
  unfold overrideOf at h
  cases hpath : variablePath false name with
  | error e => simp [hpath, bind, Except.bind] at h
  | ok path =>
    cases path with
    | nil => simp [hpath, bind, Except.bind, pure, Except.pure] at h
    | cons part rest =>
      cases hvalue : coerce text with
      | error e => cases e <;> simp [hpath, hvalue, bind, Except.bind] at h
      | ok v =>
        simp only [hpath, hvalue, bind, Except.bind, pure, Except.pure, Except.ok.injEq,
          Option.some.injEq] at h
        rw [← h]
        simp

/-- Overrides that can be applied give something. -/
theorem exists_overrideContributions {shared : Sharing} {named : List (String × String)}
    {m' : Mapping Value} (happly : (applyOverrides false shared m named).value = .ok m') :
    ∃ given, overrideContributions shared m named = .ok given := by
  induction named generalizing shared m with
  | nil => exact ⟨[], rfl⟩
  | cons entry named ih =>
    obtain ⟨name, text⟩ := entry
    unfold overrideContributions
    cases hoverride : overrideOf false name text with
    | error e => simp [applyOverrides, hoverride] at happly
    | ok found =>
      cases found with
      | none =>
        simp only [applyOverrides, hoverride] at happly
        exact ih happly
      | some o =>
        cases hassign : assignShared shared m o.path o.value with
        | error e => simp [applyOverrides, hoverride, hassign] at happly
        | ok result =>
          simp only [applyOverrides, hoverride, hassign] at happly
          obtain ⟨given, hgiven⟩ := ih happly
          exact ⟨_, by simp [hassign, hgiven, bind, Except.bind, pure, Except.pure]; rfl⟩

/-- Applying overrides goes along with recording them, if none leads into a mapping that stands at several
places. -/
theorem attributed_overrides {given given' : List Contribution} (h : Attributed given m sources)
    {shared : Sharing} {named : List (String × String)}
    (hplain : ∀ entry ∈ named, ∀ o, overrideOf false entry.1 entry.2 = .ok (some o) →
      (∀ part ∈ o.path, '.' ∉ part.toList) ∧ o.value.Plain)
    {m' : Mapping Value} (happly : (applyOverrides false shared m named).value = .ok m')
    (hgiven : overrideContributions shared m named = .ok given')
    (hclear : ∀ c ∈ given', shared.Clear (c.path.map .key)) :
    ∃ recorded, recordOverrides ⟨m, shared, sources⟩ named = .ok recorded ∧
      Attributed (given ++ given') m' recorded.sources := by
  induction named generalizing given given' shared m sources with
  -- nothing is left to apply
  | nil =>
    obtain rfl := Except.ok.inj happly
    obtain rfl := Except.ok.inj hgiven
    exact ⟨⟨m, shared, sources⟩, rfl, by simpa using h⟩
  | cons entry named ih =>
    obtain ⟨name, text⟩ := entry
    obtain ⟨hentry, hrest⟩ := List.forall_mem_cons.mp hplain
    unfold overrideContributions at hgiven
    obtain ⟨found, hoverride, hgiven⟩ := Except.bind_eq_ok_iff.mp hgiven
    cases found with
    -- the variable is not one that overrides
    | none =>
      simp only [applyOverrides, hoverride] at happly
      obtain ⟨recorded, hrecord, hattributed⟩ := ih h hrest happly hgiven hclear
      exact ⟨recorded, by simpa [recordOverrides, hoverride, bind, Except.bind] using hrecord,
        hattributed⟩
    -- the variable gives a value to a path
    | some o =>
      obtain ⟨⟨keys, m₁, shared'⟩, hassign, hgiven⟩ := Except.bind_eq_ok_iff.mp hgiven
      obtain ⟨others, hothers, hgiven⟩ := Except.bind_eq_ok_iff.mp hgiven
      obtain rfl := Except.ok.inj hgiven
      obtain ⟨hfirst, hlater⟩ := List.forall_mem_cons.mp hclear
      simp only [applyOverrides, hoverride, hassign] at happly
      obtain ⟨hplain, rfl⟩ := assign?_of_clear hassign hfirst
      obtain ⟨hdot, hvalue⟩ := hentry o hoverride
      obtain ⟨hname, hpath⟩ := name_and_path hoverride
      -- the rest is applied to one contribution more
      have hnext := h.override hpath hdot hvalue hplain
        ("env:ADOC_REDUCER_" ++ name)
      obtain ⟨recorded, hrecord, hattributed⟩ :=
        ih hnext hrest happly hothers fun c hc => (hlater c hc).without _
      refine ⟨recorded, ?_, by simpa using hattributed⟩
      have hlabel : "env:" ++ variableStart ++ name = "env:ADOC_REDUCER_" ++ name := rfl
      simpa [recordOverrides, recordOverride, recordAll, dotted, hoverride, hassign, hname, hlabel,
        bind, Except.bind, pure, Except.pure] using hrecord

/-- The data that a configuration is read from: mappings without repeated keys, and no dots in
keys and in the paths of variables. No variable leads into a mapping that stands at several places. -/
structure Site.Plain (site : Site) : Prop where
  layers : ∀ layers, site.layers = .ok layers → ∀ layer ∈ layers, Value.PlainEntries layer.data
  overrides : ∀ entry ∈ site.overriding, ∀ o, overrideOf false entry.1 entry.2 = .ok (some o) →
    (∀ part ∈ o.path, '.' ∉ part.toList) ∧ o.value.Plain
  clear : ∀ layers given, site.layers = .ok layers →
    overrideContributions (sharedOf layers) (mergeLayers layers) site.overriding = .ok given →
    ∀ c ∈ given, (sharedOf layers).Clear (c.path.map .key)

/-- The sources of a loaded configuration are exactly the dotted keys of its leaves. Each of them is
found under its key, and its source is the last layer or variable that gives a leaf at its path;
the value is the one that was given there. -/
theorem sources_exact {site : Site} (hplain : site.Plain) {m : Mapping Value}
    (hload : (site.load false []).value = .ok m) :
    ∃ sources given, site.sources = .ok sources ∧ site.contributions = .ok given ∧
      (Mapping.keys sources).Nodup ∧
      (∀ key, key ∈ Mapping.keys sources ↔
        ∃ path ≠ [], (leaf? (some (.mapping m)) path).isSome = true ∧ key = dotted path) ∧
      ∀ path ≠ [], ∀ v, leaf? (some (.mapping m)) path = some v →
        lookup? m (dotted path) = some v ∧
        ∃ c, lastGiving? given path = some c ∧ c.leaf? path = some v ∧
          Mapping.get? sources (dotted path) = some c.label := by
  -- an empty cache has no configuration, so this one was made of the site
  have hdirect : (site.loadDirectly false).value = .ok m := by
    have hcached : (site.loadCached false []).value = .ok m := by
      unfold Site.load at hload
      cases hvalue : (site.loadCached false []).value with
      | error e => simp [hvalue] at hload
      | ok m' => simpa [hvalue] using hload
    rcases site.loadCached_nil_value false with hsame | ⟨cause, -, hrefused, -⟩
    · rw [← hsame, hcached]
    · cases hcached.symm.trans hrefused
  unfold Site.loadDirectly at hdirect
  cases hlayers : site.layers with
  | error e => simp [hlayers] at hdirect
  | ok layers =>
    have happly : (applyOverrides false (sharedOf layers) (mergeLayers layers)
        site.overriding).value = .ok m := by
      rw [hlayers] at hdirect
      cases hvalue : (applyOverrides false (sharedOf layers) (mergeLayers layers)
          site.overriding).value with
      | error e => simp [hvalue] at hdirect
      | ok m' => simpa [hvalue] using hdirect
    have hmerged : Attributed (layers.map Layer.contribution) (mergeLayers layers)
        (layers.foldl recordLayer []) :=
      attributed_layers Attributed.nil (hplain.layers layers hlayers)
    obtain ⟨given, hgiven⟩ := exists_overrideContributions happly
    obtain ⟨recorded, hrecord, h⟩ := attributed_overrides hmerged hplain.overrides happly hgiven
      (hplain.clear layers given hlayers hgiven)
    refine ⟨recorded.sources, layers.map Layer.contribution ++ given, ?_, ?_, h.nodup,
      fun key => h.mem_keys, fun path hne v hv => ?_⟩
    · simp only [Site.sources, hlayers, hrecord, bind, Except.bind, pure, Except.pure]
    · simp only [Site.contributions, hlayers, layerContributions_of_layers hlayers, hgiven, bind,
        Except.bind, pure, Except.pure]
    · have hsome : (leaf? (some (.mapping m)) path).isSome = true := by simp [hv]
      obtain ⟨c, hlast, hlabel, hvalue⟩ := h.source path hne hsome
      rw [hv] at hvalue
      obtain ⟨hfollow, -⟩ := Option.filter_eq_some_iff.mp hv
      exact ⟨by rw [lookup?_dotted m hne (h.dotless path hsome)]; simpa using hfollow,
        c, hlast, hvalue, hlabel⟩

/-- A data file at its place holds the mapping that is loaded from it. -/
theorem loadMapping_of_file {parse : Parser} {files : FileTree} {path : String} (place : List String)
    (stamp : Nat) {data : Mapping Value} (htidy : Path.tidy path = path)
    (hzero : path.toList.contains '\x00' = false) (hplace : files.locate path = .ok place)
    (hnode : files.node? place = some (.file (.data (.mapping data)) stamp)) :
    loadMapping parse files path = .ok (data, []) := by
  have hcontent : files.content path = .ok (.data (.mapping data)) := by
    simp only [FileTree.content, hplace, hnode]
  have hexists : files.existsAt path = .ok true := by
    simp only [FileTree.existsAt, FileTree.stat, hzero, hplace, hnode]
    rfl
  have hread : readData parse files path = .ok { value := .mapping data } := by
    unfold readData
    simp only [htidy, hexists, hcontent]
    rfl
  unfold loadMapping readDataOr
  rw [hread]

/-- A site with a bundled file, a file of the project, one that is kept to oneself and a variable. -/
def layered : Site where
  files :=
    { workingDir := []
      entries := [(["d"], .directory), (["d", "config"], .directory),
        (["d", "config", "base.yaml"],
          .file (.data (.mapping [("a", .mapping [("b", .int 1), ("d", .int 2)])])) 0),
        (["r"], .directory), (["r", ".adoc-reducer"], .directory),
        (["r", ".adoc-reducer", "config"], .directory),
        (["r", ".adoc-reducer", "config", "own.yaml"],
          .file (.data (.mapping [("a", .mapping [("c", .mapping [])])])) 1),
        (["r", ".adoc-reducer", "config.local"], .directory),
        (["r", ".adoc-reducer", "config.local", "mine.yaml"],
          .file (.data (.mapping [("x", .bool true)])) 2)]
      clock := 3 }
  environment := [("ADOC_REDUCER_A__B", "true")]
  dataDir := "/d"
  root := "/r"

/-- The layers of the files, lowest first. -/
def threeLayers : List Layer :=
  [{ label := "default", data := [("a", .mapping [("b", .int 1), ("d", .int 2)])] },
    { label := "project:own.yaml", data := [("a", .mapping [("c", .mapping [])])] },
    { label := "local:mine.yaml", data := [("x", .bool true)] }]

/-- The configuration that they make together with the variable. -/
def layeredMapping : Mapping Value :=
  [("a", .mapping [("b", .bool true), ("d", .int 2), ("c", .mapping [])]), ("x", .bool true)]

theorem layered_layers : layered.layers = .ok threeLayers := by
  have hfiles : layered.layerFiles.toOption = some [("default", "/d/config/base.yaml"),
      ("project:own.yaml", "/r/.adoc-reducer/config/own.yaml"),
      ("local:mine.yaml", "/r/.adoc-reducer/config.local/mine.yaml")] := by decide +kernel
  have hlayer : ∀ label path place stamp data, Path.tidy path = path →
      path.toList.contains '\x00' = false → layered.files.locate path = .ok place →
      layered.files.node? place = some (.file (.data (.mapping data)) stamp) →
      layered.loadLayer (label, path) = .ok { label, data } := by
    intro label path place stamp data htidy hzero hplace hnode
    unfold Site.loadLayer
    rw [loadMapping_of_file place stamp htidy hzero hplace hnode]
    rfl
  have hbase := hlayer "default" "/d/config/base.yaml" ["d", "config", "base.yaml"] 0
    [("a", .mapping [("b", .int 1), ("d", .int 2)])] (by decide +kernel) (by decide +kernel)
    (by decide +kernel) rfl
  have hown := hlayer "project:own.yaml" "/r/.adoc-reducer/config/own.yaml"
    ["r", ".adoc-reducer", "config", "own.yaml"] 1 [("a", .mapping [("c", .mapping [])])]
    (by decide +kernel) (by decide +kernel) (by decide +kernel) rfl
  have hmine := hlayer "local:mine.yaml" "/r/.adoc-reducer/config.local/mine.yaml"
    ["r", ".adoc-reducer", "config.local", "mine.yaml"] 2 [("x", .bool true)]
    (by decide +kernel) (by decide +kernel) (by decide +kernel) rfl
  unfold Site.layers
  rw [eq_ok_of_mem_toOption hfiles]
  simp only [bind, Except.bind, List.mapM_cons, List.mapM_nil, hbase, hown, hmine]
  rfl

theorem layered_overriding : layered.overriding = [("A__B", "true")] := by decide +kernel

theorem layered_override : overrideOf false "A__B" "true" =
    .ok (some { name := "A__B", path := ["a", "b"], value := .bool true }) := by
  rfl

theorem layered_assign : assignShared (sharedOf threeLayers) (mergeLayers threeLayers) ["a", "b"]
    (.bool true) = .ok (["a", "b"], layeredMapping, []) := by
  rfl

/-- What is given to the configuration. -/
theorem layered_contributions : layered.contributions = .ok (threeLayers.map Layer.contribution ++
    [{ label := "env:ADOC_REDUCER_A__B", path := ["a", "b"], value := .bool true }]) := by
  have hlayers := layerContributions_of_layers layered_layers
  simp only [Site.contributions, layered_layers, hlayers, layered_overriding, overrideContributions,
    layered_override, layered_assign, bind, Except.bind, pure, Except.pure]
  rfl

theorem layered_plain : layered.Plain where
  layers layers h := by
    obtain rfl := Except.ok.inj (layered_layers.symm.trans h)
    simp [threeLayers, Value.PlainEntries, Value.Plain, Mapping.keys]
  overrides entry hentry o ho := by
    rw [layered_overriding] at hentry
    obtain rfl := List.mem_singleton.mp hentry
    obtain rfl := Option.some.inj (Except.ok.inj (layered_override.symm.trans ho))
    simp [Value.Plain]
  clear layers given h _ _ _ := by
    obtain rfl := Except.ok.inj (layered_layers.symm.trans h)
    exact Sharing.clear_nil _

theorem layered_load : (layered.load false []).value = .ok layeredMapping := by
  have hdirect : (layered.loadDirectly false).value = .ok layeredMapping := by
    simp only [Site.loadDirectly, layered_layers, layered_overriding, applyOverrides,
      layered_override, layered_assign]
    rfl
  rcases layered.loadCached_nil_value false with hsame | ⟨_, _, _, hrefused⟩
  · rw [hdirect] at hsame
    simp [Site.load, hsame]
  · cases hdirect.symm.trans hrefused

/-- Each leaf has the label of the file or the variable that gave it last. -/
theorem sources_exact_layered :
    ∃ sources, layered.sources = .ok sources ∧
      Mapping.get? sources "a.b" = some "env:ADOC_REDUCER_A__B" ∧
      Mapping.get? sources "a.c" = some "project:own.yaml" ∧
      Mapping.get? sources "a.d" = some "default" ∧
      Mapping.get? sources "x" = some "local:mine.yaml" ∧
      lookup? layeredMapping "a.b" = some (.bool true) := by
  obtain ⟨sources, given, hsources, hgiven, -, -, hleaf⟩ := sources_exact layered_plain layered_load
  cases layered_contributions.symm.trans hgiven
  have hlabel : ∀ path v, path ≠ [] → leaf? (some (.mapping layeredMapping)) path = some v →
      Mapping.get? sources (dotted path) =
        (lastGiving? (threeLayers.map Layer.contribution ++
          [{ label := "env:ADOC_REDUCER_A__B", path := ["a", "b"], value := .bool true }])
          path).map Contribution.label := by
    intro path v hne hv
    obtain ⟨-, c, hlast, -, hsource⟩ := hleaf path hne v hv
    rw [hlast, hsource]
    rfl
  refine ⟨sources, hsources, hlabel ["a", "b"] (.bool true) (by simp) rfl,
    hlabel ["a", "c"] (.mapping []) (by simp) rfl, hlabel ["a", "d"] (.int 2) (by simp) rfl,
    hlabel ["x"] (.bool true) (by simp) rfl, ?_⟩
  exact (hleaf ["a", "b"] (by simp) (.bool true) rfl).1

/-- A site whose data file puts one mapping at two places, with a variable that leads into it. -/
def sharing : Site where
  files :=
    { workingDir := []
      entries := [(["r"], .directory), (["r", ".adoc-reducer"], .directory),
        (["r", ".adoc-reducer", "config"], .directory),
        (["r", ".adoc-reducer", "config", "a.yaml"],
          .file (.text "\x7b\"x\": &s \x7b\"k\": 1\x7d, \"y\": *s\x7d") 0)]
      clock := 1 }
  environment := [("ADOC_REDUCER_X__NEW", "5")]
  dataDir := "/d"
  root := "/r"

/-- The variable makes a leaf at both places, and the sources list only one of them. -/
theorem sources_miss_shared :
    ∃ m ∈ (sharing.load false []).value.toOption, ∃ sources ∈ sharing.sources.toOption,
      (leaf? (some (.mapping m)) ["y", "new"]).isSome = true ∧
      "x.new" ∈ Mapping.keys sources ∧ dotted ["y", "new"] ∉ Mapping.keys sources := by
  decide +kernel

end DocFlatten.Config
