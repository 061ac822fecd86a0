import DocFlatten.Config.Cache
import DocFlatten.Proofs.Reopening

/-! # Leaves of a configuration

A leaf of a configuration is a value at the end of a path: anything but a mapping that has entries.
Its dotted key joins the parts of the path. As long as no part has a dot, the key determines the
path (`dotted_inj`), and one key lies below another exactly if its path extends the other one
(`isBelow_dotted`); so the flat listing of leaves by dotted keys says as much as the nested values
do (`mem_leafKeys`).
-/

namespace DocFlatten

open DocFlatten.Text

namespace Mapping

/-- A key has a value exactly if it is one of the keys. -/
theorem isSome_get? {α : Type} {m : Mapping α} {key : String} :
    (get? m key).isSome = true ↔ key ∈ keys m := by
  induction m with
  | nil => simp [keys]
  | cons entry rest ih =>
    unfold keys at ih ⊢
    rw [List.map_cons, List.mem_cons, ← ih]
    by_cases h : entry.1 = key <;> grind [get?]

theorem get?_of_not_mem {α : Type} {m : Mapping α} {key : String} (h : key ∉ keys m) :
    get? m key = none := by
  rwa [← isSome_get?, Option.not_isSome_iff_eq_none] at h

end Mapping

namespace Value

theorem get?_mapping (entries : List (String × Value)) (key : String) :
    (mapping entries).get? key = Mapping.get? entries key := rfl

/-- Whether a value is a leaf: anything but a mapping that has entries. -/
def isLeaf : Value → Bool
  | mapping (_ :: _) => false
  | _ => true

/-- Whether a value is a mapping without entries. -/
def isEmptyMapping : Value → Bool
  | mapping [] => true
  | _ => false

mutual

/-- No mapping in a value has a key twice or a key with a dot. -/
def Plain : Value → Prop
  | mapping entries => PlainEntries entries
  | _ => True

/-- Entries whose keys are different and have no dots, with values of the same kind. -/
def PlainEntries : List (String × Value) → Prop
  | [] => True
  | (key, v) :: rest =>
    '.' ∉ key.toList ∧ key ∉ Mapping.keys rest ∧ Plain v ∧ PlainEntries rest

end

/-- The values of plain entries are plain. -/
theorem PlainEntries.get? {entries : List (String × Value)} (h : PlainEntries entries)
    {key : String} {v : Value} (hget : Mapping.get? entries key = some v) :
    '.' ∉ key.toList ∧ v.Plain := by
  induction entries with
  | nil => cases hget
  | cons entry rest ih =>
    obtain ⟨k, w⟩ := entry
    obtain ⟨hdot, -, hv, hrest⟩ := h
    unfold Mapping.get? at hget
    split at hget
    · rename_i heq
      obtain rfl := heq
      obtain rfl := Option.some.inj hget
      exact ⟨hdot, hv⟩
    · exact ih hrest hget

end Value

namespace Config

/-! ## Leaves -/

/-- The leaf at the end of a path. -/
def leaf? (v : Option Value) (path : List String) : Option Value :=
  (v.bind (follow? · path)).filter Value.isLeaf

@[simp] theorem leaf?_none (path : List String) : leaf? none path = none := rfl

@[simp] theorem leaf?_nil (v : Option Value) : leaf? v [] = v.filter Value.isLeaf := by
  cases v <;> rfl

@[simp] theorem leaf?_cons (v : Option Value) (key : String) (path : List String) :
    leaf? v (key :: path) = leaf? (v.bind (·.get? key)) path := by
  cases v <;> rfl

/-- A path can be followed in two parts. -/
theorem follow?_append (v : Value) (path below : List String) :
    follow? v (path ++ below) = (follow? v path).bind (follow? · below) := by
  induction path generalizing v with
  | nil => rfl
  | cons key path ih =>
    rw [List.cons_append]
    simp only [follow?]
    cases v.get? key with
    | none => rfl
    | some w => exact ih w

/-- A leaf below a path is a leaf of what is there. -/
theorem leaf?_append (v : Option Value) (path below : List String) :
    leaf? v (path ++ below) = leaf? (v.bind (follow? · path)) below := by
  cases v with
  | none => rfl
  | some v => simp [leaf?, follow?_append]

/-- There is nothing below a leaf. -/
theorem get?_of_isLeaf {v : Value} (h : v.isLeaf = true) (key : String) : v.get? key = none := by
  match v with
  | .mapping [] => rfl
  | .mapping (_ :: _) => cases h
  | .null | .bool _ | .int _ | .float _ | .text _ | .list _ => rfl

/-- There is nothing below a leaf. -/
theorem leaf?_of_isLeaf {v : Value} (h : v.isLeaf = true) {path : List String} (hne : path ≠ []) :
    leaf? (some v) path = none := by
  obtain ⟨key, path, rfl⟩ := List.exists_cons_of_ne_nil hne
  rw [leaf?_cons, Option.bind_some, get?_of_isLeaf h, leaf?_none]

/-- The only leaf at or below a leaf is itself. -/
theorem leaf?_eq_some_of_isLeaf {v : Value} (h : v.isLeaf = true) {path : List String} {w : Value} :
    leaf? (some v) path = some w ↔ path = [] ∧ v = w := by
  by_cases hne : path = []
  · subst hne
    simp [Option.filter, h]
  · simp [leaf?_of_isLeaf h hne, hne]

/-- No leaf lies below another one. -/
theorem leaf?_below {v : Option Value} {path below : List String} {leaf : Value}
    (h : leaf? v path = some leaf) (hne : below ≠ []) : leaf? v (path ++ below) = none := by
  obtain ⟨hat, hleaf⟩ := Option.filter_eq_some_iff.mp h
  rw [leaf?_append, hat]
  exact leaf?_of_isLeaf hleaf hne

/-- Every value has a leaf. -/
theorem exists_leaf (v : Value) : ∃ path, (leaf? (some v) path).isSome = true := by
  match v with
  | .mapping ((key, w) :: rest) =>
    obtain ⟨path, hpath⟩ := exists_leaf w
    exact ⟨key :: path, by simpa [Value.get?, Mapping.get?] using hpath⟩
  | .mapping [] | .null | .bool _ | .int _ | .float _ | .text _ | .list _ => exact ⟨[], rfl⟩

/-- A mapping that has entries has a leaf below its root. -/
theorem exists_leaf_below {v : Value} (h : v.isLeaf = false) :
    ∃ path ≠ [], (leaf? (some v) path).isSome = true := by
  obtain ⟨path, hpath⟩ := exists_leaf v
  refine ⟨path, ?_, hpath⟩
  rintro rfl
  simp [h] at hpath

/-- The parts of a path to a leaf have no dots if no key has. -/
theorem parts_of_leaf {v : Value} (hplain : v.Plain) {path : List String}
    (h : (leaf? (some v) path).isSome = true) : ∀ part ∈ path, '.' ∉ part.toList := by
  induction path generalizing v with
  | nil => simp
  | cons key path ih =>
    rw [leaf?_cons, Option.bind_some] at h
    match v, hplain with
    | .mapping entries, hplain =>
      change (leaf? (Mapping.get? entries key) path).isSome = true at h
      cases hget : Mapping.get? entries key with
      | none => simp [hget] at h
      | some w =>
        rw [hget] at h
        have hkey := Value.PlainEntries.get? (by simpa [Value.Plain] using hplain) hget
        exact List.forall_mem_cons.mpr ⟨hkey.1, ih hkey.2 h⟩
    | .null, _ | .bool _, _ | .int _, _ | .float _, _ | .text _, _ | .list _, _ =>
      simp [Value.get?] at h

/-! ## Dotted keys -/

/-- The dotted key of a path. -/
def dotted (path : List String) : String :=
  ".".intercalate path

/-- Parts that each end in a dot, as they stand in front of a further part. -/
def stem (path : List String) : String :=
  String.join (path.map (· ++ "."))

/-- The name of a path has its parts between dots. -/
theorem toList_dotted (path : List String) :
    (dotted path).toList = ['.'].intercalate (path.map String.toList) := by
  rw [dotted, String.toList_intercalate]
  rfl

/-- The dotted key of a path that goes on. -/
theorem dotted_append {p q : List String} (hp : p ≠ []) (hq : q ≠ []) :
    dotted (p ++ q) = dotted p ++ "." ++ dotted q :=
  String.intercalate_append_of_ne_nil hp hq

theorem dotted_append_singleton (above : List String) (key : String) :
    dotted (above ++ [key]) = stem above ++ key := by
  induction above with
  | nil => simp [dotted, stem]
  | cons first above ih =>
    rw [List.cons_append, dotted, String.intercalate_cons_of_ne_nil (by simp)]
    change first ++ "." ++ dotted (above ++ [key]) = _
    rw [ih]
    simp [stem, String.append_assoc]

theorem stem_append_singleton (above : List String) (key : String) :
    stem (above ++ [key]) = stem above ++ key ++ "." := by
  simp [stem, String.append_assoc]

/-- A dotted key splits into the parts of its path. -/
theorem splitAt_dotted {path : List String} (hne : path ≠ [])
    (h : ∀ part ∈ path, '.' ∉ part.toList) : splitAt (· == '.') (dotted path) = path := by
  have hparts : ∀ piece ∈ path.map String.toList, '.' ∉ piece := by simpa using h
  have hsplit := List.splitOn_intercalate '.' hparts (by simpa using hne)
  rw [List.splitOn_eq_splitOnP] at hsplit
  unfold splitAt
  rw [splitWhere_eq, toList_dotted]
  change (List.splitOnP (· == '.') _).map String.ofList = _
  rw [hsplit]
  simp

/-- Paths without dots in their parts have different names. -/
theorem dotted_inj {p q : List String} (hp : p ≠ []) (hq : q ≠ [])
    (hpdot : ∀ part ∈ p, '.' ∉ part.toList) (hqdot : ∀ part ∈ q, '.' ∉ part.toList) :
    dotted p = dotted q ↔ p = q := by
  refine ⟨fun h => ?_, fun h => by rw [h]⟩
  rw [← splitAt_dotted hp hpdot, h, splitAt_dotted hq hqdot]

/-- A value is found under the dotted key of its path. -/
theorem lookup?_dotted (m : Mapping Value) {path : List String} (hne : path ≠ [])
    (h : ∀ part ∈ path, '.' ∉ part.toList) :
    lookup? m (dotted path) = follow? (.mapping m) path := by
  rw [lookup?, splitAt_dotted hne h]

/-- Every text is the dotted key of the parts it splits into. -/
theorem exists_dotted (key : String) :
    ∃ path ≠ [], (∀ part ∈ path, '.' ∉ part.toList) ∧ key = dotted path := by
  refine ⟨splitAt (· == '.') key, ?_, ?_, ?_⟩
  · unfold splitAt
    rw [splitWhere_eq]
    simp
  · intro part hpart hdot
    obtain ⟨piece, hpiece, rfl⟩ := List.mem_map.mp hpart
    rw [String.toList_ofList] at hdot
    simpa using not_mem_splitWhere hpiece '.' hdot
  · have hjoin : ['.'].intercalate (List.splitOn '.' key.toList) = key.toList :=
      List.intercalate_splitOn '.'
    rw [List.splitOn_eq_splitOnP] at hjoin
    rw [← String.toList_inj, toList_dotted]
    unfold splitAt
    rw [splitWhere_eq, List.map_map]
    simpa [Function.comp_def] using hjoin.symm

/-- Two paths of which one goes on where the other one ends. -/
def Related (p q : List String) : Prop :=
  p <+: q ∨ q <+: p

@[simp] theorem related_self (p : List String) : Related p p :=
  Or.inl (List.prefix_refl _)

@[simp] theorem related_nil (p : List String) : Related p [] :=
  Or.inr List.nil_prefix

@[simp] theorem nil_related (p : List String) : Related [] p :=
  Or.inl List.nil_prefix

/-- Paths with the same first key are related if the rest is. -/
@[simp] theorem related_cons {key key' : String} {p q : List String} :
    Related (key :: p) (key' :: q) ↔ key = key' ∧ Related p q := by
  unfold Related
  rw [List.cons_prefix_cons, List.cons_prefix_cons]
  grind

/-- A name lies below another one if it goes on behind a dot. -/
theorem isBelow_iff {key above : String} :
    isBelow key above = true ↔ ∃ rest, key = above ++ "." ++ rest := by
  unfold isBelow
  rw [String.startsWith_string_iff]
  constructor
  · rintro ⟨rest, hrest⟩
    refine ⟨String.ofList rest, ?_⟩
    rw [← String.toList_inj, ← hrest]
    simp
  · rintro ⟨rest, rfl⟩
    exact ⟨rest.toList, (String.toList_append ..).symm⟩

/-- What lies below something below lies below it too. -/
theorem isBelow_trans {a b c : String} (hab : isBelow a b = true) (hbc : isBelow b c = true) :
    isBelow a c = true := by
  obtain ⟨rest, rfl⟩ := isBelow_iff.mp hab
  obtain ⟨rest', rfl⟩ := isBelow_iff.mp hbc
  exact isBelow_iff.mpr ⟨rest' ++ "." ++ rest, by simp only [String.append_assoc]⟩

/-- One dotted key lies below another one exactly if its path goes on from the other one's. -/
theorem isBelow_dotted {p q : List String} (hp : p ≠ []) (hq : q ≠ [])
    (hpdot : ∀ part ∈ p, '.' ∉ part.toList) (hqdot : ∀ part ∈ q, '.' ∉ part.toList) :
    isBelow (dotted p) (dotted q) = true ↔ ∃ below ≠ [], p = q ++ below := by
  rw [isBelow_iff]
  constructor
  · rintro ⟨rest, hrest⟩
    obtain ⟨below, hbelow, hdot, rfl⟩ := exists_dotted rest
    rw [← dotted_append hq hbelow] at hrest
    refine ⟨below, hbelow, (dotted_inj hp (by simp [hq]) hpdot ?_).mp hrest⟩
    exact List.forall_mem_append.mpr ⟨hqdot, hdot⟩
  · rintro ⟨below, hbelow, rfl⟩
    exact ⟨dotted below, dotted_append hq hbelow⟩

/-! ## The listing of leaves -/

mutual

/-- The paths of the leaves below a value at a path, each with whether it is an empty mapping. -/
def leafPathsOf (above : List String) : Value → List (List String × Bool)
  | .mapping [] => [(above, true)]
  | .mapping entries => leafPaths above entries
  | _ => [(above, false)]

/-- The paths of the leaves of a mapping at a path. -/
def leafPaths (above : List String) : List (String × Value) → List (List String × Bool)
  | [] => []
  | (key, v) :: rest => leafPathsOf (above ++ [key]) v ++ leafPaths above rest

end

mutual

/-- The leaves that are listed by name are those that are listed by path. -/
theorem leavesOf_eq (above : List String) (key : String) (v : Value) :
    leavesOf (stem above ++ key) v =
      (leafPathsOf (above ++ [key]) v).map fun leaf => (dotted leaf.1, leaf.2) := by
  match v with
  | .mapping (entry :: rest) =>
    rw [leavesOf, leafPathsOf, ← stem_append_singleton]
    · exact leafKeys_eq (above ++ [key]) (entry :: rest)
    · simp
    · simp
  | .mapping [] | .null | .bool _ | .int _ | .float _ | .text _ | .list _ =>
    simp [leavesOf, leafPathsOf, dotted_append_singleton]

/-- The leaves of a mapping are listed by the dotted keys of their paths. -/
theorem leafKeys_eq (above : List String) (entries : List (String × Value)) :
    leafKeys (stem above) entries =
      (leafPaths above entries).map fun leaf => (dotted leaf.1, leaf.2) := by
  match entries with
  | [] => rfl
  | (key, v) :: rest =>
    rw [leafKeys, leafPaths, List.map_append, leavesOf_eq above key v, leafKeys_eq above rest]

end

mutual

/-- The paths of leaves go on from where the value stands. -/
theorem prefix_of_mem_leafPathsOf {above : List String} {v : Value} {leaf : List String × Bool}
    (h : leaf ∈ leafPathsOf above v) : above <+: leaf.1 := by
  match v with
  | .mapping (entry :: rest) =>
    have hlisted : leaf ∈ leafPaths above (entry :: rest) := h
    obtain ⟨key, -, hkey⟩ := prefix_of_mem_leafPaths hlisted
    exact (List.prefix_append _ _).trans hkey
  | .mapping [] | .null | .bool _ | .int _ | .float _ | .text _ | .list _ =>
    simp [List.mem_singleton.mp h]

theorem prefix_of_mem_leafPaths {above : List String} {entries : List (String × Value)}
    {leaf : List String × Bool} (h : leaf ∈ leafPaths above entries) :
    ∃ key ∈ Mapping.keys entries, above ++ [key] <+: leaf.1 := by
  match entries with
  | [] => cases h
  | (key, v) :: rest =>
    rcases List.mem_append.mp h with hfirst | hrest
    · exact ⟨key, List.mem_cons_self, prefix_of_mem_leafPathsOf hfirst⟩
    · obtain ⟨key', hkey', hprefix⟩ := prefix_of_mem_leafPaths hrest
      exact ⟨key', List.mem_cons_of_mem _ hkey', hprefix⟩

end

/-- The leaves of a mapping lead apart. -/
theorem not_related_of_keys {above p q : List String} {key key' : String} (hne : key ≠ key')
    (hp : above ++ [key] <+: p) (hq : above ++ [key'] <+: q) : ¬ Related p q := by
  -- both would lead through the longer path, so they have the same key
  have hsame : ∀ {path : List String}, above ++ [key] <+: path → ¬ above ++ [key'] <+: path := by
    intro path h h'
    have heq := (List.prefix_of_prefix_length_le h h' (by simp)).eq_of_length (by simp)
    exact hne (by simpa using heq)
  rintro (h | h)
  · exact hsame (hp.trans h) hq
  · exact hsame hp (hq.trans h)

mutual

/-- No two leaves are related. -/
theorem pairwise_leafPathsOf (above : List String) {v : Value} (h : v.Plain) :
    (leafPathsOf above v).Pairwise fun a b => ¬ Related a.1 b.1 := by
  match v, h with
  | .mapping (entry :: rest), h =>
    have hplain : Value.PlainEntries (entry :: rest) := by simpa [Value.Plain] using h
    exact pairwise_leafPaths above hplain
  | .mapping [], _ | .null, _ | .bool _, _ | .int _, _ | .float _, _ | .text _, _ | .list _, _ =>
    exact List.pairwise_singleton _ _

/-- No listed leaf of a mapping lies below another one, or is listed twice. -/
theorem pairwise_leafPaths (above : List String) {entries : List (String × Value)}
    (h : Value.PlainEntries entries) :
    (leafPaths above entries).Pairwise fun a b => ¬ Related a.1 b.1 := by
  match entries, h with
  | [], _ => exact List.Pairwise.nil
  | (key, v) :: rest, h =>
    obtain ⟨-, hkey, hv, hrest⟩ := h
    refine List.pairwise_append.mpr
      ⟨pairwise_leafPathsOf _ hv, pairwise_leafPaths above hrest, fun a ha b hb => ?_⟩
    obtain ⟨key', hkey', hprefix⟩ := prefix_of_mem_leafPaths hb
    refine not_related_of_keys ?_ (prefix_of_mem_leafPathsOf ha) hprefix
    rintro rfl
    exact hkey hkey'

end

/-- A leaf has itself as its only leaf. -/
theorem leafPathsOf_of_isLeaf {above : List String} {v : Value} (h : v.isLeaf = true) :
    leafPathsOf above v = [(above, v.isEmptyMapping)] := by
  match v with
  | .mapping (_ :: _) => cases h
  | .mapping [] | .null | .bool _ | .int _ | .float _ | .text _ | .list _ => rfl

theorem mem_leafPathsOf_of_isLeaf {above : List String} {v : Value} (h : v.isLeaf = true)
    {leaf : List String × Bool} :
    leaf ∈ leafPathsOf above v ↔
      ∃ below w, leaf? (some v) below = some w ∧ leaf = (above ++ below, w.isEmptyMapping) := by
  rw [leafPathsOf_of_isLeaf h, List.mem_singleton]
  simp only [leaf?_eq_some_of_isLeaf h]
  simp

mutual

/-- The paths listed are those that lead to leaves. -/
theorem mem_leafPathsOf {above : List String} {v : Value} (h : v.Plain)
    {leaf : List String × Bool} :
    leaf ∈ leafPathsOf above v ↔
      ∃ below w, leaf? (some v) below = some w ∧ leaf = (above ++ below, w.isEmptyMapping) := by
  match v, h with
  | .mapping (entry :: rest), h =>
    rw [leafPathsOf, mem_leafPaths (by simpa [Value.Plain] using h)]
    constructor
    · rintro ⟨key, below, w, hw, rfl⟩
      exact ⟨key :: below, w, by simpa [Value.get?] using hw, rfl⟩
    · rintro ⟨below, w, hw, rfl⟩
      cases below with
      | nil => simp [Option.filter, Value.isLeaf] at hw
      | cons key below => exact ⟨key, below, w, by simpa [Value.get?] using hw, rfl⟩
    · simp
  | .mapping [], _ | .null, _ | .bool _, _ | .int _, _ | .float _, _ | .text _, _ | .list _, _ =>
    exact mem_leafPathsOf_of_isLeaf rfl

/-- So are those below entries. -/
theorem mem_leafPaths {above : List String} {entries : List (String × Value)}
    (h : Value.PlainEntries entries) {leaf : List String × Bool} :
    leaf ∈ leafPaths above entries ↔
      ∃ key below w, leaf? (Mapping.get? entries key) below = some w ∧
        leaf = (above ++ key :: below, w.isEmptyMapping) := by
  match entries, h with
  | [], _ => simp [leafPaths]
  | (key, v) :: rest, h =>
    obtain ⟨-, hkey, hv, hrest⟩ := h
    rw [leafPaths, List.mem_append, mem_leafPathsOf hv, mem_leafPaths hrest]
    constructor
    · rintro (⟨below, w, hw, rfl⟩ | ⟨key', below, w, hw, rfl⟩)
      · -- a leaf of the first entry
        exact ⟨key, below, w, by simpa [Mapping.get?] using hw, by simp⟩
      · -- a leaf of another entry, whose key is a different one
        refine ⟨key', below, w, ?_, rfl⟩
        have hne : key ≠ key' := by
          rintro rfl
          rw [Mapping.get?_of_not_mem hkey, leaf?_none] at hw
          cases hw
        rwa [Mapping.get?, if_neg hne]
    · rintro ⟨key', below, w, hw, rfl⟩
      by_cases heq : key = key'
      · -- the path starts with the first key
        obtain rfl := heq
        exact Or.inl ⟨below, w, by simpa [Mapping.get?] using hw, by simp⟩
      · -- it starts with another one
        rw [Mapping.get?, if_neg heq] at hw
        exact Or.inr ⟨key', below, w, hw, rfl⟩

end

/-- The listing of a mapping at a path has exactly the leaves of the mapping. -/
theorem mem_leafKeys (above : List String) {entries : List (String × Value)}
    (h : Value.PlainEntries entries) {leaf : String × Bool} :
    leaf ∈ leafKeys (stem above) entries ↔
      ∃ below ≠ [], ∃ w, leaf? (some (.mapping entries)) below = some w ∧
        leaf = (dotted (above ++ below), w.isEmptyMapping) := by
  rw [leafKeys_eq, List.mem_map]
  constructor
  · rintro ⟨listed, hlisted, rfl⟩
    obtain ⟨key, below, w, hw, rfl⟩ := (mem_leafPaths h).mp hlisted
    exact ⟨key :: below, by simp, w, by simpa [Value.get?_mapping] using hw, rfl⟩
  · rintro ⟨_ | ⟨key, below⟩, hne, w, hw, rfl⟩
    · exact absurd rfl hne
    · have hkey : leaf? (Mapping.get? entries key) below = some w := by
        simpa [Value.get?_mapping] using hw
      exact ⟨_, (mem_leafPaths h).mpr ⟨key, below, w, hkey, rfl⟩, rfl⟩

/-- The stem of a path is its name with a dot. -/
theorem stem_eq {path : List String} (hne : path ≠ []) : stem path = dotted path ++ "." := by
  obtain ⟨above, key, rfl⟩ := (List.eq_nil_or_concat' path).resolve_left hne
  rw [stem_append_singleton, dotted_append_singleton]

end Config

end DocFlatten
