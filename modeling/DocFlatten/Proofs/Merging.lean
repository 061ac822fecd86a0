import DocFlatten.Proofs.Leaves

/-! # Leaves of a changed configuration

What merging a layer into a configuration and assigning an override to it do to its leaves. Either
way the new value takes some paths (`Prevails`, or the place of the assignment), clears the paths
that lead through their ends, and leaves all others alone (`leaf?_laid`, `leaf?_assign?`).
-/

namespace DocFlatten.Config

variable {m : Mapping Value}

/-! ## Merging a layer -/

/-- What comes of laying a value over another one, either of which may be missing. -/
def laid (before v : Option Value) : Option Value :=
  match v with
  | some v => some (Value.mergeOver before v)
  | none => before

/-- What is laid over nothing is there alone. -/
theorem mergeOver_none (v : Value) : Value.mergeOver none v = v := by
  cases v <;> simp [Value.mergeOver]

/-- Laid over a mapping, entries change the values of their keys. -/
theorem get?_mergeEntries (base : Mapping Value) {entries : List (String × Value)}
    (h : Value.PlainEntries entries) (key : String) :
    Mapping.get? (Value.mergeEntries base entries) key =
      laid (Mapping.get? base key) (Mapping.get? entries key) := by
  induction entries generalizing base with
  | nil => simp [Value.mergeEntries, laid]
  | cons entry rest ih =>
    obtain ⟨k, v⟩ := entry
    obtain ⟨-, hkey, -, hrest⟩ := h
    rw [Value.mergeEntries, ih _ hrest, Mapping.get?_insert]
    by_cases hk : k = key
    · subst hk
      rw [Mapping.get?_of_not_mem hkey]
      simp [laid, Mapping.get?]
    · simp [hk, Mapping.get?]

/-- Under each key of a mapping that has entries, merging lays value over value. -/
theorem get?_laid (before : Option Value) {entry : String × Value}
    {rest : List (String × Value)} (h : Value.PlainEntries (entry :: rest)) (key : String) :
    (laid before (some (.mapping (entry :: rest)))).bind (·.get? key) =
      laid (before.bind (·.get? key)) (Mapping.get? (entry :: rest) key) := by
  match before with
  | some (.mapping base) =>
    change Mapping.get? (Value.mergeEntries base (entry :: rest)) key = _
    exact get?_mergeEntries base h key
  | none | some .null | some (.bool _) | some (.int _) | some (.float _) | some (.text _)
  | some (.list _) =>
    change Mapping.get? (entry :: rest) key = laid none _
    cases Mapping.get? (entry :: rest) key with
    | none => rfl
    | some v => rw [laid, mergeOver_none]

/-- Whether a leaf of what is laid over a value is one of the result: an empty mapping is not if
there is any leaf below its place. -/
def Prevails (before v : Option Value) (path : List String) : Prop :=
  ∃ w, leaf? v path = some w ∧
    (w.isEmptyMapping = true → ∀ below ≠ [], leaf? before (path ++ below) = none)

/-- Below a key, what prevails is decided by the values there. -/
theorem prevails_cons {before v : Option Value} {key : String} {path : List String} :
    Prevails before v (key :: path) ↔
      Prevails (before.bind (·.get? key)) (v.bind (·.get? key)) path := by
  simp [Prevails]

/-- What prevails at the root of a mapping is nothing, over nothing. -/
theorem leaf?_of_prevails_nil {before : Option Value} {entries : List (String × Value)}
    (h : Prevails before (some (.mapping entries)) []) {path : List String} (hne : path ≠ []) :
    leaf? before path = none := by
  obtain ⟨w, hw, hbelow⟩ := h
  cases entries with
  | nil =>
    obtain rfl := Option.some.inj hw
    exact hbelow rfl path hne
  | cons entry rest => simp [Option.filter, Value.isLeaf] at hw

/-- An empty mapping prevails at its place only over what has nothing below. -/
theorem laid_empty {before : Option Value} (h : ∀ below ≠ [], leaf? before below = none) :
    laid before (some (.mapping [])) = some (.mapping []) := by
  match before with
  | some (.mapping (entry :: rest)) =>
    obtain ⟨below, hbelow, hleaf⟩ := exists_leaf_below (v := .mapping (entry :: rest)) rfl
    simp [h below hbelow] at hleaf
  | some (.mapping []) | none | some .null | some (.bool _) | some (.int _) | some (.float _)
  | some (.text _) | some (.list _) => simp [laid, Value.mergeOver, Value.mergeEntries]

/-- Over what has something below, an empty mapping changes nothing. -/
theorem laid_empty_over {before : Option Value} {below : List String} (hne : below ≠ [])
    (h : leaf? before below ≠ none) : laid before (some (.mapping [])) = before := by
  match before with
  | some (.mapping base) => simp [laid, Value.mergeOver, Value.mergeEntries]
  | none => exact absurd (leaf?_none below) h
  | some .null | some (.bool _) | some (.int _) | some (.float _) | some (.text _)
  | some (.list _) => exact absurd (leaf?_of_isLeaf rfl hne) h

/-- A leaf prevails everywhere. -/
theorem prevails_of_isLeaf {before : Option Value} {w : Value} (h : w.isLeaf = true)
    {path : List String} :
    Prevails before (some w) path ↔
      path = [] ∧ (w.isEmptyMapping = true → ∀ below ≠ [], leaf? before below = none) := by
  simp only [Prevails, leaf?_eq_some_of_isLeaf h]
  constructor
  · rintro ⟨_, ⟨rfl, rfl⟩, hbelow⟩
    exact ⟨rfl, hbelow⟩
  · rintro ⟨rfl, hbelow⟩
    exact ⟨w, ⟨rfl, rfl⟩, hbelow⟩

/-- The only empty mapping is the one without entries. -/
theorem eq_of_isEmptyMapping {w : Value} (h : w.isEmptyMapping = true) : w = .mapping [] := by
  match w with
  | .mapping [] => rfl
  | .mapping (_ :: _) | .null | .bool _ | .int _ | .float _ | .text _ | .list _ => cases h

/-- A leaf that prevails is all there is. -/
theorem laid_of_prevails {before : Option Value} {w : Value} (h : w.isLeaf = true)
    (hprevails : w.isEmptyMapping = true → ∀ below ≠ [], leaf? before below = none) :
    laid before (some w) = some w := by
  by_cases hempty : w.isEmptyMapping = true
  · obtain rfl := eq_of_isEmptyMapping hempty
    exact laid_empty (hprevails hempty)
  · match w with
    | .mapping (_ :: _) => cases h
    | .mapping [] => exact absurd rfl hempty
    | .null | .bool _ | .int _ | .float _ | .text _ | .list _ => simp [laid, Value.mergeOver]

open scoped Classical in
/-- A leaf that is laid over something replaces it. -/
theorem leaf?_laid_of_isLeaf (before : Option Value) {w : Value} (h : w.isLeaf = true)
    (path : List String) :
    leaf? (laid before (some w)) path =
      if Prevails before (some w) path then leaf? (some w) path
      else if ∃ q, Prevails before (some w) q ∧ Related path q then none
      else leaf? before path := by
  simp only [prevails_of_isLeaf h]
  by_cases hprevails : w.isEmptyMapping = true → ∀ below ≠ [], leaf? before below = none
  · rw [laid_of_prevails h hprevails]
    by_cases hpath : path = []
    · rw [if_pos ⟨hpath, hprevails⟩]
    · rw [if_neg (by simp [hpath]), if_pos ⟨[], ⟨rfl, hprevails⟩, related_nil _⟩]
      exact leaf?_of_isLeaf h hpath
  · rw [if_neg (by simp [hprevails]), if_neg (by simp [hprevails])]
    push Not at hprevails
    obtain ⟨hempty, below, hbelow, hleaf⟩ := hprevails
    rw [eq_of_isEmptyMapping hempty, laid_empty_over hbelow hleaf]

/-- Something prevails of a mapping that has entries, if it is laid over nothing but a leaf. -/
theorem exists_prevails {before : Option Value} (entry : String × Value)
    (rest : List (String × Value)) (hbefore : ∀ below ≠ [], leaf? before below = none) :
    ∃ q, Prevails before (some (.mapping (entry :: rest))) q := by
  obtain ⟨path, hpath, hleaf⟩ := exists_leaf_below (v := .mapping (entry :: rest)) rfl
  obtain ⟨w, hw⟩ := Option.isSome_iff_exists.mp hleaf
  exact ⟨path, w, hw, fun _ below _ => hbefore _ (by simp [hpath])⟩

/-- A mapping that has entries stays one whatever it is laid over. -/
theorem laid_ne_leaf (before : Option Value) {entry : String × Value}
    {rest : List (String × Value)} (h : Value.PlainEntries (entry :: rest)) :
    leaf? (laid before (some (.mapping (entry :: rest)))) [] = none := by
  have hget := get?_laid before h entry.1
  rw [leaf?_nil, laid, Option.filter_eq_none_iff]
  rintro v hv hleaf
  rw [laid, hv, Option.bind_some, get?_of_isLeaf hleaf] at hget
  simp [Mapping.get?, laid] at hget

open scoped Classical in
/-- The leaves of a result of merging: those that prevail, and those of the value below that are
not in their way. -/
theorem leaf?_laid (before v : Option Value) (h : ∀ w ∈ v, w.Plain) (path : List String) :
    leaf? (laid before v) path =
      if Prevails before v path then leaf? v path
      else if ∃ q, Prevails before v q ∧ Related path q then none else leaf? before path := by
  induction path generalizing before v with
  | nil =>
    match v, h with
    | none, _ => simp [laid, Prevails]
    | some (.mapping (entry :: rest)), h =>
      rw [laid_ne_leaf before (by simpa [Value.Plain] using h),
        if_neg (by simp [Prevails, Option.filter, Value.isLeaf])]
      split
      · rfl
      · rename_i hnone
        -- a leaf that stood here before would lose against some leaf of the mapping
        cases hbefore : leaf? before [] with
        | none => rfl
        | some b =>
          obtain ⟨q, hq⟩ := exists_prevails entry rest fun below hbelow =>
            leaf?_below hbefore hbelow
          exact absurd ⟨q, hq, nil_related q⟩ hnone
    | some (.mapping []), _ | some .null, _ | some (.bool _), _ | some (.int _), _
    | some (.float _), _ | some (.text _), _ | some (.list _), _ =>
      exact leaf?_laid_of_isLeaf before rfl []
  | cons key path ih =>
    match v, h with
    | none, _ => simp [laid, Prevails]
    | some (.mapping (entry :: rest)), h =>
      have hplain : Value.PlainEntries (entry :: rest) := by simpa [Value.Plain] using h
      -- behind the key the same leaves are in the way
      have hrelated : (∃ q, Prevails before (some (.mapping (entry :: rest))) q ∧
            Related (key :: path) q) ↔
          ∃ q, Prevails (before.bind (·.get? key)) (Mapping.get? (entry :: rest) key) q ∧
            Related path q := by
        constructor
        · rintro ⟨_ | ⟨key', q⟩, hq, hpath⟩
          · simp [Prevails, Option.filter, Value.isLeaf] at hq
          · obtain ⟨hkey, hrest⟩ := related_cons.mp hpath
            subst hkey
            exact ⟨q, prevails_cons.mp hq, hrest⟩
        · rintro ⟨q, hq, hpath⟩
          exact ⟨key :: q, prevails_cons.mpr hq, related_cons.mpr ⟨rfl, hpath⟩⟩
      rw [leaf?_cons, get?_laid before hplain, ih _ _ fun w hw => (hplain.get? hw).2]
      simp only [hrelated, prevails_cons, leaf?_cons, Option.bind_some, Value.get?_mapping]
    | some (.mapping []), _ | some .null, _ | some (.bool _), _ | some (.int _), _
    | some (.float _), _ | some (.text _), _ | some (.list _), _ =>
      exact leaf?_laid_of_isLeaf before rfl _

/-! ## Assigning an override -/

/-- A mapping with an entry is no leaf. -/
theorem leaf?_insert_nil (m : Mapping Value) (key : String) (v : Value) :
    leaf? (some (.mapping (Mapping.insert m key v))) [] = none := by
  cases hm : Mapping.insert m key v with
  | nil =>
    have hget := Mapping.get?_insert_self m key v
    simp [hm] at hget
  | cons entry rest => rfl

/-- An entry decides about the leaves below its key. -/
theorem leaf?_insert_cons (m : Mapping Value) (key : String) (v : Value) (k : String)
    (path : List String) :
    leaf? (some (.mapping (Mapping.insert m key v))) (k :: path) =
      if key = k then leaf? (some v) path else leaf? (some (.mapping m)) (k :: path) := by
  rw [leaf?_cons, leaf?_cons, Option.bind_some, Option.bind_some, Value.get?_mapping,
    Value.get?_mapping, Mapping.get?_insert]
  split <;> rfl

/-- The keys that assigning leads to, and what it sets: the value at the first key if the path ends
there, otherwise a mapping that holds the rest. -/
theorem assign?_cons {part : String} {rest : List String} {v : Value} {keys : List String}
    {m' : Mapping Value} (h : assign? m (part :: rest) v = some (keys, m')) :
    (rest = [] ∧ keys = [matchKey m part] ∧ m' = Mapping.insert m (matchKey m part) v) ∨
    (rest ≠ [] ∧ ∃ inner inner' keys',
      (Mapping.get? m (matchKey m part)).getD (.mapping []) = .mapping inner ∧
      assign? inner rest v = some (keys', inner') ∧ keys = matchKey m part :: keys' ∧
      m' = Mapping.insert m (matchKey m part) (.mapping inner')) := by
  cases rest with
  | nil =>
    simp only [assign?, Option.some.injEq, Prod.mk.injEq] at h
    exact Or.inl ⟨rfl, h.1.symm, h.2.symm⟩
  | cons next rest =>
    refine Or.inr ⟨by simp, ?_⟩
    simp only [assign?] at h
    split at h
    · rename_i inner hinner
      obtain ⟨⟨keys', inner'⟩, hrest, heq⟩ := Option.map_eq_some_iff.mp h
      obtain ⟨rfl, rfl⟩ := Prod.mk.inj heq
      exact ⟨inner, inner', keys', hinner, hrest, rfl, rfl⟩
    · cases h

/-- An assignment leads to a key at least. -/
theorem keys_ne_nil {path : List String} (hpath : path ≠ []) {v : Value} {keys : List String}
    {m' : Mapping Value} (h : assign? m path v = some (keys, m')) : keys ≠ [] := by
  obtain ⟨part, rest, rfl⟩ := List.exists_cons_of_ne_nil hpath
  rcases assign?_cons h with ⟨-, rfl, -⟩ | ⟨-, _, _, _, -, -, rfl, -⟩ <;> simp

/-- A mapping that is made on the way leads to nothing that was not there before. -/
theorem follow?_inner {key : String} {inner : Mapping Value}
    (h : (Mapping.get? m key).getD (.mapping []) = .mapping inner) {p : List String} (hne : p ≠ []) :
    follow? (.mapping inner) p = follow? (.mapping m) (key :: p) := by
  rw [follow?, Value.get?_mapping]
  cases hget : Mapping.get? m key with
  | none =>
    rw [hget, Option.getD_none] at h
    obtain ⟨k, p, rfl⟩ := List.exists_cons_of_ne_nil hne
    rw [← h]
    rfl
  | some w =>
    rw [hget, Option.getD_some] at h
    rw [h]
    rfl

/-- A mapping that is made on the way has the same leaves below it as what was there. -/
theorem leaf?_inner {key : String} {inner : Mapping Value}
    (h : (Mapping.get? m key).getD (.mapping []) = .mapping inner) {path : List String}
    (hne : path ≠ []) :
    leaf? (some (.mapping inner)) path = leaf? (some (.mapping m)) (key :: path) := by
  unfold leaf?
  rw [Option.bind_some, Option.bind_some, follow?_inner h hne]

open scoped Classical in
/-- The leaves after an assignment: those of the value at its place, and those before that are not
in its way. -/
theorem leaf?_assign? {path : List String} (hpath : path ≠ []) {v : Value} {keys : List String}
    {m' : Mapping Value} (h : assign? m path v = some (keys, m')) (p : List String) :
    leaf? (some (.mapping m')) p =
      if keys <+: p then leaf? (some v) (p.drop keys.length)
      else if Related p keys then none else leaf? (some (.mapping m)) p := by
  induction path generalizing m keys m' p with
  | nil => exact absurd rfl hpath
  | cons part rest ih =>
    have hne := keys_ne_nil hpath h
    cases p with
    | nil =>
      rw [if_neg (by simpa using hne), if_pos (nil_related _)]
      rcases assign?_cons h with ⟨-, -, rfl⟩ | ⟨-, _, _, _, -, -, -, rfl⟩ <;>
        exact leaf?_insert_nil _ _ _
    | cons k p =>
      rcases assign?_cons h with
        ⟨-, rfl, rfl⟩ | ⟨hrest, inner, inner', keys', hinner, hassign, rfl, rfl⟩
      · rw [leaf?_insert_cons]
        by_cases hk : matchKey m part = k
        · simp [hk]
        · simp [hk, Ne.symm hk]
      · rw [leaf?_insert_cons]
        by_cases hk : matchKey m part = k
        · subst hk
          simp only [if_true, ih hrest hassign, List.cons_prefix_cons, true_and, related_cons,
            List.length_cons, List.drop_succ_cons]
          -- beside the place of the value the inner mapping is as before
          refine if_congr Iff.rfl rfl (if_ctx_congr Iff.rfl (fun _ => rfl) fun hapart => ?_)
          exact leaf?_inner hinner (by rintro rfl; exact hapart (nil_related _))
        · simp [hk, Ne.symm hk]

/-- A part of a path is matched by itself or by a key that is there. -/
theorem matchKey_cases (m : Mapping Value) (part : String) :
    matchKey m part = part ∨ matchKey m part ∈ Mapping.keys m := by
  unfold matchKey
  cases hfind : (Mapping.keys m).reverse.find? fun key => canonical key == canonical part with
  | none => exact Or.inl rfl
  | some key => exact Or.inr (List.mem_reverse.mp (List.mem_of_find?_eq_some hfind))

/-- The keys that assigning leads to have no dots if neither the path has nor a leaf before. -/
theorem keys_dotless {path : List String} (hpath : ∀ part ∈ path, '.' ∉ part.toList)
    (hm : ∀ p, (leaf? (some (.mapping m)) p).isSome = true → ∀ part ∈ p, '.' ∉ part.toList)
    {v : Value} {keys : List String} {m' : Mapping Value}
    (h : assign? m path v = some (keys, m')) : ∀ part ∈ keys, '.' ∉ part.toList := by
  induction path generalizing m keys m' with
  | nil =>
    obtain ⟨rfl, rfl⟩ := Prod.mk.inj (Option.some.inj h)
    simp
  | cons part rest ih =>
    obtain ⟨hpart, hrest⟩ := List.forall_mem_cons.mp hpath
    have hkey : '.' ∉ (matchKey m part).toList := by
      rcases matchKey_cases m part with heq | hmem
      · -- the part of the path itself
        rwa [heq]
      · -- a key that is there is part of a path to some leaf
        obtain ⟨w, hw⟩ := Option.isSome_iff_exists.mp (Mapping.isSome_get?.mpr hmem)
        obtain ⟨below, hbelow⟩ := exists_leaf w
        refine hm (matchKey m part :: below) ?_ _ List.mem_cons_self
        rwa [leaf?_cons, Option.bind_some, Value.get?_mapping, hw]
    rcases assign?_cons h with ⟨-, rfl, -⟩ | ⟨-, inner, inner', keys', hinner, hassign, rfl, -⟩
    · -- the path ends here
      simpa using hkey
    · -- the rest of the path is looked for in the mapping below
      refine List.forall_mem_cons.mpr ⟨hkey, ih hrest (fun p hp => ?_) hassign⟩
      by_cases hne : p = []
      · simp [hne]
      · rw [leaf?_inner hinner hne] at hp
        exact (List.forall_mem_cons.mp (hm _ hp)).2

end DocFlatten.Config
