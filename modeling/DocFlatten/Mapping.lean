/-! # Ordered mappings

A mapping lists its keys in the order in which they were first set. Setting a key that is
present keeps its place.
-/

namespace DocFlatten

/-- Keys with their values, in order. -/
abbrev Mapping (α : Type) := List (String × α)

namespace Mapping

variable {α : Type}

/-- The value of a key. -/
def get? : Mapping α → String → Option α
  | [], _ => none
  | (k, v) :: rest, key => if k = key then some v else get? rest key

/-- Whether a key is present. -/
def contains (m : Mapping α) (key : String) : Bool :=
  (get? m key).isSome

/-- Set a key: in its place if it is present, otherwise at the end. -/
def insert : Mapping α → String → α → Mapping α
  | [], key, value => [(key, value)]
  | (k, v) :: rest, key, value =>
    if k = key then (k, value) :: rest else (k, v) :: insert rest key value

/-- Remove a key. -/
def erase (m : Mapping α) (key : String) : Mapping α :=
  m.filter fun entry => entry.1 ≠ key

/-- The keys in order. -/
def keys (m : Mapping α) : List String :=
  m.map (·.1)

/-- Set the pairs of a list one after the other. -/
def insertAll (m : Mapping α) (pairs : List (String × α)) : Mapping α :=
  pairs.foldl (fun m pair => insert m pair.1 pair.2) m

/-- The mapping that results from setting the pairs of a list one after the other. -/
def ofList (pairs : List (String × α)) : Mapping α :=
  insertAll [] pairs

@[simp] theorem get?_nil (key : String) : get? ([] : Mapping α) key = none := rfl

theorem get?_insert (m : Mapping α) (key : String) (value : α) (k : String) :
    get? (insert m key value) k = if key = k then some value else get? m k := by
  induction m with
  | nil => simp [insert, get?]
  | cons entry rest ih =>
    by_cases h : entry.1 = key <;> by_cases hk : entry.1 = k <;> grind [insert, get?]

@[simp] theorem get?_insert_self (m : Mapping α) (key : String) (value : α) :
    get? (insert m key value) key = some value := by
  simp [get?_insert]

theorem get?_erase (m : Mapping α) (key k : String) :
    get? (erase m key) k = if key = k then none else get? m k := by
  induction m with
  | nil => simp [erase]
  | cons entry rest ih =>
    unfold erase at ih ⊢
    by_cases h : entry.1 = key <;> by_cases hk : key = k <;> grind [get?]

/-- Setting a key adds it at the end of the keys unless it is present. -/
theorem keys_insert (m : Mapping α) (key : String) (value : α) :
    keys (insert m key value) = if key ∈ keys m then keys m else keys m ++ [key] := by
  induction m with
  | nil => simp [insert, keys]
  | cons entry rest ih =>
    unfold keys at ih ⊢
    by_cases h : entry.1 = key <;> grind [insert]

theorem nodup_keys_insert {m : Mapping α} (h : (keys m).Nodup) (key : String) (value : α) :
    (keys (insert m key value)).Nodup := by
  rw [keys_insert]
  by_cases hmem : key ∈ keys m
  · rwa [if_pos hmem]
  · rw [if_neg hmem]
    exact List.nodup_append.mpr ⟨h, by simp, by
      intro a ha b hb
      rw [List.mem_singleton.mp hb]
      rintro rfl
      exact hmem ha⟩

theorem nodup_keys_insertAll {m : Mapping α} (h : (keys m).Nodup) (pairs : List (String × α)) :
    (keys (insertAll m pairs)).Nodup := by
  induction pairs generalizing m with
  | nil => exact h
  | cons pair pairs ih => exact ih (nodup_keys_insert h pair.1 pair.2)

/-- Setting a key to the value that it has changes nothing. -/
theorem insert_of_get? {m : Mapping α} {key : String} {value : α}
    (h : get? m key = some value) : insert m key value = m := by
  induction m with
  | nil => cases h
  | cons entry rest ih =>
    unfold get? at h
    unfold insert
    split at h
    · rename_i hkey
      obtain rfl := Option.some.inj h
      rw [if_pos hkey]
    · rename_i hkey
      rw [if_neg hkey, ih h]

/-- Of two values that are set for a key, the later one remains. -/
theorem insert_insert (m : Mapping α) (key : String) (value value' : α) :
    insert (insert m key value) key value' = insert m key value' := by
  induction m with
  | nil => simp [insert]
  | cons entry rest ih =>
    by_cases hkey : entry.1 = key
    · simp [insert, hkey]
    · simp [insert, hkey, ih]

theorem length_insert_le (m : Mapping α) (key : String) (value : α) :
    (insert m key value).length ≤ m.length + 1 := by
  induction m with
  | nil => simp [insert]
  | cons entry rest ih =>
    unfold insert
    split
    · simp
    · simpa using ih

/-- A mapping that grows when a key is set did not have it. -/
theorem insert_of_length {m : Mapping α} {key : String} {value : α}
    (h : (insert m key value).length = m.length + 1) :
    insert m key value = m ++ [(key, value)] := by
  induction m with
  | nil => simp [insert]
  | cons entry rest ih =>
    unfold insert at h ⊢
    split at h
    · simp at h
    · rw [if_neg (by assumption), ih (by simpa using h), List.cons_append]

theorem insert_of_not_mem {m : Mapping α} {key : String} (h : key ∉ keys m) (value : α) :
    insert m key value = m ++ [(key, value)] := by
  refine insert_of_length ?_
  have hkeys : (keys (insert m key value)).length = (keys m).length + 1 := by
    rw [keys_insert, if_neg h, List.length_append, List.length_singleton]
  simpa [keys] using hkeys

theorem mem_insert {m : Mapping α} {key : String} {value : α} {entry : String × α}
    (h : entry ∈ insert m key value) : entry ∈ m ∨ entry = (key, value) := by
  induction m with
  | nil => exact Or.inr (List.mem_singleton.mp h)
  | cons first rest ih =>
    unfold insert at h
    split at h
    · rename_i hkey
      rcases List.mem_cons.mp h with rfl | hrest
      · exact Or.inr (by rw [hkey])
      · exact Or.inl (List.mem_cons_of_mem _ hrest)
    · rcases List.mem_cons.mp h with rfl | hrest
      · exact Or.inl List.mem_cons_self
      · exact (ih hrest).imp_left (List.mem_cons_of_mem _)

theorem length_insertAll_le (m : Mapping α) (pairs : List (String × α)) :
    (insertAll m pairs).length ≤ m.length + pairs.length := by
  induction pairs generalizing m with
  | nil => simp [insertAll]
  | cons pair pairs ih =>
    have hfirst := length_insert_le m pair.1 pair.2
    have hrest := ih (insert m pair.1 pair.2)
    rw [List.length_cons]
    change (insertAll (insert m pair.1 pair.2) pairs).length ≤ _
    omega

/-- Keys that are set make a mapping as long as they can only if all of them are new. -/
theorem insertAll_of_length {m : Mapping α} {pairs : List (String × α)}
    (h : (insertAll m pairs).length = m.length + pairs.length) :
    insertAll m pairs = m ++ pairs := by
  induction pairs generalizing m with
  | nil => simp [insertAll]
  | cons pair pairs ih =>
    change (insertAll (insert m pair.1 pair.2) pairs).length = _ at h
    have hfirst := length_insert_le m pair.1 pair.2
    have hrest := length_insertAll_le (insert m pair.1 pair.2) pairs
    rw [List.length_cons] at h
    change insertAll (insert m pair.1 pair.2) pairs = _
    rw [ih (by omega), insert_of_length (by omega), List.append_assoc, List.singleton_append]

/-- Setting keys that are all new adds them in their order. -/
theorem insertAll_of_nodup {m : Mapping α} {pairs : List (String × α)}
    (h : (keys (m ++ pairs)).Nodup) : insertAll m pairs = m ++ pairs := by
  induction pairs generalizing m with
  | nil => simp [insertAll]
  | cons pair pairs ih =>
    have hnew : pair.1 ∉ keys m := by
      unfold keys at h
      rw [List.map_append, List.map_cons] at h
      intro hmem
      exact (List.nodup_append.mp h).2.2 _ hmem _ List.mem_cons_self rfl
    have hstep : m ++ pair :: pairs = insert m pair.1 pair.2 ++ pairs := by
      rw [insert_of_not_mem hnew, List.append_assoc, List.singleton_append]
    rw [hstep] at h ⊢
    exact ih h

theorem mem_insertAll {m : Mapping α} {pairs : List (String × α)} {entry : String × α}
    (h : entry ∈ insertAll m pairs) : entry ∈ m ∨ entry ∈ pairs := by
  induction pairs generalizing m with
  | nil => exact Or.inl h
  | cons pair pairs ih =>
    rcases ih h with hfirst | hrest
    · rcases mem_insert hfirst with hm | rfl
      · exact Or.inl hm
      · exact Or.inr List.mem_cons_self
    · exact Or.inr (List.mem_cons_of_mem _ hrest)

/-- A mapping that was set key by key has no key twice. -/
theorem nodup_keys_ofList (pairs : List (String × α)) : (keys (ofList pairs)).Nodup :=
  nodup_keys_insertAll (m := []) (by simp [keys]) pairs

end Mapping

end DocFlatten
