import DocFlatten.Proofs.Aliasing
import DocFlatten.Proofs.Merging
import Mathlib.Data.String.Basic

/-! # What overrides change

The variables are assigned one after the other to the same configuration. Each one is matched against
what the earlier ones have left, makes the levels that are missing and replaces whatever stands at the
end of its path.

* `follow?_assign?`, `follow?_assign?_of_not_related`, `DistinctOutside.assign?`: what one assignment
  sets, leaves alone and keeps up;
* `Run`: the assignments that a list of variables comes to; `Run.follow?_of_not_related`,
  `Run.follow?_keys`, `Run.distinctOutside`: the same for all of them, by induction on the run;
* `assignInPlace`: an assignment that changes the configuration step by step; `assignInPlace_eq`: one
  that fails has changed nothing by then.

All this needs that no variable leads into a mapping that stands at several places: what is assigned there
shows at all of them (`override_shows_elsewhere`).
-/

namespace DocFlatten

namespace Value

/-- What has a mapping in it is a mapping or a list. -/
theorem nested_of_at? {v : Value} {place : Place} {n : Mapping Value}
    (h : v.at? place = some (mapping n)) :
    (∃ entries, v = mapping entries) ∨ ∃ items, v = list items := by
  match v with
  | mapping entries => exact Or.inl ⟨entries, rfl⟩
  | list items => exact Or.inr ⟨items, rfl⟩
  | null | bool _ | int _ | float _ | text _ => cases place <;> simp [at?] at h

/-- Numbers, texts and the like have no mapping in them. -/
theorem at?_ne_mapping {v : Value} {place : Place} {n : Mapping Value}
    (hmapping : ∀ entries, v ≠ mapping entries) (hlist : ∀ items, v ≠ list items) :
    v.at? place ≠ some (mapping n) := by
  intro h
  rcases nested_of_at? h with ⟨entries, rfl⟩ | ⟨items, rfl⟩
  · exact hmapping entries rfl
  · exact hlist items rfl

end Value

namespace Config

variable {m m' : Mapping Value} {keys path : List String} {v : Value}

/-! ## Paths after an assignment -/

/-- An assignment leads to its value. -/
theorem follow?_assign? (hpath : path ≠ []) (h : assign? m path v = some (keys, m')) :
    follow? (.mapping m') keys = some v := by
  induction path generalizing m keys m' with
  | nil => exact absurd rfl hpath
  | cons part rest ih =>
    rcases assign?_cons h with
      ⟨-, rfl, rfl⟩ | ⟨hrest, inner, inner', keys', -, hassign, rfl, rfl⟩
    · rw [follow?, Value.get?_mapping, Mapping.get?_insert_self]
      rfl
    · rw [follow?, Value.get?_mapping, Mapping.get?_insert_self]
      exact ih hrest hassign

/-- An assignment leaves everything alone that is neither on its way nor below its end. -/
theorem follow?_assign?_of_not_related (hpath : path ≠ [])
    (h : assign? m path v = some (keys, m')) {p : List String} (hapart : ¬ Related p keys) :
    follow? (.mapping m') p = follow? (.mapping m) p := by
  induction path generalizing m keys m' p with
  | nil => exact absurd rfl hpath
  | cons part rest ih =>
    cases p with
    | nil => exact absurd (nil_related keys) hapart
    | cons k p =>
      -- only below the key of the assignment can anything change, so there the rest of `p` leads apart
      by_cases hk : matchKey m part = k
      · subst hk
        rcases assign?_cons h with
          ⟨-, rfl, -⟩ | ⟨hrest, inner, inner', keys', hinner, hassign, rfl, rfl⟩
        · exact absurd (related_cons.mpr ⟨rfl, related_nil p⟩) hapart
        · have hbelow : ¬ Related p keys' := fun h => hapart (related_cons.mpr ⟨rfl, h⟩)
          have hne : p ≠ [] := by
            rintro rfl
            exact hbelow (nil_related keys')
          rw [← follow?_inner hinner hne, ← ih hrest hassign hbelow, follow?, Value.get?_mapping,
            Mapping.get?_insert_self]
          rfl
      · rcases assign?_cons h with ⟨-, -, rfl⟩ | ⟨-, _, _, _, -, -, -, rfl⟩ <;>
          rw [follow?, follow?, Value.get?_mapping, Value.get?_mapping, Mapping.get?_insert,
            if_neg hk]

/-! ## Keys that compare equal -/

/-- No two keys of a mapping compare equal. -/
def DistinctKeys (m : Mapping Value) : Prop :=
  ((Mapping.keys m).map canonical).Nodup

/-- No mapping in a value has keys that compare equal, some places aside. -/
def DistinctOutside (exempt : List Value.Step → Prop) (v : Value) : Prop :=
  ∀ place n, v.at? place = some (.mapping n) → ¬ exempt place → DistinctKeys n

/-- A part of a path that is a new key compares equal to none that is there. -/
theorem canonical_ne_of_not_mem {part : String} (h : matchKey m part ∉ Mapping.keys m) :
    matchKey m part = part ∧ ∀ key ∈ Mapping.keys m, canonical key ≠ canonical part := by
  unfold matchKey at h ⊢
  cases hfind : (Mapping.keys m).reverse.find? fun key => canonical key == canonical part with
  | none =>
    refine ⟨rfl, fun key hkey => ?_⟩
    simpa using List.find?_eq_none.mp hfind key (List.mem_reverse.mpr hkey)
  | some key =>
    rw [hfind] at h
    exact absurd (List.mem_reverse.mp (List.mem_of_find?_eq_some hfind)) h

/-- A key that is matched, or is not there yet, keeps keys distinct. -/
theorem DistinctKeys.insert_matchKey (h : DistinctKeys m) (part : String) (w : Value) :
    DistinctKeys (Mapping.insert m (matchKey m part) w) := by
  unfold DistinctKeys at h ⊢
  rw [Mapping.keys_insert]
  by_cases hmem : matchKey m part ∈ Mapping.keys m
  · rwa [if_pos hmem]
  · obtain ⟨hpart, hne⟩ := canonical_ne_of_not_mem hmem
    rw [if_neg hmem, hpart, List.map_append]
    refine List.nodup_append.mpr ⟨h, by simp, ?_⟩
    rintro _ hold _ hnew
    obtain ⟨key, hkey, rfl⟩ := List.mem_map.mp hold
    rw [List.mem_singleton.mp hnew]
    exact hne key hkey

theorem distinctOutside_mapping {exempt : List Value.Step → Prop} :
    DistinctOutside exempt (.mapping m) ↔
      (¬ exempt [] → DistinctKeys m) ∧ ∀ key w, Mapping.get? m key = some w →
        DistinctOutside (fun place => exempt (.key key :: place)) w := by
  constructor
  · intro h
    refine ⟨h [] m rfl, fun key w hget place n hat => h (.key key :: place) n ?_⟩
    rw [Value.at?, hget]
    exact hat
  · rintro ⟨hroot, hvalues⟩ place n hat hfree
    match place with
    | [] =>
      obtain rfl := Value.mapping.inj (Option.some.inj hat)
      exact hroot hfree
    | .key key :: place =>
      obtain ⟨w, hget, hw⟩ := Option.bind_eq_some_iff.mp hat
      exact hvalues key w hget place n hw hfree
    | .item _ :: _ => cases hat

/-- An assignment brings in keys that compare equal nowhere but in its value. -/
theorem DistinctOutside.assign? {exempt : List Value.Step → Prop}
    (hm : DistinctOutside exempt (.mapping m)) (hpath : path ≠ [])
    (h : assign? m path v = some (keys, m')) :
    DistinctOutside (fun place => exempt place ∨
      (∃ below n, v.at? below = some (.mapping n)) ∧ keys.map .key <+: place) (.mapping m') := by
  induction path generalizing m keys m' exempt with
  | nil => exact absurd rfl hpath
  | cons part rest ih =>
    obtain ⟨hroot, hvalues⟩ := distinctOutside_mapping.mp hm
    refine distinctOutside_mapping.mpr ⟨fun hfree => ?_, fun k w hget place n hat hfree => ?_⟩
    · have hkeys := hroot (not_or.mp hfree).1
      rcases assign?_cons h with ⟨-, -, rfl⟩ | ⟨-, _, _, _, -, -, -, rfl⟩ <;>
        exact hkeys.insert_matchKey part _
    · obtain ⟨hold, hnew⟩ := not_or.mp hfree
      rcases assign?_cons h with
        ⟨-, rfl, rfl⟩ | ⟨hrest, inner, inner', keys', hinner, hassign, rfl, rfl⟩ <;>
        rw [Mapping.get?_insert] at hget
      · by_cases hk : matchKey m part = k
        · obtain rfl : v = w := by simpa [hk] using hget
          refine absurd ⟨⟨place, n, hat⟩, ?_⟩ hnew
          rw [hk]
          exact List.cons_prefix_cons.mpr ⟨rfl, List.nil_prefix⟩
        · rw [if_neg hk] at hget
          exact hvalues k w hget place n hat hold
      · by_cases hk : matchKey m part = k
        · subst hk
          -- the mapping on the way is the one that was there, or a new one without keys
          have hin : DistinctOutside (fun place => exempt (.key (matchKey m part) :: place))
              (.mapping inner) := by
            cases hbefore : Mapping.get? m (matchKey m part) with
            | none =>
              rw [hbefore, Option.getD_none] at hinner
              obtain rfl := Value.mapping.inj hinner
              exact distinctOutside_mapping.mpr ⟨fun _ => List.nodup_nil, nofun⟩
            | some w =>
              rw [hbefore, Option.getD_some] at hinner
              exact hinner ▸ hvalues _ w hbefore
          obtain rfl : Value.mapping inner' = w := by simpa using hget
          refine ih hin hrest hassign place n hat (not_or.mpr ⟨hold, ?_⟩)
          rintro ⟨hnested, hprefix⟩
          exact hnew ⟨hnested, List.cons_prefix_cons.mpr ⟨rfl, hprefix⟩⟩
        · rw [if_neg hk] at hget
          exact hvalues k w hget place n hat hold

/-! ## Runs -/

/-- A variable that has been assigned, with the keys that its path led to. -/
structure Assigned where
  name : String
  text : String
  keys : List String
  value : Value

/-- The value of a variable comes from JSON between brackets. -/
def Assigned.IsJson (a : Assigned) : Prop :=
  isBracketed (Text.strip a.text).toList = true ∧ Json.read (Text.strip a.text) = .ok a.value

/-- The assignments that variables come to, one after the other. A variable that spells no path is
passed over. -/
inductive Run (strict : Bool) : Sharing → Mapping Value → List (String × String) → List Assigned →
    Mapping Value → Prop where
  | done {shared : Sharing} {m : Mapping Value} : Run strict shared m [] [] m
  | passed {shared : Sharing} {m m' : Mapping Value} {name text : String}
      {rest : List (String × String)} {done : List Assigned}
      (hpath : variablePath strict name = .ok []) (hrest : Run strict shared m rest done m') :
      Run strict shared m ((name, text) :: rest) done m'
  | assigned {shared shared' : Sharing} {m m₁ m' : Mapping Value} {name text : String}
      {rest : List (String × String)} {path keys : List String} {value : Value}
      {done : List Assigned} (hpath : variablePath strict name = .ok path) (hne : path ≠ [])
      (hvalue : coerce text = .ok value)
      (hassign : assignShared shared m path value = .ok (keys, m₁, shared'))
      (hrest : Run strict shared' m₁ rest done m') :
      Run strict shared m ((name, text) :: rest) ({ name, text, keys, value } :: done) m'

variable {strict : Bool} {shared : Sharing} {named : List (String × String)} {done : List Assigned}

/-- Overrides that can all be applied make a run. -/
theorem exists_run (h : (applyOverrides strict shared m named).value = .ok m') :
    ∃ done, Run strict shared m named done m' := by
  induction named generalizing shared m with
  | nil =>
    obtain rfl := Except.ok.inj h
    exact ⟨[], .done⟩
  | cons entry rest ih =>
    obtain ⟨name, text⟩ := entry
    unfold applyOverrides at h
    cases hpath : variablePath strict name with
    | error e => simp [overrideOf, hpath, bind, Except.bind] at h
    | ok path =>
      -- a variable that names no path is passed over
      cases path with
      | nil =>
        have hnone : overrideOf strict name text = .ok none := by
          simp [overrideOf, hpath, bind, Except.bind, pure, Except.pure]
        rw [hnone] at h
        obtain ⟨done, hrun⟩ := ih h
        exact ⟨done, .passed hpath hrun⟩
      | cons part parts =>
        cases hvalue : coerce text with
        | error e =>
          cases e <;> simp [overrideOf, hpath, hvalue, bind, Except.bind] at h
        | ok value =>
          have hsome : overrideOf strict name text =
              .ok (some { name, path := part :: parts, value }) := by
            simp [overrideOf, hpath, hvalue, bind, Except.bind, pure, Except.pure]
          simp only [hsome] at h
          cases hassign : assignShared shared m (part :: parts) value with
          | error e => simp [hassign] at h
          | ok result =>
            obtain ⟨keys, m₁, shared'⟩ := result
            simp only [hassign] at h
            obtain ⟨done, hrun⟩ := ih h
            exact ⟨_, .assigned hpath (by simp) hvalue hassign hrun⟩

namespace Run

/-- Whether no variable of a run leads into a mapping that stands at several places. -/
def Clear (shared : Sharing) (done : List Assigned) : Prop :=
  ∀ a ∈ done, shared.Clear (a.keys.map .key)

/-- The first variable of a clear run is assigned as to a plain tree, and the rest is clear as well. -/
theorem Clear.first {shared' : Sharing} {a : Assigned} {m₁ : Mapping Value}
    (h : Clear shared (a :: done))
    (hassign : assignShared shared m path a.value = .ok (a.keys, m₁, shared')) :
    assign? m path a.value = some (a.keys, m₁) ∧ Clear shared' done := by
  obtain ⟨hfirst, hrest⟩ := List.forall_mem_cons.mp h
  obtain ⟨hplain, rfl⟩ := assign?_of_clear hassign hfirst
  exact ⟨hplain, fun b hb => (hrest b hb).without _⟩

/-- What no variable leads to stays. -/
theorem follow?_of_not_related (h : Run strict shared m named done m') (hclear : Clear shared done)
    {p : List String} (hapart : ∀ a ∈ done, ¬ Related p a.keys) :
    follow? (.mapping m') p = follow? (.mapping m) p := by
  induction h with
  | done => rfl
  | passed _ _ ih => exact ih hclear hapart
  | assigned _ hne _ hassign _ ih =>
    obtain ⟨hfirst, hrest⟩ := List.forall_mem_cons.mp hapart
    obtain ⟨hplain, hclear⟩ := hclear.first hassign
    rw [ih hclear hrest, follow?_assign?_of_not_related hne hplain hfirst]

/-- A variable leads to its value as long as no later one gets in its way. -/
theorem follow?_keys (h : Run strict shared m named done m') (hclear : Clear shared done)
    {before after : List Assigned} {a : Assigned} (hdone : done = before ++ a :: after)
    (hapart : ∀ b ∈ after, ¬ Related a.keys b.keys) :
    follow? (.mapping m') a.keys = some a.value := by
  induction h generalizing before with
  | done => simp at hdone
  | passed _ _ ih => exact ih hclear hdone
  | assigned _ hne _ hassign hrest ih =>
    obtain ⟨hplain, hclear⟩ := hclear.first hassign
    cases before with
    | nil =>
      -- the value stands right after its own assignment, and the rest of the run leaves it alone
      obtain ⟨rfl, rfl⟩ := List.cons.inj hdone
      rw [hrest.follow?_of_not_related hclear hapart, follow?_assign? hne hplain]
    | cons first before => exact ih hclear (List.cons.inj hdone).2

/-- The values that are assigned are those that the texts are coerced to. -/
theorem coerce_text (h : Run strict shared m named done m') :
    ∀ a ∈ done, coerce a.text = .ok a.value := by
  induction h with
  | done => simp
  | passed _ _ ih => exact ih
  | assigned _ _ hvalue _ _ ih => exact List.forall_mem_cons.mpr ⟨hvalue, ih⟩

/-- Variables that assign something do so in their order. -/
theorem names_sublist (h : Run strict shared m named done m') :
    (done.map (·.name)).Sublist (named.map (·.1)) := by
  induction h with
  | done => exact .slnil
  | passed _ _ ih => exact ih.cons _
  | assigned _ _ _ _ _ ih => exact ih.cons_cons _

end Run

/-- The text of a variable stands for a value with mappings only if it is JSON. -/
theorem isJson_of_at? {a : Assigned} (hvalue : coerce a.text = .ok a.value)
    {place : List Value.Step} {n : Mapping Value} (hat : a.value.at? place = some (.mapping n)) :
    a.IsJson := by
  have hnested : ∀ {w : Value}, (.ok w : Except CoerceError Value) = .ok a.value →
      (∃ entries, w = .mapping entries) ∨ ∃ items, w = .list items :=
    fun hw => Except.ok.inj hw ▸ Value.nested_of_at? hat
  -- only mappings and lists have a place inside, and only JSON is read as one of them
  unfold coerce at hvalue
  unfold Assigned.IsJson
  dsimp only at hvalue
  split at hvalue
  · simpa using hnested hvalue
  split at hvalue
  · simpa using hnested hvalue
  split at hvalue
  · cases hread : Number.readInteger a.text with
    | error e => simp [hread] at hvalue
    | ok n =>
      rw [hread] at hvalue
      simpa using hnested hvalue
  split at hvalue
  · simpa using hnested hvalue
  split at hvalue
  · rename_i hbracketed
    split at hvalue
    · rename_i hread
      exact ⟨hbracketed, Except.ok.inj hvalue ▸ hread⟩
    · cases hvalue
    · cases hvalue
    · simpa using hnested hvalue
  · simpa using hnested hvalue

/-- Overrides bring in keys that compare equal nowhere but in values from JSON. -/
theorem Run.distinctOutside {exempt : List Value.Step → Prop} (h : Run strict shared m named done m')
    (hclear : Clear shared done) (hm : DistinctOutside exempt (.mapping m)) :
    DistinctOutside (fun place => exempt place ∨
      ∃ a ∈ done, a.IsJson ∧ a.keys.map .key <+: place) (.mapping m') := by
  induction h generalizing exempt with
  | done => exact fun place n hat hplace => hm place n hat (not_or.mp hplace).1
  | passed _ _ ih => exact ih hclear hm
  | @assigned _ _ _ _ _ name text _ path keys value done _ hne hvalue hassign _ ih =>
    intro place n hat hplace
    obtain ⟨hfree, hnone⟩ := not_or.mp hplace
    obtain ⟨hplain, hclear⟩ := hclear.first hassign
    refine ih hclear (hm.assign? hne hplain) place n hat ?_
    -- before the rest of the run, the first value may have brought in mappings below its keys
    rintro ((hexempt | ⟨⟨below, n, hbelow⟩, hprefix⟩) | ⟨a, ha, hjson⟩)
    · exact hfree hexempt
    · refine hnone ⟨{ name, text, keys, value }, List.mem_cons_self, ?_, hprefix⟩
      exact isJson_of_at? hvalue hbelow
    · exact hnone ⟨a, List.mem_cons_of_mem _ ha, hjson⟩

/-! ## The order of the variables -/

/-- Texts that start alike are ordered by what comes after. -/
theorem lt_of_append_lt {start : List Char} {s t : List Char} (h : start ++ s < start ++ t) :
    s < t := by
  induction start with
  | nil => exact h
  | cons c start ih =>
    rcases List.cons_lt_cons_iff.mp h with hlt | ⟨-, hrest⟩
    · exact absurd hlt (lt_irrefl c)
    · exact ih hrest

/-- The variables that override settings come in the order of their names. -/
theorem pairwise_overridingVariables {environment : Mapping String}
    (hnodup : (Mapping.keys environment).Nodup) :
    ((overridingVariables environment).map (·.1)).Pairwise (· < ·) := by
  let chosen := environment.filter fun entry => entry.1.startsWith variableStart
  let sorted := chosen.mergeSort fun a b => a.1 ≤ b.1
  have hperm : sorted.Perm chosen := List.mergeSort_perm _ _
  have hstart : ∀ entry ∈ sorted, ∃ rest, entry.1.toList = variableStart.toList ++ rest := by
    intro entry hentry
    have hstarts := (List.mem_filter.mp (hperm.mem_iff.mp hentry)).2
    obtain ⟨rest, hrest⟩ := String.startsWith_string_iff.mp hstarts
    exact ⟨rest, hrest.symm⟩
  have hle : sorted.Pairwise fun a b => a.1 ≤ b.1 :=
    (@List.pairwise_mergeSort (String × String) (fun a b => a.1 ≤ b.1)
      (fun a b c hab hbc => by simpa using le_trans (by simpa using hab) (by simpa using hbc))
      (fun a b => by simpa using le_total a.1 b.1) chosen).imp (by simp)
  have hne : sorted.Pairwise fun a b => a.1 ≠ b.1 := by
    refine List.pairwise_map.mp (List.nodup_iff_pairwise_ne.mp ?_)
    exact (hperm.map _).nodup_iff.mpr (hnodup.sublist (List.filter_sublist.map _))
  change ((sorted.map _).map _).Pairwise _
  rw [List.map_map, List.pairwise_map]
  -- all names start alike, so their order is that of what comes after the start
  refine (hle.and hne).imp_of_mem fun {a b} ha hb hab => ?_
  obtain ⟨s, hs⟩ := hstart a ha
  obtain ⟨t, ht⟩ := hstart b hb
  have hlt : a.1 < b.1 := lt_of_le_of_ne hab.1 hab.2
  rw [String.lt_iff_toList_lt, hs, ht] at hlt
  simp only [Function.comp_apply, hs, ht]
  rw [String.lt_iff_toList_lt, String.toList_ofList, String.toList_ofList]
  exact lt_of_append_lt hlt

/-! ## Assigning in place -/

/-- Set the value at a path in place, with the keys that were used, and what has become of the mapping
whether or not the path could be gone. A level that is missing is made when it is met, and nothing that
has been changed is changed back. -/
def assignInPlace : Mapping Value → List String → Value → Option (List String) × Mapping Value
  | m, [], _ => (some [], m)
  | m, [part], v =>
    let key := matchKey m part
    (some [key], Mapping.insert m key v)
  | m, part :: rest, v =>
    let key := matchKey m part
    let m := if Mapping.contains m key then m else Mapping.insert m key (.mapping [])
    match Mapping.get? m key with
    | some (.mapping inner) =>
      let (keys, inner) := assignInPlace inner rest v
      (keys.map (key :: ·), Mapping.insert m key (.mapping inner))
    | _ => (none, m)

/-- Below a level that was just made nothing is in the way. -/
theorem exists_assign?_nil (path : List String) (v : Value) :
    ∃ result, assign? [] path v = some result := by
  induction path with
  | nil => exact ⟨_, rfl⟩
  | cons part rest ih =>
    cases rest with
    | nil => exact ⟨_, rfl⟩
    | cons next rest =>
      obtain ⟨⟨keys, inner⟩, hrest⟩ := ih
      refine ⟨(part :: keys, [(part, .mapping inner)]), ?_⟩
      have hkey : matchKey [] part = part := rfl
      simp only [assign?, hkey, Mapping.get?_nil, Option.getD_none, hrest, Option.map_some,
        Mapping.insert]

/-- An assignment in place does what an assignment does, and one that fails changes nothing: all that
it meets until then was there before. -/
theorem assignInPlace_eq (m : Mapping Value) (path : List String) (v : Value) :
    assignInPlace m path v =
      ((assign? m path v).map (·.1), ((assign? m path v).map (·.2)).getD m) := by
  induction path generalizing m with
  | nil => rfl
  | cons part rest ih =>
    cases rest with
    | nil => rfl
    | cons next rest =>
      cases hget : Mapping.get? m (matchKey m part) with
      | none =>
        -- a level is made here, and from here on nothing can fail
        obtain ⟨⟨keys, inner⟩, hrest⟩ := exists_assign?_nil (next :: rest) v
        simp only [assignInPlace, assign?, Mapping.contains, hget, Option.isSome_none,
          Bool.false_eq_true, if_false, Mapping.get?_insert_self, ih, hrest, Option.getD_none,
          Option.getD_some, Option.map_some, Mapping.insert_insert]
      | some w =>
        cases w with
        | mapping inner =>
          simp only [assignInPlace, assign?, Mapping.contains, hget, Option.isSome_some, if_true, ih,
            Option.getD_some]
          cases hrest : assign? inner (next :: rest) v with
          | none =>
            -- what failed below has left the mapping there as it was, so it is put back unchanged
            simp [Mapping.insert_of_get? hget]
          | some result => simp
        | null | bool _ | int _ | float _ | text _ | list _ =>
          simp [assignInPlace, assign?, Mapping.contains, hget]

/-! ## The configuration -/

/-- Overrides touch only what they name, unless one of them leads into a mapping that stands at several
places. A variable is found at its keys unless a later one leads there, to a value above or to one below.
What no variable leads to stays. Keys that compare equal come up only in values from JSON. An assignment
that fails has changed nothing. -/
theorem overrides_touch_named {environment : Mapping String}
    (hm : ∀ place n, (Value.mapping m).at? place = some (.mapping n) → DistinctKeys n)
    (hnodup : (Mapping.keys environment).Nodup)
    (happly : (applyOverrides strict shared m (overridingVariables environment)).value = .ok m') :
    (∃ done, Run strict shared m (overridingVariables environment) done m' ∧
      (∀ a ∈ done, coerce a.text = .ok a.value) ∧
      ((∀ a ∈ done, shared.Clear (a.keys.map .key)) →
        (∀ a ∈ done, (∀ b ∈ done, a.name < b.name → ¬ Related a.keys b.keys) →
          follow? (.mapping m') a.keys = some a.value) ∧
        (∀ path, (∀ a ∈ done, ¬ Related path a.keys) →
          follow? (.mapping m') path = follow? (.mapping m) path) ∧
        ∀ place n, (Value.mapping m').at? place = some (.mapping n) →
          (∀ a ∈ done, a.IsJson → ¬ a.keys.map .key <+: place) → DistinctKeys n)) ∧
    ∀ config path v,
      (∀ keys config', assign config path v = .ok (keys, config') →
        assignInPlace config path v = (some keys, config')) ∧
      ∀ e, assign config path v = .error e → assignInPlace config path v = (none, config) := by
  obtain ⟨done, hrun⟩ := exists_run happly
  have hsorted : done.Pairwise fun a b => a.name < b.name :=
    List.pairwise_map.mp ((pairwise_overridingVariables hnodup).sublist hrun.names_sublist)
  refine ⟨⟨done, hrun, hrun.coerce_text, fun hclear => ⟨fun a ha hapart => ?_,
    fun path hapart => hrun.follow?_of_not_related hclear hapart, fun place n hat hfree => ?_⟩⟩, ?_⟩
  · -- a variable keeps its value if none behind it assigns at a related path
    obtain ⟨before, after, hdone⟩ := List.append_of_mem ha
    refine hrun.follow?_keys hclear hdone fun b hb => hapart b (by simp [hdone, hb]) ?_
    rw [hdone] at hsorted
    exact List.rel_of_pairwise_cons (List.pairwise_append.mp hsorted).2.1 hb
  · -- keys stay distinct, but for mappings that are assigned
    have hdistinct : DistinctOutside (fun _ => False) (.mapping m) :=
      fun place n hat _ => hm place n hat
    refine hrun.distinctOutside hclear hdistinct place n hat ?_
    rintro (hfalse | ⟨a, ha, hjson, hprefix⟩)
    · exact hfalse
    · exact hfree a ha hjson hprefix
  · -- what is assigned in place is what is assigned to a tree, or nothing
    intro config path v
    rw [assignInPlace_eq, assign]
    cases assign? config path v with
    | none => exact ⟨nofun, fun _ _ => rfl⟩
    | some result => exact ⟨fun _ _ h => by rw [Except.ok.inj h]; rfl, nofun⟩

/-- A configuration in which one mapping stands at two places, beside a setting in mixed case. -/
def aliased (includeMap : Bool) (k : Int) : Mapping Value :=
  [("reducer", .mapping [("includeMap", .bool includeMap)]),
    ("x", .mapping [("k", .int k)]), ("y", .mapping [("k", .int k)])]

/-- The places of the mapping. -/
def aliases : Sharing :=
  [[[.key "x"], [.key "y"]]]

/-- A variable in capitals for the setting in mixed case, among variables of other programs. -/
def switchingOn : Mapping String :=
  [("PATH", "/bin"), ("ADOC_REDUCER_REDUCER__INCLUDE_MAP", "true")]

/-- The mapping and the one in it have distinct keys. -/
theorem distinctKeys_aliased {place : Value.Place} {n : Mapping Value}
    (h : (Value.mapping (aliased false 1)).at? place = some (.mapping n)) : DistinctKeys n := by
  -- a mapping whose values are none has only itself in it
  have hflat : ∀ {entries : Mapping Value}, DistinctKeys entries →
      (∀ key w, Mapping.get? entries key = some w →
        (∀ inner, w ≠ .mapping inner) ∧ ∀ items, w ≠ .list items) →
      DistinctOutside (fun _ => False) (.mapping entries) := by
    intro entries hkeys hvalues
    refine distinctOutside_mapping.mpr ⟨fun _ => hkeys, fun key w hget place n hat => ?_⟩
    obtain ⟨hmapping, hlist⟩ := hvalues key w hget
    exact absurd hat (Value.at?_ne_mapping hmapping hlist)
  have hdistinct : DistinctOutside (fun _ => False) (.mapping (aliased false 1)) := by
    refine distinctOutside_mapping.mpr ⟨fun _ => by unfold DistinctKeys; decide +kernel, ?_⟩
    intro key w hget
    have hw : w = .mapping [("includeMap", .bool false)] ∨ w = .mapping [("k", .int 1)] := by
      simp only [aliased, Mapping.get?] at hget
      grind
    rcases hw with rfl | rfl
    · refine hflat (by unfold DistinctKeys; decide +kernel) fun key w hget => ?_
      obtain rfl := Option.some.inj (Option.ite_none_right_eq_some.mp hget).2
      exact ⟨nofun, nofun⟩
    · refine hflat (by unfold DistinctKeys; decide +kernel) fun key w hget => ?_
      obtain rfl := Option.some.inj (Option.ite_none_right_eq_some.mp hget).2
      exact ⟨nofun, nofun⟩
  exact hdistinct place n h id

theorem overrides_touch_named_mixed :
    (∀ place n, (Value.mapping (aliased false 1)).at? place = some (.mapping n) → DistinctKeys n) ∧
    (applyOverrides true aliases (aliased false 1) (overridingVariables switchingOn)).value =
      .ok (aliased true 1) ∧
    ∃ done, Run true aliases (aliased false 1) (overridingVariables switchingOn) done
        (aliased true 1) ∧
      follow? (.mapping (aliased true 1)) ["y", "k"] =
        follow? (.mapping (aliased false 1)) ["y", "k"] ∧
      ∀ a ∈ done, a.keys = ["reducer", "includeMap"] ∧
        follow? (.mapping (aliased true 1)) a.keys = some (.bool true) := by
  have hnamed : overridingVariables switchingOn = [("REDUCER__INCLUDE_MAP", "true")] := by
    decide +kernel
  have hspelled : variablePath true "REDUCER__INCLUDE_MAP" = .ok ["reducer", "include_map"] := rfl
  have hcoerce : coerce "true" = .ok (.bool true) := rfl
  have hset : assignShared aliases (aliased false 1) ["reducer", "include_map"] (.bool true) =
      .ok (["reducer", "includeMap"], aliased true 1, aliases) := rfl
  have happly : (applyOverrides true aliases (aliased false 1)
      (overridingVariables switchingOn)).value = .ok (aliased true 1) := by
    simp only [hnamed, applyOverrides, overrideOf, hspelled, hcoerce, hset, bind, Except.bind, pure,
      Except.pure]
  obtain ⟨⟨done, hrun, -, htouch⟩, -⟩ := overrides_touch_named
    (fun place n => distinctKeys_aliased) (by decide) happly
  have hdone : done = [⟨"REDUCER__INCLUDE_MAP", "true", ["reducer", "includeMap"], .bool true⟩] := by
    rw [hnamed] at hrun
    cases hrun with
    | passed hpath => cases hspelled.symm.trans hpath
    | assigned hpath hne hvalue hassign hrest =>
      cases hspelled.symm.trans hpath
      cases hcoerce.symm.trans hvalue
      cases hset.symm.trans hassign
      cases hrest
      rfl
  subst hdone
  obtain ⟨hvalues, hframe, -⟩ := htouch (by decide +kernel)
  refine ⟨fun place n => distinctKeys_aliased, happly, _, hrun, hframe _ (by simp [Related]), ?_⟩
  intro a ha
  have hfound := hvalues a ha
  obtain rfl := List.mem_singleton.mp ha
  refine ⟨rfl, hfound fun b hb hlt => ?_⟩
  -- no variable comes after itself
  rw [List.mem_singleton.mp hb] at hlt
  exact absurd hlt (lt_irrefl _)

/-- A variable for a setting of the mapping at one place changes the one at the other place. -/
theorem override_shows_elsewhere :
    (applyOverrides true aliases (aliased false 1)
        (overridingVariables [("ADOC_REDUCER_X__K", "2")])).value = .ok (aliased false 2) ∧
      (assign? (aliased false 1) ["x", "k"] (.int 2)).map (·.1) = some ["x", "k"] ∧
      ¬ Related ["y", "k"] ["x", "k"] ∧
      follow? (.mapping (aliased false 1)) ["y", "k"] = some (.int 1) ∧
      follow? (.mapping (aliased false 2)) ["y", "k"] = some (.int 2) := by
  have hnamed : overridingVariables [("ADOC_REDUCER_X__K", "2")] = [("X__K", "2")] := by
    decide +kernel
  have hspelled : variablePath true "X__K" = .ok ["x", "k"] := rfl
  have hcoerce : coerce "2" = .ok (.int 2) := rfl
  have hset : assignShared aliases (aliased false 1) ["x", "k"] (.int 2) =
      .ok (["x", "k"], aliased false 2, aliases) := rfl
  refine ⟨?_, rfl, by simp [Related], rfl, rfl⟩
  simp only [hnamed, applyOverrides, overrideOf, hspelled, hcoerce, hset, bind, Except.bind, pure,
    Except.pure]

end Config

end DocFlatten
