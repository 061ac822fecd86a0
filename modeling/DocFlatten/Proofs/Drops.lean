import Mathlib.Data.List.Induction
import DocFlatten.Replacement.Drops

/-! # Drops by original index

`applyTable` carries out merged drops one after the other on a list that shrinks meanwhile.
What it leaves can be said line by line: `settleLine` decides on each line by its index before
any change, and `applyTable_mergeDrops` says that this is what is left. So the order of drops
does not matter, nor how often one is said: `drops_act_by_original_index`.
-/

namespace DocFlatten.Replacement

/-! ## Deciding on one line -/

@[simp] theorem Drop.index_delete (i : Int) : (Drop.delete i).index = i := rfl

@[simp] theorem Drop.index_overwrite (i : Int) (text : String) :
    (Drop.overwrite i text).index = i := rfl

/-- The text of an instruction if it overwrites the line with an index. -/
def Drop.textAt? (i : Int) : Drop → Option String
  | .overwrite j text => if j = i then some text else none
  | .delete _ => none

/-- The text of the first overwrite of a line. -/
def firstText? (drops : List Drop) (i : Int) : Option String :=
  drops.findSome? (Drop.textAt? i)

/-- What drops make of the line with an index: a deletion wins, then the first overwrite. -/
def settleLine (drops : List Drop) (i : Int) (f : Fragment) : List Fragment :=
  if .delete i ∈ drops then []
  else match firstText? drops i with
    | some text => [.text text]
    | none => [f]

/-- The instruction that counts for an index. -/
def winner? (drops : List Drop) (i : Int) : Option Drop :=
  if .delete i ∈ drops then some (.delete i)
  else (firstText? drops i).map (.overwrite i)

/-- What one instruction, if there is one, makes of a line. -/
def settleBy (d : Option Drop) (f : Fragment) : List Fragment :=
  match d with
  | none => [f]
  | some (.delete _) => []
  | some (.overwrite _ text) => [.text text]

/-- What wins among the drops of a line settles it. -/
theorem settleBy_winner? (drops : List Drop) (i : Int) (f : Fragment) :
    settleBy (winner? drops i) f = settleLine drops i f := by
  unfold winner? settleLine
  split
  · rfl
  · cases firstText? drops i <;> rfl

/-- Instructions on other lines do not count. -/
theorem settleLine_of_forall_ne {drops : List Drop} {i : Int} (f : Fragment)
    (h : ∀ d ∈ drops, d.index ≠ i) : settleLine drops i f = [f] := by
  have hdelete : Drop.delete i ∉ drops := fun hd => h _ hd rfl
  have htext : firstText? drops i = none := by
    rw [firstText?, List.findSome?_eq_none_iff]
    intro d hd
    cases d with
    | delete j => rfl
    | overwrite j text =>
      have hj : j ≠ i := h _ hd
      simp [Drop.textAt?, hj]
  simp [settleLine, hdelete, htext]

/-- Only the drops on a line decide on it. -/
theorem settleLine_congr {drops drops' : List Drop} {i : Int} (f : Fragment)
    (h : drops.filter (·.index = i) = drops'.filter (·.index = i)) :
    settleLine drops i f = settleLine drops' i f := by
  have hdelete : Drop.delete i ∈ drops ↔ Drop.delete i ∈ drops' := by
    have := congrArg (Drop.delete i ∈ ·) h
    simpa [List.mem_filter] using this
  have htext : ∀ ds : List Drop,
      firstText? (ds.filter (·.index = i)) i = firstText? ds i := by
    intro ds
    unfold firstText?
    induction ds with
    | nil => rfl
    | cons d ds ih =>
      cases d with
      | delete j => by_cases hj : j = i <;> simp [List.findSome?_cons, Drop.textAt?, hj, ih]
      | overwrite j text => by_cases hj : j = i <;> simp [Drop.textAt?, hj, ih]
  unfold settleLine
  rw [← htext drops, ← htext drops', h]
  simp only [hdelete]

/-! ## Tables

A table has one entry for each index, filed under the index of its instruction.
-/

/-- One entry for each index, under its own index. -/
structure Proper (table : DropTable) : Prop where
  nodup : (table.map (·.1)).Nodup
  filed : ∀ entry ∈ table, entry.2.index = entry.1

/-- In a proper table a drop is found at its index exactly if it is listed there. -/
theorem dropAt?_eq_some_iff {table : DropTable} (h : Proper table) (i : Int) (d : Drop) :
    dropAt? table i = some d ↔ (i, d) ∈ table := by
  have hnodup := h.nodup
  clear h
  induction table with
  | nil => simp [dropAt?]
  | cons entry rest ih =>
    obtain ⟨j, e⟩ := entry
    rw [List.map_cons, List.nodup_cons] at hnodup
    have ih := ih hnodup.2
    by_cases hij : j = i
    · subst hij
      have hrest : ∀ d, (j, d) ∉ rest := fun d hd =>
        hnodup.1 (List.mem_map.mpr ⟨(j, d), hd, rfl⟩)
      simp [dropAt?, hrest, eq_comm]
    · unfold dropAt? at ih ⊢
      simp [hij, Ne.symm hij, ih]

theorem dropAt?_index {table : DropTable} (h : Proper table) {i : Int} {d : Drop}
    (hd : dropAt? table i = some d) : d.index = i :=
  h.filed _ ((dropAt?_eq_some_iff h i d).mp hd)

/-- A deletion in the place of the instruction for its index. -/
theorem dropAt?_map_delete (table : DropTable) (j i : Int) :
    dropAt? (table.map fun entry => if entry.1 == j then (j, .delete j) else entry) i =
      if j = i then (dropAt? table i).map fun _ => .delete j else dropAt? table i := by
  induction table with
  | nil => simp [dropAt?]
  | cons entry rest ih =>
    unfold dropAt? at ih ⊢
    by_cases hej : entry.1 = j <;> by_cases hji : j = i <;> by_cases hei : entry.1 = i <;> simp_all

/-- Putting deletions in the place of drops keeps a table proper. -/
theorem proper_map_delete {table : DropTable} (h : Proper table) (j : Int) :
    Proper (table.map fun entry => if entry.1 == j then (j, .delete j) else entry) := by
  have hkeys : (table.map fun entry =>
      if entry.1 == j then (j, Drop.delete j) else entry).map (·.1) = table.map (·.1) := by
    rw [List.map_map]
    refine List.map_congr_left fun entry _ => ?_
    by_cases hj : entry.1 = j <;> simp [hj]
  constructor
  · rw [hkeys]
    exact h.nodup
  · intro entry hentry
    obtain ⟨old, hold, rfl⟩ := List.mem_map.mp hentry
    by_cases hj : old.1 = j
    · simp [hj]
    · simpa [hj] using h.filed old hold

/-- What a further instruction changes: it enters a free place, and a deletion takes the place
of what is there. -/
theorem dropAt?_mergeDrop {table : DropTable} (h : Proper table) (d : Drop) (i : Int) :
    dropAt? (mergeDrop table d).1 i =
      if d.index = i then
        match dropAt? table i, d with
        | none, d => some d
        | some _, .delete j => some (.delete j)
        | some current, .overwrite _ _ => some current
      else dropAt? table i := by
  unfold mergeDrop
  cases hcurrent : dropAt? table d.index with
  | none =>
    by_cases hi : d.index = i
    · subst hi
      unfold dropAt? at hcurrent ⊢
      rw [Option.map_eq_none_iff] at hcurrent
      simp [List.find?_append, hcurrent]
    · unfold dropAt?
      simp [List.find?_append, hi]
  | some current =>
    have hindex := dropAt?_index h hcurrent
    -- an instruction that is there already changes nothing
    by_cases heq : (current == d) = true
    · have heq : current = d := by simpa using heq
      subst heq
      by_cases hi : current.index = i
      · subst hi
        simp only [beq_self_eq_true, if_true, hcurrent]
        cases current <;> rfl
      · simp [hi]
    · simp only [heq]
      cases d with
      | overwrite j text =>
        by_cases hi : j = i
        · subst hi
          simp only [Drop.index] at hcurrent
          simp [hcurrent]
        · simp [hi]
      | delete j =>
        simp only [Drop.index] at hcurrent ⊢
        rw [if_neg (by simp), dropAt?_map_delete]
        by_cases hi : j = i
        · subst hi
          simp [hcurrent]
        · simp [hi]

/-- So does merging a drop into it. -/
theorem proper_mergeDrop {table : DropTable} (h : Proper table) (d : Drop) :
    Proper (mergeDrop table d).1 := by
  unfold mergeDrop
  cases hcurrent : dropAt? table d.index with
  | none =>
    -- no entry has this index, so the keys stay distinct
    have hfree : d.index ∉ table.map (·.1) := by
      intro hmem
      obtain ⟨entry, hentry, hkey⟩ := List.mem_map.mp hmem
      have hsome : dropAt? table d.index = some entry.2 := by
        rw [dropAt?_eq_some_iff h]
        simpa [← hkey] using hentry
      simp [hsome] at hcurrent
    constructor
    · simp only [List.map_append, List.map_cons, List.map_nil]
      rw [List.nodup_append]
      refine ⟨h.nodup, by simp, ?_⟩
      intro a ha b hb
      rw [List.mem_singleton] at hb
      subst hb
      exact fun hab => hfree (hab ▸ ha)
    · intro entry hentry
      rcases List.mem_append.mp hentry with hold | hnew
      · exact h.filed entry hold
      · rw [List.mem_singleton] at hnew
        subst hnew
        rfl
  | some current =>
    by_cases heq : (current == d) = true
    · simpa [heq] using h
    · simp only [heq]
      cases d with
      | overwrite j text => exact h
      | delete j =>
        rw [if_neg (by simp)]
        exact proper_map_delete h j

/-- Merging a further drop comes after merging those before. -/
theorem mergeDrops_concat (drops : List Drop) (d : Drop) :
    (mergeDrops (drops ++ [d])).1 = (mergeDrop (mergeDrops drops).1 d).1 := by
  simp [mergeDrops, List.foldl_append]

theorem proper_mergeDrops (drops : List Drop) : Proper (mergeDrops drops).1 := by
  induction drops using List.reverseRecOn with
  | nil => exact ⟨by simp [mergeDrops], by simp [mergeDrops]⟩
  | append_singleton drops d ih =>
    rw [mergeDrops_concat]
    exact proper_mergeDrop ih d

/-- Merging keeps for each index the instruction that counts. -/
theorem dropAt?_mergeDrops (drops : List Drop) (i : Int) :
    dropAt? (mergeDrops drops).1 i = winner? drops i := by
  induction drops using List.reverseRecOn with
  | nil => simp [mergeDrops, dropAt?, winner?, firstText?]
  | append_singleton drops d ih =>
    rw [mergeDrops_concat, dropAt?_mergeDrop (proper_mergeDrops drops), ih]
    unfold winner? firstText?
    rw [List.findSome?_append]
    cases d with
    -- a deletion wins at its index, and leaves the other ones as they are
    | delete j =>
      by_cases hj : j = i
      · subst hj
        by_cases hdelete : Drop.delete j ∈ drops <;>
          cases drops.findSome? (Drop.textAt? j) <;> simp [hdelete]
      · simp [hj, Ne.symm hj, Drop.textAt?]
    -- a text wins at its index unless another drop is there already
    | overwrite j text =>
      by_cases hj : j = i
      · subst hj
        by_cases hdelete : Drop.delete j ∈ drops <;>
          cases drops.findSome? (Drop.textAt? j) <;>
            simp [hdelete, Drop.textAt?]
      · simp [hj, Drop.textAt?]

/-! ## From the highest index down -/

/-- The lines left by at most one instruction for each index, from an index on. -/
def settleFrom (at? : Int → Option Drop) (lines : List Fragment) (first : Nat) : List Fragment :=
  (lines.zipIdx first).flatMap fun line => settleBy (at? line.2) line.1

/-- Lines can be settled in two parts. -/
theorem settleFrom_append (at? : Int → Option Drop) (ls ms : List Fragment) (first : Nat) :
    settleFrom at? (ls ++ ms) first =
      settleFrom at? ls first ++ settleFrom at? ms (first + ls.length) := by
  simp [settleFrom, List.zipIdx_append, List.flatMap_append]

/-- Only the drops at the indices of the lines matter. -/
theorem settleFrom_congr {at? at?' : Int → Option Drop} (lines : List Fragment) (first : Nat)
    (h : ∀ i : Nat, first ≤ i → i < first + lines.length → at? i = at?' i) :
    settleFrom at? lines first = settleFrom at?' lines first := by
  induction lines generalizing first with
  | nil => rfl
  | cons f rest ih =>
    have hfirst := h first (Nat.le_refl _) (by simp)
    have hrest := ih (first + 1) fun i hle hlt => h i (by omega) (by simp at hlt ⊢; omega)
    simp only [settleFrom, List.zipIdx_cons, List.flatMap_cons] at hrest ⊢
    rw [hfirst, hrest]

/-- Without drops the lines stay as they are. -/
theorem settleFrom_of_none {at? : Int → Option Drop} (lines : List Fragment) (first : Nat)
    (h : ∀ i : Nat, first ≤ i → at? i = none) : settleFrom at? lines first = lines := by
  induction lines generalizing first with
  | nil => rfl
  | cons f rest ih =>
    have hrest := ih (first + 1) fun i hle => h i (by omega)
    simp only [settleFrom, List.zipIdx_cons, List.flatMap_cons] at hrest ⊢
    rw [h first (Nat.le_refl _), hrest]
    rfl

/-- The instruction for an index in a list of them. -/
def found? (drops : List Drop) (i : Int) : Option Drop :=
  drops.find? (·.index == i)

theorem found?_cons_of_ne {d : Drop} (drops : List Drop) {i : Int} (h : d.index ≠ i) :
    found? (d :: drops) i = found? drops i := by
  simp [found?, h]

/-- Behind the last drop none is found. -/
theorem found?_of_lt {drops : List Drop} {i : Int} (h : ∀ d ∈ drops, d.index < i) :
    found? drops i = none := by
  simp only [found?, List.find?_eq_none]
  intro d hd heq
  have := h d hd
  simp at heq
  omega

/-- A drop in range changes the line at its index and no other one. -/
theorem applyDrop_of_lt {d : Drop} {lines : List Fragment} {k : Nat} (hk : d.index = k)
    (hlt : k < lines.length) :
    applyDrop lines d = lines.take k ++ (settleBy (some d) lines[k] ++ lines.drop (k + 1)) := by
  cases d with
  | delete j =>
    simp only [Drop.index_delete] at hk
    simp [applyDrop, hk, hlt, List.eraseIdx_eq_take_drop_succ, settleBy]
  | overwrite j text =>
    simp only [Drop.index_overwrite] at hk
    simp [applyDrop, hk, hlt, List.set_eq_take_append_cons_drop, settleBy]

/-- The highest instruction splits the lines: below its index the other ones decide, and above it
nothing happens. -/
theorem settleFrom_cons {d : Drop} {drops : List Drop} {lines : List Fragment} {k : Nat}
    (habove : ∀ e ∈ drops, e.index < d.index) (hk : d.index = k) (hlt : k < lines.length) :
    settleFrom (found? (d :: drops)) lines 0 =
      settleFrom (found? drops) (lines.take k) 0 ++
        (settleBy (some d) lines[k] ++ lines.drop (k + 1)) := by
  have hsplit : lines = lines.take k ++ lines[k] :: lines.drop (k + 1) := by simp
  have hlength : (lines.take k).length = k := by
    rw [List.length_take]
    omega
  -- below the index the new drop is not found
  have hbelow : settleFrom (found? (d :: drops)) (lines.take k) 0 =
      settleFrom (found? drops) (lines.take k) 0 :=
    settleFrom_congr _ _ fun i _ hi => found?_cons_of_ne drops (by rw [hlength] at hi; omega)
  -- and above it there is none
  have htail : settleFrom (found? (d :: drops)) (lines.drop (k + 1)) (k + 1) =
      lines.drop (k + 1) :=
    settleFrom_of_none _ _ fun i hi => by
      rw [found?_cons_of_ne drops (by omega)]
      exact found?_of_lt fun e he => by
        have := habove e he
        omega
  have hhere : found? (d :: drops) k = some d := by simp [found?, hk]
  conv_lhs => rw [hsplit]
  rw [settleFrom_append, hlength, hbelow, Nat.zero_add]
  congr 1
  rw [← List.singleton_append (x := lines[k]), settleFrom_append, List.length_singleton, htail]
  simp [settleFrom, hhere]

/-- Carrying out instructions from the highest index down does to each line what the
instruction for its index says: what an earlier one has moved lies above all later ones. -/
theorem foldl_applyDrop (drops : List Drop) (lines : List Fragment)
    (h : drops.Pairwise fun a b => b.index < a.index) :
    drops.foldl applyDrop lines = settleFrom (found? drops) lines 0 := by
  induction drops generalizing lines with
  | nil => exact (settleFrom_of_none lines 0 fun _ _ => rfl).symm
  | cons d rest ih =>
    rw [List.pairwise_cons] at h
    rw [List.foldl_cons, ih _ h.2]
    by_cases hrange : 0 ≤ d.index ∧ d.index < lines.length
    · -- the lines behind the dropped one have been settled already
      obtain ⟨k, hk⟩ := Int.eq_ofNat_of_zero_le hrange.1
      have hlt : k < lines.length := by omega
      have hlength : (lines.take k).length = k := by
        rw [List.length_take]
        omega
      have hmoved : ∀ ls : List Fragment, settleFrom (found? rest) ls (0 + k) = ls := fun ls =>
        settleFrom_of_none _ _ fun i hi => found?_of_lt fun e he => by
          have := h.1 e he
          omega
      rw [settleFrom_cons h.1 hk hlt, applyDrop_of_lt hk hlt, settleFrom_append, hlength, hmoved]
    · -- a drop out of range changes nothing
      have happly : applyDrop lines d = lines := by
        simp only [applyDrop]
        rw [if_neg (by simpa using hrange)]
      rw [happly]
      exact (settleFrom_congr _ _ fun i _ hi => found?_cons_of_ne rest (by omega)).symm

/-! ## The whole of it -/

/-- The drops of a table are found at the indices it lists them at. -/
theorem found?_eq_dropAt? {table : DropTable} (h : ∀ entry ∈ table, entry.2.index = entry.1)
    (i : Int) : found? (table.map (·.2)) i = dropAt? table i := by
  induction table with
  | nil => rfl
  | cons entry rest ih =>
    have ih := ih fun e he => h e (List.mem_cons_of_mem _ he)
    have hentry := h entry List.mem_cons_self
    unfold found? dropAt? at ih ⊢
    by_cases hi : entry.1 = i <;> simp_all

theorem Proper.perm {table table' : DropTable} (h : Proper table) (hperm : table'.Perm table) :
    Proper table' :=
  ⟨(hperm.map _).nodup_iff.mpr h.nodup, fun entry hentry =>
    h.filed entry (hperm.mem_iff.mp hentry)⟩

/-- The order of a proper table does not matter. -/
theorem dropAt?_perm {table table' : DropTable} (h : Proper table) (hperm : table'.Perm table)
    (i : Int) : dropAt? table' i = dropAt? table i := by
  ext d
  rw [dropAt?_eq_some_iff (h.perm hperm), dropAt?_eq_some_iff h, hperm.mem_iff]

/-- Sorted by their indices, instructions stand from the highest index down. -/
theorem pairwise_index_mergeSort {table : DropTable} (h : Proper table) :
    ((table.mergeSort fun a b => b.1 ≤ a.1).map (·.2)).Pairwise fun a b => b.index < a.index := by
  have hsorted := h.perm (List.mergeSort_perm table fun a b => b.1 ≤ a.1)
  have hle : (table.mergeSort fun a b => b.1 ≤ a.1).Pairwise fun a b => b.1 ≤ a.1 :=
    (@List.pairwise_mergeSort (Int × Drop) (fun a b => decide (b.1 ≤ a.1))
      (fun a b c hab hbc => by simp at *; omega) (fun a b => by simp; omega) table).imp
        (by simp)
  have hne : (table.mergeSort fun a b => b.1 ≤ a.1).Pairwise fun a b => a.1 ≠ b.1 :=
    List.pairwise_map.mp (List.nodup_iff_pairwise_ne.mp hsorted.nodup)
  rw [List.pairwise_map]
  refine (hle.and hne).imp_of_mem fun {a b} ha hb hab => ?_
  rw [hsorted.filed a ha, hsorted.filed b hb]
  omega

/-- Merged drops leave of each line what the instructions for its original index say. -/
theorem applyTable_mergeDrops (lines : List Fragment) (drops : List Drop) :
    applyTable lines (mergeDrops drops).1 =
      lines.zipIdx.flatMap fun line => settleLine drops line.2 line.1 := by
  have hproper := proper_mergeDrops drops
  have hperm := List.mergeSort_perm (mergeDrops drops).1 fun a b => b.1 ≤ a.1
  have hfound : ∀ i, found? (((mergeDrops drops).1.mergeSort fun a b => b.1 ≤ a.1).map (·.2)) i =
      winner? drops i := by
    intro i
    rw [found?_eq_dropAt? (hproper.perm hperm).filed, dropAt?_perm hproper hperm,
      dropAt?_mergeDrops]
  unfold applyTable
  rw [foldl_applyDrop _ _ (pairwise_index_mergeSort hproper)]
  unfold settleFrom
  simp only [hfound, settleBy_winner?]

/-! ## Lists that say the same

A list of drops is a set of instructions as long as no line is overwritten with two texts: its
order matters only for the first of several overwrites.
-/

/-- No line is overwritten with two different texts. -/
def Agreeing (drops : List Drop) : Prop :=
  ∀ i s t, .overwrite i s ∈ drops → .overwrite i t ∈ drops → s = t

theorem Drop.textAt?_eq_some_iff {i : Int} {d : Drop} {text : String} :
    d.textAt? i = some text ↔ d = .overwrite i text := by
  cases d with
  | delete j => simp [Drop.textAt?]
  | overwrite j s => by_cases hj : j = i <;> simp [Drop.textAt?, hj]

/-- If drops agree, the first text for a line is the only one. -/
theorem firstText?_eq_some_iff {drops : List Drop} (h : Agreeing drops) {i : Int}
    {text : String} : firstText? drops i = some text ↔ .overwrite i text ∈ drops := by
  constructor
  · intro htext
    obtain ⟨d, hd, hat⟩ := List.exists_of_findSome?_eq_some htext
    rwa [Drop.textAt?_eq_some_iff.mp hat] at hd
  · intro hmem
    have hsome : (firstText? drops i).isSome := by
      rw [firstText?, List.findSome?_isSome_iff]
      exact ⟨_, hmem, by simp [Drop.textAt?]⟩
    obtain ⟨first, hfirst⟩ := Option.isSome_iff_exists.mp hsome
    obtain ⟨d, hd, hat⟩ := List.exists_of_findSome?_eq_some hfirst
    rw [Drop.textAt?_eq_some_iff.mp hat] at hd
    rw [hfirst, h i first text hd hmem]

/-- Lists with the same instructions decide alike on every line. -/
theorem settleLine_of_mem_iff {drops drops' : List Drop} (h : Agreeing drops)
    (hsame : ∀ d, d ∈ drops' ↔ d ∈ drops) (i : Int) (f : Fragment) :
    settleLine drops' i f = settleLine drops i f := by
  have h' : Agreeing drops' := fun j s t hs ht =>
    h j s t ((hsame _).mp hs) ((hsame _).mp ht)
  have htext : firstText? drops' i = firstText? drops i := by
    ext text
    rw [firstText?_eq_some_iff h, firstText?_eq_some_iff h', hsame]
  simp only [settleLine, hsame, htext]

/-- What a list of drops leaves depends on what it decides on the lines that there are. -/
theorem applyTable_congr {lines : List Fragment} {drops drops' : List Drop}
    (h : ∀ i : Nat, i < lines.length → ∀ f, settleLine drops' i f = settleLine drops i f) :
    applyTable lines (mergeDrops drops').1 = applyTable lines (mergeDrops drops).1 := by
  rw [applyTable_mergeDrops, applyTable_mergeDrops, List.flatMap_def, List.flatMap_def]
  refine congrArg List.flatten (List.map_congr_left fun line hline => ?_)
  exact h line.2 (by simpa using (List.mem_zipIdx hline).2.1) line.1

/-- Drops act on original indices, in any order. Merged and carried out, they delete a line,
overwrite it with the first text for it, or keep it, each by its index before any change.
Drops outside the lines do nothing. If no line is overwritten with two texts, any list of the
same drops does the same, in whatever order and however often they are said. -/
theorem drops_act_by_original_index (lines : List Fragment) (drops : List Drop) :
    (applyTable lines (mergeDrops drops).1 =
      lines.zipIdx.flatMap fun line => settleLine drops line.2 line.1) ∧
    (applyTable lines
        (mergeDrops (drops.filter fun d => 0 ≤ d.index ∧ d.index < lines.length)).1 =
      applyTable lines (mergeDrops drops).1) ∧
    (Agreeing drops → ∀ drops', (∀ d, d ∈ drops' ↔ d ∈ drops) →
      applyTable lines (mergeDrops drops').1 = applyTable lines (mergeDrops drops).1) := by
  refine ⟨applyTable_mergeDrops lines drops, ?_, ?_⟩
  · refine applyTable_congr fun i hi f => settleLine_congr f ?_
    rw [List.filter_filter]
    refine List.filter_congr fun d _ => ?_
    by_cases hd : d.index = i
    · simp [hd, hi]
    · simp [hd]
  · intro hagree drops' hsame
    exact applyTable_congr fun i _ f => settleLine_of_mem_iff hagree hsame i f

/-- A deletion said twice and after an overwrite of its line: the line goes in either list. -/
theorem drops_act_by_original_index_reordered :
    let lines : List Fragment := [.text "a", .text "b", .text "c", .text "d"]
    let drops : List Drop := [.overwrite 1 "x", .delete 1, .overwrite 3 "y", .delete 9]
    let drops' : List Drop := [.delete 9, .overwrite 3 "y", .delete 1, .overwrite 1 "x", .delete 1]
    Agreeing drops ∧ (∀ d, d ∈ drops' ↔ d ∈ drops) ∧
      applyTable lines (mergeDrops drops').1 = [.text "a", .text "c", .text "y"] := by
  intro lines drops drops'
  have hagree : Agreeing drops := by
    intro i s t hs ht
    simp [drops] at hs ht
    grind
  have hsame : ∀ d, d ∈ drops' ↔ d ∈ drops := by
    intro d
    simp [drops, drops']
    grind
  refine ⟨hagree, hsame, ?_⟩
  rw [(drops_act_by_original_index lines drops).2.2 hagree drops' hsame,
    (drops_act_by_original_index lines drops).1]
  rfl

end DocFlatten.Replacement
