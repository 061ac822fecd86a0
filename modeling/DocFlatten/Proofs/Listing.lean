import DocFlatten.Proofs.Entering
import DocFlatten.Proofs.Rebuilding
import DocFlatten.Proofs.Reopening

/-! # Reading the include map back

The include map at the end of a reduced document lists the names of the catalogue with a comma
between them and a tilde in front of those of which only a part was included. Nothing is escaped. So
it reads back exactly if every name can be told from what is written around it
(`reduced_map_reads_back`); a file with a comma in its name reads back as two
(`comma_splits_name`).

* `written`, `read_written`: an entry as it is listed, and what is read of one that has no comma;
* `IsReadable`: the entries that are read back as themselves;
* `read_format`: an include map without a name that is listed twice reads back exactly if all of its
  entries are readable;
* `harmless_listed`: reading never lists a name twice.
-/

namespace DocFlatten.IncludeMap

open DocFlatten.Text

/-! ## One entry -/

/-- An entry as it is listed. -/
def written (entry : String × Bool) : String :=
  if entry.2 then entry.1 else "~" ++ entry.1

/-- What a listed text stands for, if it stands for anything. -/
def read? (text : String) : Option (String × Bool) :=
  if strip text = "" then none else some (entryOf (strip text))

/-- An entry that is read back as itself: its name has no comma, and the blanks that are taken off
and the tilde that marks a part are not its own. -/
def IsReadable (entry : String × Bool) : Prop :=
  ',' ∉ entry.1.toList ∧
    if entry.2 then entry.1 ≠ "" ∧ strip entry.1 = entry.1 ∧ entry.1.toList.head? ≠ some '~'
    else stripEnd entry.1 = entry.1

instance (entry : String × Bool) : Decidable (IsReadable entry) := by
  unfold IsReadable
  infer_instance

/-- A name without the mark in front is that of a whole file. -/
theorem entryOf_of_head {name : String} (h : name.toList.head? ≠ some '~') :
    entryOf name = (name, true) := by
  unfold entryOf
  split
  · rename_i rest hlist
    rw [hlist] at h
    exact absurd rfl h
  · rfl

/-- A name with the mark is that of a part. -/
theorem entryOf_tilde (name : String) : entryOf ("~" ++ name) = (name, false) := by
  simp [entryOf]

/-- A listed text stands for a whole file if it does not start with a tilde. -/
theorem entryOf_eq_true {text name : String} :
    entryOf text = (name, true) ↔ text = name ∧ name.toList.head? ≠ some '~' := by
  constructor
  · intro h
    unfold entryOf at h
    split at h
    · cases h
    · rename_i hnot
      cases h
      refine ⟨rfl, ?_⟩
      intro hhead
      cases hlist : text.toList with
      | nil => simp [hlist] at hhead
      | cons c rest =>
        rw [hlist] at hhead
        obtain rfl := Option.some.inj hhead
        exact hnot rest hlist
  · rintro ⟨rfl, hhead⟩
    exact entryOf_of_head hhead

/-- A tilde is not blank, so only the end of what follows it is taken off. -/
theorem strip_tilde (name : String) : strip ("~" ++ name) = "~" ++ stripEnd name := by
  have htilde : isBlank '~' = false := by decide
  refine String.toList_inj.mp ?_
  unfold strip stripEnd
  simp only [String.toList_append, String.toList_ofList]
  exact stripChars_cons htilde name.toList

/-- An entry without a comma is read back exactly if it is readable. -/
theorem read_written {entry : String × Bool} (hcomma : ',' ∉ entry.1.toList) :
    read? (written entry) = some entry ↔ IsReadable entry := by
  obtain ⟨name, whole⟩ := entry
  unfold read? written IsReadable
  cases whole with
  -- the name of a whole file is written as it is, and read without blanks around it
  | true =>
    simp only [if_true]
    constructor
    · intro h
      split at h
      · cases h
      · rename_i hne
        obtain ⟨hstrip, hhead⟩ := entryOf_eq_true.mp (Option.some.inj h)
        rw [hstrip] at hne
        exact ⟨hcomma, hne, hstrip, hhead⟩
    · rintro ⟨-, hne, hstrip, hhead⟩
      rw [hstrip, if_neg hne, entryOf_of_head hhead]
  -- that of a part comes behind the mark, which is neither blank nor empty
  | false =>
    have hne : ¬ "~" ++ stripEnd name = "" := by simp
    simp only [Bool.false_eq_true, if_false]
    rw [strip_tilde, if_neg hne, entryOf_tilde]
    simp [hcomma]

/-! ## The list -/

/-- The texts between the commas of an include map. -/
def listed (includes : IncludeMap) : List String :=
  splitAt (· == ',') (",".intercalate (includes.map written))

/-- The last line is read as the map that it was written from. -/
theorem getLast_format (lines : List String) (includes : IncludeMap) :
    read (lines ++ [format includes]) = Mapping.ofList ((listed includes).filterMap read?) := by
  have hmarked : (format includes).startsWith marker = true := by
    rw [String.startsWith_string_iff]
    unfold format
    rw [String.toList_append]
    exact List.prefix_append _ _
  have htail : String.ofList ((format includes).toList.drop marker.length) =
      ",".intercalate (includes.map written) := by
    unfold format
    rw [String.toList_append, ← String.length_toList, List.drop_left, String.ofList_toList]
    rfl
  unfold read
  rw [List.getLast?_concat]
  simp only [hmarked, if_true, htail]
  -- a text that is blank is listed, but not read as an entry
  congr 1
  unfold listed
  induction splitAt (· == ',') (",".intercalate (includes.map written)) with
  | nil => rfl
  | cons text texts ih =>
    rw [List.map_cons, List.filterMap_cons]
    by_cases hempty : strip text = ""
    · rw [List.filter_cons_of_neg (by simp [hempty]), ih]
      simp [read?, hempty]
    · rw [List.filter_cons_of_pos (by simp [hempty]), List.map_cons, ih]
      simp [read?, hempty]

/-- Names without commas are listed one by one. -/
theorem listed_eq {includes : IncludeMap} (hne : includes ≠ [])
    (h : ∀ entry ∈ includes, ',' ∉ entry.1.toList) : listed includes = includes.map written := by
  have hcomma : ∀ cs ∈ (includes.map written).map String.toList, ',' ∉ cs := by
    intro cs hcs
    rw [List.map_map] at hcs
    obtain ⟨entry, hentry, rfl⟩ := List.mem_map.mp hcs
    have hname := h entry hentry
    simp only [Function.comp_apply, written]
    split
    · exact hname
    · rw [String.toList_append]
      simpa using hname
  have hsplit := List.splitOn_intercalate ',' hcomma (by simpa using hne)
  rw [List.splitOn_eq_splitOnP] at hsplit
  unfold listed splitAt
  rw [splitWhere_eq, String.toList_intercalate]
  change (List.splitOnP (· == ',') ([','].intercalate _)).map String.ofList = _
  rw [hsplit]
  simp

/-- Nothing that is read of an include map has a comma. -/
theorem not_mem_of_read {text : String} {entry : String × Bool} (h : read? text = some entry)
    (hcomma : ',' ∉ text.toList) : ',' ∉ entry.1.toList := by
  have hsub : (strip text).toList ⊆ text.toList := by
    rw [strip, String.toList_ofList]
    exact stripChars_subset text.toList
  unfold read? at h
  split at h
  · cases h
  · obtain rfl := Option.some.inj h
    intro hmem
    refine hcomma (hsub ?_)
    unfold entryOf at hmem
    split at hmem
    · rename_i rest hlist
      rw [String.toList_ofList] at hmem
      rw [hlist]
      exact List.mem_cons_of_mem _ hmem
    · exact hmem

/-- What is listed has no comma, since commas separate it. -/
theorem not_mem_listed {includes : IncludeMap} {text : String} (h : text ∈ listed includes) :
    ',' ∉ text.toList := by
  obtain ⟨piece, hpiece, rfl⟩ := List.mem_map.mp h
  rw [String.toList_ofList]
  intro hmem
  have := not_mem_splitWhere hpiece ',' hmem
  simp at this

/-- All entries are read back exactly if each of them is. -/
theorem filterMap_written_eq {includes : IncludeMap} :
    (includes.map written).filterMap read? = includes ↔
      ∀ entry ∈ includes, read? (written entry) = some entry := by
  have hself := List.filterMap_eq_map_iff_forall_eq_some (f := read? ∘ written) (g := id)
    (l := includes)
  rw [List.map_id] at hself
  rw [List.filterMap_map]
  simpa only [Function.comp_apply, id_eq] using hself

/-- An include map in which no name is listed twice reads back exactly if all of its entries are
readable. -/
theorem read_format (lines : List String) {includes : IncludeMap} (hne : includes ≠ [])
    (hnodup : (Mapping.keys includes).Nodup) :
    read (lines ++ [format includes]) = includes ↔ ∀ entry ∈ includes, IsReadable entry := by
  rw [getLast_format]
  constructor
  · intro hread
    have hcomma : ∀ entry ∈ includes, ',' ∉ entry.1.toList := by
      intro entry hentry
      rw [← hread] at hentry
      rcases Mapping.mem_insertAll hentry with hnil | hlisted
      · cases hnil
      · obtain ⟨text, htext, hsome⟩ := List.mem_filterMap.mp hlisted
        exact not_mem_of_read hsome (not_mem_listed htext)
    rw [listed_eq hne hcomma] at hread
    unfold Mapping.ofList at hread
    -- as many entries are read as were written, so none was dropped and no two became one
    have hread_length := Mapping.length_insertAll_le [] ((includes.map written).filterMap read?)
    have hkept := List.length_filterMap_le read? (includes.map written)
    have hlength : ((includes.map written).filterMap read?).length = includes.length := by
      rw [List.length_map] at hkept
      rw [hread, List.length_nil, Nat.zero_add] at hread_length
      exact Nat.le_antisymm hkept hread_length
    have hexact : (includes.map written).filterMap read? = includes := by
      have hgrown := Mapping.insertAll_of_length (m := [])
        (by rw [hread, hlength, List.length_nil, Nat.zero_add])
      exact hgrown.symm.trans hread
    rw [filterMap_written_eq] at hexact
    intro entry hentry
    exact (read_written (hcomma entry hentry)).mp (hexact entry hentry)
  · intro hreadable
    have hall : (includes.map written).filterMap read? = includes :=
      filterMap_written_eq.mpr fun entry hentry =>
        (read_written (hreadable entry hentry).1).mpr (hreadable entry hentry)
    rw [listed_eq hne fun entry hentry => (hreadable entry hentry).1, hall]
    exact Mapping.insertAll_of_nodup (m := []) hnodup

/-- Registering a name lists it once. -/
theorem nodup_keys_register {includes : IncludeMap} (h : (Mapping.keys includes).Nodup)
    (name : String) (isPartial : Bool) :
    (Mapping.keys (includes.register name isPartial)).Nodup := by
  unfold register
  split
  · split
    · exact h
    · exact Mapping.nodup_keys_insert h _ _
  · exact Mapping.nodup_keys_insert h _ _

end DocFlatten.IncludeMap

namespace DocFlatten.Session

open DocFlatten.Scan

/-! ## The names of a catalogue -/

/-- Whether a session has no processors and lists no name twice. -/
def Listed (s : Session) : Prop :=
  s.doc.options.processors = [] ∧ (Mapping.keys s.doc.includes).Nodup

/-- Only the options and the includes matter. -/
theorem listed_of_includes {s s' : Session} (hs : s.Listed)
    (hoptions : s'.doc.options = s.doc.options) (hincludes : s'.doc.includes = s.doc.includes) :
    s'.Listed := by
  unfold Listed
  rw [hoptions, hincludes]
  exact hs

/-- A look lists at most the file that it leads to. -/
theorem listed_glance {s : Session} {line : String} (hs : s.Listed) (hidle : s.reader.Idle)
    (hlook : Look s line (s.glance line)) : (s.glance line).session.Listed := by
  obtain ⟨r, es, hturns⟩ := hlook.turns
  have hoptions : (s.glance line).session.doc.options = s.doc.options := by rw [hturns.doc]
  cases hinclusion : s.inclusion? line with
  | none => exact listed_of_includes hs hoptions (glance_apart hinclusion).includes
  | some e =>
    obtain ⟨i, way, es, s', -, -, hglance, hincludes, -⟩ :=
      glance_inclusion hidle.lookAhead hinclusion
    rw [hglance] at hoptions ⊢
    refine ⟨hoptions ▸ hs.1, ?_⟩
    change (Mapping.keys s'.doc.includes).Nodup
    rw [hincludes]
    exact IncludeMap.nodup_keys_register hs.2 _ _

/-- Reading never lists a name twice. -/
theorem harmless_listed : Harmless Listed where
  reading :=
    { leave := by
        intro s hs _ _ houter
        cases hscopes : s.reader.outer with
        | nil => exact absurd hscopes houter
        | cons scope outer =>
          refine listed_of_includes hs ?_ s.includes_leave
          rw [(turns_leave hscopes).doc]
      meet := fun s line hs => hs
      look := by
        rintro s line rest g hs hidle _ rfl hlook
        exact hlook.ends hs.1 (listed_glance hs hidle hlook)
      take := by
        intro s hs _ _
        unfold Listed
        rw [doc_takeFront]
        exact hs }
  edit := fun s d hs hedit => listed_of_includes hs hedit.options hedit.includes
  log := fun s record hs => hs

/-- A document that was loaded lists no name twice. -/
theorem listed_load {fuel : Nat} {files : FileTree} {source : Source} {o : LoadOptions}
    {s : Session} (h : load fuel files source o = .ok s) (hprocessors : o.processors = []) :
    s.Listed := by
  refine (load_keeps harmless_listed h fun s₀ hopen => ?_).1
  obtain ⟨mode, -, rfl⟩ := openSource_eq_ok.mp hopen
  exact ⟨hprocessors, List.nodup_nil⟩

end DocFlatten.Session

namespace DocFlatten

/-! ## Reduced documents -/

/-- A reduced document that was asked to list its includes reads them back, by name, in their order
and with what was taken of them, exactly if each of them is readable. -/
theorem reduced_map_reads_back {fuel : Nat} {files : FileTree} {source : Source} {o : LoadOptions}
    {ro : ReduceOptions} {reduced : Logged Document}
    (h : reduce fuel files source o ro = .ok reduced) (hprocessors : o.processors = [])
    (hmap : ro.includeMap = true) (hne : reduced.value.includes ≠ []) :
    IncludeMap.read reduced.value.sourceLines = reduced.value.includes ↔
      ∀ entry ∈ reduced.value.includes, IncludeMap.IsReadable entry := by
  obtain ⟨s, hload, -⟩ := reduce_eq_ok.mp h
  obtain ⟨-, hnodup⟩ := Session.listed_load hload hprocessors
  have hcatalogue := includes_reduce hload h
  obtain ⟨d, hvalue, -⟩ := reduce_tree_cases hload h
  rw [hmap, if_pos rfl] at hvalue
  -- the map is added to the lines, and the list of includes stays
  have hkept : reduced.value.includes = d.includes := by
    rw [hvalue]
    unfold Document.appendIncludeMap
    split <;> rfl
  rw [← hcatalogue, hkept] at hnodup
  rw [hkept] at hne ⊢
  have hlines : reduced.value.sourceLines =
      (d.sourceLines ++ [""]) ++ [IncludeMap.format d.includes] := by
    rw [hvalue]
    unfold Document.appendIncludeMap
    rw [if_neg (by simpa using hne), List.append_assoc]
    rfl
  rw [hlines]
  exact IncludeMap.read_format _ hne hnodup

/-- Two files, the name of one of which starts with the mark of a part. -/
def markedFiles : FileTree :=
  .ofTexts [("a.adoc", "a\n"), ("~b.adoc", "b\nc\n")]

/-- A document that includes one of them as a whole and a line of the other one. -/
def markedSource : Source :=
  .lines ["include::a.adoc[]", "include::~b.adoc[lines=2]"]

/-- A whole file and a line of another one, whose name starts with the mark of a part. -/
theorem reduced_map_reads_back_partial :
    ∃ reduced ∈ (reduce 20 markedFiles markedSource {} { includeMap := true }).toOption,
      reduced.value.sourceLines = ["a", "c", "", "//# includes=a,~~b"] ∧
      IncludeMap.read reduced.value.sourceLines = reduced.value.includes := by
  have hreduced : ∃ reduced ∈ (reduce 20 markedFiles markedSource {}
        { includeMap := true }).toOption,
      reduced.value.sourceLines = ["a", "c", "", "//# includes=a,~~b"] ∧
      reduced.value.includes ≠ [] ∧
      ∀ entry ∈ reduced.value.includes, IncludeMap.IsReadable entry := by
    decide +kernel
  obtain ⟨reduced, hmem, hlines, hne, hreadable⟩ := hreduced
  exact ⟨reduced, hmem, hlines,
    (reduced_map_reads_back (eq_ok_of_mem_toOption hmem) rfl rfl hne).mpr hreadable⟩

/-- A file whose name has a comma reads back as two files. -/
theorem comma_splits_name :
    ∃ reduced ∈ (reduce 20 (.ofTexts [("a,b.adoc", "a\n")]) (.lines ["include::a,b.adoc[]"]) {}
        { includeMap := true }).toOption,
      reduced.value.includes = [("a,b", true)] ∧
      IncludeMap.read reduced.value.sourceLines = [("a", true), ("b", true)] := by
  decide +kernel

end DocFlatten
