import DocFlatten.Attribute.AttrList
import DocFlatten.Proofs.Precedence
import Mathlib.Data.List.Nodup

/-! # Attribute lists read back

An attribute list whose values stand between quotes is read back entry by entry: a quoted value may
have commas, equals signs, blanks and the other quote in it.

* `QuotedEntry`, `listText`: an entry with a quoted value as it is written, and a list of them;
* `splitEntries_chars`: an entry is passed over as a whole, whatever follows it, so a list is cut
  between its entries only (`splitEntries_listText`);
* `QuotedEntry.settings`, `parseList_listText`: what an entry sets, and that reading a list sets this
  for one entry after the other;
* `parseList_reads_back`: if names are not given twice, this amounts to the entries and their options.
-/

namespace DocFlatten

/-- If a key always comes with the same value, a value is the last one of a key exactly if the two come
together at all. -/
theorem Mapping.last?_eq_some_iff {α : Type} {entries : List (String × α)}
    (h : ∀ a ∈ entries, ∀ b ∈ entries, a.1 = b.1 → a.2 = b.2) {key : String} {value : α} :
    last? entries key = some value ↔ (key, value) ∈ entries := by
  constructor
  · intro hlast
    exact List.mem_reverse.mp (mem_of_get? hlast)
  · intro hmem
    have hkey : key ∈ keys entries.reverse :=
      List.mem_map.mpr ⟨(key, value), List.mem_reverse.mpr hmem, rfl⟩
    obtain ⟨found, hfound⟩ := Option.isSome_iff_exists.mp (isSome_get?.mpr hkey)
    have hsame : found = value := h _ (List.mem_reverse.mp (mem_of_get? hfound)) _ hmem rfl
    rw [← hsame]
    exact hfound

namespace Attribute

open DocFlatten.Text

/-! ## Entries as they are written -/

/-- A named entry with its value between quotes, and the blanks around it. -/
structure QuotedEntry where
  name : String
  value : String
  quote : Char
  before : List Char
  after : List Char
  name_ne : name ≠ ""
  lower_name : lower name = name
  name_free : ∀ c ∈ name.toList, c ≠ '=' ∧ c ≠ ',' ∧ isQuote c = false ∧ isBlank c = false
  isQuote_quote : isQuote quote = true
  quote_free : quote ∉ value.toList
  before_blank : ∀ c ∈ before, isBlank c = true
  after_blank : ∀ c ∈ after, isBlank c = true

namespace QuotedEntry

/-- The value of an entry between its quotes. -/
def quoted (e : QuotedEntry) : List Char :=
  e.quote :: e.value.toList ++ [e.quote]

/-- An entry without the blanks around it. -/
def core (e : QuotedEntry) : List Char :=
  e.name.toList ++ '=' :: e.quoted

/-- The characters of an entry. -/
def chars (e : QuotedEntry) : List Char :=
  e.before ++ e.core ++ e.after

/-- An entry is about options and lists this one between its commas. -/
def Lists (e : QuotedEntry) (option : String) : Prop :=
  (e.name = "opts" ∨ e.name = "options") ∧ option ≠ "" ∧
    ∃ piece ∈ e.value.toList.splitOn ',', option = strip (String.ofList piece)

/-- What an entry sets: its name, and each option that it lists. -/
def settings (e : QuotedEntry) : List (String × String) :=
  (e.name, e.value) ::
    if isOptionsName e.name then (optionsOf e.value).map fun option => (option ++ "-option", "")
    else []

end QuotedEntry

/-- The text of a list of entries, with commas between them. -/
def listText (entries : List QuotedEntry) : String :=
  String.ofList ([','].intercalate (entries.map QuotedEntry.chars))

/-! ## Cutting a list into entries -/

variable {cs : List Char}

/-- Characters that are put back in front extend the first piece. -/
theorem foldr_consFirst (cs piece : List Char) (pieces : List (List Char)) :
    cs.foldr consFirst (piece :: pieces) = (cs ++ piece) :: pieces := by
  induction cs with
  | nil => rfl
  | cons c cs ih => rw [List.foldr_cons, ih]; rfl

/-- Outside quotes, characters that are neither quotes nor commas are passed over. -/
theorem splitEntries_plain (h : ∀ c ∈ cs, isQuote c = false ∧ c ≠ ',') (rest : List Char) :
    splitEntries none (cs ++ rest) = cs.foldr consFirst (splitEntries none rest) := by
  induction cs with
  | nil => rfl
  | cons c cs ih =>
    obtain ⟨⟨hquote, hcomma⟩, hcs⟩ := List.forall_mem_cons.mp h
    rw [List.cons_append, splitEntries, hquote, if_neg Bool.false_ne_true,
      if_neg (by simpa using hcomma), ih hcs, List.foldr_cons]

/-- Behind a quote, everything up to the next one of its kind is passed over. -/
theorem splitEntries_open {quote : Char} (h : quote ∉ cs) (rest : List Char) :
    splitEntries (some quote) (cs ++ quote :: rest) =
      (cs ++ [quote]).foldr consFirst (splitEntries none rest) := by
  induction cs with
  | nil => rw [List.nil_append, splitEntries, if_pos (by simp)]; rfl
  | cons c cs ih =>
    obtain ⟨hc, hcs⟩ : quote ≠ c ∧ quote ∉ cs := by simpa using h
    rw [List.cons_append, splitEntries, if_neg (by simpa using hc.symm), ih hcs]
    rfl

/-- A blank neither opens quotes nor separates entries. -/
theorem not_quote_of_isBlank {c : Char} (h : isBlank c = true) : isQuote c = false ∧ c ≠ ',' := by
  have hcomma : isBlank ',' = false := by decide
  have hdouble : isBlank '"' = false := by decide
  have hsingle : isBlank '\'' = false := by decide
  refine ⟨?_, by rintro rfl; simp [hcomma] at h⟩
  rw [isQuote, Bool.or_eq_false_iff]
  constructor
  · exact beq_eq_false_iff_ne.mpr (by rintro rfl; simp [hdouble] at h)
  · exact beq_eq_false_iff_ne.mpr (by rintro rfl; simp [hsingle] at h)

theorem not_isBlank_of_isQuote {c : Char} (h : isQuote c = true) : isBlank c = false := by
  by_contra hblank
  rw [Bool.not_eq_false] at hblank
  simp [(not_quote_of_isBlank hblank).1] at h

/-- A list is not cut inside of an entry. -/
theorem splitEntries_chars (e : QuotedEntry) (rest : List Char) :
    splitEntries none (e.chars ++ rest) = e.chars.foldr consFirst (splitEntries none rest) := by
  -- before the value nothing opens quotes or separates entries
  have hfront : ∀ c ∈ e.before ++ e.name.toList ++ ['='], isQuote c = false ∧ c ≠ ',' := by
    intro c hc
    rcases List.mem_append.mp hc with hc | hc
    · rcases List.mem_append.mp hc with hc | hc
      · exact not_quote_of_isBlank (e.before_blank c hc)
      · obtain ⟨-, hcomma, hquote, -⟩ := e.name_free c hc
        exact ⟨hquote, hcomma⟩
    · obtain rfl := List.mem_singleton.mp hc
      decide
  have hchars : ∀ rest, e.chars ++ rest = (e.before ++ e.name.toList ++ ['=']) ++
      e.quote :: (e.value.toList ++ e.quote :: (e.after ++ rest)) := by
    intro rest
    simp [QuotedEntry.chars, QuotedEntry.core, QuotedEntry.quoted]
  have hblanks := splitEntries_plain (fun c hc => not_quote_of_isBlank (e.after_blank c hc)) rest
  -- a quote is put in front of the first piece like any other character
  have hquoted : ∀ pieces, consFirst e.quote pieces = [e.quote].foldr consFirst pieces :=
    fun _ => rfl
  rw [hchars, splitEntries_plain hfront, splitEntries, if_pos e.isQuote_quote,
    splitEntries_open e.quote_free, hblanks, hquoted, ← List.foldr_append, ← List.foldr_append,
    ← List.foldr_append]
  congr 1
  simpa using (hchars []).symm

/-- A list is cut between its entries, and nowhere else. -/
theorem splitEntries_listText {entries : List QuotedEntry} (h : entries ≠ []) :
    splitEntries none (listText entries).toList = entries.map QuotedEntry.chars := by
  rw [listText, String.toList_ofList]
  induction entries with
  | nil => exact absurd rfl h
  | cons e rest ih =>
    cases rest with
    | nil =>
      have hlast := splitEntries_chars e []
      rw [List.append_nil, splitEntries, foldr_consFirst, List.append_nil] at hlast
      simpa using hlast
    | cons next rest =>
      have hcomma : isQuote ',' = false := by decide
      rw [List.map_cons, List.map_cons, List.intercalate_cons_cons, List.append_assoc,
        List.singleton_append, splitEntries_chars, splitEntries, hcomma,
        if_neg Bool.false_ne_true, if_pos (by simp), ← List.map_cons, ih (by simp),
        foldr_consFirst, List.append_nil]

/-! ## Reading an entry -/

namespace QuotedEntry

/-- There is nothing to strip from quotes. -/
theorem stripChars_quoted (e : QuotedEntry) : stripChars e.quoted = e.quoted := by
  have hquote := not_isBlank_of_isQuote e.isQuote_quote
  refine stripChars_of_edges ?_ ?_
  · simp [quoted, hquote]
  · intro c hc
    obtain rfl : e.quote = c := by simpa [quoted, List.getLast?_cons] using hc
    exact hquote

theorem stripChars_name (e : QuotedEntry) : stripChars e.name.toList = e.name.toList := by
  refine stripChars_of_edges ?_ ?_
  · exact fun c hc => (e.name_free c (List.mem_of_mem_head? hc)).2.2.2
  · exact fun c hc => (e.name_free c (List.mem_of_mem_getLast? hc)).2.2.2

/-- Of an entry, only the blanks around it are stripped. -/
theorem stripChars_chars (e : QuotedEntry) : stripChars e.chars = e.core := by
  have hquote := not_isBlank_of_isQuote e.isQuote_quote
  refine stripChars_pad e.before_blank e.after_blank ?_ ?_
  · intro c hc
    cases hname : e.name.toList with
    | nil => exact absurd (String.toList_inj.mp hname) e.name_ne
    | cons first others =>
      obtain rfl : first = c := by simpa [core, hname] using hc
      exact (e.name_free first (by simp [hname])).2.2.2
  · intro c hc
    obtain rfl : e.quote = c := by
      simpa [core, quoted, List.getLast?_append, List.getLast?_cons] using hc
    exact hquote

/-- Without its quotes a value is what was written. -/
theorem unquote_quoted (e : QuotedEntry) : unquote e.quoted = e.value.toList := by
  simp [unquote, quoted, e.isQuote_quote]

/-- An entry is read as what it says. -/
theorem ofChars_core (e : QuotedEntry) : ListEntry.ofChars e.core = .named e.name e.value := by
  have hname : ∀ c ∈ e.name.toList, (c != '=') = true :=
    fun c hc => bne_iff_ne.mpr (e.name_free c hc).1
  have hdrop : e.core.dropWhile (· != '=') = '=' :: e.quoted := by
    rw [core, List.dropWhile_append_of_pos hname, List.dropWhile_cons_of_neg (by simp)]
  have htake : e.core.takeWhile (· != '=') = e.name.toList := by
    rw [core, List.takeWhile_append_of_pos hname, List.takeWhile_cons_of_neg (by simp),
      List.append_nil]
  unfold ListEntry.ofChars
  rw [hdrop, htake]
  dsimp only
  rw [e.stripChars_name, String.ofList_toList, e.lower_name, e.stripChars_quoted,
    e.unquote_quoted, String.ofList_toList]

theorem core_ne_nil (e : QuotedEntry) : e.core ≠ [] := by
  simp [core]

end QuotedEntry

/-- The entries that are read from a list are those it was written with. -/
theorem listEntries_listText (entries : List QuotedEntry) :
    listEntries (listText entries) = entries.map fun e => .named e.name e.value := by
  by_cases h : entries = []
  · subst h
    rfl
  · have hcores : (entries.map QuotedEntry.core).filter (!·.isEmpty) =
        entries.map QuotedEntry.core := by
      rw [List.filter_eq_self]
      intro core hcore
      obtain ⟨e, -, rfl⟩ := List.mem_map.mp hcore
      simp [e.core_ne_nil]
    have hstrip : stripChars ∘ QuotedEntry.chars = QuotedEntry.core :=
      funext QuotedEntry.stripChars_chars
    unfold listEntries
    rw [splitEntries_listText h, List.map_map, hstrip, hcores, List.map_map]
    exact List.map_congr_left fun e _ => e.ofChars_core

/-! ## Options -/

/-- An option is a piece of the value that is not empty, without the blanks around it. -/
theorem mem_optionsOf {value option : String} :
    option ∈ optionsOf value ↔
      option ≠ "" ∧ ∃ piece ∈ value.toList.splitOn ',', option = strip (String.ofList piece) := by
  have hsplit : splitWhere (· == ',') value.toList = value.toList.splitOn ',' := by
    rw [splitWhere_eq, List.splitOn_eq_splitOnP]
  unfold optionsOf splitAt
  rw [hsplit, List.mem_filter, List.map_map, List.mem_map, bne_iff_ne, and_comm]
  simp only [Function.comp_apply, eq_comm]

/-- An entry gives its own setting and one for each option that it lists. -/
theorem QuotedEntry.mem_settings {e : QuotedEntry} {key value : String} :
    (key, value) ∈ e.settings ↔ (e.name = key ∧ e.value = value) ∨
      (value = "" ∧ ∃ option, e.Lists option ∧ key = option ++ "-option") := by
  have hname : isOptionsName e.name = true ↔ e.name = "opts" ∨ e.name = "options" := by
    simp [isOptionsName]
  unfold settings Lists
  rw [List.mem_cons, Prod.mk.injEq, eq_comm (a := key), eq_comm (a := value) (b := e.value)]
  refine or_congr_right ?_
  split
  · rename_i hoptions
    simp only [List.mem_map, mem_optionsOf, Prod.mk.injEq, hname.mp hoptions, true_and]
    constructor
    · rintro ⟨option, hoption, rfl, rfl⟩
      exact ⟨rfl, option, hoption, rfl⟩
    · rintro ⟨rfl, option, hoption, rfl⟩
      exact ⟨option, hoption, rfl, rfl⟩
  · rename_i hoptions
    have hnot : ¬ (e.name = "opts" ∨ e.name = "options") := fun h => hoptions (hname.mpr h)
    simp [hnot]

/-! ## Reading a list -/

/-- Adding an entry sets what the entry sets. -/
theorem addEntry_named (state : Nat × Attributes) (e : QuotedEntry) :
    addEntry state (.named e.name e.value) = (state.1, Mapping.insertAll state.2 e.settings) := by
  unfold QuotedEntry.settings Mapping.insertAll
  simp only [addEntry, List.foldl_cons]
  by_cases hoptions : isOptionsName e.name = true
  · rw [if_pos hoptions, if_pos hoptions, List.foldl_map]
  · rw [if_neg hoptions, if_neg hoptions, List.foldl_nil]

/-- What is read from the text of entries are their settings, in order. -/
theorem parseList_listText (entries : List QuotedEntry) :
    parseList (listText entries) = Mapping.ofList (entries.flatMap QuotedEntry.settings) := by
  have hfold : ∀ state : Nat × Attributes,
      (entries.foldl (fun state e => addEntry state (.named e.name e.value)) state).2 =
        Mapping.insertAll state.2 (entries.flatMap QuotedEntry.settings) := by
    induction entries with
    | nil => exact fun state => rfl
    | cons e entries ih =>
      intro state
      rw [List.foldl_cons, ih, addEntry_named, List.flatMap_cons]
      simp [Mapping.insertAll]
  unfold parseList
  rw [listEntries_listText, List.foldl_map, hfold]
  rfl

/-- Entries with different names, none of which is the key of an option of the list, are read back:
the names with their values, and an empty value under the key of each option. -/
theorem parseList_reads_back {entries : List QuotedEntry}
    (hnames : (entries.map (·.name)).Nodup)
    (hoptions : ∀ e ∈ entries, ∀ lister ∈ entries, ∀ option, lister.Lists option →
      e.name ≠ option ++ "-option") :
    (Mapping.keys (parseList (listText entries))).Nodup ∧
      ∀ key value, Mapping.get? (parseList (listText entries)) key = some value ↔
        (∃ e ∈ entries, e.name = key ∧ e.value = value) ∨
          (value = "" ∧ ∃ e ∈ entries, ∃ option, e.Lists option ∧ key = option ++ "-option") := by
  have hmem : ∀ {key value}, (key, value) ∈ entries.flatMap QuotedEntry.settings ↔
      (∃ e ∈ entries, e.name = key ∧ e.value = value) ∨
        (value = "" ∧ ∃ e ∈ entries, ∃ option, e.Lists option ∧ key = option ++ "-option") := by
    intro key value
    simp only [List.mem_flatMap, QuotedEntry.mem_settings]
    constructor
    · rintro ⟨e, he, hown | ⟨hvalue, option, hlists⟩⟩
      · exact Or.inl ⟨e, he, hown⟩
      · exact Or.inr ⟨hvalue, e, he, option, hlists⟩
    · rintro (⟨e, he, hown⟩ | ⟨hvalue, e, he, option, hlists⟩)
      · exact ⟨e, he, Or.inl hown⟩
      · exact ⟨e, he, Or.inr ⟨hvalue, option, hlists⟩⟩
  -- no key is set to different values, so it does not matter which setting is the last
  have hsame : ∀ a ∈ entries.flatMap QuotedEntry.settings,
      ∀ b ∈ entries.flatMap QuotedEntry.settings, a.1 = b.1 → a.2 = b.2 := by
    rintro ⟨key, value⟩ ha ⟨key', value'⟩ hb rfl
    rcases hmem.mp ha with ⟨e, he, hkey, rfl⟩ | ⟨rfl, lister, hlister, option, hlists, rfl⟩ <;>
      rcases hmem.mp hb with ⟨e', he', hkey', rfl⟩ | ⟨rfl, lister', hlister', option', hlists', heq⟩
    · rw [List.inj_on_of_nodup_map hnames he he' (hkey.trans hkey'.symm)]
    · exact absurd (hkey.trans heq) (hoptions e he lister' hlister' option' hlists')
    · exact absurd hkey' (hoptions e' he' lister hlister option hlists)
    · rfl
  rw [parseList_listText]
  refine ⟨Mapping.nodup_keys_ofList _, fun key value => ?_⟩
  rw [Mapping.get?_ofList, Mapping.last?_eq_some_iff hsame, hmem]

/-- An entry whose value has a comma, an equals sign, blanks and the other quote. -/
def linesEntry : QuotedEntry where
  name := "lines"
  value := "1;3, \"5\" = 7"
  quote := '\''
  before := []
  after := [' ']
  name_ne := by decide
  lower_name := by decide
  name_free c hc := by
    have hall : "lines".toList.all
        (fun c => c != '=' && (c != ',' && (!isQuote c && !isBlank c))) = true := by decide
    simpa using List.all_eq_true.mp hall c hc
  isQuote_quote := by decide
  quote_free := by decide
  before_blank := List.all_eq_true.mp (by decide)
  after_blank := List.all_eq_true.mp (by decide)

/-- An entry with two options. -/
def optionsEntry : QuotedEntry where
  name := "opts"
  value := " optional,,it's "
  quote := '"'
  before := [' ', '\t']
  after := []
  name_ne := by decide
  lower_name := by decide
  name_free c hc := by
    have hall : "opts".toList.all
        (fun c => c != '=' && (c != ',' && (!isQuote c && !isBlank c))) = true := by decide
    simpa using List.all_eq_true.mp hall c hc
  isQuote_quote := by decide
  quote_free := by decide
  before_blank := List.all_eq_true.mp (by decide)
  after_blank := List.all_eq_true.mp (by decide)

/-- Two entries, one of them with a list of options. -/
theorem parseList_reads_back_options :
    ([linesEntry, optionsEntry].map (·.name)).Nodup ∧
      (∀ e ∈ [linesEntry, optionsEntry], ∀ lister ∈ [linesEntry, optionsEntry], ∀ option,
        lister.Lists option → e.name ≠ option ++ "-option") ∧
      let attributes := parseList "lines='1;3, \"5\" = 7' , \topts=\" optional,,it's \""
      Mapping.get? attributes "lines" = some "1;3, \"5\" = 7" ∧
        Mapping.get? attributes "opts" = some " optional,,it's " ∧
        Mapping.get? attributes "it's-option" = some "" := by
  have hnames : ([linesEntry, optionsEntry].map (·.name)).Nodup := by decide
  have hoptions : ∀ e ∈ [linesEntry, optionsEntry], ∀ lister ∈ [linesEntry, optionsEntry],
      ∀ option, lister.Lists option → e.name ≠ option ++ "-option" := by
    -- a name of an option is longer than both names
    intro e he lister _ option _ hname
    have hlength := congrArg String.length hname
    have hshort : e.name.length ≤ 5 := by
      rcases List.mem_pair.mp he with rfl | rfl <;> decide
    rw [String.length_append, show "-option".length = 7 from rfl] at hlength
    omega
  have htext : listText [linesEntry, optionsEntry] =
      "lines='1;3, \"5\" = 7' , \topts=\" optional,,it's \"" := by decide
  have hlists : optionsEntry.Lists "it's" :=
    ⟨Or.inl rfl, by decide, "it's ".toList, by decide, by decide⟩
  obtain ⟨-, hread⟩ := parseList_reads_back hnames hoptions
  rw [htext] at hread
  exact ⟨hnames, hoptions, (hread _ _).mpr (Or.inl ⟨linesEntry, by simp, rfl, rfl⟩),
    (hread _ _).mpr (Or.inl ⟨optionsEntry, by simp, rfl, rfl⟩),
    (hread _ _).mpr (Or.inr ⟨rfl, optionsEntry, by simp, "it's", hlists, by decide⟩)⟩

end Attribute

end DocFlatten
