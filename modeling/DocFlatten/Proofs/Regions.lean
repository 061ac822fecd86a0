import DocFlatten.Proofs.Numbering

/-! # Tagged regions are local

The lines of a file are kept or left out one after the other, and what decides is the stack of regions
that are open. A region that is complete leaves the stack as it was, so it can be put anywhere without
a change for the lines around it:

* `WellNested`: lines in which every region that starts ends, after those that start inside of it;
* `TagRule.after`, `TagRule.decisions`: the stack after some lines and the decision for each of them;
  both go on over lines that are put together, and lines that are well nested keep the stack
  (`WellNested.after_eq`);
* `chosen`, `Marked`: the lines that are kept if there is one decision for each;
* `picks_tagged`: a selection by tags has these lines and the number of the first one.

`inserted_region_local` has all of it.
-/

namespace DocFlatten.Selection

/-- Lines in which regions nest: each one that starts ends with a marker of its name, and what is
between its markers is well nested. -/
inductive WellNested : List String → Prop where
  | nil : WellNested []
  | text {line : String} {rest : List String} (hline : Marker.ofLine? line = none)
      (hrest : WellNested rest) : WellNested (line :: rest)
  | region {name opening closing : String} {inner rest : List String}
      (hopening : Marker.ofLine? opening = some (.start name)) (hinner : WellNested inner)
      (hclosing : Marker.ofLine? closing = some (.stop name)) (hrest : WellNested rest) :
    WellNested (opening :: (inner ++ closing :: rest))

/-- Markers of a tag with well-nested lines between them. -/
structure IsRegion (name opening : String) (inner : List String) (closing : String) : Prop where
  starts : Marker.ofLine? opening = some (.start name)
  nested : WellNested inner
  ends : Marker.ofLine? closing = some (.stop name)

theorem IsRegion.wellNested {name opening closing : String} {inner rest : List String}
    (h : IsRegion name opening inner closing) (hrest : WellNested rest) :
    WellNested (opening :: (inner ++ closing :: rest)) :=
  .region h.starts h.nested h.ends hrest

/-! ## Regions and decisions along lines -/

namespace TagRule

/-- The open regions after some lines. -/
def after (rule : TagRule) : Regions → List String → Regions
  | regions, [] => regions
  | regions, line :: rest =>
    match Marker.ofLine? line with
    | some marker => rule.after (rule.advance regions marker) rest
    | none => rule.after regions rest

/-- Whether each of some lines is kept, given the open regions before them. -/
def decisions (rule : TagRule) : Regions → List String → List Bool
  | _, [] => []
  | regions, line :: rest =>
    match Marker.ofLine? line with
    | some marker => false :: rule.decisions (rule.advance regions marker) rest
    | none => rule.decision regions :: rule.decisions regions rest

variable {rule : TagRule} {regions : Regions} {line : String} {marker : Marker}

/-- A marker changes what is open. -/
theorem after_marker (h : Marker.ofLine? line = some marker) (rest : List String) :
    rule.after regions (line :: rest) = rule.after (rule.advance regions marker) rest := by
  rw [after, h]

/-- A line of text changes nothing. -/
theorem after_text (h : Marker.ofLine? line = none) (rest : List String) :
    rule.after regions (line :: rest) = rule.after regions rest := by
  rw [after, h]

/-- A marker is left out. -/
theorem decisions_marker (h : Marker.ofLine? line = some marker) (rest : List String) :
    rule.decisions regions (line :: rest) =
      false :: rule.decisions (rule.advance regions marker) rest := by
  rw [decisions, h]

/-- A line of text is decided by what is open. -/
theorem decisions_text (h : Marker.ofLine? line = none) (rest : List String) :
    rule.decisions regions (line :: rest) = rule.decision regions :: rule.decisions regions rest := by
  rw [decisions, h]

/-- What is open after lines is open after the last of them. -/
theorem after_append (rule : TagRule) (regions : Regions) (lines rest : List String) :
    rule.after regions (lines ++ rest) = rule.after (rule.after regions lines) rest := by
  induction lines generalizing regions with
  | nil => rfl
  | cons line more ih =>
    rw [List.cons_append]
    cases hmarker : Marker.ofLine? line with
    | none => rw [after_text hmarker, after_text hmarker, ih]
    | some marker => rw [after_marker hmarker, after_marker hmarker, ih]

/-- What comes after some lines is decided by the regions that they leave open. -/
theorem decisions_append (rule : TagRule) (regions : Regions) (lines rest : List String) :
    rule.decisions regions (lines ++ rest) =
      rule.decisions regions lines ++ rule.decisions (rule.after regions lines) rest := by
  induction lines generalizing regions with
  | nil => rfl
  | cons line more ih =>
    rw [List.cons_append]
    cases hmarker : Marker.ofLine? line with
    | none =>
      rw [decisions_text hmarker, decisions_text hmarker, after_text hmarker, ih, List.cons_append]
    | some marker =>
      rw [decisions_marker hmarker, decisions_marker hmarker, after_marker hmarker, ih,
        List.cons_append]

@[simp] theorem length_decisions (rule : TagRule) (regions : Regions) (lines : List String) :
    (rule.decisions regions lines).length = lines.length := by
  induction lines generalizing regions with
  | nil => rfl
  | cons line more ih =>
    cases hmarker : Marker.ofLine? line with
    | none => rw [decisions_text hmarker, List.length_cons, List.length_cons, ih]
    | some marker => rw [decisions_marker hmarker, List.length_cons, List.length_cons, ih]

/-- An end closes the innermost region if it has its name. -/
theorem advance_stop (rule : TagRule) (regions : Regions) (name : String) (keep : Bool) :
    rule.advance ((name, keep) :: regions) (.stop name) = regions := by
  simp [advance]

end TagRule

variable {rule : TagRule}

/-- Lines that are well nested leave the regions open that were open before, and no other ones. -/
theorem WellNested.after_eq {lines : List String} (h : WellNested lines) (regions : Regions) :
    rule.after regions lines = regions := by
  induction h generalizing regions with
  | nil => rfl
  | text hline hrest ih => rw [TagRule.after_text hline, ih]
  | @region name opening closing inner rest hopening hinner hclosing hrest ihinner ihrest =>
    rw [TagRule.after_marker hopening, TagRule.after_append, ihinner, TagRule.after_marker hclosing]
    -- the stack has the region of the two markers on top, and the end takes it off
    show rule.after (rule.advance ((name, _) :: regions) (.stop name)) rest = regions
    rw [TagRule.advance_stop, ihrest]

/-! ## Lines with a decision for each -/

/-- The entries for which the decision is to keep them. -/
def chosen {α : Type} (entries : List α) (flags : List Bool) : List α :=
  ((entries.zip flags).filter (·.2)).map (·.1)

/-- Whether the decision for a line is to keep it, by the number of the line. -/
def Marked (flags : List Bool) (number : Nat) : Prop :=
  flags[number - 1]? = some true

/-- What is chosen of joined lines is chosen of each part. -/
theorem chosen_append {α : Type} {entries : List α} {flags : List Bool}
    (h : flags.length = entries.length) (entries' : List α) (flags' : List Bool) :
    chosen (entries ++ entries') (flags ++ flags') = chosen entries flags ++ chosen entries' flags' := by
  unfold chosen
  rw [List.zip_append h.symm, List.filter_append, List.map_append]

/-- Choosing goes along with changing the entries. -/
theorem map_chosen {α β : Type} (f : α → β) (entries : List α) (flags : List Bool) :
    (chosen entries flags).map f = chosen (entries.map f) flags := by
  unfold chosen
  rw [List.zip_map_left, List.filter_map, List.map_map, List.map_map]
  rfl

/-- What is chosen keeps its order. -/
theorem chosen_sublist {α : Type} (entries : List α) (flags : List Bool) :
    (chosen entries flags).Sublist entries := by
  induction entries generalizing flags with
  | nil => exact List.Sublist.refl []
  | cons entry rest ih =>
    cases flags with
    | nil => exact List.nil_sublist _
    | cons flag more =>
      cases flag with
      | false => exact (ih more).cons entry
      | true => exact (ih more).cons_cons entry

/-- An entry is chosen exactly if a flag says so. -/
theorem mem_chosen_iff {α : Type} {entries : List α} {flags : List Bool} {entry : α} :
    entry ∈ chosen entries flags ↔
      ∃ place : Nat, entries[place]? = some entry ∧ flags[place]? = some true := by
  unfold chosen
  constructor
  · intro h
    obtain ⟨⟨entry', flag⟩, hmem, rfl⟩ := List.mem_map.mp h
    obtain ⟨hzip, hflag⟩ := List.mem_filter.mp hmem
    obtain ⟨place, hplace⟩ := List.mem_iff_getElem?.mp hzip
    rw [List.getElem?_zip_eq_some] at hplace
    obtain rfl : flag = true := hflag
    exact ⟨place, hplace⟩
  · rintro ⟨place, hentry, hflag⟩
    have hzip : (entries.zip flags)[place]? = some (entry, true) :=
      List.getElem?_zip_eq_some.mpr ⟨hentry, hflag⟩
    exact List.mem_map.mpr ⟨(entry, true), List.mem_filter.mpr ⟨List.mem_of_getElem? hzip, rfl⟩, rfl⟩

/-- A numbered line is chosen exactly if its flag says so. -/
theorem mem_chosen_numbered_iff {lines : List String} {flags : List Bool} {entry : String × Nat}
    (h : entry ∈ numbered lines) : entry ∈ chosen (numbered lines) flags ↔ Marked flags entry.2 := by
  have hplaces : ∀ place, (numbered lines)[place]? = some entry ↔ place = entry.2 - 1 := by
    intro place
    obtain ⟨hlow, hline⟩ := mem_numbered_iff.mp h
    unfold numbered
    rw [List.getElem?_zipIdx, Option.map_eq_some_iff]
    constructor
    · rintro ⟨line, -, rfl⟩
      show place = 1 + place - 1
      omega
    · rintro rfl
      refine ⟨entry.1, hline, Prod.ext rfl ?_⟩
      show 1 + (entry.2 - 1) = entry.2
      omega
  rw [mem_chosen_iff]
  constructor
  · rintro ⟨place, hentry, hflag⟩
    rwa [(hplaces place).mp hentry] at hflag
  · intro hflag
    exact ⟨_, (hplaces _).mpr rfl, hflag⟩

/-- Lines that are kept by one decision for each of them. -/
theorem picks_chosen (lines : List String) (flags : List Bool) :
    (ofKept (chosen (numbered lines) flags)).Picks lines (Marked flags) :=
  picks_ofKept (chosen_sublist _ _) fun _ => mem_chosen_numbered_iff

/-- A selection has the lines that are chosen. -/
theorem lines_ofKept_chosen (lines : List String) (flags : List Bool) :
    (ofKept (chosen (numbered lines) flags)).lines = chosen lines flags := by
  show (chosen (numbered lines) flags).map (·.1) = chosen lines flags
  rw [map_chosen, numbered, List.zipIdx_map_fst]

/-- A rule keeps the lines for which it decides so. -/
theorem TagRule.keep_eq_chosen (rule : TagRule) (regions : Regions) (entries : List (String × Nat)) :
    rule.keep regions entries = chosen entries (rule.decisions regions (entries.map (·.1))) := by
  induction entries generalizing regions with
  | nil => rfl
  | cons entry rest ih =>
    unfold TagRule.keep
    rw [List.map_cons]
    cases hmarker : Marker.ofLine? entry.1 with
    | some marker =>
      rw [decisions_marker hmarker]
      exact ih _
    | none =>
      rw [decisions_text hmarker]
      cases hkeep : rule.decision regions with
      | false => exact ih regions
      | true => exact congrArg (entry :: ·) (ih regions)

/-! ## Directives with tags -/

/-- The rule that a specification of tags makes. -/
abbrev ruleOf (spec : String) : TagRule :=
  TagRule.ofTags (parseTags spec)

/-- What a specification of tags decides for each of some lines. One that lists no tag keeps all. -/
def tagDecisions (spec : String) (lines : List String) : List Bool :=
  if parseTags spec = [] then lines.map fun _ => true else (ruleOf spec).decisions [] lines

/-- A directive asks for tags, and not for line numbers, which would come first. -/
structure AsksTags (attributes : Attributes) (spec : String) : Prop where
  noNumbers : ¬ AsksNumbers attributes
  spec : (given? attributes "tag" <|> given? attributes "tags") = some spec

variable {attributes : Attributes} {spec : String}

/-- Without tags every line is chosen. -/
theorem tagDecisions_of_nil (htags : parseTags spec = []) (lines : List String) :
    tagDecisions spec lines = lines.map fun _ => true :=
  if_pos htags

/-- With tags the rule decides. -/
theorem tagDecisions_of_ne_nil (htags : parseTags spec ≠ []) (lines : List String) :
    tagDecisions spec lines = (ruleOf spec).decisions [] lines :=
  if_neg htags

theorem chosen_all {α : Type} (entries : List α) :
    chosen entries (entries.map fun _ => true) = entries := by
  induction entries with
  | nil => rfl
  | cons entry rest ih => exact congrArg (entry :: ·) ih

/-- A selection by tags has the lines and the number that its decisions come to. -/
theorem ofAttributes_of_asksTags (h : AsksTags attributes spec) (path : String)
    (lines : List String) :
    let expected := ofKept (chosen (numbered lines) (tagDecisions spec lines))
    (ofAttributes attributes path lines).1.lines = expected.lines ∧
      (ofAttributes attributes path lines).1.lineno = expected.lineno := by
  intro expected
  rw [ofAttributes_eq_byTags h.noNumbers]
  unfold byTags
  rw [h.spec]
  cases htags : parseTags spec with
  | nil =>
    -- no tag is listed: all lines are kept, and the first one has the number 1
    simp only [htags]
    have hall : expected = ofKept (numbered lines) := by
      show ofKept (chosen (numbered lines) (tagDecisions spec lines)) = _
      have hflags : tagDecisions spec lines = (numbered lines).map fun _ => true := by
        rw [tagDecisions_of_nil htags, List.map_const', List.map_const', numbered, List.length_zipIdx]
      rw [hflags, chosen_all]
    rw [hall]
    constructor
    · show lines = (numbered lines).map (·.1)
      rw [numbered, List.zipIdx_map_fst]
    · show 1 = ((numbered lines).head?.map (·.2)).getD 1
      cases lines with
      | nil => rfl
      | cons line rest => rfl
  | cons tag more =>
    simp only [htags]
    have hkept : expected = ofKept ((TagRule.ofTags (tag :: more)).keep [] (numbered lines)) := by
      show ofKept (chosen (numbered lines) (tagDecisions spec lines)) = _
      have hne : parseTags spec ≠ [] := by
        rw [htags]
        exact List.cons_ne_nil tag more
      rw [tagDecisions_of_ne_nil hne, ruleOf, htags, TagRule.keep_eq_chosen, numbered,
        List.zipIdx_map_fst]
    rw [hkept]
    exact ⟨rfl, rfl⟩

/-- A selection by tags has the lines that are chosen. -/
theorem lines_tagged (h : AsksTags attributes spec) (path : String) (lines : List String) :
    (ofAttributes attributes path lines).1.lines = chosen lines (tagDecisions spec lines) := by
  rw [(ofAttributes_of_asksTags h path lines).1, lines_ofKept_chosen]

/-- A selection by tags picks what is decided. -/
theorem picks_tagged (h : AsksTags attributes spec) (path : String) (lines : List String) :
    (ofAttributes attributes path lines).1.Picks lines (Marked (tagDecisions spec lines)) := by
  obtain ⟨hlines, hlineno⟩ := ofAttributes_of_asksTags h path lines
  obtain ⟨⟨entries, hsublist, hwanted, hentries⟩, hleast⟩ :=
    picks_chosen lines (tagDecisions spec lines)
  constructor
  · exact ⟨entries, hsublist, hwanted, hlines.trans hentries⟩
  · rwa [hlineno]

/-! ## Regions that are put in -/

/-- Between any two lines, well-nested lines change no decision but their own. -/
theorem tagDecisions_insert {inner : List String} (hinner : WellNested inner) (spec : String)
    (before after : List String) : ∃ front piece back : List Bool,
      front.length = before.length ∧ piece.length = inner.length ∧ back.length = after.length ∧
      tagDecisions spec (before ++ after) = front ++ back ∧
      tagDecisions spec (before ++ inner ++ after) = front ++ piece ++ back := by
  by_cases htags : parseTags spec = []
  · refine ⟨before.map fun _ => true, inner.map fun _ => true, after.map fun _ => true,
      List.length_map _, List.length_map _, List.length_map _, ?_, ?_⟩
    · rw [tagDecisions_of_nil htags, List.map_append]
    · rw [tagDecisions_of_nil htags, List.map_append, List.map_append]
  · let rule := ruleOf spec
    -- the piece closes what it opens, so the lines after it meet the same regions
    let opened := rule.after [] before
    refine ⟨rule.decisions [] before, rule.decisions opened inner, rule.decisions opened after,
      rule.length_decisions _ _, rule.length_decisions _ _, rule.length_decisions _ _, ?_, ?_⟩
    · rw [tagDecisions_of_ne_nil htags, TagRule.decisions_append]
    · rw [tagDecisions_of_ne_nil htags, TagRule.decisions_append, TagRule.decisions_append,
        TagRule.after_append, hinner.after_eq]

/-- A region of well-nested lines may be put between any two lines of a file, and for each of the other
lines the decision stays what it was, whatever the specification lists. The lines that are kept are the
old ones in their order, and between them those of the region that are kept; the number is that of the
first one of them in the new file. Nothing is said about the other lines: they need not be nested. -/
theorem inserted_region_local {name opening closing : String} {inner : List String}
    (hasks : AsksTags attributes spec) (hregion : IsRegion name opening inner closing) (path : String)
    (before after : List String) :
    let region := opening :: (inner ++ [closing])
    let old := (ofAttributes attributes path (before ++ after)).1
    let new := (ofAttributes attributes path (before ++ region ++ after)).1
    ∃ front piece back : List Bool,
      front.length = before.length ∧ piece.length = region.length ∧ back.length = after.length ∧
      old.Picks (before ++ after) (Marked (front ++ back)) ∧
      new.Picks (before ++ region ++ after) (Marked (front ++ piece ++ back)) ∧
      old.lines = chosen before front ++ chosen after back ∧
      new.lines = chosen before front ++ chosen region piece ++ chosen after back := by
  intro region old new
  obtain ⟨front, piece, back, hfront, hpiece, hback, hold, hnew⟩ :=
    tagDecisions_insert (hregion.wellNested .nil) spec before after
  refine ⟨front, piece, back, hfront, hpiece, hback, ?_, ?_, ?_, ?_⟩
  · rw [← hold]
    exact picks_tagged hasks path _
  · rw [← hnew]
    exact picks_tagged hasks path _
  · show (ofAttributes attributes path (before ++ after)).1.lines = _
    rw [lines_tagged hasks, hold, chosen_append hfront]
  · show (ofAttributes attributes path (before ++ region ++ after)).1.lines = _
    have hlength : (front ++ piece).length = (before ++ region).length := by
      rw [List.length_append, List.length_append, hfront, hpiece]
    rw [lines_tagged hasks, hnew, chosen_append hlength, chosen_append hfront]

/-- A region with an unlisted one inside is put into a region that is left out. -/
theorem inserted_region_local_nested :
    let attributes : Attributes := [("tags", "*;!secret")]
    let before := ["one", "tag::secret[]", "two"]
    let after := ["three", "end::secret[]", "four"]
    let region := ["tag::a[]", "five", "tag::secret[]", "six", "end::secret[]", "end::a[]"]
    AsksTags attributes "*;!secret" ∧
      IsRegion "a" "tag::a[]" ["five", "tag::secret[]", "six", "end::secret[]"] "end::a[]" ∧
      (ofAttributes attributes "f.adoc" (before ++ region ++ after)).1.lines = ["five"] ∧
      ∃ front piece back : List Bool,
        front.length = 3 ∧ piece.length = 6 ∧ back.length = 3 ∧
        (ofAttributes attributes "f.adoc" (before ++ after)).1.Picks (before ++ after)
          (Marked (front ++ back)) ∧
        (ofAttributes attributes "f.adoc" (before ++ region ++ after)).1.Picks
          (before ++ region ++ after) (Marked (front ++ piece ++ back)) := by
  intro attributes before after region
  have hasks : AsksTags attributes "*;!secret" := by
    constructor
    · rintro ⟨text, r, htext, -⟩
      cases htext
    · decide
  have hsecret : IsRegion "secret" "tag::secret[]" ["six"] "end::secret[]" :=
    ⟨by decide, .text (by decide) .nil, by decide⟩
  have hregion : IsRegion "a" "tag::a[]" ["five", "tag::secret[]", "six", "end::secret[]"]
      "end::a[]" :=
    ⟨by decide, .text (by decide) (hsecret.wellNested .nil), by decide⟩
  obtain ⟨front, piece, back, hfront, hpiece, hback, hold, hnew, -, -⟩ :=
    inserted_region_local hasks hregion "f.adoc" before after
  exact ⟨hasks, hregion, by decide +kernel, front, piece, back, hfront, hpiece, hback, hold, hnew⟩

end DocFlatten.Selection
