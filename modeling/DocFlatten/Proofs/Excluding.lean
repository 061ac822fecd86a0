import DocFlatten.Proofs.Precedence
import DocFlatten.Proofs.Regions

/-! # Tags that are refused

A specification refuses a tag with an exclamation mark. The lines of its regions are left out, but not
all of them: the innermost region decides, so a region inside of one that is refused can be kept.

* `mentions`: the tags that a specification names, in order and with repetitions, and whether it asks
  for them; of these the last one of a tag counts (`Requests`, `Refuses`, `SelectsOthers`);
* `get?_ofTags`, `selectsOthers_of_wildcard`: the rule that is made from a specification says the same,
  for listed tags and for the other ones;
* `LiesIn`: a line is in a region, with some lines before and after it inside of that region; either no
  region opens before a line and is still open, or the line lies in one (`WellNested.split`);
* `exists_favoured`: a line that is kept inside of a region that is left out lies in a further one there
  that is kept for the sake of its own tag.

`refused_regions_left_out` has all of it; `refused_regions_kept` is about the cases in which a line is
kept that no region inside of the refused one asks for by its name.
-/

namespace DocFlatten

namespace Mapping

/-- The first key of a certain kind is the first one that was set. -/
theorem find?_keys_insertAll {α : Type} (p : String → Bool) (m : Mapping α)
    (pairs : List (String × α)) :
    (keys (insertAll m pairs)).find? p = ((keys m).find? p).or ((keys pairs).find? p) := by
  induction pairs generalizing m with
  | nil => exact (Option.or_none).symm
  | cons pair rest ih =>
    show (keys (insertAll (insert m pair.1 pair.2) rest)).find? p = _
    have hkeys : keys (pair :: rest) = [pair.1] ++ keys rest := rfl
    rw [ih, hkeys, List.find?_append, ← Option.or_assoc]
    congr 1
    rw [keys_insert]
    split
    · -- a key that is set again has its place already, so it is never the first one
      rename_i hmem
      cases hfound : (keys m).find? p with
      | some key => rfl
      | none =>
        have hpair := List.find?_eq_none.mp hfound pair.1 hmem
        simp [hpair]
    · exact List.find?_append

end Mapping

namespace Selection

/-! ## What a specification says about a tag -/

/-- What a part of a specification says: a tag, and whether it is asked for or refused. -/
def mention (part : String) : String × Bool :=
  match part.toList with
  | '!' :: name => (String.ofList name, false)
  | _ => (part, true)

/-- What the parts of a specification say, in their order. -/
def mentions (spec : String) : List (String × Bool) :=
  ((partsOf spec).filter (· != "")).map mention

/-- Whether a name in a specification stands for other tags. -/
def IsWildcard (name : String) : Prop :=
  name = "*" ∨ name = "**"

instance (name : String) : Decidable (IsWildcard name) :=
  inferInstanceAs (Decidable (_ ∨ _))

/-- What a specification says about a tag: what it says last, if it lists the tag. -/
def listed? (spec name : String) : Option Bool :=
  if IsWildcard name then none else Mapping.last? (mentions spec) name

/-- A specification asks for a tag by its name. -/
def Requests (spec name : String) : Prop :=
  listed? spec name = some true

/-- A specification refuses a tag. -/
def Refuses (spec name : String) : Prop :=
  listed? spec name = some false

/-- A specification asks for the tags that it does not list: with a star, or without one if it refuses
all lines and the first other tag that it names. -/
def SelectsOthers (spec : String) : Prop :=
  Mapping.last? (mentions spec) "*" = some true ∨
    (Mapping.last? (mentions spec) "*" = none ∧ Mapping.last? (mentions spec) "**" = some false ∧
      ∃ first, (mentions spec).find? (·.1 != "**") = some first ∧
        Mapping.last? (mentions spec) first.1 = some false)

variable {spec : String}

/-- The tags that are read are those that the parts name. -/
theorem parseTags_eq (spec : String) : parseTags spec = Mapping.ofList (mentions spec) := by
  unfold parseTags mentions
  rw [specParts_eq]
  rfl

theorem parseTags_ne_nil (h : mentions spec ≠ []) : parseTags spec ≠ [] := by
  obtain ⟨first, more, hmentions⟩ := List.exists_cons_of_ne_nil h
  intro hnil
  have hlast : Mapping.last? (mentions spec) first.1 = none := by
    rw [← Mapping.get?_ofList, ← parseTags_eq, hnil]
    rfl
  rw [hmentions, Mapping.last?_cons, if_pos rfl] at hlast
  cases hrest : Mapping.last? more first.1 with
  | none => simp [hrest] at hlast
  | some asked => simp [hrest] at hlast

/-- What a rule reads of a tag is what the specification says last of it. -/
theorem get?_parseTags (spec name : String) :
    Mapping.get? (parseTags spec) name = Mapping.last? (mentions spec) name := by
  rw [parseTags_eq, Mapping.get?_ofList]

/-- The first tag that is listed besides another one is the first that the specification names. -/
theorem find?_mentions_of_erase {key : String} {entry : String × Bool} {rest : Tags}
    (h : Mapping.erase (parseTags spec) key = entry :: rest) :
    ∃ first, (mentions spec).find? (·.1 != key) = some first ∧
      Mapping.last? (mentions spec) first.1 = some entry.2 := by
  -- erasing a key leaves the order, so the first entry left is the first one with another key
  have hentry : (parseTags spec).find? (·.1 != key) = some entry := by
    have hhead : (Mapping.erase (parseTags spec) key).head? = some entry := by
      rw [h]
      rfl
    rw [← hhead]
    unfold Mapping.erase
    rw [List.head?_filter]
    congr 1
    funext other
    rw [Bool.eq_iff_iff, bne_iff_ne, decide_eq_true_iff]
  -- tags are listed in the order in which the specification names them first
  have hnamed : (Mapping.keys (mentions spec)).find? (· != key) = some entry.1 := by
    have hkeys : (Mapping.keys (parseTags spec)).find? (· != key) = some entry.1 := by
      unfold Mapping.keys
      rw [List.find?_map]
      exact congrArg (Option.map (·.1)) hentry
    rw [parseTags_eq, Mapping.ofList, Mapping.find?_keys_insertAll] at hkeys
    exact hkeys
  unfold Mapping.keys at hnamed
  rw [List.find?_map] at hnamed
  obtain ⟨first, hfirst, hname⟩ := Option.map_eq_some_iff.mp hnamed
  refine ⟨first, hfirst, ?_⟩
  have hnodup : (Mapping.keys (parseTags spec)).Nodup := by
    rw [parseTags_eq]
    exact Mapping.nodup_keys_ofList _
  rw [hname, ← get?_parseTags, Mapping.get?_eq_some_iff_mem hnodup]
  exact List.mem_of_find?_eq_some hentry

/-- A rule goes by what the specification says last of a tag. -/
theorem get?_ofTags (spec name : String) :
    Mapping.get? (ruleOf spec).tags name = listed? spec name := by
  unfold listed?
  rw [← get?_parseTags]
  unfold ruleOf TagRule.ofTags IsWildcard
  -- each branch takes out the wildcards that there are
  grind [Mapping.get?_erase]

/-- A rule keeps regions of tags that are not listed only if the specification asks for them. -/
theorem selectsOthers_of_wildcard
    (h : (ruleOf spec).wildcard = some true) : SelectsOthers spec := by
  unfold ruleOf TagRule.ofTags at h
  split at h
  · -- the specification decides for all lines
    rename_i base hall
    rw [get?_parseTags] at hall
    simp only at h
    split at h
    · -- a star decides for the other tags
      rename_i wildcard hstar
      rw [Mapping.get?_erase, if_neg (by decide), get?_parseTags] at hstar
      obtain rfl : wildcard = true := Option.some.inj h
      exact Or.inl hstar
    · -- without a star the first tag that it lists does
      rename_i hstar
      rw [Mapping.get?_erase, if_neg (by decide), get?_parseTags] at hstar
      split at h
      · rename_i name rest hfirst
        cases base with
        | true => cases h
        | false => exact Or.inr ⟨hstar, hall, find?_mentions_of_erase hfirst⟩
      · cases h
  · -- it does not decide for all lines, so only a star decides for the other tags
    split at h
    · rename_i wildcard hstar
      rw [get?_parseTags] at hstar
      obtain rfl : wildcard = true := Option.some.inj h
      exact Or.inl hstar
    · cases h

/-! ## Lines in regions -/

/-- A line, with all lines before and after it, lies in a region of a tag, and there it has the inner
lines before and after it. -/
def LiesIn (name : String) (before : List String) (line : String) (after inner inner' : List String) :
    Prop :=
  ∃ outer opening closing rest, before = outer ++ opening :: inner ∧ after = inner' ++ closing :: rest ∧
    IsRegion name opening (inner ++ line :: inner') closing

variable {name line : String} {before after inner inner' : List String}

/-- A line with nothing before it is in no region. -/
theorem not_liesIn_nil : ¬ LiesIn name [] line after inner inner' := by
  rintro ⟨outer, opening, closing, rest, hbefore, -⟩
  simp at hbefore

/-- A region in a region of some lines is a region of these lines. -/
theorem LiesIn.within {name' : String} {inner₁ inner₂ : List String}
    (hinner : LiesIn name' inner line inner' inner₁ inner₂)
    (houter : LiesIn name before line after inner inner') :
    LiesIn name' before line after inner₁ inner₂ := by
  obtain ⟨outer', opening', closing', rest', rfl, rfl, hregion⟩ := hinner
  obtain ⟨outer, opening, closing, rest, rfl, rfl, -⟩ := houter
  refine ⟨outer ++ opening :: outer', opening', closing', rest' ++ closing :: rest, ?_, ?_, hregion⟩
  · rw [List.append_assoc, List.cons_append]
  · rw [List.append_assoc, List.cons_append]

/-- Of well-nested lines, those before a text are well nested, or the text lies in a region with
well-nested lines before it. -/
theorem WellNested.split {lines : List String} (h : WellNested lines)
    (hline : Marker.ofLine? line = none) (hlines : lines = before ++ line :: after) :
    WellNested before ∨ ∃ name outer opening inner inner' closing rest, WellNested outer ∧
      before = outer ++ opening :: inner ∧ after = inner' ++ closing :: rest ∧
      IsRegion name opening (inner ++ line :: inner') closing := by
  induction h generalizing before with
  | nil =>
    exfalso
    simp at hlines
  -- a line of text in front of the region
  | @text first rest hfirst hrest ih =>
    cases before with
    | nil => exact Or.inl .nil
    | cons first' before' =>
      rw [List.cons_append] at hlines
      obtain ⟨rfl, hmore⟩ := List.cons.inj hlines
      rcases ih hmore with hbefore | ⟨name, outer, opening, inner, inner', closing, more, houter, rfl,
        hafter, hregion⟩
      · exact Or.inl (.text hfirst hbefore)
      · exact Or.inr ⟨name, first :: outer, opening, inner, inner', closing, more,
          .text hfirst houter, rfl, hafter, hregion⟩
  -- a region in front: the text lies in it or behind it
  | @region name opening closing inner rest hopening hinner hclosing hrest ihinner ihrest =>
    cases before with
    | nil =>
      obtain ⟨rfl, -⟩ := List.cons.inj hlines
      rw [hline] at hopening
      cases hopening
    | cons opening' before' =>
      rw [List.cons_append] at hlines
      obtain ⟨rfl, htail⟩ := List.cons.inj hlines
      rcases List.append_eq_append_iff.mp htail with ⟨more, rfl, hmore⟩ | ⟨more, rfl, hmore⟩
      · -- the text comes after the inner lines, so after the end of the region
        cases more with
        | nil =>
          obtain ⟨rfl, -⟩ := List.cons.inj hmore
          rw [hline] at hclosing
          cases hclosing
        | cons closing' more =>
          obtain ⟨rfl, hafterwards⟩ := List.cons.inj hmore
          rcases ihrest hafterwards with hbefore | ⟨name', outer, opening', inner', inner'', closing', more',
            houter, rfl, hafter, hregion⟩
          · exact Or.inl (.region hopening hinner hclosing hbefore)
          · refine Or.inr ⟨name', opening :: (inner ++ closing :: outer), opening', inner', inner'',
              closing', more', .region hopening hinner hclosing houter, ?_, hafter, hregion⟩
            simp
      · -- the text is one of the inner lines
        cases more with
        | nil =>
          obtain ⟨rfl, -⟩ := List.cons.inj hmore
          rw [hline] at hclosing
          cases hclosing
        | cons line' more =>
          obtain ⟨rfl, rfl⟩ := List.cons.inj hmore
          exact Or.inr ⟨name, [], opening, before', more, closing, rest, .nil, rfl, rfl, hopening, hinner,
            hclosing⟩

/-- At its own start a region is decided for by itself. -/
@[simp] theorem TagRule.decision_advance_start (rule : TagRule) (regions : Regions) (name : String) :
    rule.decision (rule.advance regions (.start name)) = rule.decisionOn regions name := rfl

/-- A rule keeps the regions of a tag for its own sake, not for that of the lines around. -/
def TagRule.Favours (rule : TagRule) (name : String) : Prop :=
  Mapping.get? rule.tags name = some true ∨
    Mapping.get? rule.tags name = none ∧ rule.wildcard = some true

/-- A region is kept for its own tag or because the lines around it are. -/
theorem TagRule.decisionOn_eq_true {rule : TagRule} {regions : Regions}
    (h : rule.decisionOn regions name = true) :
    rule.Favours name ∨ rule.decision regions = true := by
  unfold TagRule.decisionOn at h
  cases hlisted : Mapping.get? rule.tags name with
  | some keep =>
    simp only [hlisted] at h
    subst h
    exact Or.inl (Or.inl hlisted)
  | none =>
    simp only [hlisted] at h
    cases hwildcard : rule.wildcard with
    | some wildcard =>
      rw [hwildcard] at h
      obtain rfl : wildcard = true := h
      exact Or.inl (Or.inr ⟨hlisted, hwildcard⟩)
    | none =>
      rw [hwildcard] at h
      exact Or.inr h

/-- Among well-nested lines that are left out, a line is kept only in a region that is kept for its own
tag. -/
theorem exists_favoured {rule : TagRule} {regions : Regions}
    (hnested : WellNested (inner ++ line :: inner')) (hline : Marker.ofLine? line = none)
    (hout : rule.decision regions = false)
    (hkept : rule.decision (rule.after regions inner) = true) :
    ∃ name inner₁ inner₂, LiesIn name inner line inner' inner₁ inner₂ ∧ rule.Favours name := by
  -- on the number of lines before the one that is kept: the regions around it are entered one by one
  induction hlength : inner.length using Nat.strong_induction_on generalizing inner inner' regions with
  | _ length ih =>
    rcases hnested.split hline rfl with hbefore | ⟨name, outer, opening, more, more', closing, rest,
      houter, rfl, rfl, hregion⟩
    · -- no region is open at the line but those that leave it out
      rw [hbefore.after_eq, hout] at hkept
      cases hkept
    · have hlies : LiesIn name (outer ++ opening :: more) line (more' ++ closing :: rest) more more' :=
        ⟨outer, opening, closing, rest, rfl, rfl, hregion⟩
      rw [TagRule.after_append, houter.after_eq, TagRule.after_marker hregion.starts] at hkept
      cases hdecision : rule.decision (rule.advance regions (.start name)) with
      | true =>
        -- the outermost region around the line is kept, though the lines around it are not
        rcases TagRule.decisionOn_eq_true hdecision with hfavours | hdecided
        · exact ⟨name, more, more', hlies, hfavours⟩
        · rw [hout] at hdecided
          cases hdecided
      | false =>
        -- that region is left out as well, so the same is asked inside of it
        have hshorter : more.length < length := by
          rw [← hlength, List.length_append, List.length_cons]
          omega
        obtain ⟨name', inner₁, inner₂, hinner, hfavours⟩ :=
          ih more.length hshorter hregion.nested hdecision hkept rfl
        exact ⟨name', inner₁, inner₂, hinner.within hlies, hfavours⟩

/-! ## Directives with tags -/

variable {attributes : Attributes}

/-- The decision for a line after some others: not to keep it if it is a marker, and otherwise that of
the regions that are open. -/
theorem tagDecisions_getElem? (hlisted : parseTags spec ≠ []) (before : List String) (line : String)
    (after : List String) : (tagDecisions spec (before ++ line :: after))[before.length]? = some true ↔
      Marker.ofLine? line = none ∧
        (ruleOf spec).decision ((ruleOf spec).after [] before) = true := by
  rw [tagDecisions_of_ne_nil hlisted, TagRule.decisions_append,
    List.getElem?_append_right (by rw [TagRule.length_decisions]), TagRule.length_decisions,
    Nat.sub_self]
  cases hline : Marker.ofLine? line with
  | none => simp [TagRule.decisions_text hline]
  | some marker => simp [TagRule.decisions_marker hline]

/-- Markers are not kept. -/
theorem not_marker_of_mem_chosen (hlisted : parseTags spec ≠ []) {lines : List String}
    (h : line ∈ chosen lines (tagDecisions spec lines)) : Marker.ofLine? line = none := by
  obtain ⟨place, hplace, hflag⟩ := mem_chosen_iff.mp h
  obtain ⟨hbound, rfl⟩ := List.getElem?_eq_some_iff.mp hplace
  have hlength : (lines.take place).length = place := List.length_take_of_le (Nat.le_of_lt hbound)
  have hlines : lines.take place ++ lines[place] :: lines.drop (place + 1) = lines := by
    rw [← List.drop_eq_getElem_cons hbound, List.take_append_drop]
  have hdecided := tagDecisions_getElem? hlisted (lines.take place) lines[place]
    (lines.drop (place + 1))
  rw [hlines, hlength] at hdecided
  exact (hdecided.mp hflag).1

/-- Lines of refused regions are left out. If a specification lists a tag at all, no marker is kept; and
a line in a region of a tag that is refused is kept only if it lies, inside of that region, in a further
one, of a tag that is asked for by name or of one that is not listed while such tags are asked for.
Nothing is said about the lines around the region: they need not be nested. -/
theorem refused_regions_left_out (hasks : AsksTags attributes spec) (hlisted : mentions spec ≠ [])
    (path : String) (lines : List String) :
    (∀ line ∈ (ofAttributes attributes path lines).1.lines, Marker.ofLine? line = none) ∧
    ∃ kept : Nat → Prop, (ofAttributes attributes path lines).1.Picks lines kept ∧
      ∀ before line after, lines = before ++ line :: after → kept (before.length + 1) →
        Marker.ofLine? line = none ∧
        ∀ name inner inner', LiesIn name before line after inner inner' → Refuses spec name →
          ∃ name' inner₁ inner₂, LiesIn name' inner line inner' inner₁ inner₂ ∧
            (Requests spec name' ∨ listed? spec name' = none ∧ SelectsOthers spec) := by
  have htags := parseTags_ne_nil hlisted
  constructor
  · -- a line that is kept is none of the markers
    intro line hline
    rw [lines_tagged hasks] at hline
    exact not_marker_of_mem_chosen htags hline
  · -- a line that is kept in spite of a refused region lies further inside of one that is asked for
    refine ⟨_, picks_tagged hasks path lines, ?_⟩
    rintro before line after rfl hkept
    obtain ⟨hline, hdecision⟩ := (tagDecisions_getElem? htags before line after).mp hkept
    refine ⟨hline, ?_⟩
    rintro name inner inner' ⟨outer, opening, closing, rest, rfl, rfl, hregion⟩ hrefuses
    rw [TagRule.after_append, TagRule.after_marker hregion.starts] at hdecision
    have hout : (ruleOf spec).decision
        ((ruleOf spec).advance ((ruleOf spec).after [] outer) (.start name)) = false := by
      rw [TagRule.decision_advance_start]
      unfold TagRule.decisionOn
      rw [get?_ofTags, hrefuses]
    obtain ⟨name', inner₁, inner₂, hlies, hfavours⟩ :=
      exists_favoured hregion.nested hline hout hdecision
    refine ⟨name', inner₁, inner₂, hlies, ?_⟩
    rcases hfavours with hrequested | ⟨hunlisted, hwildcard⟩
    · -- the inner region is listed
      left
      rwa [get?_ofTags] at hrequested
    · -- it is not listed, and the others are selected
      right
      rw [get?_ofTags] at hunlisted
      exact ⟨hunlisted, selectsOthers_of_wildcard hwildcard⟩

/-- A region of a tag that is not listed, inside of one that is refused. -/
theorem refused_regions_left_out_inside :
    let file := ["tag::secret[]", "one", "tag::other[]", "two", "end::other[]", "end::secret[]"]
    let selection := (ofAttributes [("tags", "*;!secret")] "f.adoc" file).1
    AsksTags [("tags", "*;!secret")] "*;!secret" ∧ mentions "*;!secret" ≠ [] ∧
      LiesIn "secret" ["tag::secret[]"] "one"
        ["tag::other[]", "two", "end::other[]", "end::secret[]"] []
        ["tag::other[]", "two", "end::other[]"] ∧
      Refuses "*;!secret" "secret" ∧ selection.lines = ["two"] ∧
      ∃ kept : Nat → Prop, selection.Picks file kept ∧ ¬ kept 2 := by
  intro file selection
  have hasks : AsksTags [("tags", "*;!secret")] "*;!secret" := by
    constructor
    · rintro ⟨text, r, htext, -⟩
      cases htext
    · decide
  have hlisted : mentions "*;!secret" ≠ [] := by decide +kernel
  have hother : IsRegion "other" "tag::other[]" ["two"] "end::other[]" :=
    ⟨by decide, .text (by decide) .nil, by decide⟩
  have hlies : LiesIn "secret" ["tag::secret[]"] "one"
      ["tag::other[]", "two", "end::other[]", "end::secret[]"] []
      ["tag::other[]", "two", "end::other[]"] :=
    ⟨[], "tag::secret[]", "end::secret[]", [], rfl, rfl, by decide,
      .text (by decide) (hother.wellNested .nil), by decide⟩
  have hrefuses : Refuses "*;!secret" "secret" := by
    unfold Refuses
    decide +kernel
  obtain ⟨-, kept, hpicks, hinside⟩ := refused_regions_left_out hasks hlisted "f.adoc" file
  refine ⟨hasks, hlisted, hlies, hrefuses, by decide +kernel, kept, hpicks, ?_⟩
  intro hkept
  obtain ⟨-, hfurther⟩ := hinside ["tag::secret[]"] "one" _ rfl hkept
  obtain ⟨name', inner₁, inner₂, hinner, -⟩ := hfurther "secret" _ _ hlies hrefuses
  exact not_liesIn_nil hinner

/-! ## Refused lines that are kept -/

/-- A specification has a part that refuses a tag, and of well-nested lines one is kept that lies in a
region of that tag, but there in no further region of a tag that a part asks for. -/
def KeepsRefused (spec : String) (lines : List String) : Prop :=
  WellNested lines ∧ ∃ name before line after inner inner', lines = before ++ line :: after ∧
    LiesIn name before line after inner inner' ∧ (name, false) ∈ mentions spec ∧
    (∀ name' inner₁ inner₂, LiesIn name' inner line inner' inner₁ inner₂ →
      (name', true) ∉ mentions spec) ∧
    lines.count line = 1 ∧ line ∈ (ofAttributes [("tags", spec)] "f.adoc" lines).1.lines

/-- A refused tag is no bar to what the lines inside of its regions are kept for: a star asks for the
tags that are not listed, what is said last of a tag counts, and stars are no tags. And of a
specification without tags the markers are kept as well. -/
theorem refused_regions_kept :
    KeepsRefused "*;!secret"
        ["tag::secret[]", "tag::other[]", "hidden", "end::other[]", "end::secret[]"] ∧
      KeepsRefused "!a;a" ["tag::a[]", "x", "end::a[]"] ∧
      KeepsRefused "a;!**" ["tag::a[]", "tag::**[]", "x", "end::**[]", "end::a[]"] ∧
      "tag::a[]" ∈ (ofAttributes [("tags", ";")] "f.adoc" ["tag::a[]", "x", "end::a[]"]).1.lines := by
  refine ⟨?_, ?_, ?_, by decide +kernel⟩
  · have hother : IsRegion "other" "tag::other[]" ["hidden"] "end::other[]" :=
      ⟨by decide, .text (by decide) .nil, by decide⟩
    have hsecret : IsRegion "secret" "tag::secret[]" ["tag::other[]", "hidden", "end::other[]"]
        "end::secret[]" :=
      ⟨by decide, hother.wellNested .nil, by decide⟩
    refine ⟨hsecret.wellNested .nil, "secret", ["tag::secret[]", "tag::other[]"], "hidden",
      ["end::other[]", "end::secret[]"], ["tag::other[]"], ["end::other[]"], rfl,
      ⟨[], _, _, [], rfl, rfl, hsecret⟩, by decide +kernel, ?_, by decide, by decide +kernel⟩
    rintro name' inner₁ inner₂ ⟨outer, opening, closing, rest, hbefore, -, hregion⟩ hmention
    -- the only region inside is that of the other tag, which the specification does not name
    have hopening : opening ∈ ["tag::other[]"] := by
      rw [hbefore]
      simp
    obtain rfl := List.mem_singleton.mp hopening
    have hname : name' = "other" := by
      have hmarker : Marker.ofLine? "tag::other[]" = some (.start "other") := by decide
      rw [hregion.starts] at hmarker
      simpa using hmarker
    subst hname
    have hnone : ("other", true) ∉ mentions "*;!secret" := by decide +kernel
    exact hnone hmention
  · have hregion : IsRegion "a" "tag::a[]" ["x"] "end::a[]" :=
      ⟨by decide, .text (by decide) .nil, by decide⟩
    refine ⟨hregion.wellNested .nil, "a", ["tag::a[]"], "x", ["end::a[]"], [], [], rfl,
      ⟨[], _, _, [], rfl, rfl, hregion⟩, by decide +kernel, ?_, by decide, by decide +kernel⟩
    intro name' inner₁ inner₂ hlies
    exact absurd hlies not_liesIn_nil
  · have hstars : IsRegion "**" "tag::**[]" ["x"] "end::**[]" :=
      ⟨by decide, .text (by decide) .nil, by decide⟩
    have houter : IsRegion "a" "tag::a[]" ["tag::**[]", "x", "end::**[]"] "end::a[]" :=
      ⟨by decide, hstars.wellNested .nil, by decide⟩
    refine ⟨houter.wellNested .nil, "**", ["tag::a[]", "tag::**[]"], "x", ["end::**[]", "end::a[]"],
      [], [], rfl, ⟨["tag::a[]"], _, _, ["end::a[]"], rfl, rfl, hstars⟩, by decide +kernel, ?_,
      by decide, by decide +kernel⟩
    intro name' inner₁ inner₂ hlies
    exact absurd hlies not_liesIn_nil

end Selection

end DocFlatten
