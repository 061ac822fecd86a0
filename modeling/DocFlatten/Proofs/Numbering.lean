import DocFlatten.Proofs.Positions
import DocFlatten.Proofs.Reopening
import Mathlib.Order.Bounds.Defs

/-! # Selections by number are unions

A directive can ask for lines by number, in a text of many parts that may overlap, come in any order
or make no sense. What it comes to is a union:

* `partsOf`, `Reads`, `Asks`: the parts of a specification, the range that a part stands for, and the
  ranges that a specification asks for, each said without the functions that read them;
* `Range.parse?_eq_some_iff`, `mem_parseRanges_iff`: those functions find these ranges and no others;
* `Picks`: a selection has the lines with certain numbers, in order, and the smallest number of them;
  any part of the numbered lines makes such a selection (`picks_ofKept`).

`numbers_keep_union` has all of it.
-/

namespace DocFlatten

open DocFlatten.Text DocFlatten.Number

/-! ## Texts of integers -/

namespace Number

/-- What is read of the text of an integer: all between its blanks but the sign. -/
def digitsOf (text : String) : List Char :=
  (takeSign (dropEndWhile isPadding (text.toList.dropWhile isPadding))).2

/-- The text of an integer is read to its end, and there are digits in it. -/
theorem scanDigits_of_readInteger {text : String} {n : Int} (h : readInteger text = .ok n) :
    ∃ digits, digits ≠ [] ∧ scanDigits (digitsOf text) = (digits, []) := by
  unfold digitsOf
  unfold readInteger at h
  simp only at h
  split at h
  · split at h
    · cases h
    · cases h
  · split at h
    · cases h
    · split at h
      · cases h
      · rename_i hread
        rw [Bool.or_eq_true, not_or, Bool.not_eq_true', Bool.not_eq_false, List.isEmpty_iff,
          List.isEmpty_iff] at hread
        exact ⟨_, hread.1, Prod.ext rfl hread.2⟩

/-- The digits of a number are characters of its text. -/
theorem mem_of_mem_digitsOf {text : String} {c : Char} (h : c ∈ digitsOf text) :
    c ∈ text.toList :=
  List.dropWhile_subset isPadding (dropEndWhile_subset isPadding _ (takeSign_subset _ h))

/-- Where digits are read, one of the characters is a digit. -/
theorem exists_digit {cs : List Char} (h : (scanDigits cs).1 ≠ []) :
    ∃ c ∈ cs, digitValue? c ≠ none := by
  induction cs with
  | nil => exact absurd rfl h
  | cons c rest ih =>
    unfold scanDigits at h
    split at h
    · rename_i d hdigit
      exact ⟨c, List.mem_cons_self, by simp [hdigit]⟩
    · split at h
      · split at h
        · obtain ⟨c', hc', hdigit⟩ := ih h
          exact ⟨c', List.mem_cons_of_mem _ hc', hdigit⟩
        · exact absurd rfl h
      · exact absurd rfl h

/-- Digits are read up to the first point at most. -/
theorem point_mem_scanDigits {cs : List Char} (h : '.' ∈ cs) : '.' ∈ (scanDigits cs).2 := by
  induction cs with
  | nil => cases h
  | cons c rest ih =>
    unfold scanDigits
    split
    · rename_i d hdigit
      -- a digit is no point, so the point is further on
      rcases List.mem_cons.mp h with rfl | hrest
      · have hnone : digitValue? '.' = none := by decide
        rw [hnone] at hdigit
        cases hdigit
      · exact ih hrest
    · split
      · split
        · rcases List.mem_cons.mp h with hpoint | hrest
          · cases hpoint
          · exact ih hrest
        · exact h
      · exact h

/-- Neither blanks nor a sign are points. -/
theorem point_mem_digitsOf {text : String} (h : '.' ∈ text.toList) : '.' ∈ digitsOf text := by
  have hkept : isPadding '.' = false := by decide
  exact mem_takeSign (mem_dropEndWhile (mem_dropWhile h hkept) hkept) (by decide) (by decide)

/-- A text that is read as an integer has no points in it. -/
theorem not_point_mem_of_readInteger {text : String} {n : Int} (h : readInteger text = .ok n) :
    '.' ∉ text.toList := by
  intro hpoint
  obtain ⟨digits, -, hread⟩ := scanDigits_of_readInteger h
  have hleft := point_mem_scanDigits (point_mem_digitsOf hpoint)
  rw [hread] at hleft
  cases hleft

/-- The code points of white space. -/
def blankPoints : List Nat :=
  [9, 10, 11, 12, 13, 28, 29, 30, 31, 32, 0x85, 0xa0, 0x1680, 0x2000, 0x2001, 0x2002, 0x2003,
    0x2004, 0x2005, 0x2006, 0x2007, 0x2008, 0x2009, 0x200a, 0x2028, 0x2029, 0x202f, 0x205f, 0x3000]

/-- A blank is no digit. -/
theorem digitValue?_of_isBlank {c : Char} (h : isBlank c = true) : digitValue? c = none := by
  have hpoint : c.toNat ∈ blankPoints := by
    simp only [isBlank, Bool.or_eq_true, Bool.and_eq_true, decide_eq_true_eq, beq_iff_eq] at h
    simp only [blankPoints, List.mem_cons, List.not_mem_nil, or_false]
    omega
  have hall : ∀ n ∈ blankPoints, digitValue? (Char.ofNat n) = none := by decide
  rw [← Char.ofNat_toNat c]
  exact hall _ hpoint

/-- A blank text is no integer. -/
theorem readInteger_of_isBlank {text : String} (h : ∀ c ∈ text.toList, isBlank c = true)
    (n : Int) : readInteger text ≠ .ok n := by
  intro hread
  obtain ⟨digits, hne, hscan⟩ := scanDigits_of_readInteger hread
  have hread' : (scanDigits (digitsOf text)).1 ≠ [] := by
    rw [hscan]
    exact hne
  obtain ⟨c, hc, hdigit⟩ := exists_digit hread'
  exact hdigit (digitValue?_of_isBlank (h c (mem_of_mem_digitsOf hc)))

end Number

namespace Selection

/-! ## What a specification asks for -/

/-- The parts of a specification: what stands between its separators, without the blanks around. -/
def partsOf (spec : String) : List String :=
  (spec.toList.splitOnP fun c => c == ';' || c == ',').map fun piece => strip (String.ofList piece)

/-- The range that a part stands for: one line, the lines between two ends, or the lines from one of
them on. The end -1 is no end. -/
inductive Reads (part : String) : Range → Prop where
  | line {n : Int} (h : readInteger part = .ok n) : Reads part ⟨n, some n⟩
  | between {before after : String} {first last : Int} (hpart : part = before ++ ".." ++ after)
      (hfirst : readInteger before = .ok first) (hlast : readInteger after = .ok last)
      (hend : last ≠ -1) : Reads part ⟨first, some last⟩
  | toEnd {before after : String} {first : Int} (hpart : part = before ++ ".." ++ after)
      (hfirst : readInteger before = .ok first)
      (hend : strip after = "" ∨ readInteger after = .ok (-1)) : Reads part ⟨first, none⟩

/-- A specification asks for the ranges that its parts stand for. -/
def Asks (spec : String) (r : Range) : Prop :=
  ∃ part ∈ partsOf spec, Reads part r

/-- Whether a line is in a range, by its number, in a file with so many lines. A range without an end
goes up to the last line. -/
def Range.Holds (r : Range) (total number : Nat) : Prop :=
  r.first ≤ number ∧ (number : Int) ≤ r.last.getD total

/-! ## Reading a specification -/

/-- Parts that are empty do not count. -/
theorem specParts_eq (spec : String) : specParts spec = (partsOf spec).filter (· != "") := by
  unfold specParts partsOf splitAt
  rw [splitWhere_eq, List.map_map]
  rfl

/-- What is cut at dots has them between its pieces. -/
theorem cutAtDots_eq {cs before after : List Char} (h : cutAtDots cs = some (before, after)) :
    cs = before ++ '.' :: '.' :: after := by
  induction cs generalizing before with
  | nil => cases h
  | cons c rest ih =>
    unfold cutAtDots at h
    split at h
    · cases h
    · rename_i hcons
      cases hcons
      cases h
      rfl
    · rename_i hcons
      cases hcons
      obtain ⟨⟨before', after'⟩, hrest, hpair⟩ := Option.map_eq_some_iff.mp h
      cases hpair
      rw [ih hrest]
      rfl

/-- Behind a text without points the first two points in a row are found. -/
theorem cutAtDots_append {before : List Char} (h : '.' ∉ before) (after : List Char) :
    cutAtDots (before ++ '.' :: '.' :: after) = some (before, after) := by
  induction before with
  | nil => rfl
  | cons c rest ih =>
    obtain ⟨hc, hrest⟩ : '.' ≠ c ∧ '.' ∉ rest := by simpa using h
    rw [List.cons_append]
    unfold cutAtDots
    split
    · rename_i hcons
      cases hcons
    · rename_i hcons
      exact absurd (List.cons.inj hcons).1.symm hc
    · rename_i hcons
      obtain ⟨rfl, rfl⟩ := List.cons.inj hcons
      rw [ih hrest]
      rfl

theorem cutAtDots_of_not_mem {cs : List Char} (h : '.' ∉ cs) : cutAtDots cs = none := by
  cases hcut : cutAtDots cs with
  | none => rfl
  | some pieces =>
    rw [cutAtDots_eq hcut] at h
    simp at h

/-- Nothing is left of a text without its surrounding blanks exactly if there is nothing else. -/
theorem strip_eq_empty_iff (text : String) :
    strip text = "" ↔ ∀ c ∈ text.toList, isBlank c = true := by
  unfold strip stripChars dropEndWhile
  rw [← String.toList_inj, String.toList_ofList, String.toList_empty, List.reverse_eq_nil_iff,
    List.dropWhile_eq_nil_iff]
  constructor
  · intro hall c hc
    by_contra hblank
    rw [Bool.not_eq_true] at hblank
    simpa [hblank] using hall c (List.mem_reverse.mpr (mem_dropWhile hc hblank))
  · intro hall c hc
    exact hall c ((List.dropWhile_sublist isBlank).subset (List.mem_reverse.mp hc))

/-- The last number is left open, or it is the one that is read. -/
theorem readLast?_eq_some_iff {text : String} {last : Option Int} :
    readLast? text.toList = some last ↔
      (last = none ∧ (strip text = "" ∨ readInteger text = .ok (-1))) ∨
      ∃ n, last = some n ∧ n ≠ -1 ∧ readInteger text = .ok n := by
  have hblank : (stripChars text.toList).isEmpty = true ↔ strip text = "" := by
    unfold strip
    rw [List.isEmpty_iff, ← String.toList_inj, String.toList_ofList]
    rfl
  unfold readLast?
  rw [String.ofList_toList]
  split
  · rename_i hempty
    have hstrip := hblank.mp hempty
    have hnone := readInteger_of_isBlank ((strip_eq_empty_iff text).mp hstrip)
    constructor
    · intro h
      cases h
      exact Or.inl ⟨rfl, Or.inl hstrip⟩
    · rintro (⟨rfl, -⟩ | ⟨n, -, -, hread⟩)
      · rfl
      · exact absurd hread (hnone n)
  · rename_i hempty
    have hstrip : strip text ≠ "" := fun h => hempty (hblank.mpr h)
    cases hread : readInteger text with
    | error e => simp [hstrip]
    | ok n =>
      simp only [Option.some.injEq, Except.ok.injEq, hstrip, false_or]
      -- minus one stands for the end
      by_cases hend : n = -1
      · subst hend
        constructor
        · rintro rfl
          exact Or.inl ⟨rfl, rfl⟩
        · rintro (⟨rfl, -⟩ | ⟨n, -, hne, rfl⟩)
          · rfl
          · exact absurd rfl hne
      · rw [if_neg (by simpa using hend)]
        constructor
        · rintro rfl
          exact Or.inr ⟨n, rfl, hend, rfl⟩
        · rintro (⟨-, heq⟩ | ⟨m, rfl, -, rfl⟩)
          · exact absurd heq hend
          · rfl

/-- A number has no dots, so the dots behind it are the first ones. -/
theorem cutAtDots_of_readInteger {before : String} {first : Int}
    (hfirst : readInteger before = .ok first) (after : String) :
    cutAtDots (before ++ ".." ++ after).toList = some (before.toList, after.toList) := by
  have hsame : (before ++ ".." ++ after).toList = before.toList ++ '.' :: '.' :: after.toList := by
    simp
  rw [hsame]
  exact cutAtDots_append (not_point_mem_of_readInteger hfirst) _

/-- A part that is read as a range reads as it says. -/
theorem Reads.of_parse? {part : String} {r : Range} (h : Range.parse? part = some r) :
    Reads part r := by
  unfold Range.parse? at h
  cases hcut : cutAtDots part.toList with
  -- no dots: the part is one number
  | none =>
    simp only [hcut] at h
    obtain ⟨n, hn, rfl⟩ := Option.map_eq_some_iff.mp h
    exact .line (eq_ok_of_mem_toOption hn)
  -- two numbers, or one and the end
  | some pieces =>
    obtain ⟨before, after⟩ := pieces
    simp only [hcut] at h
    obtain ⟨last, hlast, h⟩ := Option.bind_eq_some_iff.mp h
    obtain ⟨first, hfirst, h⟩ := Option.bind_eq_some_iff.mp h
    cases h
    have hpart : part = String.ofList before ++ ".." ++ String.ofList after := by
      rw [← String.toList_inj, cutAtDots_eq hcut]
      simp
    have hfirst' := eq_ok_of_mem_toOption hfirst
    rw [← String.toList_ofList (l := after)] at hlast
    rcases readLast?_eq_some_iff.mp hlast with ⟨rfl, hend⟩ | ⟨n, rfl, hend, hn⟩
    · exact .toEnd hpart hfirst' hend
    · exact .between hpart hfirst' hn hend

/-- And a part that reads so is read as a range. -/
theorem Reads.parse? {part : String} {r : Range} (h : Reads part r) :
    Range.parse? part = some r := by
  unfold Range.parse?
  cases h with
  | line hline =>
    rw [cutAtDots_of_not_mem (not_point_mem_of_readInteger hline)]
    simp [hline, Except.toOption]
  | between hpart hfirst hlast hend =>
    rw [hpart, cutAtDots_of_readInteger hfirst]
    simp [readLast?_eq_some_iff.mpr (Or.inr ⟨_, rfl, hend, hlast⟩), hfirst, Except.toOption]
  | toEnd hpart hfirst hend =>
    rw [hpart, cutAtDots_of_readInteger hfirst]
    simp [readLast?_eq_some_iff.mpr (Or.inl ⟨rfl, hend⟩), hfirst, Except.toOption]

/-- A part that stands for a range is read as that range, and no other part is read. -/
theorem Range.parse?_eq_some_iff {part : String} {r : Range} :
    Range.parse? part = some r ↔ Reads part r :=
  ⟨Reads.of_parse?, Reads.parse?⟩

/-- The ranges that are read are those that are asked for. -/
theorem mem_parseRanges_iff {spec : String} {r : Range} : r ∈ parseRanges spec ↔ Asks spec r := by
  unfold parseRanges Asks
  rw [List.mem_filterMap, specParts_eq]
  constructor
  · rintro ⟨part, hpart, hread⟩
    exact ⟨part, List.mem_of_mem_filter hpart, Range.parse?_eq_some_iff.mp hread⟩
  · rintro ⟨part, hpart, hread⟩
    have hparse := Range.parse?_eq_some_iff.mpr hread
    refine ⟨part, List.mem_filter.mpr ⟨hpart, ?_⟩, hparse⟩
    rw [bne_iff_ne]
    rintro rfl
    cases hparse

/-! ## Kept lines -/

/-- A selection has the lines of a file whose numbers are wanted, each once and in their order, and
the smallest of these numbers; it has the number 1 if there are none. -/
structure Picks (selection : Selection) (lines : List String) (wanted : Nat → Prop) : Prop where
  content : ∃ entries : List (String × Nat), entries.Sublist (numbered lines) ∧
    (∀ entry ∈ numbered lines, entry ∈ entries ↔ wanted entry.2) ∧
    selection.lines = entries.map (·.1)
  lineno : IsLeast {number | 1 ≤ number ∧ number ≤ lines.length ∧ wanted number} selection.lineno ∨
    (∀ number, 1 ≤ number → number ≤ lines.length → ¬ wanted number) ∧ selection.lineno = 1

/-- An entry has the number of its line, counted from one. -/
theorem mem_numbered_iff {lines : List String} {entry : String × Nat} :
    entry ∈ numbered lines ↔ 1 ≤ entry.2 ∧ lines[entry.2 - 1]? = some entry.1 := by
  unfold numbered
  rw [List.mem_zipIdx_iff_le_and_getElem?_sub]

/-- Lines are numbered upwards. -/
theorem pairwise_numbered (lines : List String) :
    (numbered lines).Pairwise fun entry entry' => entry.2 < entry'.2 := by
  have hnumbers : ((numbered lines).map (·.2)).Pairwise (· < ·) := by
    unfold numbered
    rw [List.zipIdx_map_snd]
    exact List.pairwise_lt_range'
  exact List.pairwise_map.mp hnumbers

/-- A part of the numbered lines has the lines that are in it, and the first one has the smallest
number. -/
theorem picks_ofKept {lines : List String} {entries : List (String × Nat)} {wanted : Nat → Prop}
    (hsublist : entries.Sublist (numbered lines))
    (hwanted : ∀ entry ∈ numbered lines, entry ∈ entries ↔ wanted entry.2) :
    (ofKept entries).Picks lines wanted := by
  refine ⟨⟨entries, hsublist, hwanted, rfl⟩, ?_⟩
  -- every number up to the last one belongs to some line
  have hentry : ∀ number, 1 ≤ number → number ≤ lines.length → wanted number →
      ∃ line, (line, number) ∈ entries := by
    intro number hlow hhigh hnumber
    obtain ⟨line, hline⟩ : ∃ line, lines[number - 1]? = some line :=
      ⟨_, List.getElem?_eq_getElem (by omega)⟩
    have hmem : (line, number) ∈ numbered lines := mem_numbered_iff.mpr ⟨hlow, hline⟩
    exact ⟨line, (hwanted _ hmem).mpr hnumber⟩
  cases entries with
  | nil =>
    right
    refine ⟨?_, rfl⟩
    intro number hlow hhigh hnumber
    obtain ⟨line, hmem⟩ := hentry number hlow hhigh hnumber
    cases hmem
  | cons first rest =>
    left
    have hfirst : first ∈ numbered lines := hsublist.subset List.mem_cons_self
    have hupwards := List.pairwise_cons.mp ((pairwise_numbered lines).sublist hsublist)
    constructor
    · obtain ⟨hlow, hline⟩ := mem_numbered_iff.mp hfirst
      obtain ⟨hplace, -⟩ := List.getElem?_eq_some_iff.mp hline
      refine ⟨hlow, ?_, (hwanted first hfirst).mp List.mem_cons_self⟩
      show first.2 ≤ lines.length
      omega
    · rintro number ⟨hlow, hhigh, hnumber⟩
      obtain ⟨line, hmem⟩ := hentry number hlow hhigh hnumber
      rcases List.mem_cons.mp hmem with rfl | hlater
      · exact Nat.le_refl _
      · exact Nat.le_of_lt (hupwards.1 _ hlater)

/-- A range holds the lines from the first to the last, or to the end. -/
theorem Range.contains_iff {r : Range} {total number : Nat} (h : number ≤ total) :
    r.contains number = true ↔ r.Holds total number := by
  unfold Range.contains Range.Holds
  rw [Bool.and_eq_true, decide_eq_true_iff]
  cases r.last with
  | none => simp [h]
  | some last => simp

/-- The lines in the ranges that are read are those in the ranges that are asked for. -/
theorem mem_inRangesOnly_iff {spec : String} {lines : List String} {entry : String × Nat}
    (h : entry ∈ numbered lines) : entry ∈ inRangesOnly (parseRanges spec) (numbered lines) ↔
      ∃ r, Asks spec r ∧ r.Holds lines.length entry.2 := by
  obtain ⟨hlow, hline⟩ := mem_numbered_iff.mp h
  obtain ⟨hplace, -⟩ := List.getElem?_eq_some_iff.mp hline
  have hhigh : entry.2 ≤ lines.length := by omega
  unfold inRangesOnly
  rw [List.mem_filter, List.any_eq_true]
  constructor
  · rintro ⟨-, r, hr, hcontains⟩
    exact ⟨r, mem_parseRanges_iff.mp hr, (Range.contains_iff hhigh).mp hcontains⟩
  · rintro ⟨r, hr, hholds⟩
    exact ⟨h, r, mem_parseRanges_iff.mpr hr, (Range.contains_iff hhigh).mpr hholds⟩

/-! ## Directives with line numbers -/

variable {attributes : Attributes} {spec : String}

/-- If some line numbers can be read, they alone decide. -/
theorem ofAttributes_of_asks (hspec : Mapping.get? attributes "lines" = some spec)
    (hasks : ∃ r, Asks spec r) (path : String) (lines : List String) :
    (ofAttributes attributes path lines).1 =
      ofKept (inRangesOnly (parseRanges spec) (numbered lines)) := by
  obtain ⟨r, hr⟩ := hasks
  have hread := mem_parseRanges_iff.mpr hr
  have hgiven : given? attributes "lines" = some spec := by
    unfold given?
    rw [hspec, Option.filter_some, if_pos]
    rw [bne_iff_ne]
    rintro rfl
    cases hread
  unfold ofAttributes
  rw [hgiven]
  cases hranges : parseRanges spec with
  | nil =>
    rw [hranges] at hread
    cases hread
  | cons range ranges => simp only [hranges]

/-- Line numbers that can be read are asked for; they come before everything else. -/
def AsksNumbers (attributes : Attributes) : Prop :=
  ∃ spec r, Mapping.get? attributes "lines" = some spec ∧ Asks spec r

/-- If no line numbers can be read, tags decide. -/
theorem ofAttributes_eq_byTags (hnone : ¬ AsksNumbers attributes) (path : String)
    (lines : List String) :
    (ofAttributes attributes path lines).1 = (byTags attributes path lines).1 := by
  unfold ofAttributes
  cases hgiven : given? attributes "lines" with
  | none => rfl
  | some spec =>
    have hspec : Mapping.get? attributes "lines" = some spec := by
      unfold given? at hgiven
      exact (Option.filter_eq_some_iff.mp hgiven).1
    have hunread : parseRanges spec = [] := by
      refine List.eq_nil_iff_forall_not_mem.mpr ?_
      intro r hr
      exact hnone ⟨spec, r, hspec, mem_parseRanges_iff.mp hr⟩
    simp only [hunread]

/-- Erasing one attribute leaves the others given as they are. -/
theorem given?_erase {name key : String} (h : key ≠ name) :
    given? (Mapping.erase attributes key) name = given? attributes name := by
  unfold given?
  rw [Mapping.get?_erase, if_neg h]

/-- If no line numbers can be read, the selection is the one without them. -/
theorem ofAttributes_of_not_asks (hspec : Mapping.get? attributes "lines" = some spec)
    (hnone : ¬ ∃ r, Asks spec r) (path : String) (lines : List String) :
    (ofAttributes attributes path lines).1 =
      (ofAttributes (Mapping.erase attributes "lines") path lines).1 := by
  have hbefore : ¬ AsksNumbers attributes := by
    rintro ⟨text, r, htext, hr⟩
    obtain rfl : spec = text := Option.some.inj (hspec.symm.trans htext)
    exact hnone ⟨r, hr⟩
  have hafter : ¬ AsksNumbers (Mapping.erase attributes "lines") := by
    rintro ⟨text, r, htext, -⟩
    rw [Mapping.get?_erase, if_pos rfl] at htext
    cases htext
  rw [ofAttributes_eq_byTags hbefore, ofAttributes_eq_byTags hafter]
  unfold byTags
  rw [given?_erase (by decide), given?_erase (by decide)]

/-- A selection by line numbers is the union of the ranges that its specification asks for. If there
is one that can be read, the lines in some of these ranges are kept and no others, each once and in
the order of the file, and the selection has the smallest of their numbers. Nothing else in the
specification matters: neither the order of its parts, nor their repetition, nor the parts that cannot
be read. If there is none that can be read, the selection is the one without line numbers. -/
theorem numbers_keep_union (hspec : Mapping.get? attributes "lines" = some spec) (path : String)
    (lines : List String) :
    ((∃ r, Asks spec r) →
      (ofAttributes attributes path lines).1.Picks lines
          (fun number => ∃ r, Asks spec r ∧ r.Holds lines.length number) ∧
        (ofAttributes attributes path lines).1.isPartial = true ∧
        ∀ attributes' spec' path', Mapping.get? attributes' "lines" = some spec' →
          (∀ r, Asks spec' r ↔ Asks spec r) →
          (ofAttributes attributes' path' lines).1 = (ofAttributes attributes path lines).1) ∧
    ((¬ ∃ r, Asks spec r) →
      (ofAttributes attributes path lines).1 =
        (ofAttributes (Mapping.erase attributes "lines") path lines).1) := by
  refine ⟨?_, fun hnone => ofAttributes_of_not_asks hspec hnone path lines⟩
  intro hasks
  have hselection := ofAttributes_of_asks hspec hasks path lines
  refine ⟨?_, ?_, ?_⟩
  · -- the lines are those that a range holds
    rw [hselection]
    exact picks_ofKept List.filter_sublist fun entry => mem_inRangesOnly_iff
  · -- they are a part of the file, even if all are held
    rw [hselection]
    rfl
  · -- only what is asked for matters, not the order or how often
    intro attributes' spec' path' hspec' hsame
    obtain ⟨r, hr⟩ := hasks
    rw [hselection, ofAttributes_of_asks hspec' ⟨r, (hsame r).mpr hr⟩]
    congr 1
    refine List.filter_congr ?_
    intro entry _
    rw [Bool.eq_iff_iff, List.any_eq_true, List.any_eq_true]
    simp only [mem_parseRanges_iff, hsame]

/-- Ranges that overlap, one that starts above the file, one that runs to its end, and a part that makes
no sense. -/
theorem numbers_keep_union_overlapping :
    let attributes : Attributes := [("lines", "4..-1,x..y;2; -3..2;5"), ("tag", "a")]
    let file := ["one", "two", "three", "four", "five"]
    Mapping.get? attributes "lines" = some "4..-1,x..y;2; -3..2;5" ∧
      (ofAttributes attributes "f.adoc" file).1 = ⟨["one", "two", "four", "five"], 1, true⟩ ∧
      (∃ r, Asks "4..-1,x..y;2; -3..2;5" r) ∧
      (ofAttributes attributes "f.adoc" file).1.Picks file fun number =>
        ∃ r, Asks "4..-1,x..y;2; -3..2;5" r ∧ r.Holds 5 number := by
  intro attributes file
  have hspec : Mapping.get? attributes "lines" = some "4..-1,x..y;2; -3..2;5" := by decide
  have hread : (⟨2, some 2⟩ : Range) ∈ parseRanges "4..-1,x..y;2; -3..2;5" := by decide +kernel
  have hasks : ∃ r, Asks "4..-1,x..y;2; -3..2;5" r := ⟨_, mem_parseRanges_iff.mp hread⟩
  obtain ⟨hunion, -⟩ := numbers_keep_union hspec "f.adoc" file
  exact ⟨hspec, by decide +kernel, hasks, (hunion hasks).1⟩

end Selection

end DocFlatten
