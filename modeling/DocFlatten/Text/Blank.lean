/-! # Blank characters

White space of every script, and the operations that trim and split at it. Trailing
blanks never count in a line of a document, so `stripEnd` is applied to every line that
is read.
-/

namespace DocFlatten.Text

/-- White space: the ASCII blanks and separators, the next-line control and the space
separators of Unicode. The byte order mark and the zero width space are not blank. -/
def isBlank (c : Char) : Bool :=
  let n := c.toNat
  (9 ≤ n && n ≤ 13) || (28 ≤ n && n ≤ 32) || n == 0x85 || n == 0xa0 || n == 0x1680 ||
    (0x2000 ≤ n && n ≤ 0x200a) || n == 0x2028 || n == 0x2029 || n == 0x202f || n == 0x205f ||
    n == 0x3000

/-- A space or a tab, the only blanks that separate the parts of a directive. -/
def isSpaceOrTab (c : Char) : Bool :=
  c == ' ' || c == '\t'

/-- The characters without the trailing run that satisfies `p`. -/
def dropEndWhile (p : Char → Bool) (cs : List Char) : List Char :=
  (cs.reverse.dropWhile p).reverse

theorem dropEndWhile_cons {p : Char → Bool} {c : Char} (hc : p c = false) (cs : List Char) :
    dropEndWhile p (c :: cs) = c :: dropEndWhile p cs := by
  unfold dropEndWhile
  rw [List.reverse_cons, List.dropWhile_append]
  split
  · rename_i hnil
    rw [List.isEmpty_iff.mp hnil, List.dropWhile_cons_of_neg (by simp [hc])]
    rfl
  · rw [List.reverse_append]
    rfl

theorem dropEndWhile_append {p : Char → Bool} {after : List Char}
    (hafter : ∀ c ∈ after, p c = true) (cs : List Char) :
    dropEndWhile p (cs ++ after) = dropEndWhile p cs := by
  have hreverse : ∀ c ∈ after.reverse, p c = true :=
    fun c hc => hafter c (List.mem_reverse.mp hc)
  unfold dropEndWhile
  rw [List.reverse_append, List.dropWhile_append_of_pos hreverse]

theorem dropEndWhile_of_getLast? {p : Char → Bool} {cs : List Char}
    (h : ∀ c ∈ cs.getLast?, p c = false) : dropEndWhile p cs = cs := by
  rw [← List.head?_reverse] at h
  unfold dropEndWhile
  cases hreverse : cs.reverse with
  | nil => simpa using hreverse.symm
  | cons last others =>
    have hlast : ¬ p last = true := by simp [h last (by rw [hreverse]; rfl)]
    rw [List.dropWhile_cons_of_neg hlast, ← hreverse, List.reverse_reverse]

theorem dropEndWhile_subset (p : Char → Bool) (cs : List Char) : dropEndWhile p cs ⊆ cs :=
  fun _ hc => List.mem_reverse.mp (List.dropWhile_subset p (List.mem_reverse.mp hc))

/-- A character that does not satisfy the condition stays. -/
theorem mem_dropWhile {p : Char → Bool} {c : Char} {cs : List Char} (h : c ∈ cs)
    (hc : p c = false) : c ∈ cs.dropWhile p := by
  induction cs with
  | nil => exact h
  | cons first rest ih =>
    rw [List.dropWhile_cons]
    split
    · rename_i hfirst
      refine ih ((List.mem_cons.mp h).resolve_left ?_)
      rintro rfl
      simp [hc] at hfirst
    · exact h

theorem mem_dropEndWhile {p : Char → Bool} {c : Char} {cs : List Char} (h : c ∈ cs)
    (hc : p c = false) : c ∈ dropEndWhile p cs :=
  List.mem_reverse.mpr (mem_dropWhile (List.mem_reverse.mpr h) hc)

/-- The characters without surrounding blanks. -/
def stripChars (cs : List Char) : List Char :=
  dropEndWhile isBlank (cs.dropWhile isBlank)

theorem stripChars_subset (cs : List Char) : stripChars cs ⊆ cs :=
  fun _ hc => List.dropWhile_subset isBlank (dropEndWhile_subset isBlank _ hc)

/-- Behind a character that is not blank, only the end is stripped. -/
theorem stripChars_cons {c : Char} (hc : isBlank c = false) (cs : List Char) :
    stripChars (c :: cs) = c :: dropEndWhile isBlank cs := by
  unfold stripChars
  rw [List.dropWhile_cons_of_neg (by simp [hc]), dropEndWhile_cons hc]

/-- Blanks around a text that starts and ends otherwise are all that is stripped. -/
theorem stripChars_pad {before core after : List Char}
    (hbefore : ∀ c ∈ before, isBlank c = true) (hafter : ∀ c ∈ after, isBlank c = true)
    (hfirst : ∀ c ∈ core.head?, isBlank c = false)
    (hlast : ∀ c ∈ core.getLast?, isBlank c = false) :
    stripChars (before ++ core ++ after) = core := by
  have hleft : stripChars (before ++ core ++ after) = dropEndWhile isBlank (core ++ after) := by
    unfold stripChars
    rw [List.append_assoc, List.dropWhile_append_of_pos hbefore]
    cases core with
    | nil =>
      -- nothing but blanks: both ends take them all
      rw [List.nil_append, ← List.append_nil after, List.dropWhile_append_of_pos hafter,
        List.append_nil, ← List.nil_append after, dropEndWhile_append hafter]
      rfl
    | cons first rest =>
      rw [List.cons_append, List.dropWhile_cons_of_neg (by simp [hfirst first rfl])]
  rw [hleft, dropEndWhile_append hafter, dropEndWhile_of_getLast? hlast]

/-- A text that neither starts nor ends with a blank stays as it is. -/
theorem stripChars_of_edges {cs : List Char} (hfirst : ∀ c ∈ cs.head?, isBlank c = false)
    (hlast : ∀ c ∈ cs.getLast?, isBlank c = false) : stripChars cs = cs := by
  simpa using @stripChars_pad [] cs [] nofun nofun hfirst hlast

/-- A text without trailing blanks. -/
def stripEnd (s : String) : String :=
  String.ofList (dropEndWhile isBlank s.toList)

/-- A text without surrounding blanks. -/
def strip (s : String) : String :=
  String.ofList (stripChars s.toList)

/-- The pieces between the characters that satisfy `p`; one more than there are such
characters. -/
def splitWhere (p : Char → Bool) : List Char → List (List Char)
  | [] => [[]]
  | c :: cs =>
    if p c then [] :: splitWhere p cs
    else match splitWhere p cs with
      | [] => [[c]]
      | piece :: pieces => (c :: piece) :: pieces

/-- The pieces of a text between the characters that satisfy `p`. -/
def splitAt (p : Char → Bool) (s : String) : List String :=
  (splitWhere p s.toList).map String.ofList

/-- The words of a text: its longest runs without blanks. -/
def words (s : String) : List String :=
  ((splitWhere isBlank s.toList).filter (!·.isEmpty)).map String.ofList

/-- The text before and after the first `sep`; nothing after it if there is none. -/
def cut (sep : Char) (s : String) : String × Option String :=
  let before := s.toList.takeWhile (· != sep)
  match s.toList.dropWhile (· != sep) with
  | [] => (String.ofList before, none)
  | _ :: after => (String.ofList before, some (String.ofList after))

/-- Whether a text occurs in another one. -/
def occursIn (part : List Char) : List Char → Bool
  | [] => part.isEmpty
  | c :: cs => part.isPrefixOf (c :: cs) || occursIn part cs

end DocFlatten.Text
