import StoryScript.Text.Blank
import Mathlib.Data.List.Basic
import Mathlib.Data.List.TakeWhile

/-!
# Leading and trailing blanks

`Text.stripChars` takes the blanks off both ends of a list of characters and leaves the rest as it
is (`Text.stripChars_eq`). What is left has no blank at either end (`Text.Trimmed`), so taking them
off again changes nothing (`Text.stripChars_of_trimmed`), and blanks put in front, as a line at a
level of nesting has them, do not show (`Text.stripChars_append_of_blank`).
-/

namespace StoryScript.Text

/-- No blank stands at either end. -/
def Trimmed (cs : List Char) : Prop :=
  (∀ c ∈ cs.head?, isBlank c = false) ∧ ∀ c ∈ cs.getLast?, isBlank c = false

theorem trimmed_singleton {c : Char} (h : isBlank c = false) : Trimmed [c] := by
  simpa [Trimmed] using h

/-- A text that begins with no blank and ends in a trimmed text is trimmed. -/
theorem Trimmed.cons_append {c : Char} {cs : List Char} (h : Trimmed cs) (hne : cs ≠ [])
    (hc : isBlank c = false) (as : List Char) : Trimmed (c :: (as ++ cs)) := by
  refine ⟨by simpa using hc, fun d hd => h.2 d ?_⟩
  rwa [List.getLast?_cons_of_ne_nil (by simp [hne]), List.getLast?_append_of_ne_nil as hne] at hd

/-! ### One end -/

/-- What is left when a front is dropped begins with nothing that is dropped. -/
theorem of_mem_head?_dropWhile {α : Type} {p : α → Bool} {xs : List α} {x : α}
    (h : x ∈ (xs.dropWhile p).head?) : p x = false := by
  have hhead := List.head?_dropWhile_not p xs
  rwa [Option.mem_def.mp h] at hhead

theorem skipBlanks_of_head {cs : List Char} (h : ∀ c ∈ cs.head?, isBlank c = false) :
    skipBlanks cs = cs := by
  cases cs with
  | nil => rfl
  | cons c cs => exact List.dropWhile_cons_of_neg (by simp [h c rfl])

@[simp] theorem skipBlanks_nil : skipBlanks [] = [] := rfl

theorem head_skipBlanks {cs : List Char} {c : Char} (h : c ∈ (skipBlanks cs).head?) :
    isBlank c = false := of_mem_head?_dropWhile h

/-- Skipping blanks takes a run of blanks off the front. -/
theorem exists_skipBlanks (cs : List Char) :
    ∃ as, cs = as ++ skipBlanks cs ∧ ∀ c ∈ as, isBlank c = true :=
  ⟨cs.takeWhile isBlank, (List.takeWhile_append_dropWhile).symm,
    fun _ hc => List.mem_takeWhile_imp hc⟩

theorem skipBlanks_append_of_blank {as : List Char} (h : ∀ c ∈ as, isBlank c = true)
    (cs : List Char) : skipBlanks (as ++ cs) = skipBlanks cs := by
  rw [skipBlanks, skipBlanks, List.dropWhile_append_of_pos h]

/-- A text that does not end in a blank keeps its end when leading blanks are skipped. -/
theorem skipBlanks_append_of_last {s r : List Char} (hs : s ≠ [])
    (hlast : ∀ c ∈ s.getLast?, isBlank c = false) :
    skipBlanks (s ++ r) = skipBlanks s ++ r ∧ skipBlanks s ≠ [] := by
  obtain ⟨as, has, hblank⟩ := exists_skipBlanks s
  have hne : skipBlanks s ≠ [] := by
    intro hnil
    rw [hnil, List.append_nil] at has
    have hc := hlast _ (List.getLast?_eq_some_getLast hs)
    rw [hblank _ (has ▸ List.getLast_mem hs)] at hc
    exact Bool.false_ne_true hc.symm
  obtain ⟨c, s', hc⟩ := List.exists_cons_of_ne_nil hne
  have hhead : isBlank c = false :=
    head_skipBlanks (show c ∈ (skipBlanks s).head? by rw [hc]; rfl)
  refine ⟨?_, hne⟩
  calc skipBlanks (s ++ r) = skipBlanks (as ++ (skipBlanks s ++ r)) := by
        rw [← List.append_assoc, ← has]
    _ = skipBlanks (skipBlanks s ++ r) := skipBlanks_append_of_blank hblank _
    _ = skipBlanks s ++ r := by
        rw [hc]
        exact skipBlanks_of_head (by simpa using hhead)

theorem dropTrailingBlanks_eq (cs : List Char) :
    dropTrailingBlanks cs = (skipBlanks cs.reverse).reverse := rfl

theorem dropTrailingBlanks_of_last {cs : List Char} (h : ∀ c ∈ cs.getLast?, isBlank c = false) :
    dropTrailingBlanks cs = cs := by
  rw [dropTrailingBlanks_eq, skipBlanks_of_head (by rwa [List.head?_reverse]), List.reverse_reverse]

/-! ### Both ends -/

/-- Behind the leading blanks only trailing ones are taken off. -/
theorem exists_stripChars (cs : List Char) :
    ∃ bs, skipBlanks cs = stripChars cs ++ bs ∧ ∀ c ∈ bs, isBlank c = true := by
  obtain ⟨bs, hbs, hblank⟩ := exists_skipBlanks (skipBlanks cs).reverse
  refine ⟨bs.reverse, ?_, fun c hc => hblank c (List.mem_reverse.mp hc)⟩
  rw [stripChars, dropTrailingBlanks_eq, ← List.reverse_append, ← hbs, List.reverse_reverse]

/-- Taking the blanks off both ends takes a run of blanks off each. -/
theorem stripChars_eq (cs : List Char) : ∃ as bs, cs = as ++ stripChars cs ++ bs ∧
    (∀ c ∈ as, isBlank c = true) ∧ ∀ c ∈ bs, isBlank c = true := by
  obtain ⟨as, has, hasBlank⟩ := exists_skipBlanks cs
  obtain ⟨bs, hbs, hbsBlank⟩ := exists_stripChars cs
  refine ⟨as, bs, ?_, hasBlank, hbsBlank⟩
  rw [List.append_assoc, ← hbs]
  exact has

theorem stripChars_of_trimmed {cs : List Char} (h : Trimmed cs) : stripChars cs = cs := by
  rw [stripChars, skipBlanks_of_head h.1, dropTrailingBlanks_of_last h.2]

theorem trimmed_stripChars (cs : List Char) : Trimmed (stripChars cs) := by
  have hlast : ∀ c ∈ (stripChars cs).getLast?, isBlank c = false := by
    intro c hc
    rw [stripChars, dropTrailingBlanks_eq, List.getLast?_reverse] at hc
    exact head_skipBlanks hc
  refine ⟨fun c hc => ?_, hlast⟩
  obtain ⟨bs, hrest, -⟩ := exists_stripChars cs
  have hskip : c ∈ (skipBlanks cs).head? := by
    rw [hrest, List.head?_append, hc]
    rfl
  exact head_skipBlanks hskip

@[simp] theorem stripChars_stripChars (cs : List Char) : stripChars (stripChars cs) = stripChars cs :=
  stripChars_of_trimmed (trimmed_stripChars cs)

@[simp] theorem strip_strip (s : String) : strip (strip s) = strip s := by
  simp [strip]

/-- Blanks in front do not show. -/
theorem stripChars_append_of_blank {as : List Char} (h : ∀ c ∈ as, isBlank c = true)
    (cs : List Char) : stripChars (as ++ cs) = stripChars cs := by
  rw [stripChars, skipBlanks_append_of_blank h, stripChars]

/-- Blanks behind do not show. -/
theorem stripChars_append_blank (cs : List Char) {bs : List Char} (h : ∀ c ∈ bs, isBlank c = true) :
    stripChars (cs ++ bs) = stripChars cs := by
  obtain ⟨as, has, hasBlank⟩ := exists_skipBlanks cs
  by_cases hnil : skipBlanks cs = []
  · rw [hnil, List.append_nil] at has
    rw [has, ← List.append_nil (as ++ bs), stripChars_append_of_blank, ← List.append_nil as,
      stripChars_append_of_blank hasBlank]
    intro c hc
    rcases List.mem_append.mp hc with hc | hc
    · exact hasBlank c hc
    · exact h c hc
  · have hskip : skipBlanks (cs ++ bs) = skipBlanks cs ++ bs := by
      obtain ⟨c, rest, hcons⟩ := List.exists_cons_of_ne_nil hnil
      have hhead : ∀ d ∈ (skipBlanks cs ++ bs).head?, isBlank d = false := by
        intro d hd
        rw [hcons, List.cons_append, List.head?_cons, Option.mem_some_iff] at hd
        have hmem : d ∈ (skipBlanks cs).head? := by
          rw [hcons, List.head?_cons, hd, Option.mem_some_iff]
        exact head_skipBlanks hmem
      conv_lhs => rw [has, List.append_assoc]
      rw [skipBlanks_append_of_blank hasBlank, skipBlanks_of_head hhead]
    rw [stripChars, stripChars, hskip, dropTrailingBlanks_eq, dropTrailingBlanks_eq,
      List.reverse_append, skipBlanks_append_of_blank fun c hc => h c (List.mem_reverse.mp hc)]

/-- What is left of a text that no blank ends is trimmed when blanks and more are dropped in
front. -/
theorem trimmed_dropWhile {cs : List Char} {p : Char → Bool} (h : Trimmed cs)
    (hp : ∀ c, isBlank c = true → p c = true) : Trimmed (cs.dropWhile p) := by
  refine ⟨fun c hc => ?_, fun c hc => ?_⟩
  · by_contra hblank
    have hhead := of_mem_head?_dropWhile hc
    simp [hp c (by simpa using hblank)] at hhead
  · refine h.2 c ?_
    have hne : cs.dropWhile p ≠ [] := by
      rintro hnil
      simp [hnil] at hc
    rwa [← List.takeWhile_append_dropWhile (p := p) (l := cs),
      List.getLast?_append_of_ne_nil _ hne]

/-- Blanks at the end of a front do not change how it begins. -/
theorem head?_stripChars {cs : List Char} (h : ∀ c ∈ cs.head?, isBlank c = false) :
    ∀ c ∈ (stripChars cs).head?, c ∈ cs.head? := by
  intro c hc
  obtain ⟨bs, hrest, -⟩ := exists_stripChars cs
  rw [← skipBlanks_of_head h, hrest, List.head?_append, hc]
  rfl

theorem mem_of_mem_stripChars {cs : List Char} {c : Char} (h : c ∈ stripChars cs) : c ∈ cs := by
  obtain ⟨as, bs, hcs, -⟩ := stripChars_eq cs
  rw [hcs]
  simp [h]

/-- Two texts are the same without their blanks if their characters are. -/
theorem strip_eq_iff {s t : String} :
    strip s = strip t ↔ stripChars s.toList = stripChars t.toList := by
  rw [strip, strip, String.ofList_inj]

end StoryScript.Text
