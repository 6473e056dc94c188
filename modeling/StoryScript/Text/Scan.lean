import StoryScript.Text.Blank
import StoryScript.Text.Word

/-!
# Recognising the parts of a line

Small recognisers over the characters of a line, from which the line forms are put together. Each
takes the characters still to be read; one that can fail gives `none`.

Two of them search. `afterBlanks k` reads as many blanks as it can before `k` and gives blanks back
one at a time until `k` accepts. `shortest k` reads the fewest characters, none of them a line feed,
after which `k` accepts.
-/

namespace StoryScript.Text

/-- Read the given text. -/
def lit? (p : String) (cs : List Char) : Option (List Char) := p.toList.isPrefixOf? cs

/-- Read nothing, at the end only. -/
def done? : List Char → Option Unit
  | [] => some ()
  | _ :: _ => none

/-- Read a longest non-empty run of characters of a class. -/
def run? (p : Char → Bool) (cs : List Char) : Option (List Char × List Char) :=
  match cs.takeWhile p with
  | [] => none
  | run => some (run, cs.dropWhile p)

/-- Read a word: letters, numbers and underscores. -/
def word? (cs : List Char) : Option (List Char × List Char) := run? isWord cs

/-- Read a name or two names joined by a dot. -/
def target? (cs : List Char) : Option (List Char × List Char) := do
  let (knot, rest) ← word? cs
  match lit? "." rest >>= word? with
  | some (stitch, rest) => some (knot ++ '.' :: stitch, rest)
  | none => some (knot, rest)

/-- Read a text in double quotes; it has no quotes inside. -/
def quoted? (cs : List Char) : Option (List Char × List Char) := do
  let rest ← lit? "\"" cs
  let text := rest.takeWhile (· ≠ '"')
  let rest ← lit? "\"" (rest.dropWhile (· ≠ '"'))
  some (text, rest)

/-- Read digits, and a point and digits if they follow. -/
def unsigned? (cs : List Char) : Option (List Char × List Char) := do
  let (whole, rest) ← run? isDigit cs
  match lit? "." rest >>= run? isDigit with
  | some (frac, rest) => some (whole ++ '.' :: frac, rest)
  | none => some (whole, rest)

/-- Read a decimal number with an optional minus sign. -/
def number? (cs : List Char) : Option (List Char × List Char) :=
  match lit? "-" cs with
  | some rest => (unsigned? rest).map fun (digits, rest) => ('-' :: digits, rest)
  | none => unsigned? cs

/-- Read blanks, as many as possible, then `k`; blanks are given back while `k` refuses. -/
def afterBlanks (k : List Char → Option α) : List Char → Option α
  | [] => k []
  | c :: cs => if isBlank c then (afterBlanks k cs).orElse fun _ => k (c :: cs) else k (c :: cs)

/-- Read the fewest characters of the line after which `k` accepts. -/
def shortest (k : List Char → Option α) : List Char → Option (List Char × α)
  | [] => (k []).map ([], ·)
  | c :: cs =>
    match k (c :: cs) with
    | some a => some ([], a)
    | none => if c = '\n' then none else (shortest k cs).map fun (p, a) => (c :: p, a)

/-- Read the fewest characters, at least one, after which `k` accepts. -/
def shortestSome (k : List Char → Option α) : List Char → Option (List Char × α)
  | [] => none
  | c :: cs => if c = '\n' then none else (shortest k cs).map fun (p, a) => (c :: p, a)

/-- Whether a text stays on one line. -/
def onOneLine (cs : List Char) : Bool := !cs.contains '\n'

/-- Whether `p` occurs somewhere in `cs`. -/
def occursIn (p : List Char) : List Char → Bool
  | [] => p.isEmpty
  | c :: cs => p.isPrefixOf (c :: cs) || occursIn p cs

/-! ### What a successful search found -/

theorem exists_of_afterBlanks {k : List Char → Option α} {cs : List Char} {a : α}
    (h : afterBlanks k cs = some a) : ∃ rest, rest.length ≤ cs.length ∧ k rest = some a := by
  induction cs with
  | nil => exact ⟨[], Nat.le_refl _, h⟩
  | cons c cs ih =>
    simp only [afterBlanks] at h
    split at h
    · cases hk : afterBlanks k cs with
      | some b =>
        simp only [hk, Option.orElse_some] at h
        obtain ⟨rest, hl, hr⟩ := ih (by rw [hk, h])
        exact ⟨rest, Nat.le_succ_of_le hl, hr⟩
      | none => exact ⟨c :: cs, Nat.le_refl _, by simpa [hk] using h⟩
    · exact ⟨c :: cs, Nat.le_refl _, h⟩

theorem exists_of_shortest {k : List Char → Option α} {cs p : List Char} {a : α}
    (h : shortest k cs = some (p, a)) : ∃ rest, cs = p ++ rest ∧ k rest = some a := by
  induction cs generalizing p with
  | nil =>
    simp only [shortest, Option.map_eq_some_iff, Prod.mk.injEq] at h
    obtain ⟨b, hb, rfl, rfl⟩ := h
    exact ⟨[], rfl, hb⟩
  | cons c cs ih =>
    simp only [shortest] at h
    split at h
    · rename_i b hb
      cases h
      exact ⟨c :: cs, rfl, hb⟩
    · split at h
      · simp at h
      · simp only [Option.map_eq_some_iff, Prod.mk.injEq, Prod.exists] at h
        obtain ⟨q, b, hq, rfl, rfl⟩ := h
        obtain ⟨rest, rfl, hr⟩ := ih hq
        exact ⟨rest, rfl, hr⟩

theorem exists_of_shortestSome {k : List Char → Option α} {cs p : List Char} {a : α}
    (h : shortestSome k cs = some (p, a)) :
    ∃ rest, cs = p ++ rest ∧ p ≠ [] ∧ k rest = some a := by
  cases cs with
  | nil => simp [shortestSome] at h
  | cons c cs =>
    simp only [shortestSome] at h
    split at h
    · simp at h
    · simp only [Option.map_eq_some_iff, Prod.mk.injEq, Prod.exists] at h
      obtain ⟨q, b, hq, rfl, rfl⟩ := h
      obtain ⟨rest, rfl, hr⟩ := exists_of_shortest hq
      exact ⟨rest, rfl, by simp, hr⟩

theorem eq_append_of_lit? {p : String} {cs rest : List Char} (h : lit? p cs = some rest) :
    cs = p.toList ++ rest := by
  simp only [lit?] at h
  generalize p.toList = p at h
  induction p generalizing cs with
  | nil => exact Option.some.inj h
  | cons a p ih =>
    cases cs with
    | nil =>
      change none = some rest at h
      simp at h
    | cons b cs =>
      change (if a == b then p.isPrefixOf? cs else none) = some rest at h
      split at h
      · rename_i hab
        rw [ih h, eq_of_beq hab, List.cons_append]
      · simp at h

end StoryScript.Text
