/-!
# Lines

A text is its lines joined by line feeds. A carriage return directly before a line feed belongs to
the line break; one that stands alone stays inside its line.

* `Text.splitAt` and `Text.joinWith` — cutting at a separator character and joining again; joining
  undoes cutting (`joinWith_splitAt`).
* `Text.lines` — the lines of a text, never none.
* `Text.unlines` — lines joined by line feeds.
-/

namespace StoryScript.Text

/-- Cut `cs` at every occurrence of `sep`. There is always at least one piece. -/
def splitAt (sep : Char) : List Char → List (List Char)
  | [] => [[]]
  | c :: cs =>
    if c = sep then [] :: splitAt sep cs
    else
      match splitAt sep cs with
      | [] => [[c]]
      | piece :: pieces => (c :: piece) :: pieces

/-- Join the pieces with `sep` between them. -/
def joinWith (sep : Char) : List (List Char) → List Char
  | [] => []
  | [piece] => piece
  | piece :: pieces => piece ++ sep :: joinWith sep pieces

/-- Replace every carriage return and line feed pair by a line feed. -/
def dropCarriageReturns : List Char → List Char
  | '\r' :: '\n' :: cs => '\n' :: dropCarriageReturns cs
  | c :: cs => c :: dropCarriageReturns cs
  | [] => []

/-- Replace every carriage return, alone or before a line feed, by a line feed. -/
def withLineFeedsChars : List Char → List Char
  | '\r' :: '\n' :: cs => '\n' :: withLineFeedsChars cs
  | '\r' :: cs => '\n' :: withLineFeedsChars cs
  | c :: cs => c :: withLineFeedsChars cs
  | [] => []

/-- A text in which every line break is a line feed. -/
def withLineFeeds (text : String) : String := String.ofList (withLineFeedsChars text.toList)

/-- The lines of a text. -/
def lines (text : String) : List String :=
  (splitAt '\n' (dropCarriageReturns text.toList)).map String.ofList

/-- Lines joined by line feeds. -/
def unlines (ls : List String) : String :=
  String.ofList (joinWith '\n' (ls.map String.toList))

/-- Texts joined with a separator between them. -/
def join (sep : String) (pieces : List String) : String := sep.intercalate pieces

/-! ### Laws -/

theorem splitAt_ne_nil (sep : Char) (cs : List Char) : splitAt sep cs ≠ [] := by
  cases cs with
  | nil => simp [splitAt]
  | cons c cs =>
    simp only [splitAt]
    split
    · simp
    · split <;> simp

theorem joinWith_splitAt (sep : Char) (cs : List Char) : joinWith sep (splitAt sep cs) = cs := by
  induction cs with
  | nil => rfl
  | cons c cs ih =>
    simp only [splitAt]
    split
    · rename_i h
      match hs : splitAt sep cs with
      | [] => exact absurd hs (splitAt_ne_nil sep cs)
      | p :: ps => rw [hs] at ih; simp [joinWith, ih, h]
    · match hs : splitAt sep cs with
      | [] => exact absurd hs (splitAt_ne_nil sep cs)
      | [p] => rw [hs] at ih; simp_all [joinWith]
      | p :: q :: ps => rw [hs] at ih; simpa [joinWith] using ih

end StoryScript.Text
