/-!
# Blanks

A blank is a character that separates words: the ASCII controls TAB to CR and FS to US, the space,
NEL, the no-break space and the other space separators of Unicode. The zero-width space U+200B and
the byte-order mark U+FEFF are no blanks.

* `Text.isBlank` — the class.
* `Text.strip` — a text without its leading and trailing blanks.
-/

namespace StoryScript.Text

/-- The blanks above U+007F. -/
def wideBlanks : List Nat :=
  [0x85, 0xa0, 0x1680, 0x2000, 0x2001, 0x2002, 0x2003, 0x2004, 0x2005, 0x2006, 0x2007, 0x2008,
   0x2009, 0x200a, 0x2028, 0x2029, 0x202f, 0x205f, 0x3000]

/-- Whether a character separates words. -/
def isBlank (c : Char) : Bool :=
  if c.toNat < 128 then
    c = ' ' || (9 ≤ c.toNat && c.toNat ≤ 13) || (28 ≤ c.toNat && c.toNat ≤ 31)
  else wideBlanks.contains c.toNat

/-- Drop the leading blanks. -/
def skipBlanks (cs : List Char) : List Char := cs.dropWhile isBlank

/-- Drop the trailing blanks. -/
def dropTrailingBlanks (cs : List Char) : List Char := (cs.reverse.dropWhile isBlank).reverse

/-- Drop the leading and the trailing blanks. -/
def stripChars (cs : List Char) : List Char := dropTrailingBlanks (skipBlanks cs)

/-- A text without its leading and trailing blanks. -/
def strip (s : String) : String := String.ofList (stripChars s.toList)

/-! ### Lengths -/

theorem length_skipBlanks_le (cs : List Char) : (skipBlanks cs).length ≤ cs.length :=
  (List.dropWhile_sublist _).length_le

theorem length_dropTrailingBlanks_le (cs : List Char) :
    (dropTrailingBlanks cs).length ≤ cs.length := by
  have h := (List.dropWhile_sublist (l := cs.reverse) isBlank).length_le
  simpa [dropTrailingBlanks] using h

theorem length_stripChars_le (cs : List Char) : (stripChars cs).length ≤ cs.length :=
  Nat.le_trans (length_dropTrailingBlanks_le _) (length_skipBlanks_le _)

end StoryScript.Text
