import StoryScript.Text.Word
import StoryScript.Text.CaseTable

/-!
# Lowercase

The lowercase form of a text, letter by letter, with the two rules that look beyond a single code
point: a capital dotted I becomes two code points, and a capital sigma that ends a word (a letter
with case before it and none after it, characters that carry no case being looked through) becomes
the final sigma.
-/

namespace StoryScript.Text

/-- The lowercase of a character on its own. -/
def lowerChar (c : Char) : Char :=
  if c.toNat < 128 then c.toLower
  else
    match lowercaseRuns.find? fun r =>
        r.first ≤ c.toNat && c.toNat ≤ r.last && (c.toNat - r.first) % r.step == 0 with
    | some r => Char.ofNat ((c.toNat : Int) + r.offset).toNat
    | none => c

/-- Whether the first character that carries case information is a letter with case. -/
def meetsCased (cs : List Char) : Bool :=
  match cs.dropWhile fun c => inRanges caseIgnorableRanges c.toNat with
  | [] => false
  | c :: _ => inRanges casedRanges c.toNat

/-- The lowercase of `cs`; `before` holds the characters in front of it, nearest first. -/
def lowerFrom (before : List Char) : List Char → List Char
  | [] => []
  | c :: cs =>
    let here :=
      if c = 'Σ' then [if meetsCased before && !meetsCased cs then 'ς' else 'σ']
      else if c = 'İ' then ['i', Char.ofNat 0x307]
      else [lowerChar c]
    here ++ lowerFrom (c :: before) cs

/-- The lowercase of a text. -/
def lower (s : String) : String := String.ofList (lowerFrom [] s.toList)

end StoryScript.Text
