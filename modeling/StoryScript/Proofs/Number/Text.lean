import StoryScript.Number.Decimal
import Mathlib.Tactic.Set

/-!
# The characters of written numbers

However a number is written, its text is made of digits, points, signs, the letter of an exponent
and the letters of the words for what is not finite (`Binary64.isNumberChar`). So it stays on one
line and holds no blank and no bracket.
-/

namespace StoryScript

namespace Decimal

/-- A character that may stand in the text of a number. -/
def isNumberChar (c : Char) : Bool := c.isDigit || "+-.aefin".toList.contains c

theorem isNumberChar_digitsOf {n : Nat} {c : Char} (h : c ∈ digitsOf n) : isNumberChar c = true := by
  rw [isNumberChar, Nat.isDigit_of_mem_toDigits (by decide) (by decide) h, Bool.true_or]

theorem isNumberChar_zeros {n : Nat} {c : Char} (h : c ∈ zeros n) : isNumberChar c = true := by
  rw [(List.mem_replicate.mp h).2]
  decide

/-- Digits that are rounded are digits. -/
theorem isNumberChar_rounded {n d precision : Nat} {c : Char}
    (h : c ∈ (rounded n d precision).digits) : isNumberChar c = true := by
  unfold rounded at h
  simp only at h
  split at h
  · exact isNumberChar_digitsOf h
  · exact isNumberChar_digitsOf h

/-- Dropping trailing zeros brings in no new digit. -/
theorem mem_of_mem_trimmed {d : Decimal} {c : Char} (h : c ∈ d.trimmed.digits) : c ∈ d.digits := by
  unfold trimmed at h
  split at h
  · exact h
  · next a cs hdigits =>
    rw [hdigits]
    rcases List.mem_cons.mp h with rfl | h
    · exact List.mem_cons_self
    · have hmem := (List.dropWhile_sublist _).subset (List.mem_reverse.mp h)
      exact List.mem_cons_of_mem _ (List.mem_reverse.mp hmem)

theorem isNumberChar_positional {d : Decimal} (hd : ∀ c ∈ d.digits, isNumberChar c = true)
    {c : Char} (h : c ∈ d.positional) : isNumberChar c = true := by
  unfold positional at h
  simp only at h
  split at h
  · simp only [List.cons_append, List.mem_cons, List.mem_append] at h
    rcases h with rfl | rfl | h | h
    · decide
    · decide
    · exact isNumberChar_zeros h
    · exact hd c h
  · split at h
    · rcases List.mem_append.mp h with h | h
      · exact hd c h
      · exact isNumberChar_zeros h
    · rcases List.mem_append.mp h with h | h
      · exact hd c (List.mem_of_mem_take h)
      · rcases List.mem_cons.mp h with rfl | h
        · decide
        · exact hd c (List.mem_of_mem_drop h)

theorem isNumberChar_scientific {d : Decimal} (hd : ∀ c ∈ d.digits, isNumberChar c = true)
    {c : Char} (h : c ∈ d.scientific) : isNumberChar c = true := by
  unfold scientific at h
  simp only [List.append_assoc, List.mem_append, List.mem_cons, List.not_mem_nil, or_false] at h
  rcases h with h | (rfl | h) | h | h
  · split at h
    · obtain rfl := List.mem_singleton.mp h
      decide
    · next a hdigits => exact hd c (hdigits ▸ h)
    · next a cs hdigits =>
      rcases List.mem_cons.mp h with rfl | h
      · exact hd _ (by simp [hdigits])
      · rcases List.mem_cons.mp h with rfl | h
        · decide
        · exact hd c (by simp [hdigits, h])
  · decide
  · subst h
    split <;> decide
  · exact isNumberChar_zeros h
  · exact isNumberChar_digitsOf h

end Decimal

namespace Binary64

open Decimal

theorem isNumberChar_signed {s : Bool} {cs : List Char} (h : ∀ c ∈ cs, isNumberChar c = true)
    {c : Char} (hc : c ∈ (signed s cs).toList) : isNumberChar c = true := by
  unfold signed at hc
  rw [String.toList_ofList] at hc
  split at hc
  · rcases List.mem_cons.mp hc with rfl | hc
    · decide
    · exact h c hc
  · exact h c hc

theorem isNumberChar_special (x : Binary64) : ∀ c ∈ x.special.toList, isNumberChar c = true := by
  unfold special
  split <;> exact List.all_eq_true.mp (by decide)

theorem isNumberChar_fixed (places : Nat) (x : Binary64) {c : Char}
    (h : c ∈ (x.fixed places).toList) : isNumberChar c = true := by
  unfold fixed at h
  split at h
  · next s i =>
    refine isNumberChar_signed (fun a ha => ?_) h
    set digits := digitsOf (roundHalfEven (units i * Nat.pow 10 places) unit) with hdigits
    have hpadded : ∀ b ∈ zeros (places + 1 - digits.length) ++ digits, isNumberChar b = true := by
      intro b hb
      rcases List.mem_append.mp hb with hb | hb
      · exact isNumberChar_zeros hb
      · exact isNumberChar_digitsOf (hdigits ▸ hb)
    split at ha
    · exact hpadded a (List.mem_of_mem_take ha)
    · rcases List.mem_append.mp ha with ha | ha
      · exact hpadded a (List.mem_of_mem_take ha)
      · rcases List.mem_cons.mp ha with rfl | ha
        · decide
        · exact hpadded a (List.mem_of_mem_drop ha)
  · exact isNumberChar_special _ c h

theorem isNumberChar_general (precision : Nat) (x : Binary64) {c : Char}
    (h : c ∈ (x.general precision).toList) : isNumberChar c = true := by
  unfold general at h
  split at h
  · split at h
    · refine isNumberChar_signed (fun a ha => ?_) h
      obtain rfl := List.mem_singleton.mp ha
      decide
    · next s i hi =>
      have hdigits : ∀ a ∈ (Decimal.rounded (units i) unit precision).trimmed.digits,
          isNumberChar a = true := fun a ha => isNumberChar_rounded (mem_of_mem_trimmed ha)
      refine isNumberChar_signed (fun a ha => ?_) h
      unfold write at ha
      split at ha
      · exact isNumberChar_positional hdigits ha
      · exact isNumberChar_scientific hdigits ha
  · exact isNumberChar_special _ c h

end Binary64

end StoryScript
