import StoryScript.Proofs.Line.Position

/-!
# The position that an annotation gives

The coordinates of a position are written with one place after the point. A finite number written in this way
is read as the number nearest to the nearest tenth (`Binary64.ofNumeral_fixed`), so the annotation of a
position with finite coordinates gives the position rounded to tenths. An annotation with a coordinate that is
not finite gives no position: it is a comment like any other (`Line.form_comment`).
-/

namespace StoryScript

open Text

namespace Decimal

theorem isDigit_of_isDigit {c : Char} (h : c.isDigit = true) :
    isDigit c = true ∧ digit? c = some (c.toNat - 48) := by
  have hascii : c.toNat < 128 := by
    have hrange : 48 ≤ c.toNat ∧ c.toNat ≤ 57 := Char.isDigit_iff_toNat.mp h
    omega
  have hdigit : digit? c = some (c.toNat - 48) := by
    rw [digit?, if_pos hascii, if_pos h]
  exact ⟨by rw [isDigit, hdigit]; rfl, hdigit⟩

theorem isWord_of_isDigit {c : Char} (h : c.isDigit = true) : isWord c = true := by
  have hrange : 48 ≤ c.toNat ∧ c.toNat ≤ 57 := Char.isDigit_iff_toNat.mp h
  rw [isWord, isAlnum, if_pos (by omega), Char.isAlphanum, h, Bool.or_true, Bool.or_true]

/-- Plain digits are read as the library reads them. -/
theorem digitsValue_eq {cs : List Char} (h : ∀ c ∈ cs, c.isDigit = true) :
    Binary64.digitsValue cs = Nat.ofDigitChars 10 cs 0 := by
  suffices hfrom : ∀ n, cs.foldl (fun n c => n * 10 + (digit? c).getD 0) n =
      cs.foldl (fun n c => 10 * n + (c.toNat - '0'.toNat)) n from hfrom 0
  induction cs with
  | nil => exact fun _ => rfl
  | cons c cs ih =>
    rw [List.forall_mem_cons] at h
    intro n
    rw [List.foldl_cons, List.foldl_cons, (isDigit_of_isDigit h.1).2, Option.getD_some, Nat.mul_comm]
    exact ih h.2 _

end Decimal

namespace Binary64

open Decimal

/-- Half a unit of the last place away from a tenth at most: the number nearest to the nearest tenth. -/
def toTenth : Binary64 → Binary64
  | finite s i => ofDecimal s (roundHalfEven (units i * 10) unit) (-1)
  | x => x

/-- A finite number is written as digits, a point and one more digit; without the point these are the
digits of the number of tenths. -/
theorem exists_fixed (s : Bool) (i : Fin (2047 * Nat.pow 2 52)) : ∃ whole frac,
    (finite s i).fixed 1 = signed s (whole ++ '.' :: frac) ∧ whole ≠ [] ∧ frac.length = 1 ∧
      (∀ c ∈ whole, c.isDigit = true) ∧ (∀ c ∈ frac, c.isDigit = true) ∧
      digitsValue (whole ++ frac) = roundHalfEven (units i * 10) unit := by
  have hten : units i * Nat.pow 10 1 = units i * 10 := rfl
  rw [fixed, if_neg (by omega), hten]
  generalize roundHalfEven (units i * 10) unit = n
  -- padded with zeros in front, there is a digit on each side of the point
  set padded := zeros (1 + 1 - (digitsOf n).length) ++ digitsOf n with hpadded
  have hlength : 2 ≤ padded.length := by
    rw [hpadded, List.length_append, zeros, List.length_replicate]
    omega
  have hdigits : ∀ c ∈ padded, c.isDigit = true := by
    intro c hc
    rcases List.mem_append.mp hc with hzero | hdigit
    · rw [(List.mem_replicate.mp hzero).2]
      rfl
    · exact Nat.isDigit_of_mem_toDigits (by decide) (by decide) hdigit
  refine ⟨_, _, rfl, ?_, ?_, fun c hc => hdigits c (List.mem_of_mem_take hc),
    fun c hc => hdigits c (List.mem_of_mem_drop hc), ?_⟩
  · rw [Ne, List.take_eq_nil_iff]
    rintro (hzero | hnil)
    · omega
    · rw [hnil] at hlength
      simp at hlength
  · rw [List.length_drop]
    omega
  · rw [List.take_append_drop, digitsValue_eq hdigits, hpadded, Nat.ofDigitChars_append, zeros,
      Nat.ofDigitChars_replicate_zero, Nat.mul_zero, digitsOf, Nat.ofDigitChars_ten_toDigits]

theorem toList_signed (s : Bool) (cs : List Char) :
    (signed s cs).toList = if s then '-' :: cs else cs := by
  rw [signed, String.toList_ofList]

/-- A number that is written with one place after the point is read as the number nearest to it. -/
theorem ofNumeral_fixed {x : Binary64} (h : x.isFinite = true) :
    ofNumeral (x.fixed 1).toList = x.toTenth := by
  cases x with
  | infinite s => simp [isFinite] at h
  | nan => simp [isFinite] at h
  | finite s i =>
    obtain ⟨whole, frac, hfixed, hne, hfrac, hwhole, -, hvalue⟩ := exists_fixed s i
    have hpoint : ∀ c ∈ whole, decide (c ≠ '.') = true := by
      intro c hc
      have hdigit := hwhole c hc
      simpa using fun heq : c = '.' => absurd (heq ▸ hdigit) (by decide)
    have hend : ∀ c ∈ ('.' :: frac).head?, decide (c ≠ '.') = false := by simp
    -- what stands in front of the point and behind it are the digits of one number of tenths
    obtain ⟨htake, hdrop⟩ := takeWhile_dropWhile_append hpoint hend
    have hunsigned : ∀ negative, ofUnsigned negative 0 (whole ++ '.' :: frac) =
        ofDecimal negative (roundHalfEven (units i * 10) unit) (-1) := by
      intro negative
      rw [ofUnsigned, htake, hdrop, List.drop_one, List.tail_cons, hvalue, hfrac]
      rfl
    rw [hfixed, toList_signed]
    -- a minus is written in front of negative numbers, and no digit is one
    cases s with
    | true => exact hunsigned true
    | false =>
      obtain ⟨c, cs, rfl⟩ := List.exists_cons_of_ne_nil hne
      have hminus : c ≠ '-' := fun heq => absurd (heq ▸ hwhole c List.mem_cons_self) (by decide)
      have hnumeral : ofNumeral (c :: cs ++ '.' :: frac) = ofUnsigned false 0 (c :: cs ++ '.' :: frac) := by
        unfold ofNumeral
        split
        · next heq => exact absurd (List.cons.inj heq).1 hminus
        · rfl
      exact hnumeral.trans (hunsigned false)

end Binary64

/-! ### Reading numbers -/

theorem unsigned?_append {whole frac rest : List Char} (hne : whole ≠ []) (hfrac : frac ≠ [])
    (hwhole : ∀ c ∈ whole, c.isDigit = true) (hdigits : ∀ c ∈ frac, c.isDigit = true)
    (hrest : ∀ c ∈ rest.head?, isDigit c = false) :
    unsigned? (whole ++ '.' :: frac ++ rest) = some (whole ++ '.' :: frac, rest) := by
  have hend : ∀ c ∈ ('.' :: (frac ++ rest)).head?, isDigit c = false := by
    intro c hc
    obtain rfl := Option.some.inj hc
    decide
  have hread := run?_append hne (fun c hc => (Decimal.isDigit_of_isDigit (hwhole c hc)).1) hend
  have hread' := run?_append hfrac (fun c hc => (Decimal.isDigit_of_isDigit (hdigits c hc)).1) hrest
  have hpoint : lit? "." ('.' :: (frac ++ rest)) = some (frac ++ rest) := rfl
  have happend : whole ++ '.' :: frac ++ rest = whole ++ '.' :: (frac ++ rest) := by simp
  rw [happend, unsigned?, hread]
  simp only [Option.bind_eq_bind, Option.bind_some, hpoint, hread']

/-- A finite number is read whole. -/
theorem number?_fixed {x : Binary64} (h : x.isFinite = true) {rest : List Char}
    (hrest : ∀ c ∈ rest.head?, isDigit c = false) :
    number? ((x.fixed 1).toList ++ rest) = some ((x.fixed 1).toList, rest) := by
  cases x with
  | infinite s => simp [Binary64.isFinite] at h
  | nan => simp [Binary64.isFinite] at h
  | finite s i =>
    obtain ⟨whole, frac, hfixed, hne, hfrac, hwhole, hdigits, -⟩ := Binary64.exists_fixed s i
    have hfracNe : frac ≠ [] := by
      rintro rfl
      simp at hfrac
    have hunsigned := unsigned?_append hne hfracNe hwhole hdigits hrest
    rw [hfixed, Binary64.toList_signed]
    cases s with
    | true =>
      have hminus : lit? "-" ('-' :: (whole ++ '.' :: frac) ++ rest) = some (whole ++ '.' :: frac ++ rest) := rfl
      rw [if_pos rfl, number?, hminus]
      simp only [hunsigned, Option.map_some]
    | false =>
      obtain ⟨c, cs, rfl⟩ := List.exists_cons_of_ne_nil hne
      have hminus : lit? "-" (c :: cs ++ '.' :: frac ++ rest) = none :=
        lit?_eq_none_of_head (fun heq => absurd (hwhole c List.mem_cons_self)
          (by rw [← Option.some.inj heq]; decide)) (by decide)
      rw [if_neg (by simp), number?, hminus]
      exact hunsigned

/-- Nothing is read of a number that is not finite. -/
theorem number?_fixed_eq_none {x : Binary64} (h : x.isFinite = false) (rest : List Char) :
    number? ((x.fixed 1).toList ++ rest) = none := by
  cases x with
  | finite s i => simp [Binary64.isFinite] at h
  | infinite s => cases s <;> rfl
  | nan => rfl

/-! ### Positions -/

/-- Both coordinates are finite. -/
def Position.isFinite (p : Position) : Bool := p.x.isFinite && p.y.isFinite

/-- A position on the grid of tenths. -/
def Position.toTenths (p : Position) : Position := ⟨p.x.toTenth, p.y.toTenth⟩

namespace Line

/-- No blank stands in front of a number. -/
theorem skipBlanks_fixed (x : Binary64) (rest : List Char) :
    skipBlanks ((x.fixed 1).toList ++ rest) = (x.fixed 1).toList ++ rest := by
  have hhead : ∃ c cs, (x.fixed 1).toList = c :: cs ∧ isBlank c = false := by
    cases x with
    | infinite s => cases s <;> exact ⟨_, _, rfl, by decide⟩
    | nan => exact ⟨_, _, rfl, by decide⟩
    | finite s i =>
      obtain ⟨whole, frac, hfixed, hne, -, hwhole, -⟩ := Binary64.exists_fixed s i
      obtain ⟨c, cs, rfl⟩ := List.exists_cons_of_ne_nil hne
      rw [hfixed, Binary64.toList_signed]
      cases s with
      | true => exact ⟨_, _, rfl, by decide⟩
      | false =>
        have hdigit := hwhole c List.mem_cons_self
        exact ⟨c, cs ++ '.' :: frac, rfl, isBlank_of_isWord (Decimal.isWord_of_isDigit hdigit)⟩
  obtain ⟨c, cs, hcs, hc⟩ := hhead
  rw [hcs]
  exact skipBlanks_of_head (by simpa using hc)

/-- The coordinates that are written for a position are read as its tenths, provided that they are finite. -/
theorem coordinates?_render (p : Position) (rest : List Char) :
    coordinates? (p.render.toList ++ rest) =
      if p.isFinite then some (p.toTenths, rest) else none := by
  have hchars : p.render.toList ++ rest = "\x7b \"pos-x\": ".toList ++ ((p.x.fixed 1).toList ++
      (", \"pos-y\": ".toList ++ ((p.y.fixed 1).toList ++ (" \x7d".toList ++ rest)))) := by
    simp [Position.render]
  -- what is read behind the first coordinate, and behind the second
  set last : List Char → List Char × List Char → Option (Position × List Char) := fun x y =>
    (lit? "\x7d" (skipBlanks y.2)).bind fun rest =>
      some (⟨Binary64.ofNumeral x, Binary64.ofNumeral y.1⟩, rest)
  set between : List Char × List Char → Option (Position × List Char) := fun x =>
    (lit? "," (skipBlanks x.2)).bind fun rest => (lit? "\"pos-y\"" (skipBlanks rest)).bind fun rest =>
      (lit? ":" (skipBlanks rest)).bind fun rest => (number? (skipBlanks rest)).bind (last x.1)
  have hfirst : ∀ cs, coordinates? ("\x7b \"pos-x\": ".toList ++ cs) =
      (number? (skipBlanks cs)).bind between := fun _ => rfl
  have hsecond : ∀ x cs, between (x, ", \"pos-y\": ".toList ++ cs) =
      (number? (skipBlanks cs)).bind (last x) := fun _ _ => rfl
  have hend : ∀ x y, last x (y, " \x7d".toList ++ rest) =
      some (⟨Binary64.ofNumeral x, Binary64.ofNumeral y⟩, rest) := fun _ _ => rfl
  clear_value last between
  rw [hchars, hfirst, skipBlanks_fixed]
  cases hx : p.x.isFinite with
  | false =>
    rw [number?_fixed_eq_none hx, Position.isFinite, hx]
    rfl
  | true =>
    rw [number?_fixed hx (by simp; decide), Option.bind_some, hsecond, skipBlanks_fixed]
    cases hy : p.y.isFinite with
    | false =>
      rw [number?_fixed_eq_none hy, Position.isFinite, hx, hy]
      rfl
    | true =>
      rw [number?_fixed hy (by simp; decide), Option.bind_some, hend, Position.isFinite, hx, hy,
        Binary64.ofNumeral_fixed hx, Binary64.ofNumeral_fixed hy]
      rfl

/-- The annotation of a position with finite coordinates gives its tenths; any other is a comment. -/
theorem form_comment (p : Position) : (ofText p.comment).form =
    if p.isFinite then .position p.toTenths else .comment := by
  have hchars : p.comment.toList = "// <".toList ++ (p.render.toList ++ ['>']) := by
    simp [Position.comment]
  have hposition : position? p.comment.toList = if p.isFinite then some (.position p.toTenths) else none := by
    have hread : ∀ cs, position? ("// <".toList ++ cs) = (coordinates? cs).bind fun x =>
        (lit? ">" x.2).bind fun rest => (done? (skipBlanks rest)).bind fun _ =>
          some (.position x.1) := fun _ => rfl
    rw [hchars, hread, coordinates?_render]
    split
    · rfl
    · rfl
  rw [form_comment_eq_formOf]
  rw [toList_positionComment] at hposition ⊢
  rw [formOf_annotated, hposition]
  split
  · rfl
  · rfl

end Line

end StoryScript
