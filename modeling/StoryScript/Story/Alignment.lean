/-!
# Aligning two sequences

Two sequences are aligned along their longest common blocks: the longest run that occurs in both is
matched first, then what is left of it and what is right of it are aligned in the same way. Of
several longest runs the one that starts first in the old sequence is taken, and of these the one
that starts first in the new sequence.

Elements may be declared unfit to start a match; a block found without them is then extended over
neighbours that agree.

* `Alignment.blocks` — the matched blocks in order.
* `Alignment.edits` — the steps that lead from the old to the new sequence. Their ranges tile both.
-/

namespace StoryScript

/-- A run of `size` elements that agree, at `old` in the one and at `new` in the other sequence. -/
structure Block where
  old : Nat
  new : Nat
  size : Nat
  deriving DecidableEq, Repr, Inhabited

/-- What becomes of a range of the old sequence. -/
inductive EditKind where
  | equal
  | replace
  | delete
  | insert
  deriving DecidableEq, Repr

/-- A step from the old to the new sequence; ranges are given by their bounds. -/
structure EditStep where
  kind : EditKind
  oldFrom : Nat
  oldTo : Nat
  newFrom : Nat
  newTo : Nat
  deriving DecidableEq, Repr

namespace Alignment

variable {α : Type} [BEq α]

/-- The lengths of the runs that end at an element `x` of the old sequence and at each element of
the new one, from the lengths for the element before. -/
def nextRow (fit : α → Bool) (x : α) : Nat → List Nat → List α → List Nat
  | diagonal, row, y :: ys =>
    (if fit y && x == y then diagonal + 1 else 0) ::
      nextRow fit x (row.headD 0) row.tail ys
  | _, _, [] => []

/-- The better of a block and the runs of a row, the block at a tie. -/
def bestInRow (i : Nat) : Nat → List Nat → Block → Block
  | _, [], best => best
  | j, k :: row, best =>
    bestInRow i (j + 1) row (if best.size < k then ⟨i + 1 - k, j + 1 - k, k⟩ else best)

/-- The best block in the rows from `i` on. -/
def bestInRows (fit : α → Bool) (new : List α) : Nat → List Nat → List α → Block → Block
  | _, _, [], best => best
  | i, row, x :: old, best =>
    let row := nextRow fit x 0 row new
    bestInRows fit new (i + 1) row old (bestInRow i 0 row best)

/-- How many elements agree at the front of both sequences. -/
def agreeing : List α → List α → Nat
  | x :: xs, y :: ys => if x == y then agreeing xs ys + 1 else 0
  | _, _ => 0

/-- The longest block of two sequences, extended on both sides. -/
def longest (fit : α → Bool) (old new : List α) : Block :=
  let b := bestInRows fit new 0 [] old ⟨0, 0, 0⟩
  let front := agreeing (old.take b.old).reverse (new.take b.new).reverse
  let back := agreeing (old.drop (b.old + b.size)) (new.drop (b.new + b.size))
  ⟨b.old - front, b.new - front, front + b.size + back⟩

/-- The matched blocks of two sequences that begin at `i` and `j`. The fuel bounds the depth of the
search; a block takes at least one element from the old sequence. -/
def blocksFrom (fit : α → Bool) : Nat → Nat → Nat → List α → List α → List Block
  | 0, _, _, _, _ => []
  | fuel + 1, i, j, old, new =>
    let b := longest fit old new
    if b.size = 0 then []
    else
      blocksFrom fit fuel i j (old.take b.old) (new.take b.new) ++
        ⟨i + b.old, j + b.new, b.size⟩ ::
          blocksFrom fit fuel (i + b.old + b.size) (j + b.new + b.size)
            (old.drop (b.old + b.size)) (new.drop (b.new + b.size))

/-- Join blocks that touch in both sequences. -/
def joinBlocks : List Block → List Block
  | [] => []
  | b :: bs =>
    match joinBlocks bs with
    | c :: cs =>
      if b.old + b.size = c.old && b.new + b.size = c.new then
        ⟨b.old, b.new, b.size + c.size⟩ :: cs
      else b :: c :: cs
    | [] => [b]

/-- The matched blocks in order, no two of them touching. -/
def blocks (fit : α → Bool) (old new : List α) : List Block :=
  joinBlocks (blocksFrom fit old.length 0 0 old new)

/-- The step between two blocks. -/
def gap (oldFrom oldTo newFrom newTo : Nat) : List EditStep :=
  if oldFrom < oldTo && newFrom < newTo then [⟨.replace, oldFrom, oldTo, newFrom, newTo⟩]
  else if oldFrom < oldTo then [⟨.delete, oldFrom, oldTo, newFrom, newTo⟩]
  else if newFrom < newTo then [⟨.insert, oldFrom, oldTo, newFrom, newTo⟩]
  else []

/-- The steps along blocks, from `i` and `j` on to the ends `m` and `n`. -/
def stepsAlong (m n : Nat) : Nat → Nat → List Block → List EditStep
  | i, j, [] => gap i m j n
  | i, j, b :: bs =>
    gap i b.old j b.new ++
      ⟨.equal, b.old, b.old + b.size, b.new, b.new + b.size⟩ ::
        stepsAlong m n (b.old + b.size) (b.new + b.size) bs

/-- The steps that lead from the old to the new sequence. -/
def editsWith (fit : α → Bool) (old new : List α) : List EditStep :=
  stepsAlong old.length new.length 0 0 (blocks fit old new)

/-- The steps that lead from the old to the new sequence, every element being fit to match. -/
def edits (old new : List α) : List EditStep := editsWith (fun _ => true) old new

end Alignment

end StoryScript
