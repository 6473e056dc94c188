import StoryScript.Proofs.Body.Restored

/-!
# The same lines in another place

A body that has lines put in front of those it is read from, such as a position annotation, is read as the
same tree: only the lines that its nodes note are others. What a tree is apart from identities and lines is
`Item.unmarkedIn`. It is told by the outline and structural equality together (`Item.unmarkedIn_eq`), so two
bodies whose lines behind the annotation are the same have it in common (`Body.unmarkedIn_read`).
-/

namespace StoryScript

mutual

/-- An item without its marks. -/
def Item.unmarked : Item → Item
  | .leaf _ l => .leaf default l
  | .choice _ h c => .choice default h (Item.unmarkedIn c)
  | .conditional _ bs => .conditional default (Branch.unmarkedIn bs)

/-- A branch without its marks. -/
def Branch.unmarked : Branch → Branch
  | .mk _ g d c => .mk default g d (Item.unmarkedIn c)

/-- A list of items without their marks. -/
def Item.unmarkedIn : List Item → List Item
  | [] => []
  | i :: is => i.unmarked :: Item.unmarkedIn is

/-- A list of branches without their marks. -/
def Branch.unmarkedIn : List Branch → List Branch
  | [] => []
  | b :: bs => b.unmarked :: Branch.unmarkedIn bs

end

mutual

theorem Item.unmarked_unlabelled : ∀ i : Item, i.unlabelled.unmarked = i.unmarked
  | .leaf _ _ => rfl
  | .choice _ _ c => by
    rw [Item.unlabelled, Item.unmarked, Item.unmarked, Item.unmarkedIn_unlabelledIn c]
  | .conditional _ bs => by
    rw [Item.unlabelled, Item.unmarked, Item.unmarked, Branch.unmarkedIn_unlabelledIn bs]

theorem Branch.unmarked_unlabelled : ∀ b : Branch, b.unlabelled.unmarked = b.unmarked
  | .mk _ _ _ c => by
    rw [Branch.unlabelled, Branch.unmarked, Branch.unmarked, Item.unmarkedIn_unlabelledIn c]

/-- Identities are part of the marks. -/
theorem Item.unmarkedIn_unlabelledIn : ∀ is : List Item,
    Item.unmarkedIn (Item.unlabelledIn is) = Item.unmarkedIn is
  | [] => rfl
  | i :: is => by
    rw [Item.unlabelledIn, Item.unmarkedIn, Item.unmarkedIn, Item.unmarked_unlabelled i,
      Item.unmarkedIn_unlabelledIn is]

theorem Branch.unmarkedIn_unlabelledIn : ∀ bs : List Branch,
    Branch.unmarkedIn (Branch.unlabelledIn bs) = Branch.unmarkedIn bs
  | [] => rfl
  | b :: bs => by
    rw [Branch.unlabelledIn, Branch.unmarkedIn, Branch.unmarkedIn, Branch.unmarked_unlabelled b,
      Branch.unmarkedIn_unlabelledIn bs]

end

/-- Trees that differ in identities alone are the same without marks. -/
theorem Item.unmarkedIn_congr {is js : List Item} (h : Item.unlabelledIn is = Item.unlabelledIn js) :
    Item.unmarkedIn is = Item.unmarkedIn js := by
  rw [← Item.unmarkedIn_unlabelledIn is, h, Item.unmarkedIn_unlabelledIn]

mutual

theorem Item.unmarked_eq {k : Nat} : ∀ {i j : Item}, i.same j = true → i.outline k = j.outline k →
    i.unmarked = j.unmarked
  | .leaf _ a, .leaf _ b, _, h => by
    obtain rfl : a = b := by simpa [Item.outline] using h
    rfl
  | .choice _ hd c, .choice _ hd' c', hsame, h => by
    obtain ⟨rfl, hc, hcontent⟩ := Item.of_same_choice hsame h
    rw [Item.unmarked, Item.unmarked, Item.unmarkedIn_eq hc hcontent]
  | .conditional _ bs, .conditional _ bs', hsame, h => by
    rw [Item.same] at hsame
    rw [Item.outline, Item.outline, List.cons.injEq] at h
    rw [Item.unmarked, Item.unmarked, Branch.unmarkedIn_eq hsame h.2]
  | .leaf .., .choice .., h, _ | .leaf .., .conditional .., h, _ | .choice .., .leaf .., h, _
  | .choice .., .conditional .., h, _ | .conditional .., .leaf .., h, _
  | .conditional .., .choice .., h, _ => by simp [Item.same] at h

theorem Branch.unmarked_eq {k : Nat} : ∀ {b c : Branch}, b.same c = true →
    b.outline k = c.outline k → b.unmarked = c.unmarked
  | .mk _ g d c, .mk _ g' d' c', hsame, h => by
    obtain ⟨rfl, rfl, hc, hcontent⟩ := Branch.of_same hsame h
    rw [Branch.unmarked, Branch.unmarked, Item.unmarkedIn_eq hc hcontent]

/-- Structurally equal trees with the same outline are the same without their marks. -/
theorem Item.unmarkedIn_eq {k : Nat} : ∀ {is js : List Item}, Item.sameList is js = true →
    Item.outlineIn k is = Item.outlineIn k js → Item.unmarkedIn is = Item.unmarkedIn js
  | [], [], _, _ => rfl
  | i :: is, j :: js, hsame, h => by
    rw [Item.sameList, Bool.and_eq_true] at hsame
    rw [Item.outlineIn, Item.outlineIn] at h
    obtain ⟨hi, his⟩ := List.append_inj h (Item.length_outline_of_same hsame.1)
    rw [Item.unmarkedIn, Item.unmarkedIn, Item.unmarked_eq hsame.1 hi, Item.unmarkedIn_eq hsame.2 his]
  | [], _ :: _, h, _ | _ :: _, [], h, _ => by simp [Item.sameList] at h

theorem Branch.unmarkedIn_eq {k : Nat} : ∀ {bs cs : List Branch}, Branch.sameList bs cs = true →
    Branch.outlineIn k bs = Branch.outlineIn k cs → Branch.unmarkedIn bs = Branch.unmarkedIn cs
  | [], [], _, _ => rfl
  | b :: bs, c :: cs, hsame, h => by
    rw [Branch.sameList, Bool.and_eq_true] at hsame
    rw [Branch.outlineIn, Branch.outlineIn] at h
    obtain ⟨hb, hbs⟩ := List.append_inj h (Branch.length_outline_of_same hsame.1)
    rw [Branch.unmarkedIn, Branch.unmarkedIn, Branch.unmarked_eq hsame.1 hb,
      Branch.unmarkedIn_eq hsame.2 hbs]
  | [], _ :: _, h, _ | _ :: _, [], h, _ => by simp [Branch.sameList] at h

end

/-! ### Bodies -/

/-- Bodies with the same lines behind what is skipped are read as the same tree, in another place. -/
theorem Body.unmarkedIn_read (supply supply' : Nat) {texts texts' : List String}
    (htexts : ∀ s ∈ texts, '\n' ∉ s.toList)
    (h : Body.content (Line.ofTexts texts) = Body.content (Line.ofTexts texts')) :
    Item.sameList (Body.read supply texts).1.items (Body.read supply' texts').1.items = true ∧
      Item.unmarkedIn (Body.read supply texts).1.items =
        Item.unmarkedIn (Body.read supply' texts').1.items := by
  have houtline : Item.outlineIn 0 (Body.read supply texts).1.items =
      Item.outlineIn 0 (Body.read supply' texts').1.items := by
    rw [Body.content, Body.content] at h
    rw [Body.outlineIn_read, Body.outlineIn_read, h]
  obtain ⟨hsame, -⟩ := Body.same_of_outlineIn htexts houtline
  exact ⟨hsame, Item.unmarkedIn_eq hsame houtline⟩

end StoryScript
