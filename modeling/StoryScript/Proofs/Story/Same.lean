import StoryScript.Story.Item

/-!
# Structural equality

Structural equality of trees passes over identities, over lines, and in a leaf over the spelling of
a file extension and the sign of zero. What is left of a leaf then is its plain form: two leaves are
equal just if their plain forms are the same and hold no number that equals nothing
(`Leaf.same_iff`). So structural equality is symmetric, on leaves and on trees.
-/

namespace StoryScript

/-- The one of two equal numbers that is written without a sign, if they are zero. -/
def Binary64.plain : Binary64 → Binary64
  | .finite s i => .finite (s && i.val ≠ 0) i
  | x => x

theorem Binary64.equal_iff {x y : Binary64} :
    x.equal y = true ↔ x.equal x = true ∧ x.plain = y.plain := by
  cases x <;> cases y <;> simp [equal, plain]
  next s i t j =>
    by_cases hi : i = 0 <;> by_cases hij : i = j <;> simp_all [eq_comm]

theorem Binary64.equal_symm {x y : Binary64} (h : x.equal y = true) : y.equal x = true := by
  obtain ⟨hself, hplain⟩ := Binary64.equal_iff.mp h
  refine Binary64.equal_iff.mpr ⟨?_, hplain.symm⟩
  cases x <;> cases y <;> simp_all [Binary64.equal, Binary64.plain]

/-- A number that equals another one equals itself. -/
theorem Binary64.equal_self_right {x y : Binary64} (h : x.equal y = true) : y.equal y = true :=
  (Binary64.equal_iff.mp (Binary64.equal_symm h)).1

namespace Leaf

/-- A leaf without what structural equality passes over. -/
def plain : Leaf → Leaf
  | media kind filename _ => media kind filename ""
  | fakeType d => fakeType d.plain
  | wait d => wait d.plain
  | l => l

/-- Leaves are equal if they agree in everything that counts and hold no number that equals
nothing. -/
theorem same_iff {a b : Leaf} : a.same b = true ↔ a.same a = true ∧ a.plain = b.plain := by
  cases a <;> cases b <;> simp [same, plain]
  all_goals exact Binary64.equal_iff

@[simp] theorem plain_plain (l : Leaf) : l.plain.plain = l.plain := by
  cases l <;> simp [plain]
  all_goals
    next d => cases d <;> simp [Binary64.plain]

/-- Whether a leaf equals itself can be told from its plain form. -/
theorem same_plain (l : Leaf) : l.plain.same l.plain = l.same l := by
  cases l <;> simp [same, plain]
  all_goals
    next d => cases d <;> simp [Binary64.plain, Binary64.equal]

/-- A leaf that equals another one equals itself. -/
theorem same_self_right {a b : Leaf} (h : a.same b = true) : b.same b = true := by
  obtain ⟨hself, hplain⟩ := same_iff.mp h
  rw [← same_plain, ← hplain, same_plain, hself]

theorem same_symm {a b : Leaf} (h : a.same b = true) : b.same a = true :=
  same_iff.mpr ⟨same_self_right h, (same_iff.mp h).2.symm⟩

theorem eq_divert_of_plain {l : Leaf} {t : String} (h : l.plain = .divert t) : l = .divert t := by
  cases l <;> simp_all [plain]

end Leaf

mutual

theorem Item.same_symm : ∀ {i j : Item}, i.same j = true → j.same i = true
  | .leaf _ a, .leaf _ b, h => by
    rw [Item.same] at h ⊢
    exact Leaf.same_symm h
  | .choice _ hd c, .choice _ hd' c', h => by
    simp only [Item.same, Bool.and_eq_true, decide_eq_true_eq] at h ⊢
    exact ⟨h.1.symm, Item.sameList_symm h.2⟩
  | .conditional _ bs, .conditional _ cs, h => by
    rw [Item.same] at h ⊢
    exact Branch.sameList_symm h
  | .leaf .., .choice .., h | .leaf .., .conditional .., h | .choice .., .leaf .., h
  | .choice .., .conditional .., h | .conditional .., .leaf .., h
  | .conditional .., .choice .., h => by simp [Item.same] at h

theorem Branch.same_symm : ∀ {b c : Branch}, b.same c = true → c.same b = true
  | .mk _ g d c, .mk _ g' d' c', h => by
    simp only [Branch.same, Bool.and_eq_true, decide_eq_true_eq] at h ⊢
    exact ⟨⟨h.1.1.symm, h.1.2.symm⟩, Item.sameList_symm h.2⟩

theorem Item.sameList_symm : ∀ {is js : List Item}, Item.sameList is js = true →
    Item.sameList js is = true
  | [], [], h => h
  | i :: is, j :: js, h => by
    simp only [Item.sameList, Bool.and_eq_true] at h ⊢
    exact ⟨Item.same_symm h.1, Item.sameList_symm h.2⟩
  | [], _ :: _, h | _ :: _, [], h => by simp [Item.sameList] at h

theorem Branch.sameList_symm : ∀ {bs cs : List Branch}, Branch.sameList bs cs = true →
    Branch.sameList cs bs = true
  | [], [], h => h
  | b :: bs, c :: cs, h => by
    simp only [Branch.sameList, Bool.and_eq_true] at h ⊢
    exact ⟨Branch.same_symm h.1, Branch.sameList_symm h.2⟩
  | [], _ :: _, h | _ :: _, [], h => by simp [Branch.sameList] at h

end

end StoryScript
