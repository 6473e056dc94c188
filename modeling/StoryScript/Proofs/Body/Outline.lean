import StoryScript.Proofs.Body.Shape
import StoryScript.Proofs.Story.Labels

/-!
# The outline of a content tree

The outline of a tree lists its nodes in the order in which a reader meets them, each with the
number of containers around it. A conditional and a branch count one each, so the content of a
branch stands two levels below its conditional. The divert of a choice or of a branch is listed
behind its content, as if it were its last item.

So the outline does not tell whether a divert was written on the line of its choice, behind the
content, or was taken over from it, which is what makes it useful: it can be computed line by line
while containers are still open. Nothing else is lost. Two trees of the shape `Item.WellShapedIn`
have the same outline only if they are structurally equal (`Item.sameList_of_outlineIn`), because in
such a tree a container without a divert does not end in one.

The outline holds leaves as they are; `Entry.plain` takes away what structural equality passes over.
-/

namespace StoryScript

/-- What a node of a content tree is, without its content and its divert. -/
inductive Piece where
  | leaf (leaf : Leaf)
  | choice (text : String) (sticky bracketed : Bool)
  | conditional
  | branch (guard : Guard)
  deriving DecidableEq

/-- A node together with the number of containers around it. -/
structure Entry where
  depth : Nat
  piece : Piece
  deriving DecidableEq

/-- A piece without what structural equality passes over. -/
def Piece.plain : Piece → Piece
  | leaf l => leaf l.plain
  | p => p

/-- An entry without what structural equality passes over. -/
def Entry.plain (e : Entry) : Entry := { e with piece := e.piece.plain }

/-- The entry for the divert of a container. -/
def Entry.own (depth : Nat) (divert : Option String) : List Entry :=
  (divert.map fun target => ⟨depth, .leaf (.divert target)⟩).toList

/-- What is listed of a choice. -/
def ChoiceHead.piece (h : ChoiceHead) : Piece := .choice h.text h.sticky h.bracketed

theorem ChoiceHead.eq_of_piece {h h' : ChoiceHead} (hp : h.piece = h'.piece)
    (hd : h.divert = h'.divert) : h = h' := by
  cases h
  cases h'
  simp_all [piece]

mutual

/-- The outline of an item inside `k` containers. -/
def Item.outline (k : Nat) : Item → List Entry
  | .leaf _ l => [⟨k, .leaf l⟩]
  | .choice _ h c => ⟨k, h.piece⟩ :: (Item.outlineIn (k + 1) c ++ Entry.own (k + 1) h.divert)
  | .conditional _ bs => ⟨k, .conditional⟩ :: Branch.outlineIn k bs

/-- The outline of a branch of a conditional inside `k` containers. -/
def Branch.outline (k : Nat) : Branch → List Entry
  | .mk _ g d c => ⟨k + 1, .branch g⟩ :: (Item.outlineIn (k + 2) c ++ Entry.own (k + 2) d)

/-- The outline of a list of items. -/
def Item.outlineIn (k : Nat) : List Item → List Entry
  | [] => []
  | i :: is => i.outline k ++ Item.outlineIn k is

/-- The outline of a list of branches. -/
def Branch.outlineIn (k : Nat) : List Branch → List Entry
  | [] => []
  | b :: bs => b.outline k ++ Branch.outlineIn k bs

end

namespace Entry

@[simp] theorem own_none (k : Nat) : own k none = [] := rfl

@[simp] theorem own_some (k : Nat) (t : String) : own k (some t) = [⟨k, .leaf (.divert t)⟩] := rfl

/-- Whether a list of entries begins, if it begins at all, above the depth `k`. -/
def Above (k : Nat) (es : List Entry) : Prop := ∀ e ∈ es.head?, e.depth < k

@[simp] theorem map_plain_own (k : Nat) (d : Option String) : (own k d).map plain = own k d := by
  cases d <;> rfl

theorem above_nil (k : Nat) : Above k [] := by simp [Above]

theorem above_cons {k : Nat} {e : Entry} {es : List Entry} : Above k (e :: es) ↔ e.depth < k := by
  simp [Above]

theorem Above.mono {k m : Nat} {es : List Entry} (h : Above k es) (hkm : k ≤ m) : Above m es :=
  fun e he => Nat.lt_of_lt_of_le (h e he) hkm

end Entry

/-! ### What the outline keeps -/

theorem Item.outlineIn_append (k : Nat) (is js : List Item) :
    Item.outlineIn k (is ++ js) = Item.outlineIn k is ++ Item.outlineIn k js := by
  induction is with
  | nil => rfl
  | cons i is ih => simp only [List.cons_append, Item.outlineIn, ih, List.append_assoc]

theorem Branch.outlineIn_append (k : Nat) (bs cs : List Branch) :
    Branch.outlineIn k (bs ++ cs) = Branch.outlineIn k bs ++ Branch.outlineIn k cs := by
  induction bs with
  | nil => rfl
  | cons b bs ih => simp only [List.cons_append, Branch.outlineIn, ih, List.append_assoc]

mutual

theorem Item.outline_unlabelled {k : Nat} : ∀ i : Item, i.unlabelled.outline k = i.outline k
  | .leaf m l => rfl
  | .choice m h c => by
    rw [Item.unlabelled, Item.outline, Item.outline, Item.outlineIn_unlabelledIn c]
  | .conditional m bs => by
    rw [Item.unlabelled, Item.outline, Item.outline, Branch.outlineIn_unlabelledIn bs]

theorem Branch.outline_unlabelled {k : Nat} : ∀ b : Branch, b.unlabelled.outline k = b.outline k
  | .mk m g d c => by
    rw [Branch.unlabelled, Branch.outline, Branch.outline, Item.outlineIn_unlabelledIn c]

/-- The outline passes over identities. -/
theorem Item.outlineIn_unlabelledIn {k : Nat} : ∀ is : List Item,
    Item.outlineIn k (Item.unlabelledIn is) = Item.outlineIn k is
  | [] => rfl
  | i :: is => by
    rw [Item.unlabelledIn, Item.outlineIn, Item.outlineIn, Item.outline_unlabelled i,
      Item.outlineIn_unlabelledIn is]

theorem Branch.outlineIn_unlabelledIn {k : Nat} : ∀ bs : List Branch,
    Branch.outlineIn k (Branch.unlabelledIn bs) = Branch.outlineIn k bs
  | [] => rfl
  | b :: bs => by
    rw [Branch.unlabelledIn, Branch.outlineIn, Branch.outlineIn, Branch.outline_unlabelled b,
      Branch.outlineIn_unlabelledIn bs]

end

mutual

theorem Item.outline_of_same {k : Nat} : ∀ {i j : Item}, i.same j = true →
    (i.outline k).map Entry.plain = (j.outline k).map Entry.plain
  | .leaf _ a, .leaf _ b, h => by
    rw [Item.same, Leaf.same_iff] at h
    simp only [Item.outline, List.map_cons, List.map_nil, Entry.plain, Piece.plain, h.2]
  | .choice _ h c, .choice _ h' c', hs => by
    simp only [Item.same, Bool.and_eq_true, decide_eq_true_eq] at hs
    rw [Item.outline, Item.outline, hs.1, List.map_cons, List.map_cons, List.map_append,
      List.map_append, Item.outlineIn_of_sameList hs.2]
  | .conditional _ bs, .conditional _ bs', h => by
    rw [Item.same] at h
    rw [Item.outline, Item.outline, List.map_cons, List.map_cons, Branch.outlineIn_of_sameList h]
  | .leaf .., .choice .., h | .leaf .., .conditional .., h | .choice .., .leaf .., h
  | .choice .., .conditional .., h | .conditional .., .leaf .., h
  | .conditional .., .choice .., h => by simp [Item.same] at h

theorem Branch.outline_of_same {k : Nat} : ∀ {b c : Branch}, b.same c = true →
    (b.outline k).map Entry.plain = (c.outline k).map Entry.plain
  | .mk _ g d c, .mk _ g' d' c', h => by
    simp only [Branch.same, Bool.and_eq_true, decide_eq_true_eq] at h
    rw [Branch.outline, Branch.outline, h.1.1, h.1.2, List.map_cons, List.map_cons,
      List.map_append, List.map_append, Item.outlineIn_of_sameList h.2]

/-- Structurally equal trees have the same outline, but for what structural equality passes over. -/
theorem Item.outlineIn_of_sameList {k : Nat} : ∀ {is js : List Item},
    Item.sameList is js = true →
    (Item.outlineIn k is).map Entry.plain = (Item.outlineIn k js).map Entry.plain
  | [], [], _ => rfl
  | i :: is, j :: js, h => by
    simp only [Item.sameList, Bool.and_eq_true] at h
    rw [Item.outlineIn, Item.outlineIn, List.map_append, List.map_append,
      Item.outline_of_same h.1, Item.outlineIn_of_sameList h.2]
  | [], _ :: _, h | _ :: _, [], h => by simp [Item.sameList] at h

theorem Branch.outlineIn_of_sameList {k : Nat} : ∀ {bs cs : List Branch},
    Branch.sameList bs cs = true →
    (Branch.outlineIn k bs).map Entry.plain = (Branch.outlineIn k cs).map Entry.plain
  | [], [], _ => rfl
  | b :: bs, c :: cs, h => by
    simp only [Branch.sameList, Bool.and_eq_true] at h
    rw [Branch.outlineIn, Branch.outlineIn, List.map_append, List.map_append,
      Branch.outline_of_same h.1, Branch.outlineIn_of_sameList h.2]
  | [], _ :: _, h | _ :: _, [], h => by simp [Branch.sameList] at h

end

/-! ### What structural equality keeps -/

namespace Item

theorem isChoice_of_same {i j : Item} (h : i.same j = true) : i.isChoice = j.isChoice := by
  cases i <;> cases j <;> simp_all [Item.same, isChoice]

theorem isDivert_of_same {i j : Item} (h : i.same j = true) : i.isDivert = j.isDivert := by
  cases i with
  | leaf m a =>
    cases j with
    | leaf n b =>
      rw [Item.same] at h
      cases a <;> cases b <;> simp_all [Leaf.same, isDivert, divertTarget?]
    | _ => simp [Item.same] at h
  | _ => cases j <;> simp_all [Item.same, isDivert, divertTarget?]

theorem isStitch_of_same {i j : Item} (h : i.same j = true) : i.isStitch = j.isStitch := by
  cases i with
  | leaf m a =>
    cases j with
    | leaf n b =>
      rw [Item.same] at h
      cases a <;> cases b <;> simp_all [Leaf.same, isStitch, stitchName?]
    | _ => simp [Item.same] at h
  | _ => cases j <;> simp_all [Item.same, isStitch, stitchName?]

/-- Equal lists end in equal items. -/
theorem endsIn_of_sameList {p : Item → Bool} (hp : ∀ i j : Item, i.same j = true → p i = p j) :
    ∀ {is js : List Item}, Item.sameList is js = true → EndsIn p is → EndsIn p js
  | [], [], _, h => h
  | [i], [j], h, hends => by
    simp only [Item.sameList, Bool.and_eq_true] at h
    rw [EndsIn, List.getLast?_singleton, Option.any_some] at hends ⊢
    rw [← hp i j h.1, hends]
  | i :: i' :: is, j :: j' :: js, h, hends => by
    rw [Item.sameList, Bool.and_eq_true] at h
    rw [EndsIn, List.getLast?_cons_cons] at hends ⊢
    exact endsIn_of_sameList hp h.2 hends
  | [], _ :: _, h, _ | _ :: _, [], h, _ | [_], _ :: _ :: _, h, _ | _ :: _ :: _, [_], h, _ => by
    simp [Item.sameList] at h

theorem MayPrecede.of_same {root : Bool} {i i' j j' : Item} (hi : i.same i' = true)
    (hj : j.same j' = true) (h : i.MayPrecede root j) : i'.MayPrecede root j' := by
  intro hchoice
  rw [← isChoice_of_same hi] at hchoice
  rw [← isChoice_of_same hj, ← isStitch_of_same hj]
  exact h hchoice

end Item

mutual

theorem Item.wellShaped_of_same : ∀ {i j : Item}, i.same j = true → i.WellShaped → j.WellShaped
  | .leaf .., .leaf .., _, _ => trivial
  | .choice _ h c, .choice _ k d, hsame, hi => by
    simp only [Item.same, Bool.and_eq_true, decide_eq_true_eq] at hsame
    obtain ⟨rfl, hsame⟩ := hsame
    refine ⟨fun hnone hends => hi.1 hnone ?_, Item.wellShapedIn_of_sameList hsame hi.2⟩
    exact Item.endsIn_of_sameList (fun _ _ => Item.isDivert_of_same) (Item.sameList_symm hsame) hends
  | .conditional _ bs, .conditional _ cs, hsame, hi => by
    rw [Item.same] at hsame
    refine ⟨?_, Branch.wellShapedIn_of_sameList hsame hi.2⟩
    rintro rfl
    cases bs with
    | nil => exact hi.1 rfl
    | cons b bs => simp [Branch.sameList] at hsame
  | .leaf .., .choice .., h, _ | .leaf .., .conditional .., h, _ | .choice .., .leaf .., h, _
  | .choice .., .conditional .., h, _ | .conditional .., .leaf .., h, _
  | .conditional .., .choice .., h, _ => by simp [Item.same] at h

theorem Branch.wellShaped_of_same : ∀ {b c : Branch}, b.same c = true → b.WellShaped → c.WellShaped
  | .mk _ g d c, .mk _ h e k, hsame, hb => by
    simp only [Branch.same, Bool.and_eq_true, decide_eq_true_eq] at hsame
    obtain ⟨⟨-, rfl⟩, hsame⟩ := hsame
    have hsymm := Item.sameList_symm hsame
    exact ⟨fun hnone hends => hb.1 hnone
        (Item.endsIn_of_sameList (fun _ _ => Item.isDivert_of_same) hsymm hends),
      fun hsome hends => hb.2.1 hsome
        (Item.endsIn_of_sameList (fun _ _ => Item.isChoice_of_same) hsymm hends),
      Item.wellShapedIn_of_sameList hsame hb.2.2⟩

/-- A tree that equals a tree of that shape has that shape. -/
theorem Item.wellShapedIn_of_sameList {root : Bool} : ∀ {is js : List Item},
    Item.sameList is js = true → Item.WellShapedIn root is → Item.WellShapedIn root js
  | [], [], _, _ => trivial
  | i :: is, j :: js, hsame, hi => by
    rw [Item.sameList, Bool.and_eq_true] at hsame
    refine ⟨Item.wellShaped_of_same hsame.1 hi.1, ?_, fun j' hj' => ?_,
      Item.wellShapedIn_of_sameList hsame.2 hi.2.2.2⟩
    · rw [← Item.isStitch_of_same hsame.1]
      exact hi.2.1
    · cases is with
      | nil =>
        cases js with
        | nil => simp at hj'
        | cons j' js => simp [Item.sameList] at hsame
      | cons i' is =>
        cases js with
        | nil => simp at hj'
        | cons j'' js =>
          obtain rfl : j'' = j' := by simpa using hj'
          have hhead := hsame.2
          rw [Item.sameList, Bool.and_eq_true] at hhead
          exact (hi.2.2.1 i' rfl).of_same hsame.1 hhead.1
  | [], _ :: _, h, _ | _ :: _, [], h, _ => by simp [Item.sameList] at h

theorem Branch.wellShapedIn_of_sameList : ∀ {bs cs : List Branch},
    Branch.sameList bs cs = true → Branch.WellShapedIn bs → Branch.WellShapedIn cs
  | [], [], _, _ => trivial
  | b :: bs, c :: cs, hsame, hb => by
    rw [Branch.sameList, Bool.and_eq_true] at hsame
    exact ⟨Branch.wellShaped_of_same hsame.1 hb.1, Branch.wellShapedIn_of_sameList hsame.2 hb.2⟩
  | [], _ :: _, h, _ | _ :: _, [], h, _ => by simp [Branch.sameList] at h

end

/-! ### Numbers that equal nothing -/

/-- An entry that holds no number that equals nothing. -/
def Entry.Regular (e : Entry) : Prop := ∀ l, e.piece = .leaf l → l.same l = true

mutual

theorem Item.same_self {k : Nat} : ∀ {i : Item}, (∀ e ∈ i.outline k, e.Regular) → i.same i = true
  | .leaf _ l, h => by
    rw [Item.same]
    exact h _ (List.mem_singleton.mpr rfl) l rfl
  | .choice _ hd c, h => by
    have hc : Item.sameList c c = true := Item.sameList_self fun e he =>
      h e (List.mem_cons_of_mem _ (List.mem_append_left _ he))
    simp [Item.same, hc]
  | .conditional _ bs, h => by
    rw [Item.same]
    exact Branch.sameList_self fun e he => h e (List.mem_cons_of_mem _ he)

theorem Branch.same_self {k : Nat} : ∀ {b : Branch}, (∀ e ∈ b.outline k, e.Regular) →
    b.same b = true
  | .mk _ g d c, h => by
    have hc : Item.sameList c c = true := Item.sameList_self fun e he =>
      h e (List.mem_cons_of_mem _ (List.mem_append_left _ he))
    simp [Branch.same, hc]

/-- A tree equals itself unless it holds a number that equals nothing. -/
theorem Item.sameList_self {k : Nat} : ∀ {is : List Item}, (∀ e ∈ Item.outlineIn k is, e.Regular) →
    Item.sameList is is = true
  | [], _ => by rw [Item.sameList]
  | i :: is, h => by
    rw [Item.sameList, Item.same_self fun e he => h e (List.mem_append_left _ he),
      Item.sameList_self fun e he => h e (List.mem_append_right _ he)]
    rfl

theorem Branch.sameList_self {k : Nat} : ∀ {bs : List Branch},
    (∀ e ∈ Branch.outlineIn k bs, e.Regular) → Branch.sameList bs bs = true
  | [], _ => by rw [Branch.sameList]
  | b :: bs, h => by
    rw [Branch.sameList, Branch.same_self fun e he => h e (List.mem_append_left _ he),
      Branch.sameList_self fun e he => h e (List.mem_append_right _ he)]
    rfl

end

/-! ### What the outline tells -/

/-- The outline of a list of items in plain form. -/
def Item.plainIn (k : Nat) (is : List Item) : List Entry := (Item.outlineIn k is).map Entry.plain

/-- The outline of a list of branches in plain form. -/
def Branch.plainIn (k : Nat) (bs : List Branch) : List Entry :=
  (Branch.outlineIn k bs).map Entry.plain

section

variable (k : Nat) (m : Mark)

@[simp] theorem Item.plainIn_nil : Item.plainIn k [] = [] := rfl

@[simp] theorem Item.plainIn_leaf (l : Leaf) (is : List Item) :
    Item.plainIn k (.leaf m l :: is) = ⟨k, .leaf l.plain⟩ :: Item.plainIn k is := rfl

@[simp] theorem Item.plainIn_choice (h : ChoiceHead) (c is : List Item) :
    Item.plainIn k (.choice m h c :: is) = ⟨k, h.piece⟩ ::
      (Item.plainIn (k + 1) c ++ (Entry.own (k + 1) h.divert ++ Item.plainIn k is)) := by
  simp [Item.plainIn, Item.outlineIn, Item.outline, Entry.plain, Piece.plain, ChoiceHead.piece]

@[simp] theorem Item.plainIn_conditional (bs : List Branch) (is : List Item) :
    Item.plainIn k (.conditional m bs :: is) =
      ⟨k, .conditional⟩ :: (Branch.plainIn k bs ++ Item.plainIn k is) := by
  simp [Item.plainIn, Branch.plainIn, Item.outlineIn, Item.outline, Entry.plain, Piece.plain]

@[simp] theorem Branch.plainIn_nil : Branch.plainIn k [] = [] := rfl

@[simp] theorem Branch.plainIn_cons (g : Guard) (d : Option String) (c : List Item)
    (bs : List Branch) : Branch.plainIn k (.mk m g d c :: bs) = ⟨k + 1, .branch g⟩ ::
      (Item.plainIn (k + 2) c ++ (Entry.own (k + 2) d ++ Branch.plainIn k bs)) := by
  simp [Item.plainIn, Branch.plainIn, Branch.outlineIn, Branch.outline, Entry.plain, Piece.plain]

end

/-- The outline of a list that is not empty begins with its first item. -/
theorem Item.exists_plainIn_cons (k : Nat) (i : Item) (is : List Item) :
    ∃ p es, Item.plainIn k (i :: is) = ⟨k, p⟩ :: es := by
  cases i with
  | leaf m l => exact ⟨_, _, Item.plainIn_leaf k m l is⟩
  | choice m h c => exact ⟨_, _, Item.plainIn_choice k m h c is⟩
  | conditional m bs => exact ⟨_, _, Item.plainIn_conditional k m bs is⟩

theorem Branch.exists_plainIn_cons (k : Nat) (b : Branch) (bs : List Branch) :
    ∃ p es, Branch.plainIn k (b :: bs) = ⟨k + 1, p⟩ :: es := by
  cases b with
  | mk m g d c => exact ⟨_, _, Branch.plainIn_cons k m g d c bs⟩

namespace Item

/-- Two contents with their diverts can be told apart by their outlines: either neither has a
divert, as at the root, or none that lacks one ends in a divert. -/
def Comparable (is js : List Item) (d e : Option String) : Prop :=
  d = none ∧ e = none ∨ (d = none → ¬ EndsIn isDivert is) ∧ (e = none → ¬ EndsIn isDivert js)

theorem endsIn_cons {p : Item → Bool} {i : Item} {is : List Item} (h : EndsIn p is) :
    EndsIn p (i :: is) := by
  unfold EndsIn at h ⊢
  cases is with
  | nil => simp at h
  | cons j js => rwa [List.getLast?_cons_cons]

theorem Comparable.tail {i j : Item} {is js : List Item} {d e : Option String}
    (h : Comparable (i :: is) (j :: js) d e) : Comparable is js d e :=
  Or.imp (fun hn => hn) (And.imp (fun hd hn he => hd hn (endsIn_cons he)) fun hd hn he =>
    hd hn (endsIn_cons he)) h

/-- What stands behind a list of items in an outline begins above the content of its items. -/
theorem above_rest {k : Nat} {is : List Item} {d : Option String} {u : List Entry}
    (hu : Entry.Above k u) : Entry.Above (k + 1) (plainIn k is ++ (Entry.own k d ++ u)) := by
  cases is with
  | nil =>
    cases d with
    | none => exact hu.mono (Nat.le_succ k)
    | some t => exact Entry.above_cons.mpr (Nat.lt_succ_self k)
  | cons i is =>
    obtain ⟨p, es, hi⟩ := exists_plainIn_cons k i is
    rw [hi]
    exact Entry.above_cons.mpr (Nat.lt_succ_self k)

end Item

theorem Branch.above_rest {k : Nat} {bs : List Branch} {u : List Entry}
    (hu : Entry.Above (k + 1) u) : Entry.Above (k + 2) (Branch.plainIn k bs ++ u) := by
  cases bs with
  | nil => exact hu.mono (Nat.le_succ _)
  | cons b bs =>
    obtain ⟨p, es, hb⟩ := Branch.exists_plainIn_cons k b bs
    rw [hb]
    exact Entry.above_cons.mpr (Nat.lt_succ_self _)

/-- An outline that goes on is no part of the content that has come to its end. -/
theorem Item.not_above_plainIn {k : Nat} {i : Item} {is : List Item} {u v : List Entry}
    (hu : Entry.Above k u) : Item.plainIn k (i :: is) ++ v ≠ u := by
  obtain ⟨p, es, hi⟩ := Item.exists_plainIn_cons k i is
  intro h
  rw [← h, hi, List.cons_append, Entry.above_cons] at hu
  exact Nat.lt_irrefl k hu

/-- A content that is empty, with its divert, against one that is not: the first item of the other
would be that divert and its last. -/
theorem Item.plainIn_nil_ne {k : Nat} {j : Item} {js : List Item} {d e : Option String}
    {u v : List Entry} (hends : Item.Comparable [] (j :: js) d e) (hu : Entry.Above k u) :
    Entry.own k d ++ u ≠ Item.plainIn k (j :: js) ++ (Entry.own k e ++ v) := by
  cases d with
  | none => exact fun h => Item.not_above_plainIn hu h.symm
  | some t =>
    intro h
    cases j with
    | choice m hd c => simp [ChoiceHead.piece] at h
    | conditional m bs => simp at h
    | leaf m l =>
      simp only [Entry.own_some, Item.plainIn_leaf, List.cons_append, List.nil_append,
        List.cons.injEq, Entry.mk.injEq, Piece.leaf.injEq, true_and] at h
      obtain ⟨hl, h⟩ := h
      cases js with
      | cons i is => exact Item.not_above_plainIn hu h.symm
      | nil =>
        cases e with
        | some t' =>
          rw [h] at hu
          exact Nat.lt_irrefl k (Entry.above_cons.mp hu)
        | none =>
          rcases hends with ⟨hd, -⟩ | ⟨-, hends⟩
          · simp at hd
          · refine hends rfl ?_
            rw [Leaf.eq_divert_of_plain hl.symm]
            rfl

theorem Item.Comparable.symm {is js : List Item} {d e : Option String}
    (h : Item.Comparable is js d e) : Item.Comparable js is e d :=
  Or.imp And.symm And.symm h

private theorem Item.WellShaped.comparable {m m' : Mark} {h h' : ChoiceHead} {c c' : List Item}
    (hc : (Item.choice m h c).WellShaped) (hc' : (Item.choice m' h' c').WellShaped) :
    Item.Comparable c c' h.divert h'.divert :=
  Or.inr ⟨hc.1, hc'.1⟩

mutual

/-- Two contents of the shape of a tree whose outlines agree up to their ends are structurally
equal, and so are their diverts. The induction follows the first of them; what stands behind it, in
`u`, begins above its depth, so its end can be told. -/
theorem Item.sameList_of_plainIn_append {r : Bool} {k : Nat} {u v : List Entry}
    (hu : Entry.Above k u) (hv : Entry.Above k v) : ∀ {is js : List Item} {d e : Option String},
    Item.WellShapedIn r is → Item.WellShapedIn r js → Item.sameList is is = true →
    Item.Comparable is js d e →
    Item.plainIn k is ++ (Entry.own k d ++ u) = Item.plainIn k js ++ (Entry.own k e ++ v) →
    Item.sameList is js = true ∧ d = e ∧ u = v
  | [], [], d, e, _, _, _, _, h => by
    refine ⟨by rw [Item.sameList], ?_⟩
    rw [Item.plainIn_nil, List.nil_append, List.nil_append] at h
    -- both contents end here: a divert of theirs lists at their depth, what stands behind lists above it
    cases d with
    | none =>
      cases e with
      | none => exact ⟨rfl, h⟩
      | some t =>
        rw [Entry.own_none, List.nil_append] at h
        rw [h] at hu
        exact absurd (Entry.above_cons.mp hu) (Nat.lt_irrefl k)
    | some s =>
      cases e with
      | none =>
        rw [Entry.own_none, List.nil_append] at h
        rw [← h] at hv
        exact absurd (Entry.above_cons.mp hv) (Nat.lt_irrefl k)
      | some t =>
        simp only [Entry.own_some, List.singleton_append, List.cons.injEq, Entry.mk.injEq,
          Piece.leaf.injEq, Leaf.divert.injEq, true_and] at h
        exact ⟨congrArg some h.1, h.2⟩
  | [], j :: js, d, e, _, _, _, hends, h => by
    exact absurd h (Item.plainIn_nil_ne hends hu)
  | i :: is, [], d, e, _, _, _, hends, h => by
    exact absurd h.symm (Item.plainIn_nil_ne hends.symm hv)
  | .leaf m a :: is, .leaf m' b :: js, d, e, hi, hj, hself, hends, h => by
    simp only [Item.plainIn_leaf, List.cons_append, List.cons.injEq, Entry.mk.injEq,
      Piece.leaf.injEq, true_and] at h
    simp only [Item.sameList, Item.same, Bool.and_eq_true] at hself ⊢
    obtain ⟨his, hd, hu'⟩ := Item.sameList_of_plainIn_append hu hv hi.2.2.2 hj.2.2.2 hself.2
      hends.tail h.2
    exact ⟨⟨Leaf.same_iff.mpr ⟨hself.1, h.1⟩, his⟩, hd, hu'⟩
  | .choice m hd c :: is, .choice m' hd' c' :: js, d, e, hi, hj, hself, hends, h => by
    simp only [Item.plainIn_choice, List.cons_append, List.append_assoc, List.cons.injEq,
      Entry.mk.injEq, true_and] at h
    simp only [Item.sameList, Item.same, Bool.and_eq_true, decide_eq_true_eq] at hself ⊢
    obtain ⟨hc, hdivert, hrest⟩ := Item.sameList_of_plainIn_append (Item.above_rest hu)
      (Item.above_rest hv) hi.1.2 hj.1.2 hself.1.2 (hi.1.comparable hj.1) h.2
    obtain ⟨his, hde, hu'⟩ := Item.sameList_of_plainIn_append hu hv hi.2.2.2 hj.2.2.2 hself.2
      hends.tail hrest
    exact ⟨⟨⟨ChoiceHead.eq_of_piece h.1 hdivert, hc⟩, his⟩, hde, hu'⟩
  | .conditional m bs :: is, .conditional m' bs' :: js, d, e, hi, hj, hself, hends, h => by
    simp only [Item.plainIn_conditional, List.cons_append, List.append_assoc, List.cons.injEq,
      true_and] at h
    simp only [Item.sameList, Item.same, Bool.and_eq_true] at hself ⊢
    obtain ⟨hbs, hrest⟩ := Branch.sameList_of_plainIn_append (Item.above_rest hu)
      (Item.above_rest hv) hi.1.2 hj.1.2 hself.1 h
    obtain ⟨his, hde, hu'⟩ := Item.sameList_of_plainIn_append hu hv hi.2.2.2 hj.2.2.2 hself.2
      hends.tail hrest
    exact ⟨⟨hbs, his⟩, hde, hu'⟩
  | .leaf .. :: _, .choice .. :: _, _, _, _, _, _, _, h
  | .leaf .. :: _, .conditional .. :: _, _, _, _, _, _, _, h
  | .choice .. :: _, .leaf .. :: _, _, _, _, _, _, _, h
  | .choice .. :: _, .conditional .. :: _, _, _, _, _, _, _, h
  | .conditional .. :: _, .leaf .. :: _, _, _, _, _, _, _, h
  | .conditional .. :: _, .choice .. :: _, _, _, _, _, _, _, h => by
    simp [ChoiceHead.piece] at h
termination_by is => sizeOf is

/-- The same for the branches of a conditional. -/
theorem Branch.sameList_of_plainIn_append {k : Nat} {u v : List Entry}
    (hu : Entry.Above (k + 1) u) (hv : Entry.Above (k + 1) v) : ∀ {bs cs : List Branch},
    Branch.WellShapedIn bs → Branch.WellShapedIn cs → Branch.sameList bs bs = true →
    Branch.plainIn k bs ++ u = Branch.plainIn k cs ++ v →
    Branch.sameList bs cs = true ∧ u = v
  | [], [], _, _, _, h => ⟨by rw [Branch.sameList], h⟩
  | [], c :: cs, _, _, _, h => by
    obtain ⟨p, es, hc⟩ := Branch.exists_plainIn_cons k c cs
    rw [Branch.plainIn_nil, List.nil_append] at h
    rw [h, hc] at hu
    exact absurd (Entry.above_cons.mp hu) (Nat.lt_irrefl _)
  | b :: bs, [], _, _, _, h => by
    obtain ⟨p, es, hb⟩ := Branch.exists_plainIn_cons k b bs
    rw [Branch.plainIn_nil, List.nil_append] at h
    rw [← h, hb] at hv
    exact absurd (Entry.above_cons.mp hv) (Nat.lt_irrefl _)
  | .mk m g d c :: bs, .mk m' g' d' c' :: cs, hb, hc, hself, h => by
    simp only [Branch.plainIn_cons, List.cons_append, List.append_assoc, List.cons.injEq,
      Entry.mk.injEq, Piece.branch.injEq, true_and] at h
    simp only [Branch.sameList, Branch.same, Bool.and_eq_true, decide_eq_true_eq] at hself ⊢
    obtain ⟨hcc, hdivert, hrest⟩ := Item.sameList_of_plainIn_append (Branch.above_rest hu)
      (Branch.above_rest hv) hb.1.2.2 hc.1.2.2 hself.1.2 (Or.inr ⟨hb.1.1, hc.1.1⟩) h.2
    obtain ⟨hbs, hu'⟩ := Branch.sameList_of_plainIn_append hu hv hb.2 hc.2 hself.2 hrest
    exact ⟨⟨⟨⟨h.1, hdivert⟩, hcc⟩, hbs⟩, hu'⟩
termination_by bs => sizeOf bs

end

/-- Two trees of the shape of a tree that was read are structurally equal if their outlines agree,
but for what structural equality passes over, and one of them is equal to itself, which fails only
for a number that equals nothing. -/
theorem Item.sameList_of_outlineIn {r : Bool} {is js : List Item} (hi : Item.WellShapedIn r is)
    (hj : Item.WellShapedIn r js) (hself : Item.sameList is is = true)
    (h : (Item.outlineIn 0 is).map Entry.plain = (Item.outlineIn 0 js).map Entry.plain) :
    Item.sameList is js = true := by
  have happend : Item.plainIn 0 is ++ (Entry.own 0 none ++ []) =
      Item.plainIn 0 js ++ (Entry.own 0 none ++ []) := by
    simpa [Item.plainIn] using h
  exact (Item.sameList_of_plainIn_append (Entry.above_nil 0) (Entry.above_nil 0) hi hj hself
    (Or.inl ⟨rfl, rfl⟩) happend).1

end StoryScript
