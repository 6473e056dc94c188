import StoryScript.Document.Carry
import StoryScript.Proofs.Document.Runs
import Mathlib.Data.List.Count

/-!
# Documents that carry identities

`Document.carry` pairs the knots of two documents by name and occurrence. When the names of both are
the same in order, knots are paired by place, since no two knots of a document have both in common
(`find?_withOccurrence`). A knot that differs from its counterpart in identities alone then becomes
that counterpart again, also beside knots that have come in between (`Document.exists_carry_around`), and
a knot for which an equal tree is supplied gets the identities of that tree (`Document.forall₂_carry`).
-/

namespace StoryScript

/-- A knot in which all identities are the same. -/
def Knot.unlabelled (k : Knot) : Knot := { k with items := Item.unlabelledIn k.items }

@[simp] theorem Knot.name_unlabelled (k : Knot) : k.unlabelled.name = k.name := rfl

theorem Knot.stitches_unlabelled (k : Knot) : k.unlabelled.stitches = k.stitches :=
  Item.filterMap_stitchName?_unlabelledIn k.items

theorem Knot.unlabelled_carry (k : Knot) (reference : List Item) :
    (k.carry reference).unlabelled = k.unlabelled := by
  rw [unlabelled, carry, Item.unlabelledIn_carry, unlabelled]

theorem Knot.alike_of_unlabelled {k l : Knot} (h : k.unlabelled = l.unlabelled) : k.Alike l :=
  ⟨show k.unlabelled.name = l.unlabelled.name by rw [h],
    show k.unlabelled.region = l.unlabelled.region by rw [h],
    show k.unlabelled.duplicate = l.unlabelled.duplicate by rw [h],
    show k.unlabelled.position = l.unlabelled.position by rw [h],
    show k.unlabelled.items = l.unlabelled.items by rw [h]⟩

/-- Knots that are the same without identities are alike. -/
theorem Knot.forall₂_alike_of_map_unlabelled {ks ls : List Knot}
    (h : ks.map Knot.unlabelled = ls.map Knot.unlabelled) : List.Forall₂ Knot.Alike ks ls := by
  induction ks generalizing ls with
  | nil =>
    cases ls with
    | nil => exact .nil
    | cons l ls => simp at h
  | cons k ks ih =>
    cases ls with
    | nil => simp at h
    | cons l ls =>
      rw [List.map_cons, List.map_cons, List.cons.injEq] at h
      exact .cons (Knot.alike_of_unlabelled h.1) (ih h.2)

theorem Knot.forall₂_alike_trans {ks ls ms : List Knot} (h : List.Forall₂ Knot.Alike ks ls)
    (h' : List.Forall₂ Knot.Alike ls ms) : List.Forall₂ Knot.Alike ks ms := by
  induction h generalizing ms with
  | nil =>
    cases h'
    exact .nil
  | cons hkl _ ih =>
    cases h' with
    | cons hlm hrest => exact .cons (hkl.trans hlm) (ih hrest)

theorem Knot.forall₂_alike_symm {ks ls : List Knot} (h : List.Forall₂ Knot.Alike ks ls) :
    List.Forall₂ Knot.Alike ls ks := h.flip.imp fun _ _ hkl => hkl.symm

/-- A tree that differs from an equal tree in identities alone becomes that tree. -/
theorem Item.carry_eq {is js : List Item} (h : Item.unlabelledIn is = Item.unlabelledIn js)
    (hself : Item.sameList js js = true) : (Item.carry is js).1 = js := by
  have hsame : Item.sameList is js = true := by rwa [Item.sameList_congr h]
  refine Item.eq_of_unlabelledIn ?_ (Item.idsIn_carry hsame)
  rw [Item.unlabelledIn_carry, h]

/-! ### Occurrences -/

theorem withOccurrence_append (seen : List String) (ks ls : List Knot) :
    withOccurrence seen (ks ++ ls) =
      withOccurrence seen ks ++ withOccurrence ((ks.map Knot.name).reverse ++ seen) ls := by
  induction ks generalizing seen with
  | nil => rfl
  | cons k ks ih =>
    rw [List.cons_append, withOccurrence, ih, withOccurrence, List.map_cons, List.reverse_cons,
      List.append_assoc, List.singleton_append, List.cons_append]

theorem map_fst_withOccurrence (seen : List String) (ks : List Knot) :
    (withOccurrence seen ks).map Prod.fst = ks := by
  induction ks generalizing seen with
  | nil => rfl
  | cons k ks ih => rw [withOccurrence, List.map_cons, ih]

/-- A knot is the first of its name and its occurrence. -/
theorem find?_withOccurrence (seen : List String) (ks : List Knot) (k : Knot) (ls : List Knot) :
    (withOccurrence seen (ks ++ k :: ls)).find?
        (fun (l, n) => l.name = k.name && n = seen.count k.name + (ks.map Knot.name).count k.name) =
      some (k, seen.count k.name + (ks.map Knot.name).count k.name) := by
  induction ks generalizing seen with
  | nil => simp [withOccurrence]
  | cons l ks ih =>
    rw [List.cons_append, withOccurrence, List.map_cons, List.count_cons]
    by_cases hname : l.name = k.name
    · have hrest := ih (l.name :: seen)
      rw [List.count_cons, hname, if_pos (by simp)] at hrest
      rw [if_pos (by simp [hname]), List.find?_cons_of_neg (by simp [hname]), hname]
      have hcomm : List.count k.name seen + 1 + List.count k.name (ks.map Knot.name) =
          List.count k.name seen + (List.count k.name (ks.map Knot.name) + 1) := by omega
      rw [← hcomm]
      exact hrest
    · have hrest := ih (l.name :: seen)
      rw [List.count_cons, if_neg (by simp [hname]), Nat.add_zero] at hrest
      rw [if_neg (by simp [hname]), Nat.add_zero, List.find?_cons_of_neg (by simp [hname])]
      exact hrest

/-- What is done with each knot and its occurrence can be told knot by knot, beside a list of knots
of the same names. -/
theorem forall₂_withOccurrence {f : Knot × Nat → Knot} {S T : Knot → Knot → Prop}
    (hS : ∀ k l, S k l → k.name = l.name) (seen : List String) {ks ls : List Knot}
    (h : List.Forall₂ S ks ls)
    (hf : ∀ p l q k, ls = p ++ l :: q → S k l →
      T (f (k, seen.count l.name + (p.map Knot.name).count l.name)) l) :
    List.Forall₂ T ((withOccurrence seen ks).map f) ls := by
  induction h generalizing seen with
  | nil => exact .nil
  | @cons k l ks ls hkl _ ih =>
    rw [withOccurrence, List.map_cons]
    refine .cons ?_ (ih (k.name :: seen) fun p m q k' hls hk' => ?_)
    · have hhead := hf [] l ls k rfl hkl
      rw [hS k l hkl]
      simpa using hhead
    · have htail := hf (l :: p) m q k' (by rw [hls, List.cons_append]) hk'
      rw [List.map_cons, List.count_cons] at htail
      rw [List.count_cons, hS k l hkl]
      have hcomm : ∀ a b c : Nat, a + b + c = a + (c + b) := by omega
      rw [hcomm]
      exact htail

/-! ### Documents -/

namespace Document

/-- A knot, given with its occurrence, with the identities of its counterpart. -/
def carryKnot (old : Document) (c : Counterpart) (x : Knot × Nat) : Knot :=
  match old.reference? c x.1.name x.2 with
  | some items => x.1.carry items
  | none => x.1

theorem knots_carry (new old : Document) (c : Counterpart) :
    (new.carry old c).knots = (withOccurrence [] new.knots).map (old.carryKnot c) := rfl

theorem carryKnot_of_reference? {old : Document} {c : Counterpart} {k : Knot} {n : Nat}
    {items : List Item} (h : old.reference? c k.name n = some items) :
    old.carryKnot c (k, n) = k.carry items := by
  rw [carryKnot, h]

theorem map_unlabelled_carry (new old : Document) (c : Counterpart) :
    (new.carry old c).knots.map Knot.unlabelled = new.knots.map Knot.unlabelled := by
  have hknot : ∀ x : Knot × Nat, (old.carryKnot c x).unlabelled = x.1.unlabelled := by
    intro x
    unfold carryKnot
    split
    · exact Knot.unlabelled_carry _ _
    · rfl
  rw [knots_carry, List.map_map]
  conv_rhs => rw [← map_fst_withOccurrence [] new.knots, List.map_map]
  exact List.map_congr_left fun x _ => hknot x

/-- A document without its identities. -/
def unlabelled (d : Document) : Document := { d with knots := d.knots.map Knot.unlabelled }

theorem unlabelled_carry (new old : Document) (c : Counterpart) :
    (new.carry old c).unlabelled = new.unlabelled := by
  rw [unlabelled, map_unlabelled_carry]
  rfl

/-- The reference for a knot is its counterpart by name and occurrence, unless another is supplied. -/
theorem reference?_eq {old : Document} {c : Counterpart} {ks : List Knot} {k : Knot} {ls : List Knot}
    (hold : old.knots = ks ++ k :: ls)
    (hc : ∀ x ∈ c, (ks.map Knot.name).count k.name = 0 → x.1 ≠ k.name) :
    old.reference? c k.name ((ks.map Knot.name).count k.name) = some k.items := by
  have hfilter : c.filter (fun x => (ks.map Knot.name).count k.name = 0 && x.1 = k.name) = none := by
    rw [Option.filter_eq_none_iff]
    intro x hx
    simpa using hc x hx
  have hfind := find?_withOccurrence [] ks k ls
  rw [List.count_nil, Nat.zero_add] at hfind
  unfold reference?
  rw [hfilter, hold]
  simp only
  rw [hfind, Option.map_some]

/-- A knot that carries identities over and has become its counterpart. -/
def Recovers (u x : Knot) : Prop := u.Alike x ∧ u.items = x.items

/-- Carrying over from knots that differ in identities alone makes the knots what they were, also beside
others that are no such knots, provided that these do not shift the occurrences of a name. -/
theorem exists_carry_around {new old : Document} (c : Counterpart) {ks ks' : List Knot}
    (ms ms' : List Knot) {ls ls' : List Knot}
    (hnew : new.knots = ks' ++ ms' ++ ls') (hold : old.knots = ks ++ ms ++ ls)
    (hself : ∀ x ∈ old.knots, Item.sameList x.items x.items = true)
    (hc : ∀ x ∈ c, (∀ y ∈ ks, y.name ≠ x.1) ∧ x.1 ∈ ms.map Knot.name)
    (hcount : ∀ x ∈ ls, (ms'.map Knot.name).count x.name = (ms.map Knot.name).count x.name)
    (hks : List.Forall₂ Knot.Alike ks' ks) (hls : List.Forall₂ Knot.Alike ls' ls) :
    ∃ us vs, (new.carry old c).knots =
        us ++ (withOccurrence (ks.map Knot.name).reverse ms').map (old.carryKnot c) ++ vs ∧
      List.Forall₂ Recovers us ks ∧ List.Forall₂ Recovers vs ls := by
  have hnames : ks'.map Knot.name = ks.map Knot.name := map_name_of_alike hks
  -- a knot that differs in identities alone becomes its counterpart again
  have hcarry : ∀ {p q : List Knot} {x y : Knot}, old.knots = p ++ x :: q → y.Alike x →
      (∀ z ∈ c, (p.map Knot.name).count x.name = 0 → z.1 ≠ x.name) →
      Recovers (old.carryKnot c (y, (p.map Knot.name).count x.name)) x := by
    intro p q x y hsplit hyx hz
    have hreference := reference?_eq hsplit hz
    rw [← hyx.name] at hreference
    have hitems : (y.carry x.items).items = x.items :=
      Item.carry_eq hyx.items (hself x (by rw [hsplit]; simp))
    rw [← hyx.name, carryKnot_of_reference? hreference]
    exact ⟨⟨hyx.name, hyx.region, hyx.duplicate, hyx.position, by rw [hitems]⟩, hitems⟩
  refine ⟨(withOccurrence [] ks').map (old.carryKnot c),
    (withOccurrence ((ms'.map Knot.name).reverse ++ (ks.map Knot.name).reverse) ls').map
      (old.carryKnot c), ?_, ?_, ?_⟩
  · rw [knots_carry, hnew, withOccurrence_append, withOccurrence_append, List.map_append,
      List.map_append, List.append_nil, List.map_append, List.reverse_append, hnames,
      List.append_nil]
  · refine forall₂_withOccurrence (fun _ _ h => h.name) [] hks fun p x q y hp hyx => ?_
    have hx : x ∈ ks := by rw [hp]; simp
    have hsplit : old.knots = p ++ x :: (q ++ (ms ++ ls)) := by rw [hold, hp]; simp
    rw [List.count_nil, Nat.zero_add]
    exact hcarry hsplit hyx fun z hz _ h => (hc z hz).1 x hx h.symm
  · refine forall₂_withOccurrence (fun _ _ h => h.name) _ hls fun p x q y hp hyx => ?_
    have hx : x ∈ ls := by rw [hp]; simp
    have hsplit : old.knots = (ks ++ ms ++ p) ++ x :: q := by rw [hold, hp]; simp
    have hoccurrence : ((ms'.map Knot.name).reverse ++ (ks.map Knot.name).reverse).count x.name +
        (p.map Knot.name).count x.name = ((ks ++ ms ++ p).map Knot.name).count x.name := by
      simp only [List.map_append, List.count_append, List.count_reverse, hcount x hx]
      omega
    rw [hoccurrence]
    refine hcarry hsplit hyx fun z hz hzero h => ?_
    have hpos := List.count_pos_iff.mpr (h ▸ (hc z hz).2)
    simp only [List.map_append, List.count_append] at hzero
    omega

/-- Knots that differ in identities alone become what they were, each by its own counterpart. -/
theorem forall₂_recovers {new old : Document} (hself : ∀ x ∈ old.knots, Item.sameList x.items x.items = true)
    (h : List.Forall₂ Knot.Alike new.knots old.knots) :
    List.Forall₂ Recovers (new.carry old none).knots old.knots := by
  -- all knots stand in front of those that are new and those that have gone: there are none
  have hnew : new.knots = new.knots ++ [] ++ [] := by simp
  have hold : old.knots = old.knots ++ [] ++ [] := by simp
  obtain ⟨us, vs, hknots, hus, hvs⟩ := exists_carry_around none [] [] hnew hold hself
    (by simp) (by simp) h .nil
  obtain rfl : vs = [] := List.forall₂_nil_right_iff.mp hvs
  rw [hknots]
  simpa [withOccurrence] using hus

/-- A knot for which there is a reference gets the identities of that, and all others become what they were. -/
theorem exists_carry_knot {new old : Document} {c : Counterpart} {ks ks' ls ls' : List Knot} {k k' : Knot}
    {items : List Item} (hnew : new.knots = ks' ++ k' :: ls') (hold : old.knots = ks ++ k :: ls)
    (hself : ∀ x ∈ old.knots, Item.sameList x.items x.items = true)
    (hc : ∀ x ∈ c, (∀ y ∈ ks, y.name ≠ x.1) ∧ x.1 = k.name)
    (hreference : old.reference? c k.name ((ks.map Knot.name).count k.name) = some items)
    (hks : List.Forall₂ Knot.Alike ks' ks) (hname : k'.name = k.name)
    (hls : List.Forall₂ Knot.Alike ls' ls) :
    ∃ us vs, (new.carry old c).knots = us ++ k'.carry items :: vs ∧
      List.Forall₂ Recovers us ks ∧ List.Forall₂ Recovers vs ls := by
  obtain ⟨us, vs, hknots, hus, hvs⟩ := exists_carry_around c [k] [k'] (by rw [hnew]; simp)
    (by rw [hold]; simp) hself (fun x hx => ⟨(hc x hx).1, by simp [(hc x hx).2]⟩)
    (fun x _ => by simp [hname]) hks hls
  refine ⟨us, vs, ?_, hus, hvs⟩
  rw [← hname] at hreference
  rw [hknots, withOccurrence, withOccurrence, List.count_reverse, List.map_cons, List.map_nil,
    carryKnot_of_reference? hreference, List.append_assoc, List.singleton_append]

/-- A knot that comes with a counterpart of its own gets the identities of that, and all others become what
they were. -/
theorem forall₂_carry {new old : Document} {ks ks' ls ls' : List Knot} {k k' : Knot}
    (items : List Item) (hnew : new.knots = ks' ++ k' :: ls') (hold : old.knots = ks ++ k :: ls)
    (hself : ∀ x ∈ old.knots, Item.sameList x.items x.items = true)
    (hfirst : ∀ x ∈ ks, x.name ≠ k.name) (hks : List.Forall₂ Knot.Alike ks' ks)
    (hname : k'.name = k.name) (hls : List.Forall₂ Knot.Alike ls' ls) :
    ∃ us vs, (new.carry old (some (k.name, items))).knots = us ++ k'.carry items :: vs ∧
      List.Forall₂ Recovers us ks ∧ List.Forall₂ Recovers vs ls := by
  have hcount : (ks.map Knot.name).count k.name = 0 := by
    rw [List.count_eq_zero, List.mem_map]
    rintro ⟨x, hx, hxk⟩
    exact hfirst x hx hxk
  have hreference : old.reference? (some (k.name, items)) k.name ((ks.map Knot.name).count k.name) =
      some items := by
    unfold reference?
    rw [hcount]
    simp [Option.filter]
  refine exists_carry_knot hnew hold hself (fun x hx => ?_) hreference hks hname hls
  obtain rfl : (k.name, items) = x := by simpa using hx
  exact ⟨hfirst, rfl⟩

/-- Without any, it gets those of the knot whose place it has taken. -/
theorem forall₂_carry_none {new old : Document} {ks ks' ls ls' : List Knot} {k k' : Knot}
    (hnew : new.knots = ks' ++ k' :: ls') (hold : old.knots = ks ++ k :: ls)
    (hself : ∀ x ∈ old.knots, Item.sameList x.items x.items = true)
    (hks : List.Forall₂ Knot.Alike ks' ks) (hname : k'.name = k.name)
    (hls : List.Forall₂ Knot.Alike ls' ls) :
    ∃ us vs, (new.carry old none).knots = us ++ k'.carry k.items :: vs ∧
      List.Forall₂ Recovers us ks ∧ List.Forall₂ Recovers vs ls :=
  exists_carry_knot hnew hold hself (by simp) (reference?_eq hold (by simp)) hks hname hls

end Document

end StoryScript
