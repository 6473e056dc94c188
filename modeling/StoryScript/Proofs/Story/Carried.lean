import StoryScript.Proofs.Story.Diagonal
import StoryScript.Proofs.Story.Reworded

/-!
# Identities in other words

A tree in other words that is read anew gets back the identities it had (`Item.carry_rewordIn`): of all
nodes only diverts are recognised by something that changes, and where no divert leads to the place that
another leads to afterwards, a divert that changes is like no other node. So the nodes of both trees are
paired (`Alignment.Paired`).

Where a divert leads there already, diverts may be mistaken for each other, and identities change places.
-/

namespace StoryScript

variable {w : Rewording}

/-- A leaf that is no line that is kept as it stands, or is one that stays. -/
def Leaf.Stands (w : Rewording) : Leaf → Prop
  | raw content _ => w.raw content = content
  | _ => True

instance (w : Rewording) : DecidablePred (Leaf.Stands w)
  | .raw content _ => inferInstanceAs (Decidable (w.raw content = content))
  | .text _ | .media _ _ _ | .fakeType _ | .wait _ | .stitch _ | .divert _ | .flagOperation _ _
  | .sideStory _ | .transition _ _ => inferInstanceAs (Decidable True)

/-- A leaf that is no divert, or one whose target is as told. -/
def Leaf.Leads (Q : String → Prop) : Leaf → Prop
  | divert t => Q t
  | _ => True

instance (Q : String → Prop) [DecidablePred Q] : DecidablePred (Leaf.Leads Q)
  | .divert t => inferInstanceAs (Decidable (Q t))
  | .text _ | .media _ _ _ | .fakeType _ | .wait _ | .stitch _ | .raw _ _ | .flagOperation _ _
  | .sideStory _ | .transition _ _ => inferInstanceAs (Decidable True)

/-- Where lines that are kept stay, only targets are put in other words. -/
theorem Item.rewordIn_eq_ofTarget {is : List Item} (h : Item.AllIn (Leaf.Stands w) is) :
    Item.rewordIn w is = Item.rewordIn (.ofTarget w.target) is := by
  have htarget : w.target = (Rewording.ofTarget w.target).target := rfl
  refine Item.rewordIn_congr htarget (Item.allIn_iff_nodesIn.mpr fun n hn l hl => ?_)
  have hstands := Item.allIn_iff_nodesIn.mp h n hn l hl
  cases l with
  | raw content reason => exact congrArg (Leaf.raw · reason) hstands
  | _ => rfl

/-! ### What nodes are recognised by -/

namespace Node

theorem key_of_divert {n : Node} {t : String} (h : n.leaf? = some (.divert t)) :
    n.key = ⟨"divert", .text t⟩ := by
  rcases n with (⟨m, l⟩ | _ | _) | _
  · obtain rfl : l = .divert t := Option.some.inj h
    rfl
  all_goals simp [leaf?] at h

/-- Only diverts are recognised as such. -/
theorem exists_of_key {n : Node} (h : n.key.kind = "divert") : ∃ t, n.leaf? = some (.divert t) := by
  rcases n with (⟨m, l⟩ | _ | _) | _
  · cases l with
    | divert t => exact ⟨t, rfl⟩
    | media kind _ _ => cases kind <;> simp [key, Leaf.kindName, MediaKind.name] at h
    | _ => simp [key, Leaf.kindName] at h
  all_goals simp [key] at h

theorem leaf?_reword (n : Node) : (n.reword w).leaf? = n.leaf?.map (Leaf.reword w) := by
  rcases n with (_ | _ | _) | _ <;> rfl

/-- A divert is like no node that is not a divert to the same place. -/
theorem key_beq_of_divert {m n : Node} {t : String} (hn : n.leaf? = some (.divert t))
    (hm : ∀ u, m.leaf? = some (.divert u) → u ≠ t) :
    (n.key == m.key) = false ∧ (m.key == n.key) = false := by
  have hne : ∀ {a b : Node}, (a = n ∧ b = m) ∨ (a = m ∧ b = n) → (a.key == b.key) = false := by
    intro a b hab
    by_contra hagree
    have hcounterparts : a.Counterparts b := by
      rw [Counterparts]
      simpa using hagree
    obtain ⟨hkind, hvalue⟩ := counterparts_iff.mp hcounterparts
    have hkey := key_of_divert hn
    obtain ⟨u, hu⟩ : ∃ u, m.leaf? = some (.divert u) := by
      refine exists_of_key ?_
      rcases hab with ⟨rfl, rfl⟩ | ⟨rfl, rfl⟩
      · rw [← hkind, hkey]
      · rw [hkind, hkey]
    have hkey' := key_of_divert hu
    rcases hab with ⟨rfl, rfl⟩ | ⟨rfl, rfl⟩
    · rw [hkey, hkey'] at hvalue
      exact hm u hu (of_decide_eq_true hvalue).symm
    · rw [hkey, hkey'] at hvalue
      exact hm u hu (of_decide_eq_true hvalue)
  exact ⟨hne (Or.inl ⟨rfl, rfl⟩), hne (Or.inr ⟨rfl, rfl⟩)⟩

/-- A node in other words is recognised as before, unless it is a divert that leads elsewhere. -/
theorem key_reword {n : Node} (h : ∀ l ∈ n.leaf?, l.Stands w) :
    (n.reword w).key = n.key ∨ ∃ t, n.leaf? = some (.divert t) ∧ w.target t ≠ t := by
  rcases n with (⟨m, l⟩ | ⟨m, head, content⟩ | _) | ⟨_, _, _, _⟩
  · cases l with
    | divert t =>
      by_cases ht : w.target t = t
      · refine Or.inl ?_
        change (⟨"divert", .text (w.target t)⟩ : NodeKey) = ⟨"divert", .text t⟩
        rw [ht]
      · exact Or.inr ⟨t, rfl, ht⟩
    | raw content reason =>
      have hstands : w.raw content = content := h _ rfl
      refine Or.inl ?_
      change (⟨"raw", .text (w.raw content)⟩ : NodeKey) = ⟨"raw", .text content⟩
      rw [hstands]
    | _ => exact Or.inl rfl
  all_goals exact Or.inl rfl

end Node

/-! ### Carrying identities over -/

/-- The keys of a tree and those of the tree in other words, place by place. -/
theorem Item.paired_keys {js : List Item} (hself : Item.sameList js js = true)
    (hstands : Item.AllIn (Leaf.Stands w) js) {Q : String → Prop} (hleads : Item.AllIn (Leaf.Leads Q) js)
    (happart : ∀ t u, Q u → w.target t ≠ t → t ≠ w.target u ∧ w.target t ≠ u) :
    Alignment.Paired ((Item.nodesIn js).map Node.key)
      ((Item.nodesIn js).map fun n => (n.reword w).key) := by
  have hleaf := Item.allIn_iff_nodesIn.mp hstands
  have htarget : ∀ n ∈ Item.nodesIn js, ∀ t, n.leaf? = some (.divert t) → Q t :=
    fun n hn t ht => Item.allIn_iff_nodesIn.mp hleads n hn _ ht
  have hcounterparts := Item.counterparts_of_sameList hself
  rw [List.forall₂_same] at hcounterparts
  rw [Alignment.Paired, List.forall₂_map_left_iff, List.forall₂_map_right_iff, List.forall₂_same]
  intro n hn
  rcases Node.key_reword (hleaf n hn) with hkey | ⟨t, ht, hchanges⟩
  · rw [hkey]
    exact Or.inl (hcounterparts n hn)
  · have hreworded : (n.reword w).leaf? = some (.divert (w.target t)) := by
      rw [Node.leaf?_reword, ht]
      rfl
    refine Or.inr ⟨?_, ?_⟩
    · rw [List.forall_mem_map]
      intro m hm
      refine (Node.key_beq_of_divert ht fun u hu => ?_).1
      rw [Node.leaf?_reword, Option.map_eq_some_iff] at hu
      obtain ⟨l, hl, hlu⟩ := hu
      cases l with
      | divert v =>
        obtain rfl : w.target v = u := Leaf.divert.inj hlu
        exact (happart t v (htarget m hm v hl) hchanges).1.symm
      | _ => simp [Leaf.reword] at hlu
    · rw [List.forall_mem_map]
      intro m hm
      refine (Node.key_beq_of_divert hreworded fun u hu => ?_).2
      exact (happart t u (htarget m hm u hu) hchanges).2.symm

/-- A tree that is another one in other words, up to identities, gets the identities of that. -/
theorem Item.carry_rewordIn {is js : List Item}
    (h : Item.unlabelledIn is = Item.rewordIn w (Item.unlabelledIn js))
    (hself : Item.sameList js js = true) (hstands : Item.AllIn (Leaf.Stands w) js)
    {Q : String → Prop} (hleads : Item.AllIn (Leaf.Leads Q) js)
    (happart : ∀ t u, Q u → w.target t ≠ t → t ≠ w.target u ∧ w.target t ≠ u) :
    (Item.carry is js).1 = Item.rewordIn w js := by
  rw [← Item.unlabelledIn_rewordIn] at h
  have hnodes : (Item.nodesIn is).map Node.unlabelled =
      ((Item.nodesIn js).map (Node.reword w)).map Node.unlabelled := by
    rw [← Item.nodesIn_unlabelledIn, h, Item.nodesIn_unlabelledIn, Item.nodesIn_rewordIn]
  have hkeys : (Item.nodesIn is).map Node.key = (Item.nodesIn js).map fun n => (n.reword w).key := by
    have hmap := congrArg (List.map Node.key) hnodes
    simpa [Function.comp_def] using hmap
  have hkinds : List.Forall₂ (fun o n : Node => o.kindName = n.kindName) (Item.nodesIn js)
      (Item.nodesIn is) := by
    have hnames : (Item.nodesIn is).map Node.kindName = (Item.nodesIn js).map Node.kindName := by
      have hmap := congrArg (List.map NodeKey.kind) hkeys
      simpa [Function.comp_def, Node.kind_key] using hmap
    have hsame : List.Forall₂ (· = ·) ((Item.nodesIn js).map Node.kindName)
        ((Item.nodesIn is).map Node.kindName) := by
      rw [hnames, List.forall₂_same]
      exact fun _ _ => rfl
    rwa [List.forall₂_map_left_iff, List.forall₂_map_right_iff] at hsame
  have hids : carriedIds (Item.nodesIn js) (Item.nodesIn is) = Item.idsIn js := by
    refine carriedIds_of_paired ?_ hkinds
    rw [hkeys]
    exact Item.paired_keys hself hstands hleads happart
  refine Item.eq_of_unlabelledIn (by rw [Item.unlabelledIn_carry, h]) ?_
  change Item.idsIn (Item.relabelIn is (carriedIds (Item.nodesIn js) (Item.nodesIn is))).1 = _
  rw [hids, Item.idsIn_rewordIn]
  refine Item.idsIn_relabelIn ?_
  rw [Item.idsIn, Item.idsIn, List.length_map, List.length_map]
  exact hkinds.length_eq

end StoryScript
