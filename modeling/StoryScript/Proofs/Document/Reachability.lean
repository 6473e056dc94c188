import StoryScript.Document.Reachability
import StoryScript.Proofs.Document.Links
import Mathlib.Logic.Relation
import Mathlib.Logic.Function.Iterate

/-!
# What a story can get to

A search of the divert graph ends, and what it has been to are the names that any number of links lead to
from where it began, itself among them (`Document.Reaches`). The graph may have cycles, a name may wait more
than once, and the links from a name may be gone along in any order (`Document.LinkOrder`).

What carries this is `Search.Explores`, which every step keeps (`Search.Explores.step`): nothing was visited
and nothing waits but what is reached, and a link from a name that was visited leads to one that was visited
or waits. When nothing waits any more, what was visited is closed under links (`Search.Explores.mem_iff`). That
this comes to pass, and after how many steps, is told by what is ahead (`LinkOrder.exists_iterate_step`).

`Document.searched` puts this together with the knots that a story cannot get to.
-/

namespace StoryScript

namespace Document

/-- Links lead from a name to another, in any number of steps. -/
def Reaches (d : Document) : String → String → Prop :=
  Relation.ReflTransGen fun a b => d.hasLink a b = true

end Document

/-! ### The invariant of a search -/

namespace Search

/-- What is true of a search that began at `first`. -/
structure Explores (d : Document) (first : String) (s : Search) : Prop where
  begun : first ∈ s.visited ∨ first ∈ s.waiting
  visited : ∀ a ∈ s.visited, d.Reaches first a
  waiting : ∀ a ∈ s.waiting, d.Reaches first a
  /-- Where a visited name leads to is not forgotten. -/
  followed : ∀ a ∈ s.visited, ∀ b, d.hasLink a b = true → b ∈ s.visited ∨ b ∈ s.waiting
  nodup : s.visited.Nodup

namespace Explores

variable {d : Document} {first : String} {s : Search}

theorem start (d : Document) (first : String) : (Search.start first).Explores d first where
  begun := Or.inr List.mem_cons_self
  visited := fun _ h => absurd h List.not_mem_nil
  waiting := fun _ h => List.mem_singleton.mp h ▸ .refl
  followed := fun _ h => absurd h List.not_mem_nil
  nodup := List.nodup_nil

/-- A step forgets no name: what was visited or waited was visited or waits. -/
theorem mem_step (targets : String → List String) {a : String} (h : a ∈ s.visited ∨ a ∈ s.waiting) :
    a ∈ (s.step targets).visited ∨ a ∈ (s.step targets).waiting := by
  obtain ⟨visited, waiting⟩ := s
  cases waiting with
  | nil => exact h
  | cons name waiting =>
    by_cases hname : visited.contains name = true
    · rw [step_of_visited hname]
      have hmem : name ∈ visited := List.contains_iff_mem.mp hname
      rcases h with h | h
      · exact Or.inl h
      · rcases List.mem_cons.mp h with rfl | h
        · exact Or.inl hmem
        · exact Or.inr h
    · rw [Bool.not_eq_true] at hname
      rw [step_of_new hname]
      rcases h with h | h
      · exact Or.inl (List.mem_cons_of_mem _ h)
      · rcases List.mem_cons.mp h with rfl | h
        · exact Or.inl List.mem_cons_self
        · exact Or.inr (List.mem_append_right _ h)

/-- A step keeps the invariant. -/
theorem step (h : s.Explores d first) (o : d.LinkOrder) : (s.step o.targets).Explores d first := by
  have hbegun := mem_step o.targets h.begun
  have hkept := fun a ha b hab => mem_step o.targets (h.followed a ha b hab)
  obtain ⟨visited, waiting⟩ := s
  cases waiting with
  | nil => exact h
  | cons name waiting =>
    have hreaches : d.Reaches first name := h.waiting name List.mem_cons_self
    have hwaiting : ∀ a ∈ waiting, d.Reaches first a :=
      fun a ha => h.waiting a (List.mem_cons_of_mem _ ha)
    by_cases hname : visited.contains name = true
    · rw [step_of_visited hname] at hbegun hkept ⊢
      exact ⟨hbegun, h.visited, hwaiting, hkept, h.nodup⟩
    · rw [Bool.not_eq_true] at hname
      rw [step_of_new hname] at hbegun hkept ⊢
      have hnew : name ∉ visited := by simpa using hname
      refine ⟨hbegun, ?_, ?_, ?_, List.nodup_cons.mpr ⟨hnew, h.nodup⟩⟩
      · exact List.forall_mem_cons.mpr ⟨hreaches, h.visited⟩
      · -- a target of a name that is reached is reached
        rw [List.forall_mem_append]
        refine ⟨fun a ha => ?_, hwaiting⟩
        have htarget : a ∈ o.targets name := (List.mem_filter.mp (List.mem_reverse.mp ha)).1
        exact hreaches.tail (o.mem_targets.mp htarget)
      · -- the links from the name itself are those that now wait, unless they lead back
        rw [List.forall_mem_cons]
        refine ⟨fun b hlink => ?_, hkept⟩
        by_cases hb : b ∈ name :: visited
        · exact Or.inl hb
        · refine Or.inr (List.mem_append_left _ (List.mem_reverse.mpr (List.mem_filter.mpr ?_)))
          exact ⟨o.mem_targets.mpr hlink, by simpa using hb⟩

theorem iterate (h : s.Explores d first) (o : d.LinkOrder) (n : Nat) :
    ((Search.step o.targets)^[n] s).Explores d first := by
  induction n generalizing s with
  | zero => exact h
  | succ n ih =>
    rw [Function.iterate_succ_apply]
    exact ih (h.step o)

/-- When nothing waits, what was visited is what is reached. -/
theorem mem_iff (h : s.Explores d first) (hdone : s.waiting = []) {name : String} :
    name ∈ s.visited ↔ d.Reaches first name := by
  have hnone : ∀ a, a ∈ s.visited ∨ a ∈ s.waiting → a ∈ s.visited := by
    intro a ha
    rw [hdone] at ha
    exact ha.resolve_right List.not_mem_nil
  refine ⟨h.visited name, fun hreaches => ?_⟩
  -- along the links, from the name where the search began
  induction hreaches with
  | refl => exact hnone _ h.begun
  | tail _ hlink ih => exact hnone _ (h.followed _ ih _ hlink)

end Explores

end Search

/-! ### Whole searches -/

namespace Document

variable {d : Document}

namespace LinkOrder

/-- A search comes to an end after as many steps at most as it has ahead. -/
theorem exists_iterate_step (o : d.LinkOrder) (s : Search) :
    ∃ n ≤ s.ahead d.links, ∃ visited,
      (Search.step o.targets)^[n] s = ⟨visited, []⟩ ∧ o.search s = visited := by
  induction s using LinkOrder.search.induct o with
  | case1 s hdone =>
    obtain ⟨visited, waiting⟩ := s
    obtain rfl : waiting = [] := hdone
    exact ⟨0, Nat.zero_le _, visited, rfl, by rw [search, if_pos rfl]⟩
  | case2 s hwaits ih =>
    obtain ⟨n, hn, visited, hend, hsearch⟩ := ih
    have hlt := o.ahead_step_lt hwaits
    refine ⟨n + 1, by omega, visited, ?_, ?_⟩
    · rw [Function.iterate_succ_apply, hend]
    · rw [search, if_neg hwaits, hsearch]

/-- What a search has been to in the end. -/
theorem explores_search (o : d.LinkOrder) (first : String) :
    Search.Explores d first ⟨o.search (.start first), []⟩ := by
  obtain ⟨n, -, visited, hend, hsearch⟩ := o.exists_iterate_step (.start first)
  rw [hsearch, ← hend]
  exact (Search.Explores.start d first).iterate o n

/-- A search comes to just what links lead to. -/
theorem mem_search_iff (o : d.LinkOrder) {first name : String} :
    name ∈ o.search (.start first) ↔ d.Reaches first name := (o.explores_search first).mem_iff rfl

theorem ahead_start (links : List Link) (first : String) :
    (Search.start first).ahead links = links.length + 1 := by
  rw [Search.start, Search.ahead_mk]
  simp

end LinkOrder

theorem mem_reachableFrom_iff {first name : String} :
    name ∈ d.reachableFrom first ↔ d.Reaches first name := d.linkOrder.mem_search_iff

instance (d : Document) (a : String) : DecidablePred (d.Reaches a) := fun _ =>
  decidable_of_iff _ mem_reachableFrom_iff

/-- The knots that a search leaves out are those that nothing leads to, whatever the order of links. -/
theorem LinkOrder.unreachable_eq (o : d.LinkOrder) :
    o.unreachable = d.visibleNames.filter fun name => ∀ root ∈ d.root?, ¬d.Reaches root name := by
  rw [unreachable]
  cases hroot : d.root? with
  | none =>
    have hnames : d.visibleNames = [] := root?_eq_none_iff.mp hroot
    rw [hnames]
    rfl
  | some root =>
    refine List.filter_congr fun name _ => ?_
    rw [Bool.eq_iff_iff]
    simp [o.mem_search_iff]

/-- Which knots are visible does not depend on identities. -/
theorem visibleNames_unlabelled (d : Document) : d.unlabelled.visibleNames = d.visibleNames := by
  rw [visibleNames, visibleKnots, unlabelled, List.filter_map, List.map_map]
  rfl

theorem IsReading.nodup_visibleNames (h : d.IsReading) : d.visibleNames.Nodup := by
  obtain ⟨supply, text, hread⟩ := h
  rw [← visibleNames_unlabelled, hread, visibleNames_unlabelled]
  exact nodup_visibleNames_read supply text

/-- What the searches of a document come to, when the links are gone along in some order. -/
structure Searched (d : Document) (o : d.LinkOrder) : Prop where
  /-- No later than a step behind the number of links nothing waits any more. -/
  ends : ∀ first, ∃ n ≤ d.links.length + 1, ∃ visited,
    (Search.step o.targets)^[n] (.start first) = ⟨visited, []⟩ ∧ o.search (.start first) = visited
  nodup : ∀ first, (o.search (.start first)).Nodup
  exact : ∀ first name, name ∈ o.search (.start first) ↔ d.Reaches first name
  /-- Each visible knot, in document order, that the root does not lead to. -/
  left : o.unreachable = d.visibleNames.filter fun name => ∀ root ∈ d.root?, ¬d.Reaches root name
  /-- In a document that was read different knots have different names there. -/
  leftOnce : d.IsReading → o.unreachable.Nodup

/-- In every document and every order of its links, searches end and come to what can be reached. -/
theorem searched (d : Document) (o : d.LinkOrder) : d.Searched o where
  ends := by
    intro first
    rw [← LinkOrder.ahead_start d.links first]
    exact o.exists_iterate_step (.start first)
  nodup := fun first => (o.explores_search first).nodup
  exact := fun first name => o.mem_search_iff
  left := o.unreachable_eq
  leftOnce := by
    intro hread
    rw [o.unreachable_eq]
    exact hread.nodup_visibleNames.filter _

/-- A ring of knots that the story starts in, beside a knot that leads into it. -/
theorem searched_ring :
    let d := (read 0 "=== a ===\n-> b\n=== b ===\n-> a\n-> b\n=== c ===\n-> a\n").1
    d.IsReading ∧ d.unreachable = ["c"] ∧ d.unreachable.Nodup := by
  intro d
  have hreading : d.IsReading := ⟨0, _, rfl⟩
  have hleft : d.unreachable = ["c"] := by decide +kernel
  exact ⟨hreading, hleft, (searched d d.linkOrder).leftOnce hreading⟩

end Document

end StoryScript
