import StoryScript.Document.Graph

/-!
# Reachability

Where a story can get to. A search goes along links from name to name. The names that still have to be
looked at wait in a list; the targets of a name that is looked at for the first time are put in front of
it. In which order the links from one name are gone along is left open (`Document.LinkOrder`).

* `Search.step` — one name is looked at;
* `Document.LinkOrder.search` — everything that a search comes to;
* `Document.reachableFrom` — the knots that a story can get to from a name;
* `Document.unreachable` — the knots that it cannot get to.

A search ends because every step uses up a link or a name that waits (`Search.ahead_step_lt`).
-/

namespace StoryScript

/-- A search: the names that it has been to, the latest first, and those that wait to be looked at, the
next one first. A name may wait more than once. -/
structure Search where
  visited : List String
  waiting : List String
  deriving DecidableEq, Repr

namespace Search

/-- The search that begins at a name. -/
def start (name : String) : Search := ⟨[], [name]⟩

/-- Look at the next name. If the search has not been there, those of its targets that are new come to
wait in front of all others, the last one first. -/
def step (targets : String → List String) (s : Search) : Search :=
  match s.waiting with
  | [] => s
  | name :: waiting =>
    if s.visited.contains name then { s with waiting }
    else
      let visited := name :: s.visited
      ⟨visited, ((targets name).filter fun target => !visited.contains target).reverse ++ waiting⟩

section Step

variable {targets : String → List String} {visited waiting : List String} {name : String}

@[simp] theorem step_nil : step targets ⟨visited, []⟩ = ⟨visited, []⟩ := rfl

theorem step_of_visited (h : visited.contains name = true) :
    step targets ⟨visited, name :: waiting⟩ = ⟨visited, waiting⟩ := if_pos h

theorem step_of_new (h : visited.contains name = false) :
    step targets ⟨visited, name :: waiting⟩ = ⟨name :: visited,
      ((targets name).filter fun target => !(name :: visited).contains target).reverse ++ waiting⟩ :=
  if_neg (by simp only [h, Bool.false_eq_true, not_false_eq_true])

end Step

/-- How much a search has ahead of it: the links from names where it has not been, and the names that
wait. -/
def ahead (links : List Link) (s : Search) : Nat :=
  links.countP (fun l => !s.visited.contains l.source) + s.waiting.length

theorem ahead_mk (links : List Link) (visited waiting : List String) :
    ahead links ⟨visited, waiting⟩ =
      links.countP (fun l => !visited.contains l.source) + waiting.length := rfl

/-- A visit uses up the links from one name. -/
theorem countP_visit (links : List Link) {visited : List String} {name : String}
    (h : visited.contains name = false) :
    links.countP (fun l => !(name :: visited).contains l.source) +
        (links.filter fun l => l.source = name).length =
      links.countP fun l => !visited.contains l.source := by
  induction links with
  | nil => rfl
  | cons l links ih =>
    by_cases hsource : l.source = name
    · rw [List.countP_cons_of_neg (by simp [hsource]), List.filter_cons_of_pos (by simpa using hsource),
        List.length_cons, List.countP_cons_of_pos (by simpa [hsource] using h)]
      omega
    · rw [List.filter_cons_of_neg (by simpa using hsource), List.countP_cons, List.countP_cons]
      have hcontains : (name :: visited).contains l.source = visited.contains l.source := by
        simp [hsource]
      rw [hcontains]
      omega

end Search

namespace Document

/-- For each name the names that links lead to from there, in the order in which a search goes along
them. -/
structure LinkOrder (d : Document) where
  targets : String → List String
  nodup_targets : ∀ a, (targets a).Nodup
  mem_targets : ∀ {a b}, b ∈ targets a ↔ d.hasLink a b = true

/-- The order in which the names stand in the table of the graph. -/
def linkOrder (d : Document) : d.LinkOrder where
  targets := d.graph.edges.get
  nodup_targets := d.records_graph.nodup_edges
  mem_targets := List.contains_iff_mem.symm

namespace LinkOrder

variable {d : Document} (o : d.LinkOrder)

/-- A name has no more targets than links. -/
theorem length_targets_le (name : String) :
    (o.targets name).length ≤ (d.links.filter fun l => l.source = name).length := by
  have hsubset : o.targets name ⊆ (d.links.filter fun l => l.source = name).map Link.target := by
    intro target htarget
    have hlink := o.mem_targets.mp htarget
    obtain ⟨ref, hl⟩ := d.records_graph.mem_edges.mp (List.contains_iff_mem.mp hlink)
    exact List.mem_map.mpr ⟨_, List.mem_filter.mpr ⟨hl, by simp⟩, rfl⟩
  have hle := (o.nodup_targets name).length_le_of_subset hsubset
  rwa [List.length_map] at hle

/-- While names wait, every step brings a search forward. -/
theorem ahead_step_lt {s : Search} (h : s.waiting ≠ []) :
    (s.step o.targets).ahead d.links < s.ahead d.links := by
  obtain ⟨visited, waiting⟩ := s
  cases waiting with
  | nil => exact absurd rfl h
  | cons name waiting =>
    by_cases hname : visited.contains name = true
    · -- a name that waited in vain
      rw [Search.step_of_visited hname, Search.ahead_mk, Search.ahead_mk, List.length_cons]
      omega
    · -- the targets that come to wait are no more than the links that are used up
      rw [Bool.not_eq_true] at hname
      have hlinks := Search.countP_visit d.links hname
      have htargets := o.length_targets_le name
      have hnew := List.length_filter_le (fun target => !(name :: visited).contains target)
        (o.targets name)
      rw [Search.step_of_new hname, Search.ahead_mk, Search.ahead_mk, List.length_append,
        List.length_reverse, List.length_cons]
      omega

/-- Everything that a search comes to. -/
def search (s : Search) : List String :=
  if s.waiting = [] then s.visited else search (s.step o.targets)
termination_by s.ahead d.links
decreasing_by exact o.ahead_step_lt (by assumption)

/-- The visible knots that a search from the root of the story does not come to, in document order. -/
def unreachable : List String :=
  match d.root? with
  | none => []
  | some root =>
    let reached := o.search (.start root)
    d.visibleNames.filter fun name => !reached.contains name

end LinkOrder

/-- Everything that can be reached from a name, the name included. -/
def reachableFrom (d : Document) (name : String) : List String := d.linkOrder.search (.start name)

/-- The knots that cannot be reached from the start of the story, in document order. -/
def unreachable (d : Document) : List String := d.linkOrder.unreachable

end Document

end StoryScript
