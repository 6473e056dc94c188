import StoryScript.Media.Scheduler
import Mathlib.Data.List.Induction

/-!
# Deliveries under any interleaving

Whatever requests, cancellations and steps of tasks come in whatever order, a result is delivered once at
most, never after its request has been superseded, and in the end always for the last request of a key
(`Scheduler.run_delivers`).

What holds of every state is `Scheduler.Sound`. Its core is that a task whose generation is not over is the
one in the table (`Sound.live`): so there is one such task for a key at most, cancelling all requests reaches
it through the table, and a task that is not in the table any more has a generation that is over.

* Superseding requests, one or all, and passing over a request to stop change the same three things, so they
  are one lemma (`Sound.supersede`).
* Whether a task is resumed or fails, what it then does is one of three things (`Advances`): nothing, a step
  without a result (`Sound.setTask`) or the step that delivers (`Sound.deliver`). What holds of one event is
  read off these.
* Backwards, a task leads to the event that submitted it, and if its generation is not over, nothing has
  concerned its key since (`exists_submit`).
* Forwards, a request that nothing supersedes stays in the table until it is delivered, and then is the one
  delivered last (`Settled`, `settled_step`).
-/

namespace StoryScript

namespace Scheduler

variable {K Q R : Type}

/-! ### Events -/

/-- Whether an event is a request for a key, or a cancellation of it or of everything. -/
def Event.Concerns (key : K) : Event K Q → Prop
  | .submit k _ _ => k = key
  | .cancel k => k = key
  | .cancelAll => True
  | _ => False

/-- Whether an event supersedes the request for a key: cancelling everything does where there is one. -/
def Supersedes (s : Scheduler K Q R) (key : K) : Event K Q → Prop
  | .submit k _ _ => k = key
  | .cancel k => k = key
  | .cancelAll => (s.current key).isSome = true
  | _ => False

instance [DecidableEq K] (s : Scheduler K Q R) (key : K) :
    ∀ e : Event K Q, Decidable (s.Supersedes key e)
  | .submit k _ _ => inferInstanceAs (Decidable (k = key))
  | .cancel k => inferInstanceAs (Decidable (k = key))
  | .cancelAll => inferInstanceAs (Decidable ((s.current key).isSome = true))
  | .resume _ | .fail _ | .ignoreStop _ => inferInstanceAs (Decidable False)

theorem supersedes_of_concerns {s : Scheduler K Q R} {key : K} {e : Event K Q} {i : Nat}
    (he : e.Concerns key) (hi : s.current key = some i) : s.Supersedes key e := by
  cases e with
  | submit k request waits => exact he
  | cancel k => exact he
  | cancelAll => exact Option.isSome_iff_exists.mpr ⟨i, hi⟩
  | resume number => exact he
  | fail number => exact he
  | ignoreStop number => exact he

/-- How many requests have been submitted. -/
def submissions (events : List (Event K Q)) : Nat :=
  events.countP fun | .submit .. => true | _ => false

theorem run_concat [DecidableEq K] (validate : Q → R) (events : List (Event K Q)) (e : Event K Q) :
    run validate (events ++ [e]) = step validate (run validate events) e := by
  rw [run, List.foldl_append]
  rfl

/-! ### Tables of tasks -/

/-- Tasks that differ in nothing but what was asked of them. -/
def Asked (asks : Nat → SchedulerTask K Q → Bool) (ts us : List (SchedulerTask K Q)) : Prop :=
  ∀ i : Nat, us[i]? = ts[i]?.map fun t => { t with stopRequested := asks i t }

theorem asked_refl (ts : List (SchedulerTask K Q)) : Asked (fun _ t => t.stopRequested) ts ts := by
  intro i
  cases ts[i]? <;> rfl

theorem asked_requestStop (number : Nat) (ts : List (SchedulerTask K Q)) :
    Asked (fun i t => t.stopRequested || decide (number = i ∧ t.status = .pending)) ts
      (requestStop number ts) := by
  intro i
  rw [requestStop, List.getElem?_modify]
  cases ts[i]? with
  | none => rfl
  | some t =>
    obtain ⟨key, request, generation, waits, stop, status⟩ := t
    by_cases hi : number = i <;> cases status <;> simp [hi]

theorem asked_ignoreStop (number : Nat) (s : Scheduler K Q R) :
    Asked (fun i t => t.stopRequested && !decide (number = i ∧ t.status = .pending)) s.tasks
      (s.ignoreStop number).tasks := by
  intro i
  rw [ignoreStop, List.getElem?_modify]
  cases s.tasks[i]? with
  | none => rfl
  | some t =>
    obtain ⟨key, request, generation, waits, stop, status⟩ := t
    by_cases hi : number = i <;> cases status <;> simp [hi]

theorem asked_cancelAll (s : Scheduler K Q R) :
    Asked (fun i t => t.stopRequested || decide (s.current t.key = some i ∧ t.status = .pending))
      s.tasks s.cancelAll.tasks := by
  intro i
  rw [cancelAll, List.getElem?_map, List.getElem?_zipIdx]
  cases s.tasks[i]? with
  | none => rfl
  | some t =>
    obtain ⟨key, request, generation, waits, stop, status⟩ := t
    by_cases hi : s.current key = some i <;> cases status <;> simp [hi]

/-- The same task at a later time. A task that has ended does not run again. -/
def Follows (u u' : SchedulerTask K Q) : Prop :=
  u'.key = u.key ∧ u'.request = u.request ∧ u'.generation = u.generation ∧
    (u'.status = .pending → u.status = .pending)

theorem Asked.follows {asks : Nat → SchedulerTask K Q → Bool} {ts us : List (SchedulerTask K Q)}
    (h : Asked asks ts us) {i : Nat} {u : SchedulerTask K Q} (hu : ts[i]? = some u) :
    ∃ u', us[i]? = some u' ∧ Follows u u' :=
  ⟨{ u with stopRequested := asks i u }, by rw [h i, hu]; rfl, rfl, rfl, rfl, id⟩

theorem Asked.length_eq {asks : Nat → SchedulerTask K Q → Bool} {ts us : List (SchedulerTask K Q)}
    (h : Asked asks ts us) : us.length = ts.length := by
  apply Nat.le_antisymm
  · rw [← List.getElem?_eq_none_iff, h, List.getElem?_eq_none (Nat.le_refl _)]
    rfl
  · rw [← List.getElem?_eq_none_iff, ← Option.map_eq_none_iff, ← h, List.getElem?_eq_none (Nat.le_refl _)]

theorem follows_set {ts : List (SchedulerTask K Q)} {number i : Nat} {u u' v : SchedulerTask K Q}
    (hu : ts[number]? = some u) (h : Follows u u') (hv : ts[i]? = some v) :
    ∃ v', (ts.set number u')[i]? = some v' ∧ Follows v v' := by
  by_cases hi : number = i
  · subst hi
    rw [hu] at hv
    obtain rfl := Option.some.inj hv
    exact ⟨u', List.getElem?_set_self (List.getElem?_eq_some_iff.mp hu).1, h⟩
  · exact ⟨v, by rw [List.getElem?_set_ne hi, hv], rfl, rfl, rfl, id⟩

/-- The task with a number in a table in which one task was replaced. -/
theorem cases_of_getElem?_set {ts : List (SchedulerTask K Q)} {number i : Nat} {u v : SchedulerTask K Q}
    (hlt : number < ts.length) (hv : (ts.set number u)[i]? = some v) :
    i = number ∧ v = u ∨ i ≠ number ∧ ts[i]? = some v := by
  by_cases hi : i = number
  · subst hi
    rw [List.getElem?_set_self hlt] at hv
    exact Or.inl ⟨rfl, (Option.some.inj hv).symm⟩
  · rw [List.getElem?_set_ne (Ne.symm hi)] at hv
    exact Or.inr ⟨hi, hv⟩

/-- The task with a number in a table that one task joined. -/
theorem cases_of_getElem?_concat {ts : List (SchedulerTask K Q)} {i : Nat} {u v : SchedulerTask K Q}
    (hv : (ts ++ [u])[i]? = some v) : ts[i]? = some v ∨ i = ts.length ∧ v = u := by
  rw [List.getElem?_append] at hv
  split at hv
  · exact Or.inl hv
  · next hi =>
    rw [List.getElem?_singleton] at hv
    split at hv
    · exact Or.inr ⟨by omega, (Option.some.inj hv).symm⟩
    · simp at hv

variable [DecidableEq K] {validate : Q → R} {s t : Scheduler K Q R}

theorem asked_cancel (key : K) (s : Scheduler K Q R) :
    Asked (fun i t => t.stopRequested || decide (s.current key = some i ∧ t.status = .pending)) s.tasks
      (s.cancel key).tasks := by
  rw [Scheduler.cancel]
  cases s.current key with
  | none => simpa using asked_refl s.tasks
  | some number => simpa using asked_requestStop number s.tasks

/-! ### What a task does when it is resumed or fails -/

/-- A task whose generation is not over delivers when it ends. -/
theorem finish_of_generation_eq {number : Nat} {u : SchedulerTask K Q}
    (hgen : u.generation = s.generation u.key) :
    s.finish validate number u = { s with
      tasks := s.tasks.set number { u with status := .done }
      latest := setAt s.latest u.key (some (validate u.request))
      current := setAt s.current u.key none
      delivered := s.delivered ++ [⟨number, u.key, validate u.request⟩] } := by
  unfold finish
  exact if_pos hgen.symm

/-- What a task does when it is resumed or fails: nothing once it has ended, else a step without a result, or its
last one, which delivers. Without a result a task ends only with an error, where it is asked to stop or where its
generation is over; else it has one wait less. -/
inductive Advances (validate : Q → R) (s : Scheduler K Q R) (number : Nat) :
    Event K Q → Scheduler K Q R → Prop
  | ended {e : Event K Q} (hended : ∀ u, s.tasks[number]? = some u → u.status ≠ .pending) :
      Advances validate s number e s
  | silent {e : Event K Q} {u u' : SchedulerTask K Q} (hu : s.tasks[number]? = some u)
      (hpending : u.status = .pending) (hfollows : Follows u u')
      (hstop : u'.stopRequested = u.stopRequested)
      (hends : (u'.status = .pending ∨ u'.status = .failed) ∨
        u.stopRequested = true ∨ u.generation ≠ s.generation u.key)
      (hwaits : u'.status = .pending → u'.waits < u.waits) :
      Advances validate s number e (s.setTask number u')
  | delivers {u : SchedulerTask K Q} (hu : s.tasks[number]? = some u) (hpending : u.status = .pending)
      (hgen : u.generation = s.generation u.key) :
      Advances validate s number (.resume number) (s.finish validate number u)

theorem advances_resume (validate : Q → R) (s : Scheduler K Q R) (number : Nat) :
    s.Advances validate number (.resume number) (s.resume validate number) := by
  unfold resume
  split
  · next hnone => exact .ended (by simp [hnone])
  · next u hu =>
    split
    · next hended => exact .ended fun v hv => by rwa [← Option.some.inj (hu.symm.trans hv)]
    · next hpending =>
      rw [not_not] at hpending
      split
      · next hstop =>
        exact .silent hu hpending ⟨rfl, rfl, rfl, fun _ => hpending⟩ rfl (Or.inr (Or.inl hstop)) (by simp)
      · split
        · next waits hwaits =>
          exact .silent hu hpending ⟨rfl, rfl, rfl, fun _ => hpending⟩ rfl (Or.inl (Or.inl hpending))
            fun _ => hwaits ▸ Nat.lt_succ_self waits
        · by_cases hgen : u.generation = s.generation u.key
          · exact .delivers hu hpending hgen
          · -- the result of a request that was superseded is dropped
            rw [show s.finish validate number u = s.setTask number { u with status := .done } from
              if_neg (Ne.symm hgen)]
            exact .silent hu hpending ⟨rfl, rfl, rfl, fun _ => hpending⟩ rfl (Or.inr (Or.inr hgen))
              (by simp)

theorem advances_fail (validate : Q → R) (s : Scheduler K Q R) (number : Nat) :
    s.Advances validate number (.fail number) (s.fail number) := by
  unfold fail
  split
  · next hnone => exact .ended (by simp [hnone])
  · next u hu =>
    split
    · next hended => exact .ended fun v hv => by rwa [← Option.some.inj (hu.symm.trans hv)]
    · next hpending =>
      rw [not_not] at hpending
      refine .silent hu hpending ⟨rfl, rfl, rfl, fun _ => hpending⟩ rfl ?_ ?_
      · cases hstop : u.stopRequested with
        | false => exact Or.inl (Or.inr rfl)
        | true => exact Or.inr (Or.inl rfl)
      · cases u.stopRequested <;> simp

namespace Advances

theorem follows {number i : Nat} {e : Event K Q} {u : SchedulerTask K Q}
    (h : s.Advances validate number e t) (hu : s.tasks[i]? = some u) :
    ∃ u', t.tasks[i]? = some u' ∧ Follows u u' := by
  cases h with
  | ended => exact ⟨u, hu, rfl, rfl, rfl, id⟩
  | silent hv _ hfollows => exact follows_set hv hfollows hu
  | delivers hv hpending hgen =>
    rw [finish_of_generation_eq hgen]
    exact follows_set hv ⟨rfl, rfl, rfl, fun _ => hpending⟩ hu

theorem generation_eq {number : Nat} {e : Event K Q} (h : s.Advances validate number e t) :
    t.generation = s.generation := by
  cases h with
  | ended => rfl
  | silent => rfl
  | delivers _ _ hgen => rw [finish_of_generation_eq hgen]

theorem length_eq {number : Nat} {e : Event K Q} (h : s.Advances validate number e t) :
    t.tasks.length = s.tasks.length := by
  cases h with
  | ended => rfl
  | silent => exact List.length_set
  | delivers _ _ hgen =>
    rw [finish_of_generation_eq hgen]
    exact List.length_set

/-- A task delivers with its last step, if its generation is not over; else the table stays as it is. -/
theorem delivered_eq {number : Nat} {e : Event K Q} (h : s.Advances validate number e t) :
    t.delivered = s.delivered ∧ t.current = s.current ∨
    ∃ u, e = .resume number ∧ s.tasks[number]? = some u ∧ u.status = .pending ∧
      u.generation = s.generation u.key ∧
      t.delivered = s.delivered ++ [⟨number, u.key, validate u.request⟩] ∧
      t.current = setAt s.current u.key none := by
  cases h with
  | ended => exact Or.inl ⟨rfl, rfl⟩
  | silent => exact Or.inl ⟨rfl, rfl⟩
  | @delivers u hu hpending hgen =>
    refine Or.inr ⟨u, rfl, hu, hpending, hgen, ?_⟩
    rw [finish_of_generation_eq hgen]
    exact ⟨rfl, rfl⟩

end Advances

/-! ### The invariant -/

/-- What holds of every state, whatever has happened. -/
structure Sound (s : Scheduler K Q R) : Prop where
  /-- A key in the table has a task of its current generation, which has not been asked to stop and has not
  delivered: it runs, or it has failed. -/
  current : ∀ key i, s.current key = some i → ∃ t, s.tasks[i]? = some t ∧ t.key = key ∧
    t.generation = s.generation key ∧ t.stopRequested = false ∧
    (t.status = .pending ∨ t.status = .failed)
  older : ∀ (i : Nat) t, s.tasks[i]? = some t → t.generation ≤ s.generation t.key
  /-- A task that runs and whose generation is not over is in the table. -/
  live : ∀ (i : Nat) t, s.tasks[i]? = some t → t.status = .pending →
    t.generation = s.generation t.key → s.current t.key = some i
  done : ∀ x ∈ s.delivered, ∃ t, s.tasks[x.task]? = some t ∧ t.status = .done
  once : (s.delivered.map Delivery.task).Nodup
  latest : ∀ key, s.latest key =
    ((s.delivered.filter (·.key = key)).getLast?).map Delivery.result

theorem sound_start : Sound ({} : Scheduler K Q R) := by
  constructor <;> simp

namespace Sound

/-- Superseding what runs for some keys. Only tasks of these keys are asked to stop. -/
theorem supersede (h : s.Sound) (affects : K → Prop) [DecidablePred affects]
    {asks : Nat → SchedulerTask K Q → Bool} (htasks : Asked asks s.tasks t.tasks)
    (hasks : ∀ i u, s.tasks[i]? = some u → ¬ affects u.key → asks i u = true → u.stopRequested = true)
    (hgeneration : ∀ k, t.generation k = if affects k then s.generation k + 1 else s.generation k)
    (hcurrent : ∀ k, t.current k = if affects k then none else s.current k)
    (hlatest : t.latest = s.latest) (hdelivered : t.delivered = s.delivered) : t.Sound := by
  have hsome : ∀ (i : Nat) u, t.tasks[i]? = some u → ∃ u', s.tasks[i]? = some u' ∧
      u = { u' with stopRequested := asks i u' } := by
    intro i u hu
    rw [htasks i, Option.map_eq_some_iff] at hu
    obtain ⟨u', hu', rfl⟩ := hu
    exact ⟨u', hu', rfl⟩
  constructor
  case current =>
    intro key i hi
    rw [hcurrent] at hi
    split at hi
    · simp at hi
    · next hover =>
      obtain ⟨u, hu, rfl, hgen, hstop, hstatus⟩ := h.current key i hi
      refine ⟨{ u with stopRequested := asks i u }, ?_, rfl, ?_, ?_, hstatus⟩
      · rw [htasks i, hu]
        rfl
      · rw [hgeneration, if_neg hover]
        exact hgen
      · rw [Bool.eq_false_iff]
        exact fun hask => absurd (hasks i u hu hover hask) (by simp [hstop])
  case older =>
    intro i u hu
    obtain ⟨u', hu', rfl⟩ := hsome i u hu
    have hle := h.older i u' hu'
    rw [hgeneration]
    split
    · exact Nat.le_succ_of_le hle
    · exact hle
  case live =>
    intro i u hu hpending hgen
    obtain ⟨u', hu', rfl⟩ := hsome i u hu
    have hle := h.older i u' hu'
    rw [hgeneration] at hgen
    rw [hcurrent]
    split
    · next hover =>
      -- the generation of every task of the key is over
      rw [if_pos hover] at hgen
      exact absurd hgen (Nat.ne_of_lt (Nat.lt_succ_of_le hle))
    · next hover =>
      rw [if_neg hover] at hgen
      exact h.live i u' hu' hpending hgen
  case done =>
    intro x hx
    rw [hdelivered] at hx
    obtain ⟨u, hu, hstatus⟩ := h.done x hx
    exact ⟨{ u with stopRequested := asks x.task u }, by rw [htasks, hu]; rfl, hstatus⟩
  case once =>
    rw [hdelivered]
    exact h.once
  case latest =>
    rw [hdelivered, hlatest]
    exact h.latest

theorem cancel (h : s.Sound) (key : K) : (s.cancel key).Sound := by
  have hgeneration : ∀ k, (s.cancel key).generation k =
      if k = key then s.generation k + 1 else s.generation k := by
    intro k
    change setAt s.generation key (s.generation key + 1) k = _
    unfold setAt
    split
    · next hk => rw [hk]
    · rfl
  refine h.supersede (· = key) (asked_cancel key s) (fun i u hu hover hask => ?_) hgeneration (fun k => rfl)
    rfl rfl
  -- the task in the table is one of the key
  rw [Bool.or_eq_true, decide_eq_true_eq] at hask
  refine hask.resolve_right fun ⟨hi, _⟩ => hover ?_
  obtain ⟨u', hu', hkey, -⟩ := h.current key i hi
  rw [hu] at hu'
  rw [Option.some.inj hu', hkey]

theorem cancelAll (h : s.Sound) : s.cancelAll.Sound := by
  refine h.supersede (fun k => (s.current k).isSome = true) (asked_cancelAll s)
    (fun i u _ hover hask => ?_) (fun _ => rfl) (fun k => ?_) rfl rfl
  · rw [Bool.or_eq_true, decide_eq_true_eq] at hask
    exact hask.resolve_right fun ⟨hi, _⟩ => hover (by rw [hi]; rfl)
  · change none = _
    split
    · rfl
    · next hnone => exact (Option.not_isSome_iff_eq_none.mp hnone).symm

theorem ignoreStop (h : s.Sound) (number : Nat) : (s.ignoreStop number).Sound := by
  refine h.supersede (fun _ => False) (asked_ignoreStop number s)
    (fun i u _ _ hask => ?_) (fun _ => rfl) (fun _ => rfl) rfl rfl
  rw [Bool.and_eq_true] at hask
  exact hask.1

/-- A task joins. No other task of the key runs in its current generation. -/
theorem submit (h : s.Sound) (key : K) (request : Q) (waits : Nat) :
    (s.submit key request waits).Sound := by
  have hc := h.cancel key
  have hnone : (s.cancel key).current key = none := by
    change setAt s.current key none key = none
    exact if_pos rfl
  generalize hs : s.cancel key = s' at hc hnone
  have hnew : s.submit key request waits = { s' with
      tasks := s'.tasks ++ [{ key, request, generation := s'.generation key, waits }]
      current := setAt s'.current key (some s'.tasks.length) } := by
    rw [Scheduler.submit, hs]
  have hold : ∀ {i u}, s'.tasks[i]? = some u →
      (s'.tasks ++ [{ key, request, generation := s'.generation key, waits }])[i]? = some u :=
    fun hu => by rw [List.getElem?_append_left (List.getElem?_eq_some_iff.mp hu).1, hu]
  rw [hnew]
  constructor
  case current =>
    intro k i hi
    change setAt s'.current key (some s'.tasks.length) k = some i at hi
    unfold setAt at hi
    split at hi
    · next hk =>
      obtain rfl := Option.some.inj hi
      exact ⟨_, List.getElem?_concat_length, hk.symm, by rw [hk], rfl, Or.inl rfl⟩
    · obtain ⟨u, hu, hrest⟩ := hc.current k i hi
      exact ⟨u, hold hu, hrest⟩
  case older =>
    intro i u hu
    rcases cases_of_getElem?_concat hu with hu | ⟨-, rfl⟩
    · exact hc.older i u hu
    · exact Nat.le_refl _
  case live =>
    intro i u hu hpending hgen
    change setAt s'.current key (some s'.tasks.length) u.key = some i
    unfold setAt
    rcases cases_of_getElem?_concat hu with hu | ⟨hi, rfl⟩
    · have hlive := hc.live i u hu hpending hgen
      split
      · next hk =>
        -- an older task of the key would still be in the table
        rw [hk, hnone] at hlive
        simp at hlive
      · exact hlive
    · rw [if_pos rfl, hi]
  case done =>
    intro x hx
    obtain ⟨u, hu, hdone⟩ := hc.done x hx
    exact ⟨u, hold hu, hdone⟩
  case once => exact hc.once
  case latest => exact hc.latest

/-- A task that runs has not delivered. -/
theorem not_delivered (h : s.Sound) {number : Nat} {u : SchedulerTask K Q}
    (hu : s.tasks[number]? = some u) (hpending : u.status = .pending) :
    ∀ x ∈ s.delivered, x.task ≠ number := by
  intro x hx heq
  obtain ⟨v, hv, hdone⟩ := h.done x hx
  rw [heq, hu] at hv
  rw [← Option.some.inj hv, hpending] at hdone
  simp at hdone

/-- A step of a task that delivers nothing. It may only end a task of the table with an error. -/
theorem setTask (h : s.Sound) {number : Nat} {u u' : SchedulerTask K Q}
    (hu : s.tasks[number]? = some u) (hpending : u.status = .pending) (hkey : u'.key = u.key)
    (hgen : u'.generation = u.generation) (hstop : u'.stopRequested = u.stopRequested)
    (hcurrent : s.current u.key = some number → u'.status = .pending ∨ u'.status = .failed) :
    (s.setTask number u').Sound := by
  have hlt : number < s.tasks.length := (List.getElem?_eq_some_iff.mp hu).1
  have hother : ∀ {i v}, i ≠ number → s.tasks[i]? = some v → (s.tasks.set number u')[i]? = some v :=
    fun hi hv => by rw [List.getElem?_set_ne (Ne.symm hi), hv]
  constructor
  case current =>
    intro k i hi
    obtain ⟨v, hv, hvkey, hvgen, hvstop, hvstatus⟩ := h.current k i hi
    by_cases hin : i = number
    · subst hin
      rw [hu] at hv
      obtain rfl := Option.some.inj hv
      exact ⟨u', List.getElem?_set_self hlt, hkey.trans hvkey, hgen.trans hvgen, hstop.trans hvstop,
        hcurrent (hvkey ▸ hi)⟩
    · exact ⟨v, hother hin hv, hvkey, hvgen, hvstop, hvstatus⟩
  case older =>
    intro i v hv
    rcases cases_of_getElem?_set hlt hv with ⟨-, rfl⟩ | ⟨-, hv⟩
    · rw [hkey, hgen]
      exact h.older number u hu
    · exact h.older i v hv
  case live =>
    intro i v hv hv' hvgen
    rcases cases_of_getElem?_set hlt hv with ⟨rfl, rfl⟩ | ⟨-, hv⟩
    · rw [hkey, hgen] at hvgen
      rw [hkey]
      exact h.live i u hu hpending hvgen
    · exact h.live i v hv hv' hvgen
  case done =>
    intro x hx
    obtain ⟨v, hv, hdone⟩ := h.done x hx
    exact ⟨v, hother (h.not_delivered hu hpending x hx) hv, hdone⟩
  case once => exact h.once
  case latest => exact h.latest

/-- The step that delivers. -/
theorem deliver (h : s.Sound) {number : Nat} {u : SchedulerTask K Q} (hu : s.tasks[number]? = some u)
    (hpending : u.status = .pending) (hgen : u.generation = s.generation u.key) :
    (s.finish validate number u).Sound := by
  have hlt : number < s.tasks.length := (List.getElem?_eq_some_iff.mp hu).1
  have hlive := h.live number u hu hpending hgen
  -- what is delivered is no task that has delivered
  have hfresh := h.not_delivered hu hpending
  rw [finish_of_generation_eq hgen]
  constructor
  case current =>
    intro k i hi
    change setAt s.current u.key none k = some i at hi
    unfold setAt at hi
    split at hi
    · simp at hi
    · next hk =>
      obtain ⟨v, hv, hvkey, hrest⟩ := h.current k i hi
      refine ⟨v, ?_, hvkey, hrest⟩
      rw [List.getElem?_set_ne, hv]
      rintro rfl
      rw [hu] at hv
      exact hk (by rw [Option.some.inj hv, hvkey])
  case older =>
    intro i v hv
    rcases cases_of_getElem?_set hlt hv with ⟨-, rfl⟩ | ⟨-, hv⟩
    · exact h.older number u hu
    · exact h.older i v hv
  case live =>
    intro i v hv hv' hvgen
    rcases cases_of_getElem?_set hlt hv with ⟨-, rfl⟩ | ⟨hi, hv⟩
    · simp at hv'
    · have hvlive := h.live i v hv hv' hvgen
      change setAt s.current u.key none v.key = some i
      unfold setAt
      split
      · next hk =>
        -- two tasks that run have one key, and the table holds one of them
        rw [hk, hlive] at hvlive
        exact absurd (Option.some.inj hvlive).symm hi
      · exact hvlive
  case done =>
    intro x hx
    rcases List.mem_append.mp hx with hx | hx
    · obtain ⟨v, hv, hdone⟩ := h.done x hx
      exact ⟨v, by rw [List.getElem?_set_ne (Ne.symm (hfresh x hx)), hv], hdone⟩
    · obtain rfl := List.mem_singleton.mp hx
      exact ⟨_, List.getElem?_set_self hlt, rfl⟩
  case once =>
    change ((s.delivered ++ [_]).map Delivery.task).Nodup
    rw [List.map_append, List.map_singleton, List.perm_append_comm.nodup_iff, List.singleton_append,
      List.nodup_cons]
    refine ⟨fun hmem => ?_, h.once⟩
    obtain ⟨x, hx, heq⟩ := List.mem_map.mp hmem
    exact hfresh x hx heq
  case latest =>
    intro k
    change setAt s.latest u.key (some (validate u.request)) k =
      (((s.delivered ++ [_]).filter _).getLast?).map Delivery.result
    unfold setAt
    rw [List.filter_append]
    split
    · next hk => simp [hk]
    · next hk => simpa [Ne.symm hk] using h.latest k

theorem advance (h : s.Sound) {number : Nat} {e : Event K Q} (ht : s.Advances validate number e t) :
    t.Sound := by
  cases ht with
  | ended => exact h
  | silent hu hpending hfollows hstop hends =>
    obtain ⟨hkey, -, hgen, -⟩ := hfollows
    refine h.setTask hu hpending hkey hgen hstop fun hc => hends.resolve_right ?_
    -- a task of the table is neither asked to stop nor of a generation that is over
    obtain ⟨v, hv, hvkey, hvgen, hvstop, -⟩ := h.current _ _ hc
    rw [hu] at hv
    obtain rfl := Option.some.inj hv
    rintro (hstop' | hover)
    · simp [hvstop] at hstop'
    · exact hover hvgen
  | delivers hu hpending hgen => exact h.deliver hu hpending hgen

theorem step (h : s.Sound) (e : Event K Q) : (s.step validate e).Sound := by
  cases e with
  | submit key request waits => exact h.submit key request waits
  | cancel key => exact h.cancel key
  | cancelAll => exact h.cancelAll
  | resume number => exact h.advance (advances_resume validate s number)
  | fail number => exact h.advance (advances_fail validate s number)
  | ignoreStop number => exact h.ignoreStop number

end Sound

theorem sound_run (validate : Q → R) (events : List (Event K Q)) : (run validate events).Sound := by
  induction events using List.reverseRecOn with
  | nil => exact sound_start
  | append_singleton events e ih =>
    rw [run_concat]
    exact ih.step e

/-! ### One step -/

/-- Every task stays the one it is. -/
theorem follows_step (validate : Q → R) (e : Event K Q) {i : Nat} {u : SchedulerTask K Q}
    (hu : s.tasks[i]? = some u) :
    ∃ u', (s.step validate e).tasks[i]? = some u' ∧ Follows u u' := by
  cases e with
  | submit key request waits =>
    obtain ⟨u', hu', h⟩ := (asked_cancel key s).follows hu
    refine ⟨u', ?_, h⟩
    change ((s.cancel key).tasks ++ [_])[i]? = some u'
    rw [List.getElem?_append_left (List.getElem?_eq_some_iff.mp hu').1, hu']
  | cancel key => exact (asked_cancel key s).follows hu
  | cancelAll => exact (asked_cancelAll s).follows hu
  | ignoreStop number => exact (asked_ignoreStop number s).follows hu
  | resume number => exact (advances_resume validate s number).follows hu
  | fail number => exact (advances_fail validate s number).follows hu

theorem generation_step (e : Event K Q) (key : K) : (s.step validate e).generation key =
    if s.Supersedes key e then s.generation key + 1 else s.generation key := by
  have hset : ∀ k, setAt s.generation k (s.generation k + 1) key =
      if k = key then s.generation key + 1 else s.generation key := by
    intro k
    by_cases hk : k = key
    · simp [setAt, hk]
    · simp [setAt, hk, Ne.symm hk]
  cases e with
  | submit k request waits => exact hset k
  | cancel k => exact hset k
  | cancelAll => rfl
  | ignoreStop number => rfl
  | resume number => exact congrFun (advances_resume validate s number).generation_eq key
  | fail number => exact congrFun (advances_fail validate s number).generation_eq key

/-- A step delivers nothing, and leaves the table as it is where it supersedes nothing; or it is the last one
of a task that runs and whose generation is not over. -/
theorem delivered_step (validate : Q → R) (s : Scheduler K Q R) (e : Event K Q) :
    ((s.step validate e).delivered = s.delivered ∧
      ∀ key, ¬ s.Supersedes key e → (s.step validate e).current key = s.current key) ∨
    ∃ i u, e = .resume i ∧ s.tasks[i]? = some u ∧ u.status = .pending ∧
      u.generation = s.generation u.key ∧
      (s.step validate e).delivered = s.delivered ++ [⟨i, u.key, validate u.request⟩] ∧
      (s.step validate e).current = setAt s.current u.key none := by
  cases e with
  | submit k request waits =>
    refine Or.inl ⟨rfl, fun key hkey => ?_⟩
    change setAt (setAt s.current k none) k _ key = s.current key
    simp [setAt, Ne.symm hkey]
  | cancel k =>
    refine Or.inl ⟨rfl, fun key hkey => ?_⟩
    change setAt s.current k none key = s.current key
    simp [setAt, Ne.symm hkey]
  | cancelAll =>
    exact Or.inl ⟨rfl, fun key hkey => (Option.not_isSome_iff_eq_none.mp hkey).symm⟩
  | ignoreStop number => exact Or.inl ⟨rfl, fun _ _ => rfl⟩
  | resume number =>
    obtain ⟨hdelivered, hcurrent⟩ | ⟨u, hdelivers⟩ := (advances_resume validate s number).delivered_eq
    · exact Or.inl ⟨hdelivered, fun key _ => congrFun hcurrent key⟩
    · exact Or.inr ⟨number, u, hdelivers⟩
  | fail number =>
    obtain ⟨hdelivered, hcurrent⟩ | ⟨u, hdelivers⟩ := (advances_fail validate s number).delivered_eq
    · exact Or.inl ⟨hdelivered, fun key _ => congrFun hcurrent key⟩
    · exact Or.inr ⟨number, u, hdelivers⟩

theorem length_tasks_step (e : Event K Q) :
    (s.step validate e).tasks.length = s.tasks.length + submissions [e] := by
  cases e with
  | submit key request waits =>
    change ((s.cancel key).tasks ++ [_]).length = s.tasks.length + 1
    rw [List.length_append, (asked_cancel key s).length_eq]
    rfl
  | cancel key => exact (asked_cancel key s).length_eq
  | cancelAll => exact (asked_cancelAll s).length_eq
  | ignoreStop number => exact (asked_ignoreStop number s).length_eq
  | resume number => exact (advances_resume validate s number).length_eq
  | fail number => exact (advances_fail validate s number).length_eq

theorem length_tasks_run (validate : Q → R) (events : List (Event K Q)) :
    (run validate events).tasks.length = submissions events := by
  induction events using List.reverseRecOn with
  | nil => rfl
  | append_singleton events e ih =>
    rw [run_concat, length_tasks_step, ih, submissions, submissions, submissions, List.countP_append]

/-- A task comes from a request. While it runs and its generation is not over, nothing has concerned its key
since. -/
theorem exists_submit (validate : Q → R) (events : List (Event K Q)) {i : Nat} {u : SchedulerTask K Q}
    (hu : (run validate events).tasks[i]? = some u) :
    ∃ before waits after, events = before ++ .submit u.key u.request waits :: after ∧
      i = submissions before ∧
      (u.status = .pending → u.generation = (run validate events).generation u.key →
        ∀ e ∈ after, ¬ e.Concerns u.key) := by
  -- the last event is taken off: a task was there before it, or the event is the request that it comes from
  induction events using List.reverseRecOn generalizing u with
  | nil => simp [run] at hu
  | append_singleton events e ih =>
    rw [run_concat] at hu ⊢
    have hsound := sound_run validate events
    by_cases hi : i < (run validate events).tasks.length
    · have hv : (run validate events).tasks[i]? = some _ := List.getElem?_eq_getElem hi
      generalize (run validate events).tasks[i] = v at hv
      obtain ⟨u', hu', hkey, hrequest, hgen, hpending⟩ := follows_step validate e hv
      rw [hu] at hu'
      obtain rfl := Option.some.inj hu'
      obtain ⟨before, waits, after, hevents, hnumber, hconcerns⟩ := ih hv
      refine ⟨before, waits, after ++ [e], by rw [hevents, hkey, hrequest]; simp, hnumber, ?_⟩
      intro hrun hcurrent
      have hle := hsound.older i v hv
      rw [generation_step, hkey, hgen] at hcurrent
      -- an event that supersedes begins a generation which no task can be of yet
      split at hcurrent
      · omega
      · next hnot =>
        have hlive := hsound.live i v hv (hpending hrun) hcurrent
        intro e' he'
        rw [hkey]
        rcases List.mem_append.mp he' with he' | he'
        · exact hconcerns (hpending hrun) hcurrent e' he'
        · rw [List.mem_singleton.mp he']
          exact fun hconcern => hnot (supersedes_of_concerns hconcern hlive)
    · have hlt := (List.getElem?_eq_some_iff.mp hu).1
      rw [length_tasks_step] at hlt
      cases e with
      | submit key request waits =>
        obtain rfl : i = (run validate events).tasks.length := by
          rw [show submissions [Event.submit key request waits] = 1 from rfl] at hlt
          omega
        change ((Scheduler.cancel key _).tasks ++ [_])[_]? = some u at hu
        rw [← (asked_cancel key _).length_eq, List.getElem?_concat_length] at hu
        obtain rfl := Option.some.inj hu
        exact ⟨events, waits, [], rfl, length_tasks_run validate events, by simp⟩
      | cancel key => exact absurd hlt hi
      | cancelAll => exact absurd hlt hi
      | ignoreStop number => exact absurd hlt hi
      | resume number => exact absurd hlt hi
      | fail number => exact absurd hlt hi

/-- A delivery is the last step of the task of a request, and nothing has superseded the request in
between. -/
def Timely (validate : Q → R) (events : List (Event K Q)) (x : Delivery K R) : Prop :=
  ∃ before request waits between after,
    events = before ++ .submit x.key request waits :: (between ++ .resume x.task :: after) ∧
    x.task = submissions before ∧ x.result = validate request ∧ (∀ e ∈ between, ¬ e.Concerns x.key) ∧
    (run validate (before ++ .submit x.key request waits :: (between ++ [.resume x.task]))).delivered =
      (run validate (before ++ .submit x.key request waits :: between)).delivered ++ [x]

theorem timely_run (validate : Q → R) (events : List (Event K Q)) :
    ∀ x ∈ (run validate events).delivered, Timely validate events x := by
  induction events using List.reverseRecOn with
  | nil => simp [run]
  | append_singleton events e ih =>
    -- events that come later change nothing about what was delivered in time
    have hold : ∀ x ∈ (run validate events).delivered, Timely validate (events ++ [e]) x := by
      intro x hx
      obtain ⟨before, request, waits, between, after, hevents, hrest⟩ := ih x hx
      exact ⟨before, request, waits, between, after ++ [e], by rw [hevents]; simp, hrest⟩
    intro x hx
    rw [run_concat] at hx
    obtain ⟨heq, -⟩ | ⟨i, u, he, hu, hpending, hgen, heq, -⟩ :=
      delivered_step validate (run validate events) e
    · exact hold x (heq ▸ hx)
    · rw [heq] at hx
      rcases List.mem_append.mp hx with hx | hx
      · exact hold x hx
      · obtain rfl := List.mem_singleton.mp hx
        obtain ⟨before, waits, between, hevents, hnumber, hconcerns⟩ := exists_submit validate events hu
        refine ⟨before, u.request, waits, between, [], by rw [hevents, he]; simp, hnumber, rfl,
          hconcerns hpending hgen, ?_⟩
        have hconcat : before ++ .submit u.key u.request waits :: (between ++ [.resume i]) =
            events ++ [e] := by rw [hevents, he]; simp
        rw [hconcat, run_concat, heq, hevents]

/-! ### A request that nothing supersedes -/

/-- A request that has not been superseded: its task is in the table and nothing has been delivered for its
key since, or its result is what has been. -/
def Settled (validate : Q → R) (number : Nat) (key : K) (request : Q) (past : List (Delivery K R))
    (s : Scheduler K Q R) : Prop :=
  (∃ u, s.tasks[number]? = some u ∧ u.key = key ∧ u.request = request) ∧
    (s.current key = some number ∧ s.delivered.filter (·.key = key) = past ∨
      s.current key = none ∧
        s.delivered.filter (·.key = key) = past ++ [⟨number, key, validate request⟩])

theorem settled_submit (validate : Q → R) (key : K) (request : Q) (waits : Nat)
    (s : Scheduler K Q R) :
    Settled validate s.tasks.length key request (s.delivered.filter (·.key = key))
      (s.submit key request waits) := by
  rw [← (asked_cancel key s).length_eq]
  refine ⟨⟨_, List.getElem?_concat_length, rfl, rfl⟩, Or.inl ⟨?_, rfl⟩⟩
  change setAt _ key (some _) key = some _
  exact if_pos rfl

theorem settled_step {number : Nat} {key : K} {request : Q} {past : List (Delivery K R)}
    (hsound : s.Sound) (h : Settled validate number key request past s) {e : Event K Q}
    (he : ¬ s.Supersedes key e) : Settled validate number key request past (s.step validate e) := by
  obtain ⟨⟨u, hu, hkey, hrequest⟩, hstate⟩ := h
  obtain ⟨u', hu', hkey', hrequest', -, -⟩ := follows_step validate e hu
  refine ⟨⟨u', hu', hkey'.trans hkey, hrequest'.trans hrequest⟩, ?_⟩
  obtain ⟨hdelivered, hcurrent⟩ | ⟨i, v, -, hv, hpending, hgen, hdelivered, hcurrent⟩ :=
    delivered_step validate s e
  · rw [hdelivered, hcurrent key he]
    exact hstate
  · have hlive := hsound.live i v hv hpending hgen
    rw [hdelivered, hcurrent, List.filter_append]
    by_cases hk : v.key = key
    · -- the task that delivers for the key is the one in the table
      rw [hk] at hlive
      rcases hstate with ⟨htable, hpast⟩ | ⟨hnone, -⟩
      · rw [hlive] at htable
        obtain rfl := Option.some.inj htable
        rw [hu] at hv
        obtain rfl := Option.some.inj hv
        right
        rw [hpast, ← hrequest, ← hkey]
        simp [setAt]
      · rw [hlive] at hnone
        simp at hnone
    · have hset : setAt s.current v.key none key = s.current key := if_neg (Ne.symm hk)
      rw [hset]
      simpa [hk] using hstate

theorem settled_run (validate : Q → R) (before : List (Event K Q)) (key : K) (request : Q)
    (waits : Nat) (after : List (Event K Q))
    (h : ∀ n (hn : n < after.length),
      ¬ (run validate (before ++ .submit key request waits :: after.take n)).Supersedes key after[n]) :
    Settled validate (submissions before) key request
      ((run validate before).delivered.filter (·.key = key))
      (run validate (before ++ .submit key request waits :: after)) := by
  induction after using List.reverseRecOn with
  | nil =>
    rw [run_concat, ← length_tasks_run validate]
    exact settled_submit validate key request waits _
  | append_singleton after e ih =>
    have hconcat : before ++ Event.submit key request waits :: (after ++ [e]) =
        (before ++ .submit key request waits :: after) ++ [e] := by simp
    rw [hconcat, run_concat]
    refine settled_step (sound_run validate _) (ih fun n hn => ?_) ?_
    · have hn' : n < (after ++ [e]).length := by
        rw [List.length_append]
        exact Nat.lt_add_right _ hn
      have hlater := h n hn'
      rwa [List.take_append_of_le_length (Nat.le_of_lt hn), List.getElem_append_left hn] at hlater
    · have hlater := h after.length (by simp)
      rwa [List.take_left, List.getElem_concat_length rfl] at hlater

/-! ### The end of a run -/

theorem ended_step {i : Nat} (hi : i < s.tasks.length)
    (h : ∀ u, s.tasks[i]? = some u → u.status ≠ .pending) (e : Event K Q) :
    ∀ u, (s.step validate e).tasks[i]? = some u → u.status ≠ .pending := by
  intro u hu hpending
  have hv : s.tasks[i]? = some s.tasks[i] := List.getElem?_eq_getElem hi
  obtain ⟨u', hu', -, -, -, hback⟩ := follows_step validate e hv
  rw [hu] at hu'
  obtain rfl := Option.some.inj hu'
  exact h _ hv (hback hpending)

theorem ended_resumes (validate : Q → R) (events : List (Event K Q)) {i : Nat}
    (hi : i < submissions events)
    (h : ∀ u, (run validate events).tasks[i]? = some u → u.status ≠ .pending) (resumes : List Nat) :
    ∀ u, (run validate (events ++ resumes.map .resume)).tasks[i]? = some u → u.status ≠ .pending := by
  induction resumes using List.reverseRecOn with
  | nil => simpa using h
  | append_singleton resumes number ih =>
    rw [List.map_append, List.map_singleton, ← List.append_assoc, run_concat]
    refine ended_step ?_ ih (.resume number)
    rw [length_tasks_run, submissions, List.countP_append]
    exact Nat.lt_add_right _ hi

/-- Resuming a task once more than it waits ends it. -/
theorem ended_replicate (validate : Q → R) (i n : Nat) (events : List (Event K Q))
    (h : ∀ u, (run validate events).tasks[i]? = some u → u.status = .pending → u.waits < n) :
    ∀ u, (run validate (events ++ (List.replicate n i).map .resume)).tasks[i]? = some u →
      u.status ≠ .pending := by
  induction n generalizing events with
  | zero =>
    intro u hu hpending
    rw [List.replicate_zero, List.map_nil, List.append_nil] at hu
    exact absurd (h u hu hpending) (Nat.not_lt_zero _)
  | succ n ih =>
    have hconcat : events ++ (List.replicate (n + 1) i).map .resume =
        (events ++ [.resume i]) ++ (List.replicate n i).map .resume := by
      simp [List.replicate_succ]
    rw [hconcat]
    refine ih _ fun u hu hpending => ?_
    rw [run_concat, step] at hu
    generalize run validate events = s at h hu
    have hstep := advances_resume validate s i
    -- each time the task ends or is left with one wait less
    generalize s.resume validate i = t at hstep hu
    cases hstep with
    | ended hended => exact absurd hpending (hended u hu)
    | silent hv hv' _ _ _ hwaits =>
      rw [setTask, List.getElem?_set_self (List.getElem?_eq_some_iff.mp hv).1] at hu
      obtain rfl := Option.some.inj hu
      have := h _ hv hv'
      have := hwaits hpending
      omega
    | delivers hv _ hgen =>
      rw [finish_of_generation_eq hgen, List.getElem?_set_self (List.getElem?_eq_some_iff.mp hv).1] at hu
      obtain rfl := Option.some.inj hu
      simp at hpending

theorem exists_resumes_ended (validate : Q → R) (events : List (Event K Q)) :
    ∃ resumes : List Nat,
      ∀ u ∈ (run validate (events ++ resumes.map .resume)).tasks, u.status ≠ .pending := by
  -- one task after the other
  have hprefix : ∀ n ≤ submissions events, ∃ resumes : List Nat, ∀ i < n, ∀ u,
      (run validate (events ++ resumes.map .resume)).tasks[i]? = some u → u.status ≠ .pending := by
    intro n
    induction n with
    | zero => exact fun _ => ⟨[], fun i hi => absurd hi (Nat.not_lt_zero i)⟩
    | succ n ih =>
      intro hn
      obtain ⟨resumes, hresumes⟩ := ih (Nat.le_of_succ_le hn)
      have hall : ∀ more : List Nat, events ++ (resumes ++ more).map .resume =
          (events ++ resumes.map .resume) ++ more.map .resume := by simp
      have hle : submissions events ≤ submissions (events ++ resumes.map .resume) := by
        rw [submissions, submissions, List.countP_append]
        exact Nat.le_add_right _ _
      obtain ⟨waits, hwaits⟩ : ∃ waits, ∀ u,
          (run validate (events ++ resumes.map .resume)).tasks[n]? = some u → u.waits < waits := by
        cases (run validate (events ++ resumes.map .resume)).tasks[n]? with
        | none => exact ⟨0, by simp⟩
        | some u => exact ⟨u.waits + 1, by simp⟩
      refine ⟨resumes ++ List.replicate waits n, fun i hi => ?_⟩
      rw [hall]
      rcases Nat.lt_succ_iff_lt_or_eq.mp hi with hi | rfl
      · exact ended_resumes validate _ (by omega) (hresumes i hi) _
      · exact ended_replicate validate i waits _ fun u hu _ => hwaits u hu
  obtain ⟨resumes, hresumes⟩ := hprefix _ (Nat.le_refl _)
  refine ⟨resumes, fun u hu => ?_⟩
  obtain ⟨i, hi, rfl⟩ := List.getElem_of_mem hu
  refine hresumes i ?_ _ (List.getElem?_eq_getElem hi)
  rw [length_tasks_run, submissions, List.countP_append] at hi
  have hnone : (resumes.map Event.resume).countP
      (fun | (Event.submit .. : Event K Q) => true | _ => false) = 0 := by
    rw [List.countP_map, List.countP_eq_zero]
    exact fun _ _ h => absurd h Bool.false_ne_true
  rw [hnone] at hi
  exact hi

/-- For every sequence of events. The request that is the last for its key is the one whose result is
delivered last, once its task has ended, unless with an error. -/
theorem run_delivers (validate : Q → R) (events : List (Event K Q)) :
    ((run validate events).delivered.map Delivery.task).Nodup ∧
    (∀ x ∈ (run validate events).delivered, Timely validate events x) ∧
    (∀ key, (run validate events).latest key =
      (((run validate events).delivered.filter (·.key = key)).getLast?).map Delivery.result) ∧
    (∀ key i, (run validate events).current key = some i →
      (∃ u, (run validate events).tasks[i]? = some u ∧ u.key = key ∧
        u.generation = (run validate events).generation key) ∧
      ∀ x ∈ (run validate events).delivered, x.task ≠ i) ∧
    (∃ resumes : List Nat,
      ∀ u ∈ (run validate (events ++ resumes.map .resume)).tasks, u.status ≠ .pending) ∧
    ∀ before key request waits after, events = before ++ .submit key request waits :: after →
      (∀ n (hn : n < after.length),
        ¬ (run validate (before ++ .submit key request waits :: after.take n)).Supersedes key
          after[n]) →
      (∀ u, (run validate events).tasks[submissions before]? = some u →
        u.status ≠ .pending ∧ u.status ≠ .failed) →
      (run validate events).delivered.filter (·.key = key) =
        (run validate before).delivered.filter (·.key = key) ++
          [⟨submissions before, key, validate request⟩] ∧
      (run validate events).latest key = some (validate request) := by
  have hsound := sound_run validate events
  refine ⟨hsound.once, timely_run validate events, hsound.latest, fun key i hi => ?_,
    exists_resumes_ended validate events, ?_⟩
  · obtain ⟨u, hu, hkey, hgen, -, hstatus⟩ := hsound.current key i hi
    refine ⟨⟨u, hu, hkey, hgen⟩, fun x hx heq => ?_⟩
    obtain ⟨v, hv, hdone⟩ := hsound.done x hx
    rw [heq, hu] at hv
    rw [← Option.some.inj hv] at hdone
    simp [hdone] at hstatus
  · intro before key request waits after hevents hlast hended
    have hsettled := settled_run validate before key request waits after hlast
    rw [← hevents] at hsettled
    obtain ⟨-, ⟨htable, -⟩ | ⟨-, hdelivered⟩⟩ := hsettled
    -- were the task in the table yet, it would run or have failed
    · obtain ⟨u, hu, -, -, -, hstatus⟩ := hsound.current key _ htable
      obtain ⟨hpending, hfailed⟩ := hended u hu
      exact absurd hstatus (by simp [hpending, hfailed])
    · refine ⟨hdelivered, ?_⟩
      rw [hsound.latest, hdelivered, List.getLast?_concat]
      rfl

/-- Requests for two keys. The first is superseded while its validation passes over the request to stop, the
third while it waits, the fourth before it starts; in the end everything is cancelled. -/
def interleaving : List (Event String Nat) :=
  [.submit "a" 1 1, .submit "b" 5 0, .resume 0, .submit "a" 2 1, .ignoreStop 0, .resume 0, .resume 1,
    .submit "b" 7 0, .cancel "b", .resume 3, .resume 2, .resume 2, .cancelAll]

theorem run_delivers_interleaving :
    ((run (· + 1) interleaving).delivered.filter (·.key = "a")).map (fun x => (x.task, x.result)) =
        [(2, 3)] ∧
      (run (· + 1) interleaving).latest "a" = some 3 ∧
      (run (· + 1) interleaving).latest "b" = some 6 := by
  obtain ⟨-, -, hlatest, -, -, hlast⟩ := run_delivers (· + 1) interleaving
  obtain ⟨hdelivered, ha⟩ := hlast (interleaving.take 3) "a" 2 1 (interleaving.drop 4) rfl
    (by decide) (by decide)
  refine ⟨?_, ha, ?_⟩
  · rw [hdelivered]
    rfl
  · rw [hlatest]
    rfl

end Scheduler

end StoryScript
