import Flowline.Fault
import Flowline.Schedule
import Flowline.Proofs.Number.Order
import Mathlib.Data.List.Nodup

/-! # Deliveries from a schedule

Jobs are scheduled on a desk, and delivered from it in batches. The desk notes which jobs were scheduled on
it and which ones it handed over, at what time. What is done with a job that is handed over is left open: it
may have other jobs scheduled, depending on anything, and it may fail. -/

namespace Flowline

variable {τ π σ : Type}

/-! ## Times and jobs in order -/

/-- Times any two of which can be compared. -/
structure Chronology [LT τ] [LE τ] (IsTime : τ → Prop) : Prop where
  total {a b : τ} : IsTime a → IsTime b → a ≤ b ∨ b ≤ a
  trans {a b c : τ} : a ≤ b → b ≤ c → a ≤ c
  lt_iff {a b : τ} : IsTime a → IsTime b → (a < b ↔ ¬ b ≤ a)

/-- All doubles are times but NaN, which is the only one that is not at most itself. -/
theorem Double.chronology : Chronology fun x : Float => x ≤ x where
  total {a b} ha hb := by
    obtain ⟨p, -, hp, -, -⟩ := le_iff_place.1 ha
    obtain ⟨q, -, hq, -, -⟩ := le_iff_place.1 hb
    exact (le_total p q).imp (fun h => le_iff_place.2 ⟨p, q, hp, hq, h⟩)
      fun h => le_iff_place.2 ⟨q, p, hq, hp, h⟩
  trans := Double.le_trans
  lt_iff {a b} ha hb := by
    obtain ⟨p, -, hp, -, -⟩ := le_iff_place.1 ha
    obtain ⟨q, -, hq, -, -⟩ := le_iff_place.1 hb
    simp [lt_iff_place, le_iff_place, hp, hq]

/-- The order in which jobs come up: by time, and at one time as they were scheduled. -/
def Job.Before [LT τ] [LE τ] (j k : Job τ π) : Prop :=
  j.runAt < k.runAt ∨ j.runAt ≤ k.runAt ∧ j.number < k.number

theorem Chronology.le_of_before [LT τ] [LE τ] {IsTime : τ → Prop} (order : Chronology IsTime)
    {j k : Job τ π} (hj : IsTime j.runAt) (hk : IsTime k.runAt) (h : j.Before k) :
    j.runAt ≤ k.runAt := by
  obtain hlt | ⟨hle, -⟩ := h
  · exact (order.total hj hk).resolve_right ((order.lt_iff hj hk).1 hlt)
  · exact hle

namespace Schedule

section Place
variable [LT τ] [DecidableLT τ] {j : Job τ π} {jobs : List (Job τ π)}

theorem place_perm : (place j jobs).Perm (j :: jobs) := by
  induction jobs with
  | nil => exact .refl _
  | cons k rest ih =>
    rw [place]
    split
    · exact .refl _
    · exact (ih.cons k).trans (.swap j k rest)

/-- A job that is scheduled last has its place behind those of its own time. -/
theorem place_pairwise [LE τ] {IsTime : τ → Prop} (order : Chronology IsTime)
    (htimes : ∀ k ∈ j :: jobs, IsTime k.runAt) (hlast : ∀ k ∈ jobs, k.number < j.number)
    (hjobs : jobs.Pairwise Job.Before) : (place j jobs).Pairwise Job.Before := by
  induction jobs with
  | nil => exact List.pairwise_singleton _ _
  | cons k rest ih =>
    obtain ⟨hj, hk, hrest⟩ : IsTime j.runAt ∧ IsTime k.runAt ∧ ∀ i ∈ rest, IsTime i.runAt := by
      simpa using htimes
    obtain ⟨hbefore, hpairs⟩ := List.pairwise_cons.1 hjobs
    rw [place]
    split
    case isTrue hlt =>
      have hnot := (order.lt_iff hj hk).1 hlt
      refine List.pairwise_cons.2 ⟨fun i hi => .inl ?_, hjobs⟩
      obtain rfl | hi := List.mem_cons.1 hi
      · exact hlt
      · have hki := order.le_of_before hk (hrest i hi) (hbefore i hi)
        exact (order.lt_iff hj (hrest i hi)).2 fun hij => hnot (order.trans hki hij)
    case isFalse hlt =>
      have hle : k.runAt ≤ j.runAt := by
        by_contra hnot
        exact hlt ((order.lt_iff hj hk).2 hnot)
      have htail := ih (by simpa [hj] using hrest) (fun i hi => hlast i (by simp [hi])) hpairs
      refine List.pairwise_cons.2 ⟨fun i hi => ?_, htail⟩
      obtain rfl | hi := List.mem_cons.1 (place_perm.mem_iff.1 hi)
      · exact .inr ⟨hle, hlast k (by simp)⟩
      · exact hbefore i hi

end Place

/-- The jobs that are taken are all those that are due: behind one that is not due there is none. -/
theorem takeDue_eq [LT τ] [LE τ] [DecidableLE τ] {IsTime : τ → Prop} (order : Chronology IsTime)
    {s : Schedule τ π} {now : τ} (htimes : ∀ j ∈ s.jobs, IsTime j.runAt)
    (hsorted : s.jobs.Pairwise Job.Before) :
    s.takeDue now = (s.jobs.filter fun j => decide (j.runAt ≤ now),
      { s with jobs := s.jobs.filter fun j => !decide (j.runAt ≤ now) }) := by
  obtain ⟨jobs, count⟩ := s
  simp only [takeDue]
  induction jobs with
  | nil => rfl
  | cons j rest ih =>
    obtain ⟨hj, hrest⟩ : IsTime j.runAt ∧ ∀ k ∈ rest, IsTime k.runAt := by simpa using htimes
    obtain ⟨hbefore, hpairs⟩ := List.pairwise_cons.1 hsorted
    by_cases hdue : j.runAt ≤ now
    · have htail := ih hrest hpairs
      simp_all
    · have hnone : ∀ k ∈ rest, ¬ k.runAt ≤ now := fun k hk hdue' =>
        hdue (order.trans (order.le_of_before hj (hrest k hk) (hbefore k hk)) hdue')
      have hkept : rest.filter (fun k => !decide (k.runAt ≤ now)) = rest := by simpa using hnone
      simpa [hdue, hkept] using hnone

end Schedule

/-! ## Desks -/

/-- A job that was handed over, and when. -/
structure Handing (τ π : Type) where
  time : τ
  job : Job τ π

/-- What is done with a payload: it looks at what waits and has jobs scheduled, getting to know each of them,
until it is over or has failed. -/
inductive Conduct (IsTime : τ → Prop) (π σ : Type)
  | done (outcome : Except Fault Unit) (outside : σ)
  | look (next : Schedule τ π → Conduct IsTime π σ)
  | schedule (runAt : {t // IsTime t}) (payload : π) (next : Job τ π → Conduct IsTime π σ)

/-- A schedule among other things, with a note of what was scheduled and of what was handed over. -/
structure Desk (τ π σ : Type) where
  schedule : Schedule τ π
  outside : σ
  scheduled : List (Job τ π)
  handed : List (Handing τ π)

/-- What is done at a desk. -/
inductive Request (IsTime : τ → Prop) (π σ : Type)
  | schedule (runAt : {t // IsTime t}) (payload : π)
  | runDue (dispatch : π → σ → Conduct IsTime π σ) (now : τ)

section
variable [LT τ] [DecidableLT τ]

def Desk.new (outside : σ) : Desk τ π σ := ⟨.empty, outside, [], []⟩

def Desk.add (d : Desk τ π σ) (runAt : τ) (payload : π) : Job τ π × Desk τ π σ :=
  let (j, schedule) := d.schedule.add runAt payload
  (j, { d with schedule, scheduled := d.scheduled ++ [j] })

variable {IsTime : τ → Prop}

def Conduct.run : Conduct IsTime π σ → Desk τ π σ → Except Fault Unit × Desk τ π σ
  | done outcome outside, d => (outcome, { d with outside })
  | look next, d => (next d.schedule).run d
  | schedule runAt payload next, d =>
    let (j, d) := d.add runAt payload
    (next j).run d

/-- Hands a job over; a failure ends there. -/
def Desk.hand (dispatch : π → σ → Conduct IsTime π σ) (now : τ) (d : Desk τ π σ) (j : Job τ π) :
    Desk τ π σ :=
  ((dispatch j.payload d.outside).run { d with handed := d.handed ++ [⟨now, j⟩] }).2

variable [LE τ] [DecidableLE τ]

def Desk.after (d : Desk τ π σ) : Request IsTime π σ → Desk τ π σ
  | .schedule runAt payload => (d.add runAt payload).2
  | .runDue dispatch now =>
    (Schedule.runDue Desk.schedule (fun d schedule => { d with schedule }) (Desk.hand dispatch now) now d).2

end

/-! ## What a desk keeps to -/

namespace Desk

/-- Every job that was scheduled is at one place: it was handed over, it is in hand or it waits. -/
structure Orderly [LT τ] [LE τ] (IsTime : τ → Prop) (d : Desk τ π σ) (hand : List (Job τ π)) : Prop where
  places : (d.handed.map Handing.job ++ hand ++ d.schedule.jobs).Perm d.scheduled
  numbers : d.scheduled.map Job.number = List.range' 1 d.schedule.count
  times : ∀ j ∈ d.scheduled, IsTime j.runAt
  sorted : d.schedule.jobs.Pairwise Job.Before
  due : ∀ h ∈ d.handed, h.job.runAt ≤ h.time

/-- Further jobs were handed over, and further ones scheduled, which wait. -/
structure Grown (d d' : Desk τ π σ) (handed : List (Handing τ π)) : Prop where
  handed : d'.handed = d.handed ++ handed
  fresh : ∃ fresh, d'.scheduled = d.scheduled ++ fresh ∧ d'.schedule.jobs.Perm (d.schedule.jobs ++ fresh)

theorem Grown.refl (d : Desk τ π σ) : d.Grown d [] :=
  ⟨by simp, [], by simp, by simp⟩

theorem Grown.trans {d d₁ d₂ : Desk τ π σ} {handed handed' : List (Handing τ π)}
    (h : d.Grown d₁ handed) (h' : d₁.Grown d₂ handed') : d.Grown d₂ (handed ++ handed') := by
  obtain ⟨fresh, hscheduled, hjobs⟩ := h.fresh
  obtain ⟨fresh', hscheduled', hjobs'⟩ := h'.fresh
  refine ⟨by rw [h'.handed, h.handed, List.append_assoc], fresh ++ fresh', ?_, ?_⟩
  · rw [hscheduled', hscheduled, List.append_assoc]
  · rw [← List.append_assoc]
    exact hjobs'.trans (hjobs.append_right fresh')

section
variable [LT τ] [LE τ] {IsTime : τ → Prop} {d : Desk τ π σ} {hand : List (Job τ π)} {j : Job τ π}

theorem Orderly.new (outside : σ) : (Desk.new outside : Desk τ π σ).Orderly IsTime [] where
  places := .refl _
  numbers := rfl
  times := nofun
  sorted := .nil
  due := nofun

theorem Orderly.number_le (h : d.Orderly IsTime hand) (hj : j ∈ d.scheduled) :
    j.number ≤ d.schedule.count := by
  have hmem := List.mem_map_of_mem (f := Job.number) hj
  rw [h.numbers, List.mem_range'_1] at hmem
  omega

theorem Orderly.scheduled_of_waits (h : d.Orderly IsTime hand) (hj : j ∈ d.schedule.jobs) :
    j ∈ d.scheduled :=
  h.places.subset (List.mem_append_right _ hj)

/-- A job is scheduled once, since jobs are numbered. -/
theorem Orderly.nodup (h : d.Orderly IsTime hand) : (d.scheduled.map Job.number).Nodup := by
  rw [h.numbers]
  exact List.nodup_range'

end

variable [LT τ] [DecidableLT τ] {IsTime : τ → Prop} {d : Desk τ π σ} {hand : List (Job τ π)} {j : Job τ π}
  {now runAt : τ}

theorem grown_add {payload : π} : d.Grown (d.add runAt payload).2 [] :=
  ⟨by simp [add], _, rfl, Schedule.place_perm.trans (List.perm_append_singleton _ _).symm⟩

variable [LE τ] (order : Chronology IsTime)
include order

theorem Orderly.add (h : d.Orderly IsTime hand) (htime : IsTime runAt) (payload : π) :
    (d.add runAt payload).2.Orderly IsTime hand where
  places := by
    refine .trans ?_ (h.places.append_right _)
    rw [List.append_assoc _ d.schedule.jobs]
    exact (Schedule.place_perm.trans (List.perm_append_singleton _ _).symm).append_left _
  numbers := by
    simp only [Desk.add, Schedule.add, List.map_append, List.map_singleton, h.numbers]
    simp [List.range'_concat, Nat.add_comm]
  times := by simpa [Desk.add, Schedule.add, or_imp, forall_and, htime] using h.times
  sorted := by
    refine Schedule.place_pairwise order ?_ (fun k hk => ?_) h.sorted
    · simpa [htime] using fun k hk => h.times k (h.scheduled_of_waits hk)
    · exact Nat.lt_succ_of_le (h.number_le (h.scheduled_of_waits hk))
  due := h.due

/-- Whatever is done with a payload, and whether it fails or not, all it does to the desk is to have jobs
scheduled. -/
theorem run_orderly (c : Conduct IsTime π σ) (h : d.Orderly IsTime hand) :
    (c.run d).2.Orderly IsTime hand ∧ d.Grown (c.run d).2 [] := by
  induction c generalizing d with
  | done outcome outside =>
    have hsame := Grown.refl d
    exact ⟨⟨h.places, h.numbers, h.times, h.sorted, h.due⟩, ⟨hsame.handed, hsame.fresh⟩⟩
  | look next ih => exact ih d.schedule h
  | schedule runAt payload next ih =>
    obtain ⟨horderly, hgrown⟩ := ih (d.add runAt payload).1 (h.add order runAt.2 payload)
    exact ⟨horderly, grown_add.trans hgrown⟩

/-- A job that is in hand and due is handed over. -/
theorem hand_orderly (dispatch : π → σ → Conduct IsTime π σ) (h : d.Orderly IsTime (j :: hand))
    (hdue : j.runAt ≤ now) : (d.hand dispatch now j).Orderly IsTime hand ∧
      d.Grown (d.hand dispatch now j) [⟨now, j⟩] := by
  have hnoted : Orderly IsTime { d with handed := d.handed ++ [⟨now, j⟩] } hand := by
    refine ⟨by simpa using h.places, h.numbers, h.times, h.sorted, fun i hi => ?_⟩
    obtain hi | hi := List.mem_append.1 hi
    · exact h.due i hi
    · obtain rfl := List.mem_singleton.1 hi
      exact hdue
  obtain ⟨horderly, hgrown⟩ := run_orderly order (dispatch j.payload d.outside) hnoted
  exact ⟨horderly, hgrown.handed.trans (List.append_nil _), hgrown.fresh⟩

theorem foldl_hand_orderly (dispatch : π → σ → Conduct IsTime π σ) {batch : List (Job τ π)}
    (h : d.Orderly IsTime batch) (hdue : ∀ j ∈ batch, j.runAt ≤ now) :
    (batch.foldl (Desk.hand dispatch now) d).Orderly IsTime [] ∧
      d.Grown (batch.foldl (Desk.hand dispatch now) d) (batch.map (⟨now, ·⟩)) := by
  induction batch generalizing d with
  | nil => exact ⟨h, .refl d⟩
  | cons j rest ih =>
    obtain ⟨horderly, hgrown⟩ := hand_orderly order dispatch h (hdue j (by simp))
    obtain ⟨horderly', hgrown'⟩ := ih horderly fun k hk => hdue k (by simp [hk])
    exact ⟨horderly', hgrown.trans hgrown'⟩

variable [DecidableLE τ]

/-- The jobs that are due are taken before the first of them is handed over, so that one which is scheduled
meanwhile is not among them. -/
theorem runDue_orderly (h : d.Orderly IsTime []) (dispatch : π → σ → Conduct IsTime π σ) (now : τ) :
    let left := d.schedule.jobs.filter fun j => !decide (j.runAt ≤ now)
    let rest : Desk τ π σ := { d with schedule := { d.schedule with jobs := left } }
    (d.after (.runDue dispatch now)).Orderly IsTime [] ∧
      rest.Grown (d.after (.runDue dispatch now))
        ((d.schedule.jobs.filter (·.runAt ≤ now)).map (⟨now, ·⟩)) := by
  intro left rest
  have htimes : ∀ j ∈ d.schedule.jobs, IsTime j.runAt := fun j hj => h.times j (h.scheduled_of_waits hj)
  have htaken : rest.Orderly IsTime (d.schedule.jobs.filter (·.runAt ≤ now)) := by
    refine ⟨.trans ?_ h.places, h.numbers, h.times, h.sorted.filter _, h.due⟩
    rw [List.append_nil, List.append_assoc]
    exact (List.filter_append_perm (·.runAt ≤ now) d.schedule.jobs).append_left _
  have hdue : ∀ j ∈ d.schedule.jobs.filter (·.runAt ≤ now), j.runAt ≤ now := by simp
  simpa only [after, Schedule.runDue, Schedule.takeDue_eq order htimes h.sorted] using
    foldl_hand_orderly order dispatch htaken hdue

theorem after_orderly (h : d.Orderly IsTime []) (request : Request IsTime π σ) :
    (d.after request).Orderly IsTime [] :=
  match request with
  | .schedule runAt payload => h.add order runAt.2 payload
  | .runDue dispatch now => (runDue_orderly order h dispatch now).1

theorem foldl_after_orderly (h : d.Orderly IsTime []) (requests : List (Request IsTime π σ)) :
    (requests.foldl Desk.after d).Orderly IsTime [] := by
  induction requests generalizing d with
  | nil => exact h
  | cons request rest ih => exact ih (after_orderly order h request)

/-- A batch is delivered: all those jobs that wait and are due, in the order in which they come up. The others
still wait, and so do the fresh ones, that were scheduled meanwhile. -/
structure Delivers (d d' : Desk τ π σ) (now : τ) (batch fresh : List (Job τ π)) : Prop where
  handed : d'.handed = d.handed ++ batch.map (⟨now, ·⟩)
  scheduled : d'.scheduled = d.scheduled ++ fresh
  sorted : batch.Pairwise Job.Before
  mem_batch : ∀ j, j ∈ batch ↔ j ∈ d.schedule.jobs ∧ j.runAt ≤ now
  waits : ∀ j ∈ d.scheduled, j ∈ d'.schedule.jobs ↔ j ∈ d.schedule.jobs ∧ ¬ j.runAt ≤ now
  fresh_waits : ∀ j ∈ fresh, j ∈ d'.schedule.jobs

/-- However jobs were scheduled and delivered, each of them was handed over once, and not before its time, or
waits; and a delivery is one of all those that are due, whatever is done with them and whichever fail. -/
theorem delivers_once_in_order (outside : σ) (requests : List (Request IsTime π σ))
    (dispatch : π → σ → Conduct IsTime π σ) (now : τ) :
    let d := requests.foldl Desk.after (Desk.new outside)
    d.Orderly IsTime [] ∧ ∃ batch fresh, d.Delivers (d.after (.runDue dispatch now)) now batch fresh := by
  intro d
  have horderly : d.Orderly IsTime [] := foldl_after_orderly order (.new outside) requests
  obtain ⟨horderly', hgrown⟩ := runDue_orderly order horderly dispatch now
  obtain ⟨fresh, hscheduled, hjobs⟩ := hgrown.fresh
  refine ⟨horderly, _, fresh, hgrown.handed, hscheduled, horderly.sorted.filter _, by simp,
    fun j hj => ?_, fun j hj => hjobs.mem_iff.2 (by simp [hj])⟩
  -- A job has another number than those that are scheduled after it.
  have hnodup := horderly'.nodup
  rw [hscheduled, List.map_append] at hnodup
  have hold : j ∉ fresh := fun hfresh =>
    List.disjoint_of_nodup_append hnodup (List.mem_map_of_mem hj) (List.mem_map_of_mem hfresh)
  rw [hjobs.mem_iff]
  simp [hold]

end Desk

/-- Has something scheduled for a time that is past, and fails. -/
def Conduct.failAgain (payload : String) (_ : Unit) : Conduct (fun x : Float => x ≤ x) String Unit :=
  .schedule ⟨0, by decide +kernel⟩ payload fun j => .done (.error (.workflowNotFound j.id)) ()

/-- Four jobs, two of them at one time. -/
def Request.four : List (Request (fun x : Float => x ≤ x) String Unit) :=
  [.schedule ⟨2, by decide +kernel⟩ "a", .schedule ⟨1, by decide +kernel⟩ "b",
    .schedule ⟨3, by decide +kernel⟩ "c", .schedule ⟨1, by decide +kernel⟩ "d"]

/-- Three of four jobs are due. They are delivered though each of them fails; what they have scheduled is due as
well, and waits. -/
theorem Desk.delivers_failAgain :
    let d : Desk Float String Unit := Request.four.foldl Desk.after (Desk.new ())
    let d' := d.after (.runDue Conduct.failAgain 2)
    Chronology (fun x : Float => x ≤ x) ∧
      d'.handed.map (·.job.payload) = ["b", "d", "a"] ∧
      d'.schedule.jobs.map (·.payload) = ["b", "d", "a", "c"] ∧
      d.Orderly (fun x => x ≤ x) [] ∧ ∃ batch fresh, d.Delivers d' 2 batch fresh :=
  ⟨Double.chronology, by decide +kernel, by decide +kernel,
    Desk.delivers_once_in_order Double.chronology () Request.four Conduct.failAgain 2⟩

end Flowline
