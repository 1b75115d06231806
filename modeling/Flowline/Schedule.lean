/-!
Schedules: jobs that wait for their times. Jobs are kept in the order in which they come up, by time and
then by the order in which they were scheduled, so those that are due stand in front. A job that is taken
is gone, whatever becomes of its delivery.
-/

namespace Flowline

/-- A job: a payload that is delivered once its time has come. -/
structure Job (τ π : Type) where
  number : Nat
  runAt : τ
  payload : π
deriving Repr

def Job.id {τ π : Type} (j : Job τ π) : String := s!"job-{j.number}"

/-- Jobs in the order in which they come up. -/
structure Schedule (τ π : Type) where
  jobs : List (Job τ π)
  /-- How many jobs were ever scheduled. -/
  count : Nat
deriving Repr

namespace Schedule

variable {τ π : Type}

def empty : Schedule τ π := ⟨[], 0⟩

/-- Puts a job behind those that do not come up later. -/
def place [LT τ] [DecidableLT τ] (j : Job τ π) : List (Job τ π) → List (Job τ π)
  | [] => [j]
  | k :: rest => if j.runAt < k.runAt then j :: k :: rest else k :: place j rest

/-- Schedules a payload; the job for it, and the schedule with it. -/
def add [LT τ] [DecidableLT τ] (s : Schedule τ π) (runAt : τ) (payload : π) :
    Job τ π × Schedule τ π :=
  let j : Job τ π := ⟨s.count + 1, runAt, payload⟩
  (j, ⟨place j s.jobs, s.count + 1⟩)

def takeDue [LE τ] [DecidableLE τ] (s : Schedule τ π) (now : τ) : List (Job τ π) × Schedule τ π :=
  let due (j : Job τ π) : Bool := decide (j.runAt ≤ now)
  (s.jobs.takeWhile due, { s with jobs := s.jobs.dropWhile due })

/-- Takes the jobs that are due from the schedule in a state, and then delivers them one after the other.
What a delivery schedules stays for a later time. The result has the number of jobs. -/
def runDue [LE τ] [DecidableLE τ] {σ : Type} (scheduleOf : σ → Schedule τ π)
    (withSchedule : σ → Schedule τ π → σ) (deliver : σ → Job τ π → σ) (now : τ) (state : σ) :
    Nat × σ :=
  let (due, rest) := (scheduleOf state).takeDue now
  (due.length, due.foldl deliver (withSchedule state rest))

end Schedule

end Flowline
