import Flowline.Proofs.Session.Leads
import Flowline.Proofs.Walk.Frame

/-! # Walks in parts

A coroutine is a computation in parts: others may change the state between them. What it hands out to
others stands by itself. Alone, a coroutine is a computation like any other.

A walk is interrupted between the nodes that it runs, and wherever a node is. Run without interruption it is
the walk itself. -/

namespace Flowline

/-- A computation in parts. Each part changes the state, and goes on by the state that it found. -/
inductive Coroutine (σ ω α : Type)
  | done (r : Except Fault α)
  | part (change : σ → σ) (next : σ → Coroutine σ ω α)
  | hand (o : ω) (next : Coroutine σ ω α)

namespace Coroutine
variable {σ ω α β γ : Type}

def bind : Coroutine σ ω α → (α → Coroutine σ ω β) → Coroutine σ ω β
  | .done (.ok a), f => f a
  | .done (.error fault), _ => .done (.error fault)
  | .part change next, f => .part change fun s => (next s).bind f
  | .hand o next, f => .hand o (next.bind f)

instance : Monad (Coroutine σ ω) where
  pure a := .done (.ok a)
  bind := bind

/-- A computation that is not interrupted. -/
def of (m : ExceptT Fault (StateM σ) α) : Coroutine σ ω α :=
  .part (fun s => (m.run.run s).2) fun s => .done (m.run.run s).1

def look (f : σ → α) : Coroutine σ ω α := .part id fun s => .done (.ok (f s))

def handing (o : ω) : Coroutine σ ω Unit := .hand o (.done (.ok ()))

/-- The result of a coroutine, a fault being one. -/
def attempt : Coroutine σ ω α → Coroutine σ ω (Except Fault α)
  | .done r => .done (.ok r)
  | .part change next => .part change fun s => (next s).attempt
  | .hand o next => .hand o next.attempt

/-- Goes on by one part. -/
def step (take : ω → σ → σ) : Coroutine σ ω α → σ → Coroutine σ ω α × σ
  | .done r, s => (.done r, s)
  | .part change next, s => (next s, change s)
  | .hand o next, s => (next, take o s)

/-- What the next part hands out. -/
def handed : Coroutine σ ω α → List ω
  | .hand o _ => [o]
  | _ => []

def result? : Coroutine σ ω α → Option (Except Fault α)
  | .done r => some r
  | _ => none

/-! ## Without interruption -/

def alone (take : ω → σ → σ) : Coroutine σ ω α → ExceptT Fault (StateM σ) α
  | .done r => ExceptT.mk (pure r)
  | .part change next => ExceptT.mk fun s => ((next s).alone take).run.run (change s)
  | .hand o next => ExceptT.mk fun s => (next.alone take).run.run (take o s)

variable {take : ω → σ → σ}

@[simp] theorem alone_pure (a : α) : (pure a : Coroutine σ ω α).alone take = pure a := rfl

@[simp] theorem alone_of (m : ExceptT Fault (StateM σ) α) : (of m : Coroutine σ ω α).alone take = m := rfl

@[simp] theorem alone_bind (c : Coroutine σ ω α) (f : α → Coroutine σ ω β) :
    (c >>= f).alone take = c.alone take >>= fun a => (f a).alone take := by
  induction c with
  | done r =>
    cases r with
    | ok a => rfl
    | error fault => rfl
  | part change next ih =>
    funext s
    refine Eq.trans ?_ (run_bind _ _ s).symm
    exact (congrFun (ih s) (change s)).trans (run_bind ..)
  | hand o next ih =>
    funext s
    refine Eq.trans ?_ (run_bind _ _ s).symm
    exact (congrFun ih (take o s)).trans (run_bind ..)

theorem alone_look (f : σ → α) : (look f : Coroutine σ ω α).alone take = do return f (← get) := rfl

theorem alone_handing (o : ω) : (handing o).alone take = modify (take o) := rfl

@[simp] theorem alone_attempt (c : Coroutine σ ω α) :
    c.attempt.alone take = ExceptT.mk (do return .ok (← (c.alone take).run)) := by
  induction c with
  | done r => rfl
  | part change next ih => exact funext fun s => congrFun (ih s) (change s)
  | hand o next ih => exact funext fun s => congrFun ih (take o s)

@[simp] theorem alone_foldlM (step : β → γ → ExceptT Fault (StateM σ) β) (items : List γ) (b : β) :
    (items.foldlM (fun b c => of (step b c)) b : Coroutine σ ω β).alone take = items.foldlM step b := by
  induction items generalizing b with
  | nil => rfl
  | cons c rest ih => simp only [List.foldlM_cons, alone_bind, alone_of, ih]

end Coroutine

end Flowline

/-! ## Walks in parts -/

namespace Flowline

namespace Coroutine
variable {ω : Type} (handle : Node → Coroutine Session ω NodeResult)

def visit (n : Node) : Coroutine Session ω NodeResult := do
  of (Run.modifyExecution (·.visit n.id))
  let r ← handle n
  of do
    Run.modifyExecution (·.setState n.id r.status r.output)
    if r.isFailed then throw (.nodeFailed n.id (Walk.failureReason r))
    return r

def go (w : Workflow) (limits : Walk.Limits) (begun : Float) :
    Nat → Walk → List Node → Coroutine Session ω Walk
  | _, walk, [] => return walk
  | 0, _, _ :: _ => .done (.error (.tooManyIterations (toString limits.iterations)))
  | left + 1, walk, n :: rest =>
    if walk.skips n then go w limits begun left walk rest
    else do
      if (← of Run.execution).status == .cancelled then return { walk with cancelled := true }
      of (Walk.checkTime limits begun)
      let r ← visit handle n
      go w limits begun left (walk.record n r) (← of (Walk.follow w n r rest))

/-- A walk over the nodes of a workflow, each of which is run in parts. -/
def walk (w : Workflow) (iterations : Int) (starts : List Node) : Coroutine Session ω Walk := do
  let timeout ← of (Run.of (w.setting "timeout_seconds").asFloat)
  let begun ← of Run.readStopwatch
  go handle w ⟨iterations, timeout⟩ begun iterations.toNat Walk.start starts

/-! ### Without interruption -/

variable {handle} {take : ω → Session → Session} {dispatch : Node → Run NodeResult}
  (hhandle : ∀ n, (handle n).alone take = dispatch n)
include hhandle

theorem alone_visit (n : Node) : (visit handle n).alone take = Walk.visit dispatch n := by
  simp only [visit, Walk.visit, alone_bind, alone_of, hhandle]

theorem alone_go (w : Workflow) (limits : Walk.Limits) (begun : Float) (left : Nat) (walk : Walk)
    (queue : List Node) :
    (go handle w limits begun left walk queue).alone take =
      Walk.go dispatch w limits begun left walk queue := by
  induction left generalizing walk queue with
  | zero => cases queue <;> rfl
  | succ left ih =>
    cases queue with
    | nil => rfl
    | cons n rest =>
      rw [go, Walk.go]
      split
      · exact ih walk rest
      · rw [alone_bind, alone_of]
        refine bind_congr fun e => ?_
        split
        · rfl
        · simp only [alone_bind, alone_of, alone_visit hhandle, ih]

theorem alone_walk (w : Workflow) (iterations : Int) (starts : List Node) :
    (walk handle w iterations starts).alone take = Walk.run dispatch w iterations starts := by
  simp only [walk, Walk.run, alone_bind, alone_of, alone_go hhandle]

end Coroutine

/-! ### What every part keeps -/

namespace Coroutine
variable {σ ω α β : Type} {P : σ → Prop}

/-- Every part keeps a property of the state. -/
def Keeps (P : σ → Prop) : Coroutine σ ω α → Prop
  | .done _ => True
  | .part change next => ∀ s, P s → P (change s) ∧ (next s).Keeps P
  | .hand _ next => next.Keeps P

theorem keeps_pure (a : α) : (pure a : Coroutine σ ω α).Keeps P := trivial

theorem keeps_of {R : σ → σ → Prop} {m : ExceptT Fault (StateM σ) α} (hm : Within R m)
    (hP : ∀ s t, R s t → P s → P t) : (of m : Coroutine σ ω α).Keeps P := by
  intro s hs
  exact ⟨hP s _ (Leads.state ((hm s).mono (fun _ _ h => h.1) fun _ _ h => h)) hs, trivial⟩

theorem Keeps.bind {c : Coroutine σ ω α} {f : α → Coroutine σ ω β} (hc : c.Keeps P)
    (hf : ∀ a, (f a).Keeps P) : (c >>= f).Keeps P := by
  induction c with
  | done r =>
    cases r with
    | ok a => exact hf a
    | error fault => trivial
  | part change next ih =>
    intro s hs
    exact ⟨(hc s hs).1, ih s (hc s hs).2⟩
  | hand o next ih => exact ih hc

section Walk
variable {handle : Node → Coroutine Session ω NodeResult} {R : Session → Session → Prop}
  {P : Session → Prop} [VisitFrame R] (hP : ∀ s t, R s t → P s → P t) (hhandle : ∀ n, (handle n).Keeps P)
include hP hhandle

theorem keeps_visit (n : Node) : (visit handle n).Keeps P := by
  refine (keeps_of (within_modify fun s => VisitFrame.visit s n.id) hP).bind fun _ => ?_
  refine (hhandle n).bind fun r => keeps_of (R := R) ?_ hP
  refine (within_modify fun s => RecordFrame.setState s _ _ _).bind fun _ => ?_
  dsimp only
  split
  · exact gives_throw
  · exact gives_pure trivial

theorem keeps_go (w : Workflow) (limits : Walk.Limits) (begun : Float) (left : Nat) (walk : Walk)
    (queue : List Node) : (go handle w limits begun left walk queue).Keeps P := by
  induction left generalizing walk queue with
  | zero => cases queue <;> trivial
  | succ left ih =>
    cases queue with
    | nil => trivial
    | cons n rest =>
      rw [go]
      split
      · exact ih walk rest
      · refine (keeps_of (R := R) within_execution hP).bind fun e => ?_
        split
        · exact keeps_pure _
        · refine (keeps_of (R := R) (Walk.within_checkTime limits begun) hP).bind fun _ => ?_
          refine (keeps_visit hP hhandle n).bind fun r => ?_
          exact (keeps_of (R := R) (Walk.within_follow w n r rest) hP).bind fun queue => ih _ queue

theorem keeps_walk (w : Workflow) (iterations : Int) (starts : List Node) :
    (walk handle w iterations starts).Keeps P := by
  refine (keeps_of (R := R) (within_of _) hP).bind fun _ => ?_
  refine (keeps_of (R := R) Run.within_readStopwatch hP).bind fun _ => ?_
  exact keeps_go hP hhandle w _ _ _ _ _

end Walk

end Coroutine

/-- Sessions of the same execution. -/
def SameId (s t : Session) : Prop := t.execution.id = s.execution.id

instance : WalkFrame SameId where
  refl _ := rfl
  trans _ _ _ hst htu := htu.trans hst
  setVariable _ _ _ := rfl
  log s level message context := by
    obtain ⟨logs, h⟩ := Execution.log_eq s.execution level message context
    rw [h]
    rfl
  cancel _ := rfl
  ran _ _ _ := rfl
  elapse _ _ _ _ := rfl
  takeSignal _ _ := rfl
  countCall _ _ _ := rfl
  readStopwatch _ := rfl
  setState s x status o := by
    obtain ⟨states, h⟩ := Execution.setState_eq s.execution x status o
    rw [h]
    rfl
  number _ := rfl
  visit _ _ := rfl

end Flowline
