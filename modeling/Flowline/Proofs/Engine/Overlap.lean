import Flowline.Proofs.Engine.KeepsOnce
import Mathlib.Data.List.Basic
import Mathlib.Data.List.Induction
import Mathlib.Logic.Function.Basic

/-! # Calls that overlap

Two calls that resume one execution work on copies of their own. Where both load it before either keeps it,
what is kept in the end is the execution of the call that keeps it last, whatever the other one has kept.
Where one comes after the other, it goes on from what the other one has kept. -/

namespace Flowline
open Call Coroutine

inductive Side
  | left | right
deriving DecidableEq

def Side.text : Side → String
  | .left => "left"
  | .right => "right"

/-- Two calls that go on in turns, with the executions that they have kept, the first one first. -/
structure Duo where
  engine : Engine
  call : Side → Call (Option Execution)
  saved : List Execution

/-- One of two calls goes on by a part, or something else happens that concerns no execution that is kept:
time passes, or a signal comes. -/
inductive Turn
  | part (side : Side)
  | outside (change : Engine → Engine) (hblind : Blind change)

namespace Duo
variable {setup : Setup}

def resuming (cut : Cut setup) (g : Engine) (id : String) (node : Side → String) : Duo :=
  ⟨g, fun side => resume cut id (node side), []⟩

def turn (d : Duo) : Turn → Duo
  | .part side => ⟨((d.call side).step Engine.saving d.engine).2,
      Function.update d.call side ((d.call side).step Engine.saving d.engine).1,
      d.saved ++ (d.call side).handed⟩
  | .outside change _ => { d with engine := change d.engine }

def play (d : Duo) (turns : List Turn) : Duo := turns.foldl turn d

def keeping (d : Duo) (t : Table String Execution) : Duo := { d with engine := d.engine.keeping t }

theorem play_append (d : Duo) (early late : List Turn) :
    d.play (early ++ late) = (d.play early).play late := List.foldl_append ..

end Duo

/-! ## What one part keeps -/

/-- A table in which executions were kept one after the other. -/
def putAll (t : Table String Execution) (saved : List Execution) : Table String Execution :=
  saved.foldl (fun t e => t.put e.id e) t

theorem putAll_append (t : Table String Execution) (early late : List Execution) :
    putAll t (early ++ late) = putAll (putAll t early) late := List.foldl_append ..

theorem Blind.executions {change : Engine → Engine} (h : Blind change) (g : Engine) :
    (change g).memory.executions = g.memory.executions :=
  congrArg (·.memory.executions) (h g g.memory.executions)

namespace Call
variable {α : Type} {id : String} {F : Option Execution → Except Fault α → Prop} {kept? : Option Execution}

/-- What a part does to the executions that are kept is to keep what it hands out. -/
theorem KeepsOnce.step {c : Call α} (h : KeepsOnce id F kept? c) (g : Engine) :
    ∃ k, KeepsOnce id F k (c.step Engine.saving g).1 ∧ k.toList = kept?.toList ++ c.handed ∧
      (∀ e ∈ c.handed, e.id = id) ∧ ∀ t, c.step Engine.saving (g.keeping t) =
        ((c.step Engine.saving g).1, (c.step Engine.saving g).2.keeping (putAll t c.handed)) := by
  cases h with
  | done h => exact ⟨kept?, .done h, (List.append_nil _).symm, List.forall_mem_nil _, fun _ => rfl⟩
  | part hchange hnext h =>
    refine ⟨kept?, h g, (List.append_nil _).symm, List.forall_mem_nil _, fun t => ?_⟩
    exact Prod.ext (hnext g t) (hchange g t)
  | @hand e next he h =>
    refine ⟨some e, h, rfl, fun f hf => ?_, fun _ => rfl⟩
    obtain rfl := List.mem_singleton.1 hf
    exact he

theorem KeepsOnce.result {r : Except Fault α} (h : KeepsOnce id F kept? (.done r)) : F kept? r := by
  cases h with
  | done h => exact h

end Call

/-! ## In turns -/

namespace Duo
variable {setup : Setup} {id : String} {k : Side → Option Execution} {d : Duo}

/-- Two calls of which each keeps an execution once, and what they have kept so far. -/
structure Ready (id : String) (k : Side → Option Execution) (d : Duo) : Prop where
  call : ∀ side, KeepsOnce id FitsAny (k side) (d.call side)
  saved : d.saved.Perm ((k .left).toList ++ (k .right).toList)

/-- Two calls go on by turns in which they keep some executions, whatever was kept before. -/
structure Advances (id : String) (d : Duo) (turns : List Turn) (saved : List Execution) : Prop where
  saved_eq : (d.play turns).saved = d.saved ++ saved
  ids : ∀ e ∈ saved, e.id = id
  keeping : ∀ t, (d.keeping t).play turns = (d.play turns).keeping (putAll t saved)

theorem Ready.turn (h : d.Ready id k) (turn : Turn) :
    ∃ k' saved, (d.turn turn).Ready id k' ∧ d.Advances id [turn] saved := by
  cases turn with
  | part side =>
    obtain ⟨k', hk', hlist, hids, hkeeping⟩ := (h.call side).step d.engine
    refine ⟨Function.update k side k', (d.call side).handed, ⟨fun other => ?_, ?_⟩, rfl, hids, fun t => ?_⟩
    · by_cases hother : other = side
      · subst hother
        simpa only [Duo.turn, Function.update_self] using hk'
      · simpa only [Duo.turn, Function.update_of_ne hother] using h.call other
    · refine (h.saved.append_right _).trans ?_
      cases side with
      | left =>
        change List.Perm _ (k'.toList ++ _)
        rw [hlist, List.append_assoc, List.append_assoc]
        exact List.perm_append_comm.append_left _
      | right =>
        change List.Perm _ ((k .left).toList ++ k'.toList)
        rw [hlist, List.append_assoc]
    · exact congrArg (fun q => Duo.mk q.2 (Function.update d.call side q.1)
        (d.saved ++ (d.call side).handed)) (hkeeping t)
  | outside change hblind =>
    refine ⟨k, [], ⟨h.call, h.saved⟩, (List.append_nil _).symm, List.forall_mem_nil _, fun t => ?_⟩
    exact congrArg (fun g => { d with engine := g }) (hblind d.engine t)

theorem Ready.play (h : d.Ready id k) (turns : List Turn) :
    ∃ k' saved, (d.play turns).Ready id k' ∧ d.Advances id turns saved := by
  induction turns generalizing d k with
  | nil => exact ⟨k, [], h, (List.append_nil _).symm, List.forall_mem_nil _, fun _ => rfl⟩
  | cons turn rest ih =>
    obtain ⟨_, here, hnext, hhere⟩ := h.turn turn
    obtain ⟨k', later, hend, hlater⟩ := ih hnext
    refine ⟨k', here ++ later, hend, ?_, ?_, fun t => ?_⟩
    · rw [← List.append_assoc, ← hhere.saved_eq]
      exact hlater.saved_eq
    · intro e he
      exact (List.mem_append.1 he).elim (hhere.ids e) (hlater.ids e)
    · rw [putAll_append]
      exact (congrArg (fun d => d.play rest) (hhere.keeping t)).trans (hlater.keeping _)

/-! ## Loading -/

/-- Until something is kept, two calls find what was kept at first. Those that have gone on at all have
loaded it. -/
structure Loading (cut : Cut setup) (id : String) (node : Side → String) (t : Table String Execution)
    (turns : List Turn) (d : Duo) : Prop where
  executions : d.engine.memory.executions = t
  waits : ∀ side, .part side ∉ turns → d.call side = resume cut id (node side)
  loaded : ∀ side, .part side ∈ turns → KeepsOnce id FitsAny none (d.call side)

theorem step_resume (cut : Cut setup) (node : String) {g : Engine} {e : Execution}
    (hstored : g.memory.executions.get? id = some e) :
    (resume cut id node).step Engine.saving g = (resumeLoaded cut e.reloaded node, g) := by
  have hload : g.memory.execution? id = some e.reloaded := by rw [Memory.execution?, hstored]; rfl
  change (Coroutine.bind (.done (.ok (g.memory.execution? id))) _, g) = _
  rw [hload]
  rfl

theorem turn_part {side : Side} {c : Call (Option Execution)} (hc : d.call side = c) :
    d.turn (.part side) = ⟨(c.step Engine.saving d.engine).2,
      Function.update d.call side (c.step Engine.saving d.engine).1, d.saved ++ c.handed⟩ := by
  rw [← hc]
  rfl

theorem saved_turn (d : Duo) (turn : Turn) : ∃ saved, (d.turn turn).saved = d.saved ++ saved := by
  cases turn with
  | part side => exact ⟨(d.call side).handed, rfl⟩
  | outside change hblind => exact ⟨[], (List.append_nil _).symm⟩

section Loading
variable {cut : Cut setup} {node : Side → String} {g : Engine} {e : Execution} {turns : List Turn}
  {t : Table String Execution}

/-- A call that goes on without keeping anything has loaded the execution then. -/
theorem Loading.part (h : Loading cut e.id node t turns d) (hstored : t.get? e.id = some e) {side : Side}
    (hhanded : (d.call side).handed = []) :
    KeepsOnce e.id FitsAny none ((d.call side).step Engine.saving d.engine).1 ∧
      ((d.call side).step Engine.saving d.engine).2.memory.executions = t := by
  by_cases hmem : .part side ∈ turns
  · obtain ⟨k', hk', hlist, -, hkeeping⟩ := (h.loaded side hmem).step d.engine
    rw [hhanded] at hlist hkeeping
    obtain rfl := Option.toList_eq_nil_iff.1 (hlist.trans (List.append_nil _))
    refine ⟨hk', Eq.trans ?_ h.executions⟩
    exact congrArg (fun q => q.2.memory.executions) (hkeeping d.engine.memory.executions)
  · rw [h.waits side hmem,
      step_resume cut (node side) ((congrArg (·.get? e.id) h.executions).trans hstored)]
    exact ⟨keepsOnce_resumeLoaded cut (node side) rfl, h.executions⟩

theorem Loading.turn (h : Loading cut e.id node t turns d) (hstored : t.get? e.id = some e) (turn : Turn)
    (hsaved : (d.turn turn).saved = []) : Loading cut e.id node t (turns ++ [turn]) (d.turn turn) := by
  cases turn with
  | part side =>
    rw [turn_part rfl] at hsaved ⊢
    obtain ⟨hkeeps, hexecutions⟩ := h.part hstored (List.append_eq_nil_iff.1 hsaved).2
    refine ⟨hexecutions, fun other hother => ?_, fun other hother => ?_⟩
    · rw [List.mem_append, List.mem_singleton, not_or] at hother
      have hne : other ≠ side := fun heq => hother.2 (heq ▸ rfl)
      exact (Function.update_of_ne hne ..).trans (h.waits other hother.1)
    · dsimp only
      by_cases hne : other = side
      · rw [hne, Function.update_self]
        exact hkeeps
      · rw [Function.update_of_ne hne]
        rw [List.mem_append, List.mem_singleton] at hother
        exact h.loaded other (hother.resolve_right fun heq => hne (Turn.part.inj heq))
  | outside change hblind =>
    have hiff (side : Side) : .part side ∈ turns ++ [.outside change hblind] ↔ .part side ∈ turns := by
      simp only [List.mem_append, List.mem_singleton, reduceCtorEq, or_false]
    refine ⟨(hblind.executions d.engine).trans h.executions, ?_, ?_⟩
    · exact fun other hother => h.waits other fun hmem => hother ((hiff other).2 hmem)
    · exact fun other hother => h.loaded other ((hiff other).1 hother)

theorem play_loading (cut : Cut setup) (node : Side → String) (hstored : g.stored? e.id = some e)
    (turns : List Turn) (hsaved : ((resuming cut g e.id node).play turns).saved = []) :
    Loading cut e.id node g.memory.executions turns ((resuming cut g e.id node).play turns) := by
  -- Nothing was kept by the turns before the last one either, so the induction is from the end.
  induction turns using List.reverseRecOn with
  | nil => exact ⟨rfl, fun _ _ => rfl, fun _ h => absurd h List.not_mem_nil⟩
  | append_singleton turns turn ih =>
    rw [play_append] at hsaved ⊢
    obtain ⟨saved, hturn⟩ := ((resuming cut g e.id node).play turns).saved_turn turn
    exact (ih (List.append_eq_nil_iff.1 (hturn.symm.trans hsaved)).1).turn hstored turn hsaved

end Loading

/-! ## One after the other -/

/-- A call that nothing interrupts comes to its end. -/
theorem play_alone (side : Side) {c : Call (Option Execution)} (hc : d.call side = c) :
    ∃ m saved, d.play (List.replicate m (.part side)) =
      ⟨((c.alone Engine.saving).run.run d.engine).2,
        Function.update d.call side (.done ((c.alone Engine.saving).run.run d.engine).1), saved⟩ := by
  induction c generalizing d with
  | done r =>
    refine ⟨0, d.saved, ?_⟩
    change d = ⟨d.engine, Function.update d.call side (.done r), d.saved⟩
    rw [← hc, Function.update_eq_self]
  | part change next ih =>
    have hturn := turn_part hc
    obtain ⟨m, saved, hm⟩ := ih d.engine (d := d.turn (.part side))
      (by rw [hturn]; exact Function.update_self ..)
    refine ⟨m + 1, saved, hm.trans ?_⟩
    rw [hturn, Function.update_idem]
    rfl
  | hand e next ih =>
    have hturn := turn_part hc
    obtain ⟨m, saved, hm⟩ := ih (d := d.turn (.part side)) (by rw [hturn]; exact Function.update_self ..)
    refine ⟨m + 1, saved, hm.trans ?_⟩
    rw [hturn, Function.update_idem]
    rfl

/-- Both of two calls have loaded what they go on with, and neither of them has kept anything. -/
def Overlap (d : Duo) (early : List Turn) : Prop :=
  (∀ side, .part side ∈ early) ∧ (d.play early).saved = []

/-- Both of two calls have come to an end, and each has an execution to show for it. -/
def Ended (d : Duo) (r : Side → Execution) : Prop :=
  ∀ side, d.call side = .done (.ok (some (r side)))

theorem Ready.saved_of_ended (h : d.Ready id k) {r : Side → Execution} (hended : d.Ended r) :
    d.saved.Perm [r .left, r .right] := by
  have hk (side : Side) : k side = some (r side) := by
    have hresult := h.call side
    rw [hended side] at hresult
    exact hresult.result
  have hsaved := h.saved
  rw [hk, hk] at hsaved
  exact hsaved

theorem ended_of_result? (h : ∀ side, ((d.call side).result?.bind (·.toOption.join)).isSome = true) :
    ∃ r, d.Ended r := by
  have hside (side : Side) : ∃ f, d.call side = .done (.ok (some f)) := by
    have hsome := h side
    cases hcall : d.call side with
    | done r =>
      rw [hcall] at hsome
      rcases r with fault | _ | f
      · cases hsome
      · cases hsome
      · exact ⟨f, rfl⟩
    | part change next =>
      rw [hcall] at hsome
      cases hsome
    | hand e next =>
      rw [hcall] at hsome
      cases hsome
  choose r hr using hside
  exact ⟨r, hr⟩

/-- Two calls resume an execution. One after the other they are two operations. Where they overlap, the
execution of the one that keeps it last is what is kept, whatever else was kept since they loaded it. -/
theorem overlapping_resumes_keep_last (cut : Cut setup) {g : Engine} {e : Execution}
    (hstored : g.stored? e.id = some e) (node : Side → String) :
    (∃ m n, ((resuming cut g e.id node).play
        (List.replicate m (.part .left) ++ List.replicate n (.part .right))).engine =
      (g.after setup (.resume e.id (node .left))).after setup (.resume e.id (node .right))) ∧
    ∀ (early late : List Turn) (r : Side → Execution), (resuming cut g e.id node).Overlap early →
      ((resuming cut g e.id node).play (early ++ late)).Ended r →
      ∃ first last, [first, last].Perm [r .left, r .right] ∧
        ((resuming cut g e.id node).play (early ++ late)).saved = [first, last] ∧
        ((resuming cut g e.id node).play (early ++ late)).engine.stored? e.id = some last ∧
        ∀ t, (((resuming cut g e.id node).play early).keeping t).play late =
          ((resuming cut g e.id node).play (early ++ late)).keeping (t.put e.id last) := by
  constructor
  · obtain ⟨m, saved, hleft⟩ := play_alone (d := resuming cut g e.id node) .left rfl
    obtain ⟨n, saved', hright⟩ := play_alone
      (d := (resuming cut g e.id node).play (List.replicate m (.part .left))) .right rfl
    refine ⟨m, n, ?_⟩
    rw [play_append, hright, hleft]
    dsimp only [resuming]
    rw [Function.update_of_ne (by decide), alone_resume, alone_resume]
    rfl
  · intro early late r ⟨hmoved, hnone⟩ hended
    have hloading := play_loading cut node hstored early hnone
    rw [play_append] at hended ⊢
    generalize (resuming cut g e.id node).play early = d at hnone hloading hended ⊢
    have hready : d.Ready e.id (fun _ => none) :=
      ⟨fun side => hloading.loaded side (hmoved side), hnone ▸ List.Perm.refl _⟩
    obtain ⟨k', saved, hend, hadvances⟩ := hready.play late
    have hsaved := hadvances.saved_eq
    rw [hnone, List.nil_append] at hsaved
    have hperm := hend.saved_of_ended hended
    obtain ⟨first, last, hboth⟩ := List.length_eq_two.1 hperm.length_eq
    refine ⟨first, last, hboth ▸ hperm, hboth, ?_⟩
    have hids := hadvances.ids
    rw [← hsaved, hboth, List.forall_mem_cons, List.forall_mem_singleton] at hids
    have hkeeping (t : Table String Execution) :
        (d.keeping t).play late = (d.play late).keeping (t.put e.id last) := by
      rw [hadvances.keeping t, ← hsaved, hboth]
      change (d.play late).keeping ((t.put first.id first).put last.id last) = _
      rw [hids.1, hids.2, Table.put_put]
    refine ⟨?_, hkeeping⟩
    have hsame := congrArg (·.engine.stored? e.id) (hkeeping d.engine.memory.executions)
    exact hsame.trans (Table.get?_put_self ..)

end Duo

/-! ## Two signals at once -/

namespace Engine

/-- Two nodes wait for a signal each. -/
def twins : Workflow := .ofNodes
  [⟨"begin", "start", .map [], .null, .null⟩, ⟨"left", "wait", .map [], .null, .null⟩,
    ⟨"right", "wait", .map [], .null, .null⟩]
  [⟨"begin", "left", .null, .null⟩, ⟨"begin", "right", .null, .null⟩] []

/-- The engine when both of them wait. -/
def parted : Engine := (knowing twins).after (.ofActions []) (.execute twins .null .null)

def signalling (side : Side) : Turn :=
  .outside (fun g => { g with signals := g.signals.put "exec-1" side.text .null }) fun _ _ => rfl

/-- Both signals come, and both calls load the execution. -/
def bothLoad : List Turn := [signalling .left, signalling .right, .part .left, .part .right]

/-- The left call goes on to its end, and then the right one. -/
def bothEnd : List Turn := List.replicate 25 (.part .left) ++ List.replicate 25 (.part .right)

def resumingBoth : Duo := .resuming (.whole (.ofActions [])) parted "exec-1" Side.text

def overlapped : Duo := resumingBoth.play (bothLoad ++ bothEnd)

theorem overlap_bothLoad : resumingBoth.Overlap bothLoad := by
  refine ⟨fun side => ?_, List.isEmpty_iff.1 (by decide +kernel)⟩
  cases side <;> simp [bothLoad]

/-- The left call completes its node, and its signal is used up. What is kept in the end still waits for
it, though one call after the other completes both nodes. -/
theorem signal_lost_by_overlap : resumingBoth.Overlap bothLoad ∧
    overlapped.saved.map (fun e => (e.isCompleted "left", e.isCompleted "right")) =
      [(true, false), (false, true)] ∧
    overlapped.engine.signals.isEmpty = true ∧
    (overlapped.engine.stored? "exec-1").any (fun e => e.isWaiting "left" && e.isCompleted "right") = true ∧
    ([[Side.left, .right], [.right, .left]].all fun order =>
      ((parted.run (.ofActions []) (order.map fun side =>
        .deliverSignal "exec-1" side.text .null)).stored? "exec-1").any
          fun e => e.isCompleted "left" && e.isCompleted "right") = true :=
  ⟨overlap_bothLoad, by decide +kernel⟩

/-- What is kept in the end is what one of the two calls comes to. -/
theorem overlapping_resumes_keep_last_parted : ∃ e r, parted.stored? e.id = some e ∧
    resumingBoth.Overlap bothLoad ∧ overlapped.Ended r ∧
    ∃ first last, [first, last].Perm [r .left, r .right] ∧ overlapped.saved = [first, last] ∧
      overlapped.engine.stored? e.id = some last := by
  have hstored : (parted.stored? "exec-1").any (fun e => decide (e.id = "exec-1")) = true := by
    decide +kernel
  obtain ⟨e, hstored, hid⟩ := (Option.any_eq_true _ _).1 hstored
  have hid := of_decide_eq_true hid
  obtain ⟨r, hended⟩ := Duo.ended_of_result? (d := overlapped) fun side => by
    cases side <;> decide +kernel
  rw [← hid] at hstored
  obtain ⟨-, hkeeps⟩ := Duo.overlapping_resumes_keep_last (.whole (.ofActions [])) hstored Side.text
  rw [hid] at hkeeps
  obtain ⟨first, last, hperm, hsaved, hkept, -⟩ := hkeeps bothLoad bothEnd r overlap_bothLoad hended
  exact ⟨e, r, hstored, overlap_bothLoad, hended, first, last, hperm, hsaved, hid ▸ hkept⟩

end Engine

end Flowline
