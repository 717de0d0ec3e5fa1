import Xtern.CondVar
import Xtern.Tables

/-! # A thread waits in `tern_non_det_start` until the run queue empties

`tern_non_det_start` parks its thread on `nonDetCV` with no timeout, and no code signals
`nonDetCV`: "all non-det operations are blocked on this fake var until runq is empty, i.e., all
valid (except idle thread) xtern threads are paused". So the only move that takes a waiter on
`nonDetCV` out of the wait queue is the scheduler's deadlock rule, which fires when the run queue
is empty (`nonDetStart_waitsForIdle`). This holds of every program in the parent of every fork; in
the child, `childForkReturn` drops every other thread, waiters included.

`Ev.ndKeeps_apply` says so call by call: a call keeps every waiter on `nonDetCV` in the wait queue
and adds none with a deadline; `step_ndKeeps` lifts it to a step. -/

namespace Xtern

/-- Every waiter on `nonDetCV` waits with no deadline. -/
def Sched.NdCalm (s : Sched) : Prop := ∀ w ∈ s.waitq, w.chan = .nonDet → w.deadline = none

/-- Waking waiters, none of which is on `nonDetCV`, keeps the waiters on it. -/
theorem Sched.wake_keeps_nonDet {s : Sched} {ws : List Waiter}
    (hws : ∀ w ∈ ws, w.chan ≠ .nonDet) (res : WaitRes) :
    ∀ w ∈ s.waitq, w.chan = .nonDet → w ∈ (s.wake ws res).waitq := fun w hw hc => by
  by_contra hn
  exact hws w (Sched.mem_wake hw hn) hc

/-- A signal on any channel but `nonDetCV` keeps `NdCalm` and the waiters on `nonDetCV`. -/
theorem Sched.signal_ndKeeps {s : Sched} (h : s.NdCalm) {ch : Chan} (hch : ch ≠ .nonDet)
    (all : Bool) : (s.signal ch all).NdCalm ∧
      ∀ w ∈ s.waitq, w.chan = .nonDet → w ∈ (s.signal ch all).waitq :=
  ⟨fun w hw => h w (List.mem_filter.1 hw).1, Sched.wake_keeps_nonDet
    (fun _ hw hc => hch ((Sched.mem_signalled hw).2.symm.trans hc)) .ok⟩

/-- Every call keeps every waiter on `nonDetCV` in the wait queue and adds none with a deadline,
in the parent of every fork: a wait on `nonDetCV` has no deadline, no code signals it, and
`childForkReturn` runs only in the child. -/
theorem Ev.ndKeeps_apply {p : Pc} {x : Rt} {e : Ev} (t : Tid) (ha : p.Allows x e)
    (hf : ∀ n, x.env.forkRet n ≠ 0) (h : x.sched.NdCalm) : (e.apply t x).sched.NdCalm ∧
      ∀ w ∈ x.sched.waitq, w.chan = .nonDet → w ∈ (e.apply t x).sched.waitq := by
  have frame (hq : (e.apply t x).sched.waitq = x.sched.waitq) :
      (e.apply t x).sched.NdCalm ∧
        ∀ w ∈ x.sched.waitq, w.chan = .nonDet → w ∈ (e.apply t x).sched.waitq :=
    ⟨fun w hw => h w (hq ▸ hw), fun _ hw _ => hq ▸ hw⟩
  cases e with
  | signal ch all => exact Sched.signal_ndKeeps h ha all
  | endTurn => exact Sched.signal_ndKeeps h (show Chan.thread t ≠ .nonDet from Chan.noConfusion) true
  | wait ch dl =>
    refine ⟨fun w hw hc => (List.mem_append.1 hw).elim (h w · hc) fun e => ?_,
      fun _ hw _ => List.mem_append_left _ hw⟩
    rw [List.mem_singleton.1 e] at hc ⊢
    exact (ha.1 hc).2
  | childForkReturn => exact absurd ha.2 (hf _)
  | putTurn => exact frame (Sched.putTurn_waitq _)
  | native n => exact frame (by cases n <;> rfl)
  | mutate w => exact frame (by cases w <;> rfl)
  | getTurn | incTurnCount | block | wakeup | create | join | logSync | setInNonDet => exact frame rfl

/-- Every step keeps them, in the parent of every fork. -/
theorem step_ndKeeps (o : Options) (t : Tid) (p : Pc) {r : Rt} (hf : ∀ n, r.env.forkRet n ≠ 0)
    (h : r.sched.NdCalm) : (step o t p r).2.1.sched.NdCalm ∧
      ∀ w ∈ r.sched.waitq, w.chan = .nonDet → w ∈ (step o t p r).2.1.sched.waitq :=
  (step_keeps (fun x => (∀ n, x.env.forkRet n ≠ 0) ∧ x.sched.NdCalm ∧
      ∀ w ∈ r.sched.waitq, w.chan = .nonDet → w ∈ x.sched.waitq) o t p
    (fun x e ha ⟨hf, h, hk⟩ =>
      have he := Ev.ndKeeps_apply t ha hf h
      ⟨Ev.env_apply t e x ▸ hf, he.1, fun w hw hc => he.2 w (hk w hw hc) hc⟩)
    ⟨hf, h, fun _ hw _ => hw⟩).2

/-! ### The whole process -/

/-- A move keeps `NdCalm`, and keeps every waiter on `nonDetCV` in the wait queue unless it is
the deadlock rule's promotion of that waiter, in the parent of every fork. -/
theorem Step.ndCalm {o : Options} {app : Pc → Bool} {s s' : Sys} (hs : Step o app s s')
    (hf : ∀ n, s.rt.env.forkRet n ≠ 0) (h : s.rt.sched.NdCalm) :
    s'.rt.sched.NdCalm ∧ ∀ w ∈ s.rt.sched.waitq, w.chan = .nonDet →
      w ∈ s'.rt.sched.waitq ∨ (s.rt.sched.Deadlocked w ∧ s' = s.promote w) := by
  have hpromote : ∀ w', (s.promote w').rt.sched.NdCalm ∧ ∀ w ∈ s.rt.sched.waitq, w ≠ w' →
      w ∈ (s.promote w').rt.sched.waitq := fun w' =>
    ⟨fun w hw => h w (List.mem_filter.1 hw).1, fun w hw hne =>
      List.mem_filter.2 ⟨hw, by simpa using hne⟩⟩
  cases hs with
  | call => exact ⟨h, fun _ hw _ => .inl hw⟩
  | @run t _ =>
    obtain ⟨h', hk⟩ := step_ndKeeps o t _ hf h
    exact ⟨h', fun w hw hc => .inl (hk w hw hc)⟩
  | @expire w' hx =>
    refine ⟨(hpromote w').1, fun w hw hc => .inl <| (hpromote w').2 w hw fun e => ?_⟩
    have hd := hx.2
    rw [← e] at hd
    simp [Waiter.due, h w hw hc] at hd
  | @deadlock w' hd =>
    refine ⟨(hpromote w').1, fun w hw _ => ?_⟩
    by_cases e : w = w'
    · exact .inr ⟨e ▸ hd, e ▸ rfl⟩
    · exact .inl ((hpromote w').2 w hw e)

theorem Reachable.ndCalm {o : Options} {app : Pc → Bool} {env : Env} {n : Nat} {s : Sys}
    (hf : ∀ n, env.forkRet n ≠ 0) (h : Reachable o app (Sys.init env n) s) : s.rt.sched.NdCalm := by
  induction h with
  | init => exact nofun
  | step hr hs ih => exact (hs.ndCalm (hr.env_eq ▸ hf) ih).1

/-- A thread waiting in `tern_non_det_start` is released only once the run queue is empty:
whatever the program, in the parent of every fork, a move that takes a waiter on `nonDetCV` out of
the wait queue is the deadlock rule's promotion of that waiter, with the run queue empty and the
waiter first in the rule's order (the smallest deadline, then the smallest id). -/
theorem nonDetStart_waitsForIdle {o : Options} {app : Pc → Bool} {env : Env} {n : Nat}
    {s s' : Sys} (hf : ∀ n, env.forkRet n ≠ 0) (h : Reachable o app (Sys.init env n) s)
    (hs : Step o app s s') {w : Waiter} (hw : w ∈ s.rt.sched.waitq) (hc : w.chan = .nonDet)
    (hw' : w ∉ s'.rt.sched.waitq) : s.rt.sched.Deadlocked w ∧ s' = s.promote w :=
  ((hs.ndCalm (h.env_eq ▸ hf) (h.ndCalm hf)).2 w hw hc).resolve_left hw'

/-- Thread `0` waits in `tern_non_det_start` while thread `1` runs; once thread `1` has ended, the
run queue is empty and the deadlock rule releases thread `0`. -/
theorem nonDetStart_waitsForIdle_run :
    let o : Options := ⟨false, true, false, 1000, false, false⟩
    let s := ((Sys.init ⟨⟨0, 0⟩, fun _ => 1, fun _ => false, false, false⟩ 2).exec o anyCall
      [.call 0 (.call .nonDetStart), .run 0, .run 0, .call 1 (.call .threadEnd), .run 1,
        .run 1]).get (by decide)
    let w : Waiter := ⟨0, .nonDet, none⟩
    s.rt.sched.runq = [] ∧ s.rt.sched.Deadlocked w ∧ w ∉ (s.promote w).rt.sched.waitq :=
  ⟨by decide, (nonDetStart_waitsForIdle (w := ⟨0, .nonDet, none⟩) (fun _ => one_ne_zero)
    (exec_get_reachable _ _) (.deadlock (w := ⟨0, .nonDet, none⟩) (by decide)) (by decide) rfl
    (by decide)).1, by decide⟩

end Xtern
