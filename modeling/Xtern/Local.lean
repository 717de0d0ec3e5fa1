import Xtern.Tables
import Xtern.Wakeup

/-! # Out-of-turn code

A wrapper's entry, up to `SCHED_GET_TURN`, runs without the turn and writes no shared state: it
reads the options and the thread's own `inNonDet`, and either goes to the turn, passes through
to the native call, or ends the process. With a call from application code it makes the local
moves of a thread (`Sys.localMove`): a local move leaves the runtime state as it is, and what it
does depends on the thread's point and its own `inNonDet` only. No other thread and no promotion
writes either (`move_keeps`).

So when the operating system lets a thread make a local move does not matter: a local move
commutes with every move of another thread and with every promotion (`exec_swap_local`), and can
be put off past any sequence of them (`exec_local_comm`). The moves whose order can matter are
the turn sections, which only the head of the run queue runs, the promotions, and the
out-of-turn code that touches shared state: the `pthread_create` hand-off on the two
semaphores, the I/O wrappers' `block` and `wakeup`, the non-det regions' `inNonDet`, and the
native calls a wrapper passes through to. -/

namespace Xtern

/-- Points whose step runs without the turn and changes no shared state: a wrapper's entry. -/
def Pc.isLocal : Pc → Bool
  | .call _ => true
  | _ => false

/-- The thread a move belongs to; a promotion is the scheduler's. -/
def Move.tid : Move → Option Tid
  | .call t _ | .run t => some t
  | .promote _ => none

namespace Sys

/-- A move of a thread, out of the turn, that changes no shared state: a call from application
code, or the step from a wrapper's entry. -/
def localMove (s : Sys) : Move → Bool
  | .call _ _ => true
  | .run t => (s.pc t).isLocal
  | .promote _ => false

/-- The point a local move takes its thread to. -/
def localNext (o : Options) (app : Pc → Bool) (s : Sys) : Move → Option Pc
  | .call t p =>
    match s.pc t with
    | .ret _ _ => if app p then some p else none
    | _ => none
  | .run t => some (step o t (s.pc t) s.rt).1
  | .promote _ => none

end Sys

/-! ### A local step -/

/-- A thread's `inNonDet`, which only the thread itself writes. -/
theorem Ev.inNonDet_apply {u t : Tid} (hu : u ≠ t) (e : Ev) (x : Rt) :
    (e.apply u x).inNonDet t = x.inNonDet t := by
  cases e with
  | setInNonDet v => exact Function.update_noteq hu.symm _ _
  | native n => cases n <;> rfl
  | mutate w => cases w <;> rfl
  | _ => rfl

section Step

variable (o : Options) (t : Tid) {p : Pc}

theorem step_local_rt (hp : p.isLocal) (r : Rt) : (step o t p r).2.1 = r := by
  cases p
  case call c => exact congrArg Prod.fst (step_call_rt o t c r)
  all_goals exact absurd hp Bool.false_ne_true

/-- A local step reads the runtime state only through the thread's own `inNonDet`. -/
theorem step_local_pc (hp : p.isLocal) {r r' : Rt} (h : r'.inNonDet t = r.inNonDet t) :
    (step o t p r').1 = (step o t p r).1 := by
  cases p
  case call c =>
    rcases enter_eq o t c with e | ⟨-, e⟩ | e <;>
      simp only [step, e, schedGetTurn_run, nonDetOrTurn_run, inNonDetRegion, h]
    rfl
  all_goals exact absurd hp Bool.false_ne_true

end Step

/-! ### Local moves against the moves of the others -/

namespace Sys

variable {o : Options} {app : Pc → Bool} {s s₂ : Sys} {a b : Move} {t : Tid}

/-- A local move of `t` changes `t`'s point only. -/
theorem move_local (ha : s.localMove a) (ht : a.tid = some t) :
    s.move o app a = (s.localNext o app a).map fun q => ⟨s.rt, Function.update s.pc t q⟩ := by
  cases a with
  | call u p =>
    cases ht
    simp only [move, localNext]
    cases s.pc t <;> first | rfl | split_ifs <;> rfl
  | run u =>
    cases ht
    have hr : s.ready t := by
      simp only [localMove, Pc.isLocal] at ha
      simp only [ready]; split <;> simp_all
    simp only [move, hr, if_true, localNext, Option.map_some', runStep, step_local_rt o t ha]
  | promote => cases ht

/-- What a local move of `t` does depends on `t`'s point and `inNonDet` only. -/
theorem localNext_congr (ht : a.tid = some t) (hpc : s₂.pc t = s.pc t)
    (hnd : s₂.rt.inNonDet t = s.rt.inNonDet t) (ha : s.localMove a) :
    s₂.localNext o app a = s.localNext o app a := by
  cases a with
  | call u p => cases ht; simp only [localNext, hpc]
  | run u =>
    cases ht
    simp only [localNext, hpc]
    rw [step_local_pc o t ha hnd]
  | promote => cases ht

theorem localMove_congr (ht : a.tid = some t) (hpc : s₂.pc t = s.pc t) (ha : s.localMove a) :
    s₂.localMove a := by
  cases a with
  | call => rfl
  | run u => cases ht; rwa [localMove, hpc]
  | promote => cases ht

/-- A move not of `t` neither reads nor writes `t`'s point. -/
theorem move_update (hb : b.tid ≠ some t) (q : Pc) :
    (⟨s.rt, Function.update s.pc t q⟩ : Sys).move o app b =
      (s.move o app b).map fun s₂ => ⟨s₂.rt, Function.update s₂.pc t q⟩ := by
  cases b with
  | call u p =>
    have hu : u ≠ t := fun e => hb (e ▸ rfl)
    simp only [move, Function.update_noteq hu]
    split
    · split_ifs <;> simp [Function.update_comm hu]
    · rfl
  | run u =>
    have hu : u ≠ t := fun e => hb (e ▸ rfl)
    have hr : (⟨s.rt, Function.update s.pc t q⟩ : Sys).ready u = s.ready u := by
      simp only [ready, Function.update_noteq hu]
    simp only [move, hr]
    split_ifs
    · simp [runStep, Function.update_noteq hu, Function.update_comm hu]
    · rfl
  | promote w =>
    simp only [move]
    split_ifs <;> rfl

/-- A move not of `t` keeps `t`'s point and `t`'s `inNonDet`. -/
theorem move_keeps (hb : b.tid ≠ some t) (h : s.move o app b = some s₂) :
    s₂.pc t = s.pc t ∧ s₂.rt.inNonDet t = s.rt.inNonDet t := by
  cases b with
  | call u p =>
    have hu : u ≠ t := fun e => hb (e ▸ rfl)
    simp only [move] at h
    split at h
    · split_ifs at h
      cases h
      exact ⟨Function.update_noteq hu.symm _ _, rfl⟩
    · cases h
  | run u =>
    have hu : u ≠ t := fun e => hb (e ▸ rfl)
    simp only [move] at h
    split_ifs at h
    cases h
    refine ⟨Function.update_noteq hu.symm _ _, ?_⟩
    exact step_frame (·.inNonDet t) o u _ _ fun x e _ => Ev.inNonDet_apply hu e x
  | promote w =>
    simp only [move] at h
    split_ifs at h
    cases h
    exact ⟨rfl, rfl⟩

/-- A local move and a move of another thread or of the scheduler, in either order, reach the
same state, or are both refused. -/
theorem exec_swap_local (ha : s.localMove a) (hb : b.tid ≠ a.tid) :
    s.exec o app [a, b] = s.exec o app [b, a] := by
  obtain ⟨t, ht⟩ : ∃ t, a.tid = some t := by
    cases a <;> first | exact ⟨_, rfl⟩ | exact absurd ha Bool.false_ne_true
  rw [ht] at hb
  simp only [exec, Option.bind_some, move_local ha ht]
  cases hb' : s.move o app b with
  | none => cases s.localNext o app a <;> simp [move_update hb, hb']
  | some s₂ =>
    obtain ⟨hpc, hnd⟩ := move_keeps hb hb'
    have ha₂ := localMove_congr ht hpc ha
    simp only [Option.some_bind, move_local ha₂ ht, localNext_congr ht hpc hnd ha]
    cases s.localNext o app a <;> simp [move_update hb, hb']

theorem exec_append (l₁ l₂ : List Move) (s : Sys) :
    s.exec o app (l₁ ++ l₂) = (s.exec o app l₁).bind (exec o app l₂) := by
  induction l₁ generalizing s with
  | nil => rfl
  | cons m ms ih => cases h : s.move o app m <;> simp [exec, h, ih]

/-- A local move can be put off past any moves of other threads and promotions: the process
reaches the same state either way. -/
theorem exec_local_comm (ha : s.localMove a) {ms : List Move} (hms : ∀ b ∈ ms, b.tid ≠ a.tid) :
    s.exec o app (a :: ms) = s.exec o app (ms ++ [a]) := by
  induction ms generalizing s with
  | nil => rfl
  | cons b ms ih =>
    obtain ⟨t, ht⟩ : ∃ t, a.tid = some t := by
      cases a <;> first | exact ⟨_, rfl⟩ | exact absurd ha Bool.false_ne_true
    have hb := hms b (List.mem_cons_self _ _)
    calc s.exec o app (a :: b :: ms)
        = (s.exec o app [a, b]).bind (exec o app ms) := exec_append [a, b] ms s
      _ = (s.exec o app [b, a]).bind (exec o app ms) := by rw [exec_swap_local ha hb]
      _ = (s.move o app b).bind (exec o app (a :: ms)) := (exec_append [b, a] ms s).symm
      _ = s.exec o app (b :: ms ++ [a]) := by
        cases hb' : s.move o app b with
        | none => simp [exec, hb']
        | some s₂ =>
          have ha₂ := localMove_congr ht (move_keeps (ht ▸ hb) hb').1 ha
          rw [Option.some_bind, ih ha₂ fun b' h => hms b' (List.mem_cons_of_mem _ h)]
          simp only [List.cons_append, exec, hb', Option.some_bind, List.append_eq]

/-- Thread `1`'s call of `pthread_mutex_lock`, put off until thread `0` has called it, entered it
and taken mutex `0`: the process reaches the same state either way. -/
theorem exec_local_comm_lockRun :
    let s := Sys.init ⟨⟨0, 0⟩, fun _ => 1, fun _ => false, false, false⟩ 2
    let o : Options := ⟨false, false, false, 1000, true, false⟩
    let a : Move := .call 1 (.call (.pthreadMutexLock 0))
    let ms : List Move := [.call 0 (.call (.pthreadMutexLock 0)), .run 0, .run 0]
    s.localMove a ∧ (∀ b ∈ ms, b.tid ≠ a.tid) ∧
      s.exec o (fun _ => true) (a :: ms) = s.exec o (fun _ => true) (ms ++ [a]) :=
  ⟨rfl, by decide, exec_local_comm (by decide) (by decide)⟩

end Sys

end Xtern
