import Xtern.Discipline

/-! # The process: every thread, interleaved

`Sys` is the runtime state together with the point each thread is at. The process moves by one
of four rules: a thread in application code makes a call the program allows (`app`); a thread
takes its next step (`Xtern.step`) when it can (`Sys.ready`); the scheduler promotes a waiter
whose deadline has passed; or, with the run queue empty, it promotes the waiter with the
smallest deadline. Every interleaving the operating system may choose is a sequence of these
moves.

A step that needs the turn (`get`, and `parked` once released) needs the thread at the head of
the run queue. A created thread starts (`zombie`, `threadBegin`'s `sem_wait(&thread_begin_sem)`)
once its parent has spawned it natively and posted `thread_begin_sem`, and the parent leaves
`pthreadCreate` once the child has posted `thread_begin_done_sem`. After a `fork`, the child
process has only the thread that forked: the other threads are `absent` and take no step that
runs without the turn, and the run queue holds only the forking thread, so they take none that
needs it.

`Reachable` is the set of states the moves reach from `Sys.init`, where `n` threads are in
application code and in the run queue. `exec` runs a given sequence of moves, so that a
particular interleaving can be evaluated; `exec_reachable` says that what it reaches is
reachable. -/

namespace Xtern

/-- The process: the runtime state and the point each thread is at. -/
structure Sys where
  rt : Rt
  pc : Tid → Pc

namespace Sys

/-- The process at start: threads `0 … n-1` in application code and in the run queue, in order;
ids from `n` on are not threads. -/
def init (env : Env) (n : Nat) : Sys :=
  ⟨{ Rt.init env with sched := { Sched.init with runq := List.range n, nthread := n } },
    fun u => if u < n then .ret none 0 else .zombie⟩

/-- Thread `t` can take its next step: a point that waits for the turn (`get`, or `parked` once
released) needs `t` at the head of the run queue; a thread not started needs its spawn and a post
of `thread_begin_sem`, and a parent in `sem_wait(&thread_begin_done_sem)` a post of it; a thread
the process no longer has after a `fork` takes no step that runs without the turn; application
code and an ended process take none. -/
def ready (s : Sys) (t : Tid) : Bool :=
  match s.pc t with
  | .get _ | .parked _ => decide (s.rt.sched.runq.head? = some t)
  | .zombie => s.rt.pending t && 0 < s.rt.beginSem
  | .post .beginDone => !s.rt.absent t && 0 < s.rt.doneSem
  | .ioCall _ _ | .nonDetEnd | .post _ | .blocked _ => !s.rt.absent t
  | .ret _ _ | .aborted => false
  | .call _ | .native _ => true

/-- The next step of thread `t`. -/
def runStep (o : Options) (s : Sys) (t : Tid) : Sys :=
  ⟨(step o t (s.pc t) s.rt).2.1, Function.update s.pc t (step o t (s.pc t) s.rt).1⟩

/-- A promotion by the scheduler. -/
def promote (s : Sys) (w : Waiter) : Sys := ⟨s.rt.mapSched (·.promote w), s.pc⟩

end Sys

/-- One move of the process. -/
inductive Step (o : Options) (app : Pc → Bool) : Sys → Sys → Prop
  | call {s : Sys} {t : Tid} {c : Option Call} {v : Int} {p : Pc} :
      s.pc t = .ret c v → app p → Step o app s ⟨s.rt, Function.update s.pc t p⟩
  | run {s : Sys} {t : Tid} : s.ready t → Step o app s (s.runStep o t)
  | expire {s : Sys} {w : Waiter} : s.rt.sched.Expired w → Step o app s (s.promote w)
  | deadlock {s : Sys} {w : Waiter} : s.rt.sched.Deadlocked w → Step o app s (s.promote w)

/-- The states the moves reach from `s₀`. -/
inductive Reachable (o : Options) (app : Pc → Bool) (s₀ : Sys) : Sys → Prop
  | init : Reachable o app s₀ s₀
  | step {s s' : Sys} : Reachable o app s₀ s → Step o app s s' → Reachable o app s₀ s'

/-- A move chosen by the interleaving. -/
inductive Move where
  | call (t : Tid) (p : Pc)
  | run (t : Tid)
  | promote (w : Waiter)
  deriving Repr

namespace Sys

/-- The state a move leads to, when the move is allowed. -/
def move (o : Options) (app : Pc → Bool) (s : Sys) : Move → Option Sys
  | .call t p =>
    match s.pc t with
    | .ret _ _ => if app p then some ⟨s.rt, Function.update s.pc t p⟩ else none
    | _ => none
  | .run t => if s.ready t then some (s.runStep o t) else none
  | .promote w =>
    if s.rt.sched.Expired w ∨ s.rt.sched.Deadlocked w then some (s.promote w) else none

/-- Runs a sequence of moves. -/
def exec (o : Options) (app : Pc → Bool) : List Move → Sys → Option Sys
  | [], s => some s
  | m :: ms, s => (s.move o app m).bind (exec o app ms)

theorem move_step {o : Options} {app : Pc → Bool} {s s' : Sys} {m : Move}
    (h : s.move o app m = some s') : Step o app s s' := by
  cases m with
  | call t p =>
    simp only [move] at h
    split at h
    · split_ifs at h with ha
      cases h
      exact .call ‹_› ha
    · cases h
  | run t =>
    simp only [move] at h
    split_ifs at h with hr
    cases h
    exact .run hr
  | promote w =>
    simp only [move] at h
    split_ifs at h with hw
    cases h
    exact hw.elim .expire .deadlock

end Sys

theorem exec_reachable {o : Options} {app : Pc → Bool} {s₀ : Sys} :
    ∀ {ms : List Move} {s s' : Sys}, Reachable o app s₀ s → s.exec o app ms = some s' →
      Reachable o app s₀ s'
  | [], _, _, hs, h => by cases h; exact hs
  | m :: ms, s, s', hs, h => by
    simp only [Sys.exec, Option.bind_eq_some] at h
    obtain ⟨s1, h1, h2⟩ := h
    exact exec_reachable (hs.step (Sys.move_step h1)) h2

/-- What a sequence of moves allowed from `s₀` reaches is reachable. -/
theorem exec_get_reachable {o : Options} {app : Pc → Bool} {s₀ : Sys} (ms : List Move)
    (h : (s₀.exec o app ms).isSome) : Reachable o app s₀ ((s₀.exec o app ms).get h) :=
  exec_reachable .init (Option.some_get h).symm

end Xtern
