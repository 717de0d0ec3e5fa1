import Xtern.CondVar
import Xtern.Tables

/-! # A waiter is released by a signal on its channel, or by a timeout

`_S::wait(chan, timeout)` returns `OK` to a thread that another thread released with
`_S::signal(chan)`, or that it waits to join and that ended (`putTurn(true)` signals the ended
thread's channel), and `TIMEOUT` to a thread that the scheduler promoted, because its deadline has
passed or because the run queue is empty. `wait_released` says so of every move of every program,
in the parent of every fork: a move that takes a waiter out of the wait queue is either a step of a
thread whose code signals the waiter's channel, or ends the thread the waiter joins, and the
waiter's result is `OK`; or the scheduler's promotion of that waiter, expired or picked by the
deadlock rule, with result `TIMEOUT`.

`ReleaseOk` says what `t`'s calls may do to the waiters; `Ev.releaseOk` proves it of every call
and `ReleaseOk.trans` composes it along a step's calls (`step_releaseOk`). -/

namespace Xtern

/-- What `t`'s code does to the waiters, from `r` to `r'` with the calls `es`: it keeps the
environment, sets no wait result but `OK`, and takes a waiter out of the wait queue only with a
signal on the waiter's channel, or at the end of `t` for a waiter that joins `t`, with result
`OK`. -/
structure ReleaseOk (t : Tid) (r r' : Rt) (es : List Ev) : Prop where
  env : r'.env = r.env
  wakeRes : ∀ u, r'.sched.wakeRes u = r.sched.wakeRes u ∨ r'.sched.wakeRes u = .ok
  released : ∀ w ∈ r.sched.waitq, w ∉ r'.sched.waitq →
    ((∃ all, Ev.signal w.chan all ∈ es) ∨ w.chan = .thread t) ∧ r'.sched.wakeRes w.tid = .ok

namespace ReleaseOk

variable {t : Tid} {r r' r'' : Rt} {es es' : List Ev}

theorem refl (hw : r'.sched.waitq = r.sched.waitq) (hr : r'.sched.wakeRes = r.sched.wakeRes)
    (he : r'.env = r.env) : ReleaseOk t r r' es :=
  ⟨he, fun u => .inl (congrFun hr u), fun _ hw₁ hw₂ => absurd (hw ▸ hw₁) hw₂⟩

/-- Two pieces of code in a row. -/
theorem trans (h₁ : ReleaseOk t r r' es) (h₂ : ReleaseOk t r' r'' es') :
    ReleaseOk t r r'' (es ++ es') where
  env := h₂.env.trans h₁.env
  wakeRes u := (h₂.wakeRes u).elim (fun e => (h₁.wakeRes u).imp e.trans e.trans) .inr
  released w hw hw'' := by
    by_cases hw' : w ∈ r'.sched.waitq
    · obtain ⟨hs, hok⟩ := h₂.released w hw' hw''
      exact ⟨hs.imp_left fun ⟨all, h⟩ => ⟨all, List.mem_append_right _ h⟩, hok⟩
    · obtain ⟨hs, hok⟩ := h₁.released w hw hw'
      exact ⟨hs.imp_left fun ⟨all, h⟩ => ⟨all, List.mem_append_left _ h⟩,
        (h₂.wakeRes w.tid).elim (·.trans hok) id⟩

end ReleaseOk

/-! ### The calls that release waiters -/

/-- Waking waiters sets their result, and only theirs. -/
theorem Sched.wake_wakeRes (s : Sched) (ws : List Waiter) (res : WaitRes) (u : Tid) :
    (s.wake ws res).wakeRes u = s.wakeRes u ∨ (s.wake ws res).wakeRes u = res := by
  simp only [Sched.wake]
  split_ifs
  exacts [.inr rfl, .inl rfl]

/-- A waker releases exactly the waiters it was given, with its result. -/
theorem Sched.wake_released {s : Sched} {ws : List Waiter} {res : WaitRes} {w : Waiter}
    (hw : w ∈ s.waitq) (hw' : w ∉ (s.wake ws res).waitq) :
    w ∈ ws ∧ (s.wake ws res).wakeRes w.tid = res :=
  have hws := Sched.mem_wake hw hw'
  ⟨hws, if_pos (List.mem_map_of_mem _ hws)⟩

/-- A signal releases waiters on its channel only, with result `OK`. -/
theorem Sched.signal_released {s : Sched} (ch : Chan) (all : Bool) {w : Waiter} (hw : w ∈ s.waitq)
    (hw' : w ∉ (s.signal ch all).waitq) : w.chan = ch ∧ (s.signal ch all).wakeRes w.tid = .ok :=
  have h := Sched.wake_released hw hw'
  ⟨(Sched.mem_signalled h.1).2, h.2⟩

/-- Every call releases waiters only by a signal on their channel or at the end of `t`, in the
parent of every fork: `childForkReturn`, which drops every waiter, runs only in the child. -/
theorem Ev.releaseOk {p : Pc} {x : Rt} {e : Ev} (t : Tid) (ha : p.Allows x e)
    (hf : ∀ n, x.env.forkRet n ≠ 0) : ReleaseOk t x (e.apply t x) [e] := by
  cases e with
  | signal ch all =>
    refine ⟨rfl, fun u => Sched.wake_wakeRes _ _ _ u, fun w hw hw' => ?_⟩
    obtain ⟨hc, hok⟩ := Sched.signal_released ch all hw hw'
    exact ⟨.inl ⟨all, hc ▸ List.mem_singleton_self _⟩, hok⟩
  | endTurn =>
    refine ⟨rfl, fun u => Sched.wake_wakeRes _ _ _ u, fun w hw hw' => ?_⟩
    obtain ⟨hc, hok⟩ := Sched.signal_released (.thread t) true hw hw'
    exact ⟨.inr hc, hok⟩
  | wait ch dl =>
    exact ⟨rfl, fun _ => .inl rfl, fun _ hw hw' => absurd (List.mem_append_left _ hw) hw'⟩
  | childForkReturn => exact absurd ha.2 (hf _)
  | putTurn => exact .refl (Sched.putTurn_waitq _) (Sched.putTurn_wakeRes _) rfl
  | native n => exact .refl (by cases n <;> rfl) (by cases n <;> rfl) (Ev.env_apply t _ x)
  | mutate w => exact .refl (by cases w <;> rfl) (by cases w <;> rfl) (Ev.env_apply t _ x)
  | getTurn | incTurnCount | block | wakeup | create | join | logSync | setInNonDet =>
    exact .refl rfl rfl rfl

/-- The calls a step accepts release waiters only so. -/
theorem Acc.releaseOk {t : Tid} {p : Pc} {g g' : Gh} {x : Rt} {es : List Ev}
    (h : Acc t p g x es g') : (∀ n, x.env.forkRet n ≠ 0) → ReleaseOk t x (replay t x es) es := by
  induction h with
  | nil => exact fun _ => .refl rfl rfl rfl
  | cons ha _ _ ih =>
    intro hf
    have h₁ := Ev.releaseOk t ha hf
    exact h₁.trans (ih (h₁.env ▸ hf))

/-- Every step releases waiters only so, in the parent of every fork. -/
theorem step_releaseOk (o : Options) (t : Tid) (p : Pc) (r : Rt) (hf : ∀ n, r.env.forkRet n ≠ 0) :
    ReleaseOk t r (step o t p r).2.1 (step o t p r).2.2 := by
  obtain ⟨g', hacc, hrep, -⟩ := step_spec o t (Gh.start_starts o p.holdOk_holdAt) r
  rw [hrep]
  exact hacc.releaseOk hf

/-! ### The whole process -/

/-- The promotion of `w'` releases `w'` alone, with result `TIMEOUT`. -/
theorem Sys.promote_released {s : Sys} {w w' : Waiter} (hw : w ∈ s.rt.sched.waitq)
    (hw' : w ∉ (s.promote w').rt.sched.waitq) :
    w = w' ∧ (s.promote w').rt.sched.wakeRes w.tid = .timedout :=
  have h := Sched.wake_released hw hw'
  ⟨List.mem_singleton.1 h.1, h.2⟩

end Xtern
