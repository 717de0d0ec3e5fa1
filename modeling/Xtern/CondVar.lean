import Xtern.Log
import Xtern.Wakeup

/-! # Condition variables

`pthreadCondWait` unlocks the mutex, signals it, logs the first half of the wait and parks on
the condition variable, all in the one step from its `SCHED_GET_TURN` to its `wait`, holding the
turn throughout (`condWait_step`). So the waiters of a condition variable stand in the wait
queue in the order of their first halves (`CondFifo`), and `pthreadCondSignal`, which signals
the first waiter on the channel, releases the one with the earliest first half.

`Reachable.condInv` carries `CondFifo` over every reachable state of a lock program, together
with the records below the count, `Sys.HalfOk` and the waits each parked thread is in; it takes
the waiters' changes from `LockTx` (a move adds a waiter at the tail of the queue, or removes
signalled or promoted ones) and the records' from `Step.log_cases` and `Step.half_cases`. `condVar_fifo` collects what follows: the order of the waiters, what a signal and a
broadcast release, the only ways out of a condition variable's queue, and that every record
logged later, the second half of a released waiter among them, has a larger turn than any
logged before. -/

namespace Xtern

/-- The turn of the last record of thread `u` in `log`, `0` when it has none: for a thread parked
on a condition variable, the first half of its wait. -/
def lastTurn (log : List SyncRec) (u : Tid) : Nat :=
  ((log.filter (·.tid = u)).getLast?.map (·.turn)).getD 0

/-- The waiters on `ch`, in queue order. -/
def Sched.waitersOn (s : Sched) (ch : Chan) : List Waiter := s.waitq.filter (·.chan = ch)

/-- The waiters on each condition variable stand in the queue in the order of their first
halves. -/
def CondFifo (q : List Waiter) (log : List SyncRec) : Prop :=
  ∀ cv, ((q.filter (·.chan = .cond cv)).map (lastTurn log ·.tid)).Sorted (· < ·)

/-! ### The last turn of a thread -/

theorem lastTurn_le {n : Nat} {log : List SyncRec} (h : Below n log) (u : Tid) :
    lastTurn log u ≤ n := by
  unfold lastTurn
  cases he : (log.filter (·.tid = u)).getLast? with
  | none => exact Nat.zero_le _
  | some e => exact h.le e (List.mem_of_mem_filter (List.mem_of_getLast?_eq_some he))

theorem lastTurn_of_getLast {log : List SyncRec} {u : Tid} {e : SyncRec}
    (h : (log.filter (·.tid = u)).getLast? = some e) : lastTurn log u = e.turn := by
  simp [lastTurn, h]

theorem lastTurn_append_of {log l : List SyncRec} {u : Tid} (hl : ∀ e ∈ l, e.tid ≠ u) :
    lastTurn (log ++ l) u = lastTurn log u := by
  have hn : l.filter (·.tid = u) = [] := List.filter_eq_nil_iff.2 (by simpa using hl)
  rw [lastTurn, List.filter_append, hn, List.append_nil, lastTurn]

/-! ### The waits of the threads parked on a condition variable -/

/-- A wait on a condition variable is inside `pthread_cond_wait` or `pthread_cond_timedwait`,
between the halves of its record group. -/
def Resume.InCondWait : Resume → Prop
  | .condWoken _ _ c => c.grp = .half .pthreadCondWait ∨ c.grp = .half .pthreadCondTimedwait
  | _ => True

/-- A step parks only where a wrapper's code parks or a wait's code parks again. -/
theorem Next.inCondWait {p : Pc} {k : Resume} (h : Next p (.parked k))
    (hp : ∀ k₀, p = .parked k₀ → k₀.InCondWait) : k.InCondWait := by
  cases h with
  | park hc =>
    unfold Call.Parks at hc
    split at hc <;> first
      | exact hc.elim
      | (subst hc; simp [Resume.InCondWait, Call.grp])
      | (obtain ⟨_, rfl⟩ := hc; trivial)
  | @repark k₀ _ hr =>
    unfold Resume.Reparks at hr
    split at hr <;> first
      | exact hr.elim
      | (obtain ⟨_, rfl⟩ := hr; trivial)
      | (subst hr; exact hp _ rfl)

/-- A thread parked on a condition variable is between the halves of a condition wait. -/
theorem Resume.InCondWait.grp {k : Resume} (h : k.InCondWait) {cv : Nat} (hc : k.chan = .cond cv) :
    ∃ op, (op = .pthreadCondWait ∨ op = .pthreadCondTimedwait) ∧ (Pc.parked k).grpAt = .half op := by
  cases k <;> simp only [Resume.chan, reduceCtorEq] at hc
  rcases h with h | h
  exacts [⟨_, .inl rfl, h⟩, ⟨_, .inr rfl, h⟩]

/-- Every parked thread waits inside a condition wait when it waits on a condition variable. -/
def Sys.CondWaits (s : Sys) : Prop := ∀ u k, s.pc u = .parked k → k.InCondWait

theorem Sys.CondWaits.step {o : Options} {app : Pc → Bool}
    (happ : ∀ p, app p = true → ∃ c, p = .call c) {s s' : Sys} (hs : s.CondWaits)
    (h : Step o app s s') : s'.CondWaits := fun u k hu => by
  cases h with
  | @call t _ _ p _ ha =>
    simp only [Function.update_apply] at hu
    split_ifs at hu
    · obtain ⟨c, rfl⟩ := happ p ha; cases hu
    · exact hs u k hu
  | expire | deadlock => exact hs u k hu
  | @run t _ =>
    simp only [Sys.runStep, Function.update_apply] at hu
    split_ifs at hu with hut
    · subst hut
      exact (hu ▸ step_next o u (s.pc u) s.rt).inCondWait (hs u)
    · exact hs u k hu

/-! ### The order of the waiters -/

namespace CondFifo

variable {q q' : List Waiter} {log : List SyncRec}

theorem nil : CondFifo [] log := fun _ => List.sorted_nil

theorem sublist (h : CondFifo q log) (hs : q'.Sublist q) : CondFifo q' log :=
  fun cv => (h cv).sublist ((hs.filter _).map _)

/-- A waiter at the tail of the queue keeps the order if its first half is later than those of
the waiters on its channel. -/
theorem snoc {w : Waiter} (h : CondFifo q log)
    (hw : ∀ cv, w.chan = .cond cv → ∀ w' ∈ q, w'.chan = .cond cv →
      lastTurn log w'.tid < lastTurn log w.tid) : CondFifo (q ++ [w]) log := fun cv => by
  rw [List.filter_append, List.map_append]
  refine List.pairwise_append.2 ⟨h cv, ?_, ?_⟩
  · exact (List.pairwise_singleton _ _).sublist ((List.filter_sublist _).map _)
  · intro a ha b hb
    obtain ⟨w', hw', rfl⟩ := List.mem_map.1 ha
    obtain ⟨w'', hw'', rfl⟩ := List.mem_map.1 hb
    obtain rfl := List.mem_singleton.1 (List.mem_of_mem_filter hw'')
    exact hw cv (by simpa using (List.mem_filter.1 hw'').2) w' (List.mem_of_mem_filter hw')
      (by simpa using (List.mem_filter.1 hw').2)

end CondFifo

/-! ### What a move does to the wait queue -/

theorem Sched.mem_wake {s : Sched} {ws : List Waiter} {r : WaitRes} {w : Waiter} (hw : w ∈ s.waitq)
    (hn : w ∉ (s.wake ws r).waitq) : w ∈ ws := by
  by_contra h
  exact hn (List.mem_filter.2 ⟨hw, by simpa using h⟩)

namespace LockTx

variable {s s' : Sys}

/-- A move leaves the wait queue alone or removes waiters from it, or adds one at its tail: on a
lock the parking thread will retry, or, for the head in the code of a wrapper, on a condition
variable after the first half of its wait. -/
theorem waitq_cases (h : LockTx s s') :
    s'.rt.sched.waitq.Sublist s.rt.sched.waitq ∨
    (∃ t ch dl, s'.rt.sched.waitq = s.rt.sched.waitq ++ [⟨t, ch, dl⟩] ∧ ∀ cv, ch ≠ .cond cv) ∨
    (∃ t cv dl q k, q.Sublist s.rt.sched.waitq ∧ s'.rt.sched.waitq = q ++ [⟨t, .cond cv, dl⟩] ∧
      s.Head t ∧ (∃ c, s.pc t = .get (.body c)) ∧ s'.pc t = .parked k ∧ k.chan = .cond cv) := by
  cases h with
  | move | finish | acquire | take => exact .inl (by simp)
  | @park t ch dl k _ _ _ _ hr _ =>
    refine .inr (.inl ⟨t, ch, dl, rfl, fun cv e => ?_⟩)
    subst e
    cases k <;> simp [Resume.retry] at hr
  | release | post | notify | condAbort | promote =>
    exact .inl (by simp [Sys.promote, Sched.signal, Sched.wake, Sched.promote, List.filter_sublist])
  | @condWait t cv mu dl k hh _ hk _ hc =>
    exact .inr (.inr ⟨t, cv, dl, _, k, List.filter_sublist _, rfl, hh, hc,
      Function.update_same _ _ _, hk⟩)

/-- A waiter leaves a condition variable's queue only when the head, in `pthread_cond_signal` or
`pthread_cond_broadcast` on it, signals it, or when the scheduler promotes it. -/
theorem leave_cond (h : LockTx s s') {w : Waiter} {cv : Nat} (hw : w ∈ s.rt.sched.waitq)
    (hc : w.chan = .cond cv) (hn : w ∉ s'.rt.sched.waitq) :
    (∃ t all, s.Head t ∧
      s.pc t = .get (.body (if all then .pthreadCondBroadcast cv else .pthreadCondSignal cv)) ∧
      w ∈ s.rt.sched.signalled (.cond cv) all) ∨
    s.rt.sched.Expired w ∨ s.rt.sched.Deadlocked w := by
  have hmu : ∀ mu, w ∉ s.rt.sched.signalled (.mutex mu) false := fun mu hm => by
    simpa [hc] using (Sched.mem_signalled hm).2
  cases h with
  | move | finish | acquire | take =>
    exact absurd (by simpa using hw) hn
  | park => exact absurd (by simp [Sched.park, hw]) hn
  | release | condAbort =>
    exact absurd (Sched.mem_wake hw (by simpa [Sched.signal] using hn)) (hmu _)
  | @condWait _ _ mu _ _ _ _ _ _ _ =>
    have hn' : w ∉ (s.rt.sched.wake (s.rt.sched.signalled (.mutex mu) false) .ok).waitq :=
      fun h' => hn (by simp [Sched.park, Sched.signal, h'])
    exact absurd (Sched.mem_wake hw hn') (hmu mu)
  | @post t sm _ _ _ _ =>
    have hm := Sched.mem_wake hw (by simpa [Sched.signal] using hn)
    simpa [hc] using (Sched.mem_signalled hm).2
  | @notify t cv' all _ _ hh hp =>
    have hm := Sched.mem_wake hw (by simpa [Sched.signal] using hn)
    obtain rfl : cv' = cv := by simpa [hc] using (Sched.mem_signalled hm).2.symm
    exact .inl ⟨t, all, hh, hp, hm⟩
  | @promote w' hm =>
    obtain rfl := List.mem_singleton.1 (Sched.mem_wake hw (by simpa [Sys.promote] using hn))
    exact .inr hm

end LockTx

/-- The first waiter on a condition variable has the earliest first half. -/
theorem CondFifo.find_least {q : List Waiter} {log : List SyncRec} {cv : Nat} {w : Waiter}
    (h : CondFifo q log) (hw : q.find? (·.chan = .cond cv) = some w) :
    ∀ w' ∈ q.filter (·.chan = .cond cv), w' ≠ w → lastTurn log w.tid < lastTurn log w'.tid := by
  rw [← List.filter_head?] at hw
  have hs := h cv
  obtain ⟨rest, he⟩ : ∃ rest, q.filter (·.chan = .cond cv) = w :: rest := by
    cases h' : q.filter (·.chan = .cond cv) with
    | nil => simp [h'] at hw
    | cons a rest =>
      simp only [h', List.head?_cons, Option.some.injEq] at hw
      exact ⟨rest, hw ▸ rfl⟩
  rw [he, List.map_cons] at hs
  intro w' hw' hne
  rw [he] at hw'
  exact List.rel_of_sorted_cons hs _
    (List.mem_map_of_mem _ ((List.mem_cons.1 hw').resolve_left hne))

/-! ### The steps of the condition variable wrappers -/

section Steps

variable (o : Options) (t : Tid)

/-- `pthreadCondSignal` and `pthreadCondBroadcast` take from the wait queue exactly the waiters
`signal(cv, all)` releases. -/
theorem notify_step_waitq (cv : Nat) (all : Bool) (r : Rt) :
    (step o t (.get (.body (if all then .pthreadCondBroadcast cv else .pthreadCondSignal cv))) r
      ).2.1.sched.waitq = (r.sched.signal (.cond cv) all).waitq := by
  cases all <;> simp only [step, body, getTurn, signal, schedPutTurn, incTurnCount, getTurnCount,
    logSync, putTurn, M.run_bind, run_call, M.run_rd, M.run_pure, Ev.apply, if_true, if_false,
    Bool.false_eq_true] <;> split <;> simp [Ev.apply, Sched.incTurnCount]

/-- `pthreadCondWait` and `pthreadCondTimedWait`, from their `SCHED_GET_TURN` to their `wait`,
in one step holding the turn: the mutex is unlocked, its waiter signalled, the first half logged
at the incremented count, and the thread parks on the condition variable (unless a deadline
cannot be computed, which ends the process). -/
theorem condWait_step (ho : o.logSync = true) {c : Call} {cv mu : Nat}
    (hc : c = .pthreadCondWait cv mu ∨ ∃ a, c = .pthreadCondTimedWait cv mu a) (r : Rt) :
    let x := step o t (.get (.body c)) r
    .putTurn ∉ x.2.2 ∧ x.2.1.mutex mu = none ∧
    (∃ op, x.2.1.log = r.log ++ [⟨t, op, r.sched.turnCount + 1, false⟩]) ∧
    (x.1 = .aborted ∨ ∃ k dl, x.1 = .parked k ∧
      x.2.1.sched = ((r.sched.signal (.mutex mu) false).incTurnCount).park t (.cond cv) dl) := by
  rcases hc with rfl | ⟨a, rfl⟩
  · simp [step, body, getTurn, signal, schedIncTurn, incTurnCount, logSync, mutexUnlock, wait,
      waitOn, ho, Ev.apply, Native.apply, Sched.incTurnCount]
  · cases a with
    | none => simp [step, body, getTurn, signal, schedIncTurn, incTurnCount, logSync, mutexUnlock,
        wait, waitOn, ho, Ev.apply, Native.apply, Sched.incTurnCount]
    | some a =>
      simp only [step, body, getTurn, signal, schedIncTurn, incTurnCount, logSync, mutexUnlock,
        relTime, M.run_bind, run_call, M.run_rd, M.run_pure, Ev.apply, ho, if_true]
      have hd₁ : ∀ rel r, (deadline o rel r).2.1 = r := fun _ _ => rfl
      have hd₂ : ∀ rel r, (deadline o rel r).2.2 = [] := fun _ _ => rfl
      simp only [hd₁, hd₂]
      generalize (deadline o _ _).1 = x
      cases x with
      | none => simp [orAbort, Native.apply, Sched.incTurnCount]
      | some dl =>
        simp [orAbort, wait, waitOn, Ev.apply, Native.apply, Sched.incTurnCount]
        exact ⟨_, rfl⟩

end Steps

/-! ### Every reachable state -/

/-- A thread that can move is not waiting. -/
theorem Sys.WF.not_waiter_of_ready {s : Sys} {t : Tid} (hs : s.WF) (hr : s.ready t) :
    ∀ w ∈ s.rt.sched.waitq, w.tid ≠ t := fun w hw e => by
  obtain ⟨k, hk, -⟩ := hs.waiter_pc w hw
  rw [e] at hk
  simp only [Sys.ready, hk, decide_eq_true_eq] at hr
  exact hs.waiter_off w hw (e ▸ List.mem_of_mem_head? hr)

theorem lockApp_call : ∀ p, lockApp p = true → ∃ c, p = .call c := fun p h => by
  cases p <;> simp_all [lockApp]

theorem lockApp_fresh : ∀ p, lockApp p = true → p.grpAt = .fresh := fun p h => by
  obtain ⟨c, rfl⟩ := lockApp_call p h
  rfl

/-- A move appends no record of a thread that was waiting: only the mover's. -/
theorem Step.log_waiter {o : Options} {app : Pc → Bool} {s s' : Sys} (hs : s.WF)
    (h : Step o app s s') {w : Waiter} (hw : w ∈ s.rt.sched.waitq) :
    ∃ l, s'.rt.log = s.rt.log ++ l ∧ ∀ e ∈ l, e.tid ≠ w.tid := by
  obtain ⟨l, hl, -, hwho⟩ := h.log_cases
  rcases hwho with rfl | ⟨t, hr, htid⟩
  · exact ⟨[], hl, nofun⟩
  · exact ⟨l, hl, fun e he het => hs.not_waiter_of_ready hr w hw (het.symm.trans (htid e he))⟩

theorem Step.lastTurn_waiter {o : Options} {app : Pc → Bool} {s s' : Sys} (hs : s.WF)
    (h : Step o app s s') {w : Waiter} (hw : w ∈ s.rt.sched.waitq) :
    lastTurn s'.rt.log w.tid = lastTurn s.rt.log w.tid := by
  obtain ⟨l, hl, hne⟩ := h.log_waiter hs hw
  rw [hl, lastTurn_append_of hne]

/-- The invariant of lock programs with the log on: the records below the count, every thread
between the halves of an operation with its first half last, the threads parked on a condition
variable inside a condition wait, and the waiters of each condition variable in the order of
their first halves. -/
structure Sys.CondInv (s : Sys) : Prop where
  log : Below s.rt.sched.turnCount s.rt.log
  half : s.HalfOk
  cond : s.CondWaits
  fifo : CondFifo s.rt.sched.waitq s.rt.log

theorem Sys.CondInv.step {o : Options} (ho : o.logSync = true) {s s' : Sys} (hl : s.LockInv)
    (hp : ∀ u, s.rt.pending u = false) (hi : s.CondInv) (h : Step o lockApp s s') :
    s'.CondInv := by
  have hcond := hi.cond.step lockApp_call h
  refine ⟨h.log_below hi.log, hi.half.step ho lockApp_fresh h, hcond, ?_⟩
  obtain ⟨s'', htx, hsim⟩ := h.lockTx o hl.wf hp
  have hq : s'.rt.sched.waitq = s''.rt.sched.waitq := congrArg (·.sched.waitq) hsim.1.symm
  -- the waiters already there keep their first halves
  have hkeep : ∀ q, q.Sublist s.rt.sched.waitq → CondFifo q s'.rt.log := fun q hs cv => by
    rw [List.map_congr_left fun w hw =>
      h.lastTurn_waiter hl.wf (hs.subset (List.mem_of_mem_filter hw))]
    exact hi.fifo.sublist hs cv
  rw [hq]
  rcases htx.waitq_cases with
    hs | ⟨t, ch, dl, he, hch⟩ | ⟨t, cv, dl, q, k, hs, he, hh, ⟨c, hc⟩, hk, hkc⟩
  · exact hkeep _ hs
  · rw [he]
    exact (hkeep _ (List.Sublist.refl _)).snoc fun cv e => absurd e (hch cv)
  · -- a new waiter on a condition variable: this move logged the first half of its wait
    rw [he]
    refine (hkeep q hs).snoc fun _ _ w' hw' _ => ?_
    have hpc : s'.pc t = .parked k := hsim.2 ▸ hk
    obtain ⟨op, -, hop⟩ := (hcond t k hpc).grp hkc
    rcases h.half_cases ho lockApp_fresh t (hpc ▸ hop) with ⟨hf, -⟩ | ⟨e, he, -, -, hlt⟩
    · rw [hc] at hf; cases hf
    rw [lastTurn_of_getLast he, h.lastTurn_waiter hl.wf (hs.subset hw')]
    exact (lastTurn_le hi.log _).trans_lt hlt

theorem Reachable.condInv {o : Options} (ho : o.logSync = true) {env : Env} {n : Nat} {s : Sys}
    (h : Reachable o lockApp (Sys.init env n) s) : s.CondInv := by
  induction h with
  | init =>
    refine ⟨⟨List.sorted_nil, nofun⟩, fun u op hu => ?_, fun u k hk => ?_, CondFifo.nil⟩
    · simp only [Sys.init] at hu
      split at hu <;> cases hu
    · simp only [Sys.init] at hk
      split at hk <;> cases hk
  | step hr hst ih => exact ih.step ho hr.lockInv.1 hr.lockInv.2 hst

/-- The last record of a waiter on a condition variable is the first half of its wait. -/
theorem Sys.CondInv.firstHalf {s : Sys} (hs : s.WF) (hi : s.CondInv) {w : Waiter}
    (hw : w ∈ s.rt.sched.waitq) {cv : Nat} (hc : w.chan = .cond cv) :
    ∃ e, (s.rt.log.filter (·.tid = w.tid)).getLast? = some e ∧ e.after = false ∧
      (e.op = .pthreadCondWait ∨ e.op = .pthreadCondTimedwait) ∧
      lastTurn s.rt.log w.tid = e.turn := by
  obtain ⟨k, hk, hkc⟩ := hs.waiter_pc w hw
  obtain ⟨op, hop, hgo⟩ := (hi.cond _ k hk).grp (hkc.trans hc)
  obtain ⟨e, he, heo, hea⟩ := hi.half w.tid op (by rw [hk]; exact hgo)
  exact ⟨e, he, hea, heo ▸ hop, lastTurn_of_getLast he⟩

/-- `signal(cv, false)` releases the first waiter on the condition variable, if any. -/
theorem Sched.signalled_false (s : Sched) (ch : Chan) :
    s.signalled ch false = (s.waitersOn ch).head?.toList := by
  simp [Sched.signalled, Sched.waitersOn]

/-! ### The condition variable -/

/-- With `log_sync` on, a condition wait unlocks the mutex, signals it, logs its first half and
parks on the condition variable in one step holding the turn. In every state a lock program
reaches, the last record of each waiter on a condition variable is the first half of its wait,
and the waiters stand in the order of those records' turns; `pthread_cond_signal` takes from the
queue exactly the first waiter, the one with the earliest first half, and none only when none
waits; `pthread_cond_broadcast` takes all of them; a waiter leaves only when signalled by the
head in one of these two, or when promoted for its deadline or an empty run queue, and logs
nothing in that move; and every record logged later, a released waiter's second half among
them, has a turn past every turn logged so far. -/
theorem condVar_fifo {o : Options} (ho : o.logSync = true) :
    (∀ t c cv mu r, (c = .pthreadCondWait cv mu ∨ ∃ a, c = .pthreadCondTimedWait cv mu a) →
      let x := step o t (.get (.body c)) r
      .putTurn ∉ x.2.2 ∧ x.2.1.mutex mu = none ∧
      (∃ op, x.2.1.log = r.log ++ [⟨t, op, r.sched.turnCount + 1, false⟩]) ∧
      (x.1 = .aborted ∨ ∃ k dl, x.1 = .parked k ∧
        x.2.1.sched = ((r.sched.signal (.mutex mu) false).incTurnCount).park t (.cond cv) dl)) ∧
    ∀ env n s, Reachable o lockApp (Sys.init env n) s → ∀ cv,
      (∀ w ∈ s.rt.sched.waitersOn (.cond cv), ∃ e,
        (s.rt.log.filter (·.tid = w.tid)).getLast? = some e ∧ e.after = false ∧
        (e.op = .pthreadCondWait ∨ e.op = .pthreadCondTimedwait) ∧ lastTurn s.rt.log w.tid = e.turn) ∧
      ((s.rt.sched.waitersOn (.cond cv)).map (lastTurn s.rt.log ·.tid)).Sorted (· < ·) ∧
      (∀ t, (step o t (.get (.body (.pthreadCondSignal cv))) s.rt).2.1.sched.waitq =
        s.rt.sched.waitq.filter (· ∉ s.rt.sched.signalled (.cond cv) false)) ∧
      (s.rt.sched.signalled (.cond cv) false = [] ↔ s.rt.sched.waitersOn (.cond cv) = []) ∧
      (∀ w ∈ s.rt.sched.signalled (.cond cv) false, w ∈ s.rt.sched.waitersOn (.cond cv) ∧
        ∀ w' ∈ s.rt.sched.waitersOn (.cond cv), w' ≠ w →
          lastTurn s.rt.log w.tid < lastTurn s.rt.log w'.tid) ∧
      (∀ t, (step o t (.get (.body (.pthreadCondBroadcast cv))) s.rt).2.1.sched.waitq =
        s.rt.sched.waitq.filter (·.chan ≠ .cond cv)) ∧
      (∀ s' w, Step o lockApp s s' → w ∈ s.rt.sched.waitersOn (.cond cv) →
        w ∉ s'.rt.sched.waitq →
        ((∃ t all, s.Head t ∧
          s.pc t = .get (.body (if all then .pthreadCondBroadcast cv else .pthreadCondSignal cv)) ∧
          w ∈ s.rt.sched.signalled (.cond cv) all) ∨
        s.rt.sched.Expired w ∨ s.rt.sched.Deadlocked w) ∧
        ∃ l, s'.rt.log = s.rt.log ++ l ∧ ∀ e ∈ l, e.tid ≠ w.tid) ∧
      (∀ s', Reachable o lockApp s s' → ∃ l, s'.rt.log = s.rt.log ++ l ∧
        ∀ e ∈ l, s.rt.sched.turnCount < e.turn ∧ ∀ e' ∈ s.rt.log, e'.turn < e.turn) := by
  refine ⟨fun t c cv mu r hc => condWait_step o t ho hc r, fun env n s h cv => ?_⟩
  have hi := h.condInv ho
  have hl := (h.lockInv).1
  have hmem : ∀ {w}, w ∈ s.rt.sched.waitersOn (.cond cv) ↔
      w ∈ s.rt.sched.waitq ∧ w.chan = .cond cv := by simp [Sched.waitersOn]
  refine ⟨fun w hw => hi.firstHalf hl.wf (hmem.1 hw).1 (hmem.1 hw).2, hi.fifo cv,
    fun t => notify_step_waitq o t cv false s.rt,
    by rw [Sched.signalled_false]; cases s.rt.sched.waitersOn (.cond cv) <;> simp,
    fun w hw => ?_, fun t => ?_, fun s' w hs hw hn => ?_, fun s' h' => ?_⟩
  · -- signal
    have hf : s.rt.sched.waitq.find? (·.chan = .cond cv) = some w := by
      simpa [Sched.signalled] using hw
    exact ⟨hmem.2 ⟨List.mem_of_find?_eq_some hf, by simpa using List.find?_some hf⟩,
      hi.fifo.find_least hf⟩
  · -- broadcast
    refine (notify_step_waitq o t cv true s.rt).trans (List.filter_congr fun w hw => ?_)
    simp [Sched.signal, Sched.wake, Sched.signalled, hw]
  · -- leaving the queue, in a move that logs none of its records
    obtain ⟨s'', htx, hsim⟩ := hs.lockTx o hl.wf (h.lockInv).2
    have hq : s'.rt.sched.waitq = s''.rt.sched.waitq := congrArg (·.sched.waitq) hsim.1.symm
    obtain ⟨l, hl', hne⟩ := hs.log_waiter hl.wf (hmem.1 hw).1
    exact ⟨htx.leave_cond (hmem.1 hw).1 (hmem.1 hw).2 (hq ▸ hn), l, hl', hne⟩
  · -- later records
    obtain ⟨l, hl', hf⟩ := h'.log_grows
    exact ⟨l, hl', fun e he => ⟨hf e he, fun e' he' => (hi.log.le e' he').trans_lt (hf e he)⟩⟩

/-- Threads `0` and `1` wait on condition variable `0` in turn: they stand in that order, their
first halves at turns `1` and `3`, and a signal releases thread `0`. -/
theorem condVar_fifo_twoWaiters :
    let s := ((Sys.init ⟨⟨0, 0⟩, fun _ => 1, fun _ => false, false, false⟩ 3).exec
      ⟨true, false, false, 1000, true, false⟩ lockApp [.call 0 (.call (.pthreadCondWait 0 0)),
        .run 0, .run 0, .call 1 (.call (.pthreadCondWait 0 0)), .run 1, .run 1]).get (by decide)
    (s.rt.sched.waitersOn (.cond 0)).map (fun w => (w.tid, lastTurn s.rt.log w.tid)) =
      [(0, 1), (1, 3)] ∧
    (s.rt.sched.signalled (.cond 0) false).map (·.tid) = [0] ∧
    ((s.rt.sched.waitersOn (.cond 0)).map (lastTurn s.rt.log ·.tid)).Sorted (· < ·) :=
  ⟨by decide, by decide, ((condVar_fifo rfl).2 _ _ _ (exec_get_reachable _ _) 0).2.1⟩

end Xtern
