import Xtern.Locks
import Xtern.Log

/-! # The wrappers `RecorderRT<RecordSerializer>` specialises

`record-runtime.cpp` specialises five wrappers for the `RecordSerializer` scheduler, whose turn
is a lock: `pthreadBarrierWait`, `pthreadCondWait`, `pthreadCondTimedWait`, `pthreadCondSignal`
and `pthreadCondBroadcast` (its `sleep`, `usleep` and `nanosleep` call `Runtime`'s, which log
nothing). `RecordSerializer` is not part of the source: its calls are the scheduler interface the
wrappers share (`getTurn`, `putTurn`, `incTurnCount`, `getTurnCount`, `wait`), recorded as the
same calls `Ev` as under `RRScheduler`; the order in which it grants its lock is left open, as
are the answers of the native calls: `pthread_cond_wait` on the serializer's lock may return at
any time, as POSIX allows, and `pthread_barrier_wait` returns `0` or
`PTHREAD_BARRIER_SERIAL_THREAD` once the thread has arrived.

The lock is part of the process (`SerSys.lock`). A thread blocked in `getTurn`, in
`pthread_cond_wait` or in the serializer's `wait` takes it when it is free (`SerStep.acquire`,
with the answer of the call it was blocked in), and only the holder runs, from there to the point
where its code gives the lock up again (`serStep`: at `putTurn`, in `pthread_cond_wait` or in
`wait`):

      blocked ──acquire (lock free)──▶ holding ──run──▶ next point (lock free)

`step_calls`' automaton reads the code, with the allowances of the `RRScheduler` point whose code
it replaces (`SerPc.rr`): every record is at the count an `incTurnCount` just reached, so the
turns of the log strictly increase (`SerReachable.inv`), and a call that returns has logged one
group of `NumRecordsForSync(op)` records (`SerCallRun.oneGroup`). -/

namespace Xtern

open M

/-- The wrappers `RecorderRT<RecordSerializer>` specialises, with their arguments. -/
inductive SerCall where
  | pthreadBarrierWait (b : Nat)
  | pthreadCondWait (cv mu : Nat)
  | pthreadCondTimedWait (cv mu : Nat)
  | pthreadCondSignal (cv : Nat)
  | pthreadCondBroadcast (cv : Nat)
  deriving DecidableEq, Repr

/-- Where a thread is. `ret c v`: in application code, the last wrapper `c` having returned `v`;
`call c`: at the call of `c`; `barrierTurn b`: at the second `RecordSerializer::getTurn()` of
`pthreadBarrierWait`; `barrierNative b`: in `pthread_barrier_wait`, without the lock;
`condNative cv mu timed`: in `pthread_cond_wait` (`pthread_cond_timedwait` when `timed`) on the
serializer's lock; `lockWait cv mu timed saved`: in the `wait(mu)` of the loop that takes `mu`
back. -/
inductive SerPc where
  | ret (c : Option SerCall) (v : Int)
  | call (c : SerCall)
  | barrierTurn (b : Nat)
  | barrierNative (b : Nat)
  | condNative (cv mu : Nat) (timed : Bool)
  | lockWait (cv mu : Nat) (timed : Bool) (saved : Int)
  | aborted
  deriving DecidableEq, Repr

variable (o : Options) (t : Tid)

/-- What follows the loop that takes `mu` back: `pthreadCondWait` counts one more turn
(`RecordSerializer::incTurnCount()`) before its `SCHED_PUT_TURN`; `pthreadCondTimedWait`
returns the result `saved` of its own wait. -/
def serAfterLock (cv mu : Nat) (timed : Bool) (saved : Int) : M SerPc :=
  if timed then
    schedPutTurn o t .pthreadCondTimedwait (.ret (some (.pthreadCondTimedWait cv mu)) saved)
  else do
    let _ ← incTurnCount t
    schedPutTurn o t .pthreadCondWait (.ret (some (.pthreadCondWait cv mu)) 0)

/-- `while ((ret = pthread_mutex_trylock(mu))) wait(mu)` of `pthreadCondWait`, and
`pthreadMutexLockHelper(mu)` of `pthreadCondTimedWait`. -/
def serLockLoop (cv mu : Nat) (timed : Bool) (saved : Int) : M SerPc := do
  if (← mutexTrylock t mu) = 0 then serAfterLock o t cv mu timed saved
  else
    waitOn t (.mutex mu) none
    return .lockWait cv mu timed saved

/-- The code of a specialised wrapper from `SCHED_GET_TURN` on. -/
def serBody (c : SerCall) : M SerPc :=
  match c with
  | .pthreadBarrierWait b => do
    schedIncTurn o t .pthreadBarrierWait
    putTurn t
    return .barrierTurn b
  | .pthreadCondWait cv mu => do
    let _ ← mutexUnlock t mu
    schedIncTurn o t .pthreadCondWait
    return .condNative cv mu false
  | .pthreadCondTimedWait cv mu => do
    let _ ← mutexUnlock t mu
    schedIncTurn o t .pthreadCondTimedwait
    return .condNative cv mu true
  | .pthreadCondSignal _ => schedPutTurn o t .pthreadCondSignal (.ret c 0)
  | .pthreadCondBroadcast _ => schedPutTurn o t .pthreadCondBroadcast (.ret c 0)

/-- What thread `t` runs from `p` holding the serializer's lock, the call it was blocked in
having returned `v`, up to the point where it gives the lock up. -/
def serStep (p : SerPc) (v : Int) : M SerPc :=
  match p with
  | .call c => do
    if inNonDetRegion o t (← rd) then return .aborted
    else
      getTurn t
      serBody o t c
  | .barrierTurn b => do
    getTurn t
    let _ ← incTurnCount t
    putTurn t
    return .barrierNative b
  | .barrierNative b =>
    if v = 0 ∨ v = barrierSerialThread then do
      getTurn t
      schedPutTurn o t .pthreadBarrierWait (.ret (some (.pthreadBarrierWait b)) v)
    else return .aborted
  | .condNative cv mu timed =>
    if timed then
      if v = 0 ∨ v = eTimedOut then serLockLoop o t cv mu true v else return .aborted
    else serLockLoop o t cv mu false 0
  | .lockWait cv mu timed saved =>
    if timed ∧ v = eTimedOut then serAfterLock o t cv mu timed saved
    else serLockLoop o t cv mu timed saved
  | p => return p

/-! ### The calls of one move -/

/-- The operation a condition wait logs, timed or not. -/
def condOp (timed : Bool) : SyncOp := if timed then .pthreadCondTimedwait else .pthreadCondWait

/-- The `RRScheduler` wrapper a specialised wrapper replaces. -/
def SerCall.call : SerCall → Call
  | .pthreadBarrierWait b => .pthreadBarrierWait b
  | .pthreadCondWait cv mu => .pthreadCondWait cv mu
  | .pthreadCondTimedWait cv mu => .pthreadCondTimedWait cv mu none
  | .pthreadCondSignal cv => .pthreadCondSignal cv
  | .pthreadCondBroadcast cv => .pthreadCondBroadcast cv

/-- The `RRScheduler` point whose code makes the calls the specialised code makes from `p`:
`getTurn` only where it waits for the turn, the native mutex calls and `wait` in a turn
section. -/
def SerPc.rr : SerPc → Pc
  | .call c => .get (.body c.call)
  | .barrierTurn b | .barrierNative b => .get (.barrierCycled b)
  | .condNative cv mu _ | .lockWait cv mu _ _ => .parked (.condWoken cv mu (.pthreadCondWait cv mu))
  | .ret _ v => .ret none v
  | .aborted => .aborted

/-- Whether a thread at `p` waits for the serializer's lock: in `getTurn`, in
`pthread_cond_wait` or in `wait`. -/
def SerPc.waitsLock : SerPc → Bool
  | .ret _ _ | .aborted => false
  | _ => true

/-- The records a thread at `p` has logged in its wrapper call. -/
def SerPc.grp : SerPc → Grp
  | .ret _ _ => .done
  | .call _ | .aborted => .fresh
  | .barrierTurn _ | .barrierNative _ => .half .pthreadBarrierWait
  | .condNative _ _ timed | .lockWait _ _ timed _ => .half (condOp timed)

/-- Whether a thread at `p` holds the turn when it runs: after `pthread_cond_wait` or `wait`
has taken the lock back for it, not before `getTurn`. -/
def SerPc.hold : SerPc → Hold
  | .condNative _ _ _ | .lockWait _ _ _ _ => .held
  | _ => .free

/-- The automaton state a move from `p` starts in. -/
def SerPc.gh (p : SerPc) : Gh := ⟨p.hold, p.grp, .running, false, true, none⟩

/-- Where a move may stop: the records of its call as the next point says, unless the process
ended. -/
def SerEnds (q : SerPc) (g : Gh) : Prop := q = .aborted ∨ g.grp = q.grp

section Walks

variable {o t}

theorem walks_serAfterLock {p : Pc} {r : Rt} {cv mu : Nat} {timed : Bool} {saved : Int}
    {cnt fr : Bool} {jn : Option Tid} :
    Walks t p ⟨.held, .half (condOp timed), .running, cnt, fr, jn⟩ r
      (serAfterLock o t cv mu timed saved) fun q g _ => o.logSync = true → SerEnds q g := by
  cases timed
  · exact Walks.bind <| walks_incTurnCount <|
      walks_schedPutTurn (fun _ => Grp.take_half _) fun _ _ _ h ho => .inr (h ho)
  · exact walks_schedPutTurn (fun _ => Grp.take_half _) fun _ _ _ h ho => .inr (h ho)

theorem walks_serLockLoop {p : Pc} {r : Rt} {cv mu : Nat} {timed : Bool} {saved : Int}
    {cnt fr : Bool} {jn : Option Tid} (hp : p.inTurn = true) :
    Walks t p ⟨.held, .half (condOp timed), .running, cnt, fr, jn⟩ r
      (serLockLoop o t cv mu timed saved) fun q g _ => o.logSync = true → SerEnds q g :=
  walks_mutexTrylock hp rfl fun _ _ => Walks.ite (fun _ => walks_serAfterLock)
    fun _ => Walks.call ⟨nofun, nofun⟩ rfl <| Walks.pure fun _ => .inr rfl

/-- Every move of a thread makes calls the automaton accepts, from the state of its point, and
stops, with `log_sync` on, with the records of its call as the next point says. -/
theorem serStep_walks (p : SerPc) (v : Int) (r : Rt) :
    Walks t p.rr p.gh r (serStep o t p v) fun q g _ => o.logSync = true → SerEnds q g := by
  cases p with
  | call c =>
    refine Walks.rd <| Walks.ite (fun _ => Walks.pure fun _ => .inl rfl) fun _ => ?_
    refine Walks.call rfl rfl ?_
    cases c with
    | pthreadBarrierWait b =>
      exact walks_schedIncTurn (fun _ => Grp.take_fresh_two rfl) fun _ _ _ h =>
        Walks.call trivial rfl <| Walks.pure fun ho => .inr (h ho)
    | pthreadCondWait | pthreadCondTimedWait =>
      exact walks_mutexUnlock (by rfl) rfl fun _ _ =>
        walks_schedIncTurn (fun _ => Grp.take_fresh_two rfl) fun _ _ _ h =>
          Walks.pure fun ho => .inr (h ho)
    | pthreadCondSignal | pthreadCondBroadcast =>
      exact walks_schedPutTurn (fun _ => Grp.take_fresh_one rfl) fun _ _ _ h ho => .inr (h ho)
  | barrierTurn b =>
    exact Walks.call rfl rfl <| Walks.bind <| walks_incTurnCount <|
      Walks.call trivial rfl <| Walks.pure fun _ => .inr rfl
  | barrierNative b =>
    exact Walks.ite (fun _ => Walks.call rfl rfl <|
      walks_schedPutTurn (fun _ => Grp.take_half _) fun _ _ _ h ho => .inr (h ho))
      fun _ => Walks.pure fun _ => .inl rfl
  | condNative cv mu timed =>
    cases timed
    · exact walks_serLockLoop rfl
    · exact Walks.ite (fun _ => walks_serLockLoop rfl) fun _ => Walks.pure fun _ => .inl rfl
  | lockWait cv mu timed saved =>
    exact Walks.ite (fun _ => walks_serAfterLock) fun _ => walks_serLockLoop rfl
  | ret | aborted => exact Walks.pure fun _ => .inr rfl

end Walks

/-- A move's state is the replay of its calls; its records are past every record before it and
take the records of the call from the point's to the next point's. -/
theorem serStep_records {o : Options} {t : Tid} (ho : o.logSync = true) (p : SerPc) (v : Int)
    {r : Rt} {l : List SyncRec} (hb : Below r.sched.turnCount l) :
    (serStep o t p v r).2.1 = replay t r (serStep o t p v r).2.2 ∧
      Below (serStep o t p v r).2.1.sched.turnCount
        (l ++ (serStep o t p v r).2.2.filterMap (Ev.record t)) ∧
      ((serStep o t p v r).1 = .aborted ∨
        Grp.runs p.grp ((serStep o t p v r).2.2.filterMap (Ev.record t)) =
          some (serStep o t p v r).1.grp) := by
  obtain ⟨g', hacc, hrep, hq⟩ := serStep_walks p v r
  obtain ⟨hg, hb'⟩ := hacc.records hb nofun
  refine ⟨hrep, hrep ▸ hb', (hq ho).imp_right fun h => ?_⟩
  rw [← h]
  exact hg

/-! ### The process -/

/-- The process: the runtime state, the point each thread is at, and the serializer's lock:
the thread holding it with the answer of the call it was blocked in. -/
structure SerSys where
  rt : Rt
  pc : Tid → SerPc
  lock : Option (Tid × Int)

/-- The process at start: every thread in application code, the lock free. -/
def SerSys.init (env : Env) : SerSys := ⟨Rt.init env, fun _ => .ret none 0, none⟩

/-- One move: a thread in application code calls a wrapper; a thread that waits for the lock
takes it when it is free, the call it was blocked in having returned `v`; the holder runs until
it gives the lock up. -/
inductive SerStep (o : Options) : SerSys → SerSys → Prop
  | call {s : SerSys} (t : Tid) {c : Option SerCall} {v : Int} (d : SerCall) :
      s.pc t = .ret c v → SerStep o s ⟨s.rt, Function.update s.pc t (.call d), s.lock⟩
  | acquire {s : SerSys} (t : Tid) (v : Int) : s.lock = none → (s.pc t).waitsLock = true →
      SerStep o s ⟨s.rt, s.pc, some (t, v)⟩
  | run {s : SerSys} (t : Tid) (v : Int) : s.lock = some (t, v) →
      SerStep o s ⟨(serStep o t (s.pc t) v s.rt).2.1,
        Function.update s.pc t (serStep o t (s.pc t) v s.rt).1, none⟩

/-- The states the moves reach from `s₀`. -/
inductive SerReachable (o : Options) (s₀ : SerSys) : SerSys → Prop
  | init : SerReachable o s₀ s₀
  | step {s s' : SerSys} : SerReachable o s₀ s → SerStep o s s' → SerReachable o s₀ s'

/-- What every reachable state keeps: the log below the count, and the lock held only by a
thread that waited for it. -/
structure SerSys.Inv (s : SerSys) : Prop where
  log : Below s.rt.sched.turnCount s.rt.log
  lock : ∀ u v, s.lock = some (u, v) → (s.pc u).waitsLock = true

variable {o : Options}

theorem SerStep.turnCount_le {s s' : SerSys} (h : SerStep o s s') :
    s.rt.sched.turnCount ≤ s'.rt.sched.turnCount := by
  cases h with
  | call | acquire => exact le_rfl
  | run t v =>
    show _ ≤ (serStep o t (s.pc t) v s.rt).2.1.sched.turnCount
    obtain ⟨_, -, hrep, -⟩ := serStep_walks (o := o) (t := t) (s.pc t) v s.rt
    rw [hrep]
    exact turnCount_le_replay _ _ _

theorem SerSys.Inv.step (ho : o.logSync = true) {s s' : SerSys} (hi : s.Inv)
    (h : SerStep o s s') : s'.Inv := by
  cases h with
  | call t d hpc =>
    refine ⟨hi.log, fun u v hu => ?_⟩
    have hw := hi.lock u v hu
    show (Function.update s.pc t (.call d) u).waitsLock = true
    rw [Function.update_noteq]
    · exact hw
    · rintro rfl; rw [hpc] at hw; cases hw
  | acquire t v _ hw => exact ⟨hi.log, fun u v' h => by cases h; exact hw⟩
  | run t v _ =>
    obtain ⟨hrep, hb, -⟩ := serStep_records ho (s.pc t) v hi.log (t := t)
    refine ⟨?_, nofun⟩
    show Below _ (serStep o t (s.pc t) v s.rt).2.1.log
    rwa [hrep, replay_log, ← hrep]

theorem SerReachable.inv (ho : o.logSync = true) {env : Env} {s : SerSys}
    (h : SerReachable o (SerSys.init env) s) : s.Inv := by
  induction h with
  | init => exact ⟨⟨List.sorted_nil, nofun⟩, nofun⟩
  | step _ hs ih => exact ih.step ho hs

/-! ### The records of one call -/

/-- The moves of thread `t` inside one specialised wrapper call, from `p` in state `r`, each
with the answer of the call it was blocked in, and each starting in a state `R` relates to the
one the previous move left. -/
inductive SerCallRun (o : Options) (t : Tid) (R : Rt → Rt → Prop) :
    SerPc → Rt → List Ev → SerPc → Prop
  | done (p : SerPc) (r : Rt) : SerCallRun o t R p r [] p
  | step {p : SerPc} {r r₁ : Rt} {es : List Ev} {q : SerPc} (v : Int) : p.waitsLock = true →
      R (serStep o t p v r).2.1 r₁ → SerCallRun o t R (serStep o t p v r).1 r₁ es q →
      SerCallRun o t R p r ((serStep o t p v r).2.2 ++ es) q

namespace SerCallRun

variable {t : Tid} {R : Rt → Rt → Prop}

theorem of_stop {p : SerPc} {r : Rt} {es : List Ev} {q : SerPc} (h : SerCallRun o t R p r es q)
    (hp : p.waitsLock = false) : es = [] ∧ q = p := by
  cases h with
  | done => exact ⟨rfl, rfl⟩
  | step _ hw => rw [hp] at hw; cases hw

/-- Over a run inside a call that returns, whatever the other threads do between its moves as
long as they do not lower the count, the records take the record component from the point's
to `done`, each past the one before. -/
theorem records (ho : o.logSync = true)
    (hR : ∀ x y, R x y → x.sched.turnCount ≤ y.sched.turnCount) {p : SerPc} {r : Rt}
    {es : List Ev} {c : Option SerCall} {v : Int} (h : SerCallRun o t R p r es (.ret c v))
    (hp : p.waitsLock = true) {l : List SyncRec} (hb : Below r.sched.turnCount l) :
    Grp.runs p.grp (es.filterMap (Ev.record t)) = some .done ∧
      ∃ n, Below n (l ++ es.filterMap (Ev.record t)) := by
  generalize hq : SerPc.ret c v = q at h
  induction h generalizing l with
  | done => subst hq; cases hp
  | @step p r r₁ es q w _ hr hrest ih =>
    obtain ⟨-, hb₁, hend⟩ := serStep_records ho p w hb (t := t)
    rw [List.filterMap_append, Grp.runs_append]
    cases hw : (serStep o t p w r).1.waitsLock
    · obtain ⟨rfl, rfl⟩ := hrest.of_stop hw
      rcases hend with hab | hg
      · rw [hab] at hq; cases hq
      · exact ⟨by rw [hg, ← hq]; rfl, _, by simpa using hb₁⟩
    · obtain ⟨hr', n, hb'⟩ := ih hw (hb₁.mono (hR _ _ hr)) hq
      rcases hend with hab | hg
      · rw [hab] at hw; cases hw
      · exact ⟨by rw [hg, Option.some_bind]; exact hr', n, by simpa using hb'⟩

/-- The records of a specialised wrapper call that returns are one group of
`NumRecordsForSync(op)`. -/
theorem oneGroup (ho : o.logSync = true)
    (hR : ∀ x y, R x y → x.sched.turnCount ≤ y.sched.turnCount) {d : SerCall} {r : Rt}
    {es : List Ev} {c : Option SerCall} {v : Int} (h : SerCallRun o t R (.call d) r es (.ret c v)) :
    OneGroup (es.filterMap (Ev.record t)) := by
  obtain ⟨hg, n, hb⟩ := h.records ho hR rfl (l := []) ⟨List.sorted_nil, nofun⟩
  exact Grp.oneGroup hg (by simpa using hb.sorted)

end SerCallRun

end Xtern
