import Xtern.System

/-! # Mutexes, rwlocks and semaphores under the turn

A thread that finds a lock taken parks on the lock's channel; the wrapper that releases the
lock signals the channel, and the released thread retries when it next gets the turn. A
wakeup is lost when a thread stays parked on a lock that is free while no signalled thread is
about to retry it. `Sys.pend s ch` counts the signalled threads yet to retry `ch`, and
`Rt.avail r ch` the units of the lock a retry could take: `1` for a free mutex or a free
rwlock, the value for a semaphore. `Sys.NoLostWakeup` says that wherever a thread is parked,
`avail ≤ pend`.

The lock helpers return only after a successful try, or on `ETIMEDOUT` from `wait`. The
scheduler also returns `ETIMEDOUT` to a waiter with no deadline when the run queue empties,
and `pthreadMutexLock` then returns `0` without the mutex (`mutexLock_timedout`). The rwlock
wrappers lose read sharing: `__pthread_rwlock_tryrdlock` calls `pthread_rwlock_trywrlock`,
and `__pthread_rwlock_unlock` releases one waiter, so a second reader stays parked on a lock
that is only read-held (`rwlock_sharing_lost`). -/

namespace Xtern

/-- The lock the code after a wait at `k` tries first when the wait returns `OK`: the mutex and
rwlock helpers and the semaphore loops. -/
def Resume.retry : Resume → Option Chan
  | .lockRetry mu _ _ _ => some (.mutex mu)
  | .rdRetry rw | .wrRetry rw => some (.rwlock rw)
  | .semRetry s _ | .semTimedRetry s _ _ => some (.sem s)
  | _ => none

/-- The lock thread `u` has been signalled on and is yet to retry: `u` is at a wait that returned
`OK`. -/
def Sys.retryChan (s : Sys) (u : Tid) : Option Chan :=
  match s.pc u with
  | .parked k => if s.rt.sched.wakeRes u = .ok then k.retry else none
  | _ => none

/-- The threads signalled on `ch`, back in the run queue and yet to retry it. -/
def Sys.pend (s : Sys) (ch : Chan) : Nat :=
  s.rt.sched.runq.countP fun u => s.retryChan u = some ch

/-- The units of the lock behind `ch` that a retry could take. -/
def Rt.avail (r : Rt) : Chan → Nat
  | .mutex mu => if r.mutex mu = none then 1 else 0
  | .rwlock rw => if r.rwlock rw = ⟨none, []⟩ then 1 else 0
  | .sem s => r.sem s
  | _ => 0

/-- Some thread is parked on `ch`. -/
def Sched.Waiting (s : Sched) (ch : Chan) : Prop := ∃ w ∈ s.waitq, w.chan = ch

/-- No lost wakeup: where a thread is parked, no more units of the lock are free than there are
signalled threads yet to retry it. -/
def Sys.NoLostWakeup (s : Sys) : Prop :=
  ∀ ch, s.rt.sched.Waiting ch → s.rt.avail ch ≤ s.pend ch

/-- Any program: a thread in application code may call any wrapper. -/
def anyCall : Pc → Bool
  | .call _ | .ioCall _ _ | .nonDetEnd => true
  | _ => false

/-! ### Returning without the lock -/

/-- Thread `0` holds mutex `0` and blocks in `read`; thread `1`, parked in `pthread_mutex_lock`
with no deadline, is promoted with `TIMEOUT` when the run queue empties, and
`pthreadMutexLock` returns `0` to it while thread `0` still holds the mutex. -/
theorem mutexLock_timedout :
    let o : Options := ⟨false, false, false, 1000, true, false⟩
    let s₀ := Sys.init ⟨⟨0, 0⟩, fun _ => 1, fun _ => false, true, true⟩ 2
    ∃ s, Reachable o anyCall s₀ s ∧
      s.pc 1 = .ret (some (.pthreadMutexLock 0)) 0 ∧ s.rt.mutex 0 = some 0 := by
  intro o s₀
  exact ⟨_, exec_get_reachable [.call 0 (.call (.pthreadMutexLock 0)), .run 0, .run 0,
    .call 1 (.call (.pthreadMutexLock 0)), .run 1, .run 1, .call 0 (.ioCall .read 5), .run 0,
    .promote ⟨1, .mutex 0, none⟩, .run 1] (by decide), by decide⟩

/-- Read sharing is lost. With rwlock `0` read-held by thread `0`,
`__pthread_rwlock_tryrdlock` returns `EBUSY` to thread `1`. And after thread `0` releases its
write hold with threads `1` and `2` parked in `__pthread_rwlock_rdlock`, only thread `1` is
released: it takes the lock for reading, and thread `2` stays parked on a lock that is not
write-held, with no signalled thread left to retry it. -/
theorem rwlock_sharing_lost :
    let o : Options := ⟨false, false, false, 1000, true, false⟩
    let s₀ := Sys.init ⟨⟨0, 0⟩, fun _ => 1, fun _ => false, false, false⟩ 3
    (∃ s, Reachable o anyCall s₀ s ∧
      s.pc 1 = .ret (some (.pthreadRwlockTryrdlock 0)) eBusy ∧ s.rt.rwlock 0 = ⟨none, [0]⟩) ∧
    (∃ s, Reachable o anyCall s₀ s ∧ s.rt.rwlock 0 = ⟨none, [1]⟩ ∧
      s.pc 2 = .parked (.rdRetry 0) ∧ ⟨2, .rwlock 0, none⟩ ∈ s.rt.sched.waitq ∧
      s.pend (.rwlock 0) = 0) := by
  intro o s₀
  exact ⟨⟨_, exec_get_reachable [.call 0 (.call (.pthreadRwlockRdlock 0)), .run 0, .run 0,
    .call 1 (.call (.pthreadRwlockTryrdlock 0)), .run 1, .run 1] (by decide), by decide⟩,
    ⟨_, exec_get_reachable [.call 0 (.call (.pthreadRwlockWrlock 0)), .run 0, .run 0,
    .call 1 (.call (.pthreadRwlockRdlock 0)), .run 1, .run 1,
    .call 2 (.call (.pthreadRwlockRdlock 0)), .run 2, .run 2,
    .call 0 (.call (.pthreadRwlockUnlock 0)), .run 0, .run 0, .run 1] (by decide), by decide⟩⟩

end Xtern
