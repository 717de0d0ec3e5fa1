import Xtern.Runtime

/-! # The wrappers of `RecorderRT<RRScheduler>`

Each wrapper of `record-runtime.cpp` is cut at the points where the calling thread blocks:
`SCHED_GET_TURN` (waiting for the turn), `_S::wait` (parked on a channel), a bare `_S::putTurn`
followed by `_S::getTurn` (the last arriver of a barrier), and the native call of a
`BLOCK_TIMER` wrapper. `Pc` says where a thread is; `Seg` names the code that runs once a thread
holds the turn, `Resume` the code that runs when a `wait` returns, `Post` the code after the
final `putTurn`. The pieces keep the source's order of calls.

`Call` lists the turn-based wrappers, all of which start with `SCHED_GET_TURN` (or, for
`idle_sleep`, `_S::getTurn`); the external-blocking wrappers are `IoOp`. A timed wrapper's
`rel_time` is computed from `my_base_time` and the clock when its segment runs; the source reads
them just before `SCHED_GET_TURN`, which only changes which clock value is read. -/

namespace Xtern

/-- The external-blocking wrappers, which use `BLOCK_TIMER_START`/`BLOCK_TIMER_END`. -/
inductive IoOp where
  | accept | accept4 | connect | send | sendto | sendmsg | recv | recvfrom | recvmsg
  | read | write | pread | pwrite | select | epollWait | poll | bind | sigwait | fgets
  | wait | waitpid | socket | listen | gethostbyname | gethostbyaddr | inetNtoa | strtok | close
  deriving DecidableEq, Repr

/-- The wrappers that first bypass regular files (`RR_ignore_rw_regular_file`). -/
def IoOp.regularBypass : IoOp → Bool
  | .read | .write | .pread | .pwrite | .fgets | .close => true
  | _ => false

/-- A call of a turn-based wrapper, with its arguments (objects by address). -/
inductive Call where
  | threadBegin | threadEnd | pthreadCreate | pthreadJoin (th : Tid)
  | pthreadMutexInit (mu : Nat) | pthreadMutexDestroy (mu : Nat) | pthreadMutexLock (mu : Nat)
  | pthreadMutexTryLock (mu : Nat) | pthreadMutexTimedLock (mu : Nat) (abstime : Option Timespec)
  | pthreadMutexUnlock (mu : Nat)
  | pthreadRwlockInit (rw : Nat) | pthreadRwlockRdlock (rw : Nat) | pthreadRwlockWrlock (rw : Nat)
  | pthreadRwlockTryrdlock (rw : Nat) | pthreadRwlockTrywrlock (rw : Nat)
  | pthreadRwlockUnlock (rw : Nat) | pthreadRwlockDestroy (rw : Nat)
  | pthreadBarrierInit (b count : Nat) | pthreadBarrierWait (b : Nat)
  | pthreadBarrierDestroy (b : Nat)
  | pthreadCondWait (cv mu : Nat) | pthreadCondTimedWait (cv mu : Nat) (abstime : Option Timespec)
  | pthreadCondSignal (cv : Nat) | pthreadCondBroadcast (cv : Nat)
  | semWait (s : Nat) | semTryWait (s : Nat) | semTimedWait (s : Nat) (abstime : Option Timespec)
  | semPost (s : Nat) | semInit (s v : Nat)
  | lineupInit (l count timeout : Nat) | lineupDestroy (l : Nat) | lineupStart (l : Nat)
  | lineupEnd (l : Nat)
  | nonDetStart | symbolic | schedYield | fork
  | sleep (seconds : Nat) | usleep (usec : Nat) | nanosleep (req : Option Timespec)
  | idleSleep
  deriving DecidableEq, Repr

/-- Code that runs right after the thread gets the turn. -/
inductive Seg where
  | body (c : Call)
  | barrierCycled (b : Nat)
  deriving DecidableEq, Repr

/-- Code that runs when `wait` returns, in the wrapper `c`. -/
inductive Resume where
  | lockRetry (mu : Nat) (dl : Option Nat) (c : Call) (saved : Int)
  | rdRetry (rw : Nat) | wrRetry (rw : Nat)
  | joinRetry (th : Tid)
  | barrierWoken (b : Nat)
  | condWoken (cv mu : Nat) (c : Call)
  | semRetry (s : Nat) (c : Call)
  | semTimedRetry (s dl : Nat) (c : Call)
  | lineupWoken (l : Nat)
  | nonDetWoken
  | sleepWoken (c : Call)
  deriving DecidableEq, Repr

/-- Code after the final `putTurn`, run without the turn: `pthreadCreate`'s
`sem_post(&thread_begin_sem)` and its `sem_wait(&thread_begin_done_sem)`, and `nonDetStart`'s
`block()`. -/
inductive Post where
  | beginHandshake
  | beginDone
  | nonDetBlock
  deriving DecidableEq, Repr

/-- Where a thread is. `ret c v`: in application code, the last wrapper `c` having returned `v`. -/
inductive Pc where
  | ret (c : Option Call) (v : Int)
  | call (c : Call)
  | ioCall (op : IoOp) (fd : Nat)
  | nonDetEnd
  | get (k : Seg)
  | parked (k : Resume)
  | post (k : Post)
  | native (c : Option Call)
  | blocked (op : IoOp)
  | zombie
  | aborted
  deriving DecidableEq, Repr

open M

variable (o : Options) (t : Tid)

/-! ### The macros shared by the wrappers -/

/-- `options::enforce_non_det_annotations && inNonDet`. -/
def inNonDetRegion (r : Rt) : Bool := o.enforceNonDetAnnotations && r.inNonDet t

/-- `SCHED_GET_TURN()` (`sched_timer_start`): `assert(!inNonDet)`, then wait for the turn. -/
def schedGetTurn (c : Call) : M Pc := do
  if inNonDetRegion o t (← rd) then return .aborted else return .get (.body c)

/-- The first test of most wrappers: inside a non-det region call the native primitive,
otherwise `SCHED_GET_TURN()`. -/
def nonDetOrTurn (c : Call) : M Pc := do
  if inNonDetRegion o t (← rd) then return .native c else schedGetTurn o t c

/-- `SCHED_INC_TURN(op)` (`sched_timer_end_fh`): count a turn, log the first half. -/
def schedIncTurn (op : SyncOp) : M Unit := do
  let n ← incTurnCount t
  if o.logSync then logSync t op false n

/-- `SCHED_PUT_TURN(op)` (`sched_timer_end`): count a turn, log the second half at the new
count, give up the turn, and continue at `next`. -/
def schedPutTurn {α : Type} (op : SyncOp) (next : α) : M α := do
  let _ ← incTurnCount t
  if o.logSync then logSync t op true (← getTurnCount)
  putTurn t
  return next

/-- `sched_thread_end`: as `SCHED_PUT_TURN`, with `putTurn(true)`. -/
def schedThreadEnd : M Pc := do
  let _ ← incTurnCount t
  if o.logSync then logSync t .ternThreadEnd true (← getTurnCount)
  putTurnEnd t
  return .zombie

/-- `_S::wait(chan, timeout)`, resuming at `k`. -/
def wait (ch : Chan) (dl : Option Nat) (k : Resume) : M Pc := do
  waitOn t ch dl
  return .parked k

/-- An `assert` on a table lookup, or `time2turn`'s `exit(1)`: the process ends when `x` is
missing. -/
def orAbort {β : Type} (x : Option β) (k : β → M Pc) : M Pc :=
  match x with
  | none => return .aborted
  | some b => k b

/-- `getTurnCount() + relTimeToTurn(rel)`, the `unsigned` deadline of a timed wait; `none`
is `time2turn`'s `exit(1)`. -/
def deadline (rel : Option Timespec) : M (Option Nat) := do
  let r ← rd
  return (relTimeToTurn o r.sched.nthread rel).map fun n => u32 (r.sched.turnCount + n)

/-- `time_diff` of the thread's base time (or the clock) and `abstime`. -/
def relTime (abstime : Timespec) : M Timespec := do
  let r ← rd
  return timeDiff (baseTime (r.myBaseTime t) r.env.now) abstime

/-! ### The lock helpers and loops -/

/-- What follows `pthreadMutexLockHelper` in the wrapper `c` that called it, given the helper's
result `ret` (`saved` is `pthreadCondTimedWait`'s result of its own wait). -/
def afterLock (c : Call) (saved ret : Int) : M Pc :=
  match c with
  | .pthreadMutexTimedLock _ _ => schedPutTurn o t .pthreadMutexTimedlock (.ret c ret)
  | .pthreadCondWait _ _ => schedPutTurn o t .pthreadCondWait (.ret c 0)
  | .pthreadCondTimedWait _ _ _ => schedPutTurn o t .pthreadCondTimedwait (.ret c saved)
  | _ => schedPutTurn o t .pthreadMutexLock (.ret c 0)

/-- `pthreadMutexLockHelper(mu, timeout)`: `pthread_mutex_trylock`, and `wait(mu, timeout)`
while it is busy; `ETIMEDOUT` from `wait` ends the helper. -/
def lockHelper (mu : Nat) (dl : Option Nat) (c : Call) (saved : Int) : M Pc := do
  if (← mutexTrylock t mu) = 0 then afterLock o t c saved 0
  else wait t (.mutex mu) dl (.lockRetry mu dl c saved)

/-- `pthreadRWLockRdLockHelper(rwlock)` as `__pthread_rwlock_rdlock` calls it, and the
wrapper's `SCHED_PUT_TURN`. -/
def rdLockHelper (rw : Nat) : M Pc := do
  if (← rwTryrdlock t rw) = 0 then
    schedPutTurn o t .pthreadRwlockRdlock (.ret (some (.pthreadRwlockRdlock rw)) 0)
  else wait t (.rwlock rw) none (.rdRetry rw)

/-- `pthreadRWLockWrLockHelper(rwlock)` as `__pthread_rwlock_wrlock` calls it, and the
wrapper's `SCHED_PUT_TURN`. -/
def wrLockHelper (rw : Nat) : M Pc := do
  if (← rwTrywrlock t rw) = 0 then
    schedPutTurn o t .pthreadRwlockWrlock (.ret (some (.pthreadRwlockWrlock rw)) 0)
  else wait t (.rwlock rw) none (.wrRetry rw)

/-- The loop of `pthreadJoin`: `while (!_S::zombie(th)) wait(th)`, then the native join,
`_S::join(th)` and `SCHED_PUT_TURN`. -/
def joinLoop (th : Tid) : M Pc := do
  if th ∈ (← rd).sched.zombies then
    join t th
    schedPutTurn o t .pthreadJoin (.ret (some (.pthreadJoin th)) 0)
  else wait t (.thread th) none (.joinRetry th)

/-- The loop of `semWait`: `sem_trywait`, and `wait(sem)` while the value is `0`, whatever
`wait` returns. -/
def semWaitLoop (s : Nat) (c : Call) : M Pc := do
  if (← semTrywait t s) = 0 then schedPutTurn o t .semWait (.ret c 0)
  else wait t (.sem s) none (.semRetry s c)

/-- The loop of `semTimedWait`: as `semWaitLoop` with the deadline `dl`; `ETIMEDOUT` from
`wait` ends it. -/
def semTimedLoop (s dl : Nat) (c : Call) : M Pc := do
  if (← semTrywait t s) = 0 then schedPutTurn o t .semTimedwait (.ret c 0)
  else wait t (.sem s) (some dl) (.semTimedRetry s dl c)

/-- Sets the phase of lineup `l`. -/
def setPhase (l : Nat) (p : Phase) : M Unit := do
  mutate t (.lineup l (((← rd).lineups l).map ({ · with phase := p })))

/-- The end of `lineupStart`: `SCHED_PUT_TURN(tern_lineup_start)`. -/
def lineupStartEnd (l : Nat) : M Pc :=
  schedPutTurn o t .ternLineupStart (.ret (some (.lineupStart l)) 0)

/-- The `syncfunc` of a sleep wrapper. -/
def sleepOp : Call → SyncOp
  | .usleep _ => .usleep
  | .nanosleep _ => .nanosleep
  | _ => .sleep

end Xtern
