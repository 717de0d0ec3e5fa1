import Xtern.Sched
import Xtern.Time

/-! # Runtime state and the calls a wrapper makes

`Rt` is everything a `RecorderRT` wrapper reads or writes: the scheduler, the native objects the
wrappers call into (default mutexes, default rwlocks, semaphores, the two semaphores of the
`pthread_create` hand-off), the barrier and lineup tables, `nNonDetWait`, the sync log, the
thread-local `inNonDet` and `my_base_time`, and `Env`, the answers of the native calls the model
does not simulate (the clock, `fork`, `fstat`, the scheduler's `interProStart`/`interProEnd`).

A wrapper runs in `M`, a state monad over `Rt` that also records the calls the running thread
makes (`Ev`): on the scheduler, on the tables and the log, and on the native objects. Every change
of the state is one such call, made by `call`, and `Ev.apply` is its effect: the state after a
piece of wrapper code is its calls applied in order to the state before. -/

namespace Xtern

/-- `errno` values the wrappers return. -/
def eBusy : Int := 16
def eTimedOut : Int := 110
def eAgain : Int := 11
def eInval : Int := 22
/-- `PTHREAD_BARRIER_SERIAL_THREAD`. -/
def barrierSerialThread : Int := -1

/-- A default (reader-preferring) rwlock: its writer, or the threads holding it for reading. -/
structure RwLock where
  writer : Option Tid
  readers : List Tid
  deriving DecidableEq, Repr

/-- An entry of the barrier table `barriers`. -/
structure Barrier where
  count : Nat
  narrived : Nat
  deriving DecidableEq, Repr

/-- The two states of a lineup. -/
inductive Phase where
  | arriving | leaving
  deriving DecidableEq, Repr

/-- An entry of the lineup table `refcnt_bars` (`ref_cnt_barrier_t`, whose declaration is not in
the repository: `nactive` is kept signed so that a decrement below zero stays visible). -/
structure Lineup where
  count : Nat
  nactive : Int
  timeout : Nat
  phase : Phase
  deriving DecidableEq, Repr

/-- A record of the sync log: thread, operation, turn, and whether it is a second half. -/
structure SyncRec where
  tid : Tid
  op : SyncOp
  turn : Nat
  after : Bool
  deriving DecidableEq, Repr

/-- Answers of native calls the model does not simulate. `forkRet n` is what `fork` returns when
it is called at turn count `n`. -/
structure Env where
  now : Timespec
  forkRet : Nat → Int
  regular : Nat → Bool
  interProStart : Bool
  interProEnd : Bool

/-- The runtime state the wrappers share. `beginSem` and `doneSem` are `thread_begin_sem` and
`thread_begin_done_sem`; `pending` holds the threads created natively that have not passed
`sem_wait(&thread_begin_sem)`; `absent` the threads a forked child process does not have. -/
structure Rt where
  sched : Sched
  mutex : Nat → Option Tid
  rwlock : Nat → RwLock
  sem : Nat → Nat
  barriers : Nat → Option Barrier
  lineups : Nat → Option Lineup
  nNonDetWait : Int
  log : List SyncRec
  inNonDet : Tid → Bool
  myBaseTime : Tid → Timespec
  beginSem : Nat
  doneSem : Nat
  pending : Tid → Bool
  absent : Tid → Bool
  env : Env

/-- The state at program start: every object at its static initializer, empty tables, an empty
log, no thread in a non-det region, no base time set and no thread waiting to begin. -/
def Rt.init (env : Env) : Rt :=
  ⟨Sched.init, fun _ => none, fun _ => ⟨none, []⟩, fun _ => 0, fun _ => none, fun _ => none, 0, [],
    fun _ => false, fun _ => ⟨0, 0⟩, 0, 0, fun _ => false, fun _ => false, env⟩

/-- A write to one of the tables the turn guards. -/
inductive Write where
  | barrier (b : Nat) (v : Option Barrier)
  | lineup (l : Nat) (v : Option Lineup)
  | nNonDetWait (n : Int)
  deriving DecidableEq, Repr

/-- A native call that changes the state, with the value it writes: the pthread objects, the
semaphores, and the thread creation and process duplication the runtime calls. -/
inductive Native where
  | mutex (mu : Nat) (v : Option Tid)
  | rwlock (rw : Nat) (l : RwLock)
  | sem (s v : Nat)
  /-- `__tern_pthread_create`: the new thread `th` starts in `threadBegin`'s first `sem_wait`. -/
  | spawn (th : Tid)
  /-- `sem_post(&thread_begin_sem)`. -/
  | beginPost
  /-- `sem_wait(&thread_begin_sem)` in `threadBegin`. -/
  | beginWait
  /-- `sem_post(&thread_begin_done_sem)`. -/
  | donePost
  /-- `sem_wait(&thread_begin_done_sem)`. -/
  | doneWait
  /-- `fork` in the child: the process has the calling thread only, and the hand-off semaphores
  are initialised again (`sem_init(..., 0)`). -/
  | forkChild
  deriving DecidableEq, Repr

/-- The calls a thread makes: on the scheduler, the tables, the log, the native objects, and its
own `inNonDet`. -/
inductive Ev where
  | getTurn | putTurn | endTurn | incTurnCount
  | wait (ch : Chan) (dl : Option Nat)
  | signal (ch : Chan) (all : Bool)
  | block | wakeup
  | create (th : Tid)
  | join (th : Tid)
  | childForkReturn
  | logSync (op : SyncOp) (after : Bool) (turn : Nat)
  | mutate (w : Write)
  | native (n : Native)
  | setInNonDet (v : Bool)
  deriving DecidableEq, Repr

namespace Rt

/-! Updates of one part of the runtime state. -/

@[simps] def mapSched (f : Sched → Sched) (r : Rt) : Rt := { r with sched := f r.sched }
@[simps] def setMutex (mu : Nat) (v : Option Tid) (r : Rt) : Rt :=
  { r with mutex := Function.update r.mutex mu v }
@[simps] def setRwlock (rw : Nat) (l : RwLock) (r : Rt) : Rt :=
  { r with rwlock := Function.update r.rwlock rw l }
@[simps] def setSem (s v : Nat) (r : Rt) : Rt := { r with sem := Function.update r.sem s v }
@[simps] def setBarrier (b : Nat) (v : Option Barrier) (r : Rt) : Rt :=
  { r with barriers := Function.update r.barriers b v }
@[simps] def setLineup (l : Nat) (v : Option Lineup) (r : Rt) : Rt :=
  { r with lineups := Function.update r.lineups l v }
@[simps] def setNNonDetWait (n : Int) (r : Rt) : Rt := { r with nNonDetWait := n }
@[simps] def setInNonDet (t : Tid) (v : Bool) (r : Rt) : Rt :=
  { r with inNonDet := Function.update r.inNonDet t v }
@[simps] def appendLog (e : SyncRec) (r : Rt) : Rt := { r with log := r.log ++ [e] }

end Rt

/-- The effect of a table write. -/
def Write.apply : Write → Rt → Rt
  | .barrier b v => Rt.setBarrier b v
  | .lineup l v => Rt.setLineup l v
  | .nNonDetWait n => Rt.setNNonDetWait n

/-- The effect of a native call of thread `t`. -/
def Native.apply (t : Tid) : Native → Rt → Rt
  | .mutex mu v => Rt.setMutex mu v
  | .rwlock rw l => Rt.setRwlock rw l
  | .sem s v => Rt.setSem s v
  | .spawn th => fun r => { r with pending := Function.update r.pending th true }
  | .beginPost => fun r => { r with beginSem := r.beginSem + 1 }
  | .beginWait => fun r =>
    { r with beginSem := r.beginSem - 1, pending := Function.update r.pending t false }
  | .donePost => fun r => { r with doneSem := r.doneSem + 1 }
  | .doneWait => fun r => { r with doneSem := r.doneSem - 1 }
  | .forkChild => fun r =>
    { r with absent := fun u => u ≠ t && u < r.sched.nthread, pending := fun _ => false,
             beginSem := 0, doneSem := 0 }

/-- The effect of a call of thread `t`. -/
def Ev.apply (t : Tid) : Ev → Rt → Rt
  | .getTurn => id
  | .putTurn => Rt.mapSched Sched.putTurn
  | .endTurn => Rt.mapSched (·.endTurn t)
  | .incTurnCount => Rt.mapSched Sched.incTurnCount
  | .wait ch dl => Rt.mapSched (·.park t ch dl)
  | .signal ch all => Rt.mapSched (·.signal ch all)
  | .block => Rt.mapSched (·.block t)
  | .wakeup => Rt.mapSched (·.wakeup t)
  | .create th => Rt.mapSched (·.create th)
  | .join th => Rt.mapSched (·.join th)
  | .childForkReturn => Rt.mapSched (·.childForkReturn t)
  | .logSync op after turn => Rt.appendLog ⟨t, op, turn, after⟩
  | .mutate w => w.apply
  | .native n => n.apply t
  | .setInNonDet v => Rt.setInNonDet t v

/-- The calls `es` of thread `t` applied in order. -/
def replay (t : Tid) (r : Rt) (es : List Ev) : Rt := es.foldl (fun r e => e.apply t r) r

@[simp] theorem replay_nil (t : Tid) (r : Rt) : replay t r [] = r := rfl

@[simp] theorem replay_cons (t : Tid) (r : Rt) (e : Ev) (es : List Ev) :
    replay t r (e :: es) = replay t (e.apply t r) es := rfl

theorem replay_append (t : Tid) (r : Rt) (l₁ l₂ : List Ev) :
    replay t r (l₁ ++ l₂) = replay t (replay t r l₁) l₂ :=
  List.foldl_append _ _ _ _

/-- No call writes the environment. -/
theorem Ev.env_apply (t : Tid) (e : Ev) (r : Rt) : (e.apply t r).env = r.env := by
  cases e <;> (try cases ‹Native›) <;> (try cases ‹Write›) <;> rfl

/-- Wrapper code: it reads the runtime state, changes it by its calls, and reports the calls in
order. -/
def M (α : Type) : Type := Rt → α × Rt × List Ev

namespace M

/-- `return a`. -/
protected def pure {α : Type} (a : α) : M α := fun r => (a, r, [])

/-- Run `m`, then `f` on its result; the calls of both, in order. -/
protected def bind {α β : Type} (m : M α) (f : α → M β) : M β := fun r =>
  let x := m r
  let y := f x.1 x.2.1
  (y.1, y.2.1, x.2.2 ++ y.2.2)

instance : Monad M where
  pure := M.pure
  bind := M.bind

/-- Read the runtime state. -/
def rd : M Rt := fun r => (r, r, [])

@[simp] theorem run_pure {α : Type} (a : α) (r : Rt) : (pure a : M α) r = (a, r, []) := rfl

@[simp] theorem run_bind {α β : Type} (m : M α) (f : α → M β) (r : Rt) :
    (m >>= f) r = ((f (m r).1 (m r).2.1).1, (f (m r).1 (m r).2.1).2.1,
      (m r).2.2 ++ (f (m r).1 (m r).2.1).2.2) := rfl

@[simp] theorem run_rd (r : Rt) : rd r = (r, r, []) := rfl

end M

open M

variable (t : Tid)

/-- One call of thread `t`: its effect, recorded. -/
def call (e : Ev) : M Unit := fun r => ((), e.apply t r, [e])

@[simp] theorem run_call (e : Ev) (r : Rt) : call t e r = ((), e.apply t r, [e]) := rfl

/-! ### Scheduler calls -/

/-- `_S::getTurn()`: the thread holds the turn when this returns. -/
def getTurn : M Unit := call t .getTurn

/-- `_S::putTurn()`. -/
def putTurn : M Unit := call t .putTurn

/-- `_S::putTurn(true)` at thread end. -/
def putTurnEnd : M Unit := call t .endTurn

/-- `_S::incTurnCount()`, returning the new count. -/
def incTurnCount : M Nat := do
  call t .incTurnCount
  return (← rd).sched.turnCount

/-- `_S::getTurnCount()`. -/
def getTurnCount : M Nat := return (← rd).sched.turnCount

/-- `_S::signal(chan, all)`. -/
def signal (ch : Chan) (all : Bool) : M Unit := call t (.signal ch all)

/-- `_S::wait(chan, timeout)`: park on `chan` until signalled or timed out. -/
def waitOn (ch : Chan) (dl : Option Nat) : M Unit := call t (.wait ch dl)

/-- `_S::block()`. -/
def block : M Unit := call t .block

/-- `_S::wakeup()`. -/
def wakeup : M Unit := call t .wakeup

/-- `_S::create(th)`. -/
def create (th : Tid) : M Unit := call t (.create th)

/-- `_S::join(th)`. -/
def join (th : Tid) : M Unit := call t (.join th)

/-- `_S::childForkReturn()`. -/
def childForkReturn : M Unit := call t .childForkReturn

/-- `Logger::the->logSync(ins, op, turn, ..., after)`. -/
def logSync (op : SyncOp) (after : Bool) (turn : Nat) : M Unit := call t (.logSync op after turn)

/-- A write to a table the turn guards. -/
def mutate (w : Write) : M Unit := call t (.mutate w)

/-! ### Native calls -/

/-- `pthread_mutex_trylock(mu)`: takes a free mutex for `t`; `EBUSY` when it is held. -/
def mutexTrylock (mu : Nat) : M Int := do
  if (← rd).mutex mu = none then
    call t (.native (.mutex mu (some t)))
    return 0
  else return eBusy

/-- `pthread_mutex_unlock(mu)`. -/
def mutexUnlock (mu : Nat) : M Int := do
  call t (.native (.mutex mu none))
  return 0

/-- `pthread_rwlock_tryrdlock(rw)`: shares the lock unless a writer holds it. -/
def rwTryrdlock (rw : Nat) : M Int := do
  let l := (← rd).rwlock rw
  if l.writer = none then
    call t (.native (.rwlock rw { l with readers := t :: l.readers }))
    return 0
  else return eBusy

/-- `pthread_rwlock_trywrlock(rw)`: takes a free lock for writing. -/
def rwTrywrlock (rw : Nat) : M Int := do
  let l := (← rd).rwlock rw
  if l.writer = none ∧ l.readers = [] then
    call t (.native (.rwlock rw { l with writer := some t }))
    return 0
  else return eBusy

/-- `pthread_rwlock_unlock(rw)`: releases the write hold of `t`, or one read hold. -/
def rwUnlock (rw : Nat) : M Int := do
  let l := (← rd).rwlock rw
  let l' := if l.writer = some t then { l with writer := none } else { l with readers := l.readers.erase t }
  call t (.native (.rwlock rw l'))
  return 0

/-- `sem_trywait(sem)`: `0` after taking one unit, `-1` (`EAGAIN`) when the value is `0`. -/
def semTrywait (s : Nat) : M Int := do
  let v := (← rd).sem s
  if 0 < v then
    call t (.native (.sem s (v - 1)))
    return 0
  else return -1

/-- `sem_post(sem)`. -/
def semPost (s : Nat) : M Int := do
  let v := (← rd).sem s
  call t (.native (.sem s (v + 1)))
  return 0

/-- `sem_init(sem, pshared, value)`. -/
def semInit (s v : Nat) : M Int := do
  call t (.native (.sem s v))
  return 0

end Xtern
