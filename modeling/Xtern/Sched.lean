import Xtern.Basic

/-! # The round-robin turn scheduler

`RecorderRT<RRScheduler>` calls into the scheduler through `getTurn`, `putTurn`, `wait`,
`signal`, `block`, `wakeup`, `incTurnCount` and `getTurnCount`. The scheduler's own source is not
part of the repository, so `Sched` and its operations follow the spec (section 4.B): the thread
at the head of the run queue holds the turn; `putTurn` rotates it to the tail; `wait` moves it to
the tail of the wait queue with its channel and deadline; `signal` moves the first (or every)
waiter on a channel to the tail of the run queue with result `OK`; a waiter whose deadline has
passed, or the first one by deadline when the run queue is empty, is promoted with `TIMEOUT`.

    spawn ──▶ runq ──wait──▶ waitq ──signal / timeout──▶ runq
                │ block ▲ wakeup
                ▼       │
             external (off both queues)

The wait result of a thread is kept in its descriptor (`wakeRes`) until it runs again. -/

namespace Xtern

/-- Wait channels: the user object a thread parks on, by kind and address (`void *chan`);
`null` is the channel of the sleep family. -/
inductive Chan where
  | mutex (a : Nat) | rwlock (a : Nat) | cond (a : Nat) | sem (a : Nat) | barrier (a : Nat)
  | thread (t : Tid) | lineup (a : Nat) | nonDet | null
  deriving DecidableEq, Repr

/-- What `wait` returns: `0` or `ETIMEDOUT`. -/
inductive WaitRes where
  | ok | timedout
  deriving DecidableEq, Repr

/-- A parked thread, its channel and its deadline in turns (`none` is `FOREVER`). -/
structure Waiter where
  tid : Tid
  chan : Chan
  deadline : Option Nat
  deriving DecidableEq, Repr

/-- The waiter's deadline has been reached at turn `n`. -/
def Waiter.due (w : Waiter) (n : Nat) : Bool :=
  match w.deadline with
  | some d => d ≤ n
  | none => false

/-- Modelled from the spec: the state of `RRScheduler`, whose source is not in the repository
(spec sections 3 and 4.B). -/
structure Sched where
  runq : List Tid
  waitq : List Waiter
  turnCount : Nat
  nthread : Nat
  wakeRes : Tid → WaitRes
  zombies : List Tid

namespace Sched

/-- Modelled from the spec: the scheduler at program start, the main thread `0` alone in the run
queue. -/
def init : Sched := ⟨[0], [], 0, 1, fun _ => .ok, []⟩

/-- Modelled from the spec: `putTurn()` moves the head of the run queue to its tail. -/
def putTurn (s : Sched) : Sched :=
  match s.runq with
  | [] => s
  | t :: r => { s with runq := r ++ [t] }

/-- Modelled from the spec: `incTurnCount()` increments the counter and returns the new value. -/
def incTurnCount (s : Sched) : Sched := { s with turnCount := s.turnCount + 1 }

/-- Moves the waiters `ws` to the tail of the run queue with wait result `r`. -/
def wake (s : Sched) (ws : List Waiter) (r : WaitRes) : Sched :=
  { s with
    waitq := s.waitq.filter (· ∉ ws)
    runq := s.runq ++ ws.map (·.tid)
    wakeRes := fun t => if t ∈ ws.map (·.tid) then r else s.wakeRes t }

/-- The waiters `signal(chan, all)` releases: the first one on `chan`, or all of them in queue
order. -/
def signalled (s : Sched) (ch : Chan) (all : Bool) : List Waiter :=
  if all then s.waitq.filter (·.chan = ch) else (s.waitq.find? (·.chan = ch)).toList

/-- Modelled from the spec: `signal(chan, all)`. -/
def signal (s : Sched) (ch : Chan) (all : Bool) : Sched := s.wake (s.signalled ch all) .ok

/-- Modelled from the spec: `wait(chan, timeout)` by the head `t`: it leaves the run queue for
the tail of the wait queue, and the turn count advances (the comment in `pthreadBarrierWait`:
"in _S::wait will increase it again"). -/
def park (s : Sched) (t : Tid) (ch : Chan) (dl : Option Nat) : Sched :=
  { s with runq := s.runq.erase t, waitq := s.waitq ++ [⟨t, ch, dl⟩], turnCount := s.turnCount + 1 }

/-- Modelled from the spec: `putTurn(true)` at thread end: the thread leaves the run queue for
the zombie set and its joiners, parked on its channel, are released. -/
def endTurn (s : Sched) (t : Tid) : Sched :=
  { s with runq := s.runq.erase t, zombies := t :: s.zombies }.signal (.thread t) true

/-- Modelled from the spec: `block()` takes the thread out of the run queue. -/
def block (s : Sched) (t : Tid) : Sched := { s with runq := s.runq.erase t }

/-- Modelled from the spec: `wakeup()` puts the thread back at the tail of the run queue. -/
def wakeup (s : Sched) (t : Tid) : Sched := { s with runq := s.runq ++ [t] }

/-- Modelled from the spec: `create(th)` registers a new thread at the tail of the run queue. -/
def create (s : Sched) (t : Tid) : Sched := { s with runq := s.runq ++ [t], nthread := s.nthread + 1 }

/-- Modelled from the spec: `childForkReturn()` leaves the child of a `fork` as the sole thread,
holding the turn. -/
def childForkReturn (s : Sched) (t : Tid) : Sched := { s with runq := [t], waitq := [], zombies := [] }

/-- Modelled from the spec: `join(th)` reaps a zombie. -/
def join (s : Sched) (t : Tid) : Sched := { s with zombies := s.zombies.erase t }

/-- Deadlines ordered with `FOREVER` last. -/
def dlLe : Option Nat → Option Nat → Bool
  | _, none => true
  | none, some _ => false
  | some a, some b => a ≤ b

/-- A waiter the timeout rule may promote: its deadline has been reached. -/
def Expired (s : Sched) (w : Waiter) : Prop := w ∈ s.waitq ∧ w.due s.turnCount

/-- The waiter the deadlock rule promotes when the run queue is empty: the smallest deadline,
ties broken by the smallest id. -/
def Deadlocked (s : Sched) (w : Waiter) : Prop :=
  s.runq = [] ∧ w ∈ s.waitq ∧
    ∀ w' ∈ s.waitq, dlLe w.deadline w'.deadline ∧ (dlLe w'.deadline w.deadline → w.tid ≤ w'.tid)

instance (s : Sched) (w : Waiter) : Decidable (s.Expired w) :=
  inferInstanceAs (Decidable (_ ∧ _))

instance (s : Sched) (w : Waiter) : Decidable (s.Deadlocked w) :=
  inferInstanceAs (Decidable (_ ∧ _ ∧ _))

/-- Modelled from the spec: a promotion gives the waiter the result `TIMEOUT`. -/
def promote (s : Sched) (w : Waiter) : Sched := s.wake [w] .timedout

/-! ### Frame lemmas -/

@[simp] theorem putTurn_waitq (s : Sched) : s.putTurn.waitq = s.waitq := by
  unfold putTurn; split <;> rfl

@[simp] theorem putTurn_turnCount (s : Sched) : s.putTurn.turnCount = s.turnCount := by
  unfold putTurn; split <;> rfl

@[simp] theorem putTurn_wakeRes (s : Sched) : s.putTurn.wakeRes = s.wakeRes := by
  unfold putTurn; split <;> rfl

@[simp] theorem putTurn_nthread (s : Sched) : s.putTurn.nthread = s.nthread := by
  unfold putTurn; split <;> rfl

@[simp] theorem putTurn_zombies (s : Sched) : s.putTurn.zombies = s.zombies := by
  unfold putTurn; split <;> rfl

@[simp] theorem endTurn_nthread (s : Sched) (t) : (s.endTurn t).nthread = s.nthread := rfl

@[simp] theorem incTurnCount_nthread (s : Sched) : s.incTurnCount.nthread = s.nthread := rfl

@[simp] theorem wake_turnCount (s : Sched) (ws r) : (s.wake ws r).turnCount = s.turnCount := rfl

@[simp] theorem signal_turnCount (s : Sched) (ch all) : (s.signal ch all).turnCount = s.turnCount :=
  rfl

theorem mem_signalled {s : Sched} {ch all w} (h : w ∈ s.signalled ch all) :
    w ∈ s.waitq ∧ w.chan = ch := by
  unfold signalled at h
  split at h
  · simpa using h
  · obtain ⟨w', hw', rfl⟩ : ∃ w', s.waitq.find? (·.chan = ch) = some w' ∧ w = w' := by
      simpa [Option.mem_toList, eq_comm] using h
    exact ⟨List.mem_of_find?_eq_some hw', by simpa using List.find?_some hw'⟩

end Sched

end Xtern
