import Xtern.Thread

/-! # What one step of a thread does

A step of thread `t` from a point `p` runs wrapper code until the thread blocks again. Every
change it makes to the runtime state is one of its calls (`Ev`), so the state it ends in is the
replay of its calls on the state it started from. This module says once, for every point and every
state, which calls a step can make and where it can stop (`step_calls`); the invariants of the
process are then proved call by call (`Acc.fold`), with no further reading of the wrappers.

The calls are read by an automaton, `Gh`, with one component per concern:

* `hold`: whether the thread holds the turn. `getTurn` takes it, `putTurn` and `putTurn(true)`
  give it up; `signal`, `wait`, `incTurnCount`, a table write, `logSync` and the scheduler's
  `create`, `join` and `childForkReturn` need it; `block` and `wakeup` are made without it, and
  after them no turn is taken again.

              getTurn                    block, wakeup
        free ─────────▶ held       free ──────────────▶ closed ──┐
          ▲ ◀────────── │ ◀──┐                            ▲ ──────┘
            putTurn      └───┘ calls made holding the turn    block, wakeup

* `grp`: the records of the current wrapper call, one group of `NumRecordsForSync(op)` records;
* `stand`: no call follows a `wait` or the thread's end;
* `counted`: a record is logged at the count the last `incTurnCount` reached;
* `fresh`: the turn is taken at most once in a step;
* `joined`: the thread `_S::join` reaped.

Beside the automaton, `Pc.Allows` says which calls a point may make at all and what each call
reads from the state (a `join` of a thread in the zombie set, a `create` of the next id, a record
at the current count). `Next` is the graph of the points a step goes between. -/

namespace Xtern

/-! ### The points of a wrapper -/

/-- The channel a thread parked at `k` waits on. -/
def Resume.chan : Resume → Chan
  | .lockRetry mu _ _ _ => .mutex mu
  | .rdRetry rw | .wrRetry rw => .rwlock rw
  | .joinRetry th => .thread th
  | .barrierWoken b => .barrier b
  | .condWoken cv _ _ => .cond cv
  | .semRetry s _ | .semTimedRetry s _ _ => .sem s
  | .lineupWoken l => .lineup l
  | .nonDetWoken => .nonDet
  | .sleepWoken _ => .null

/-- The wrapper the code after a wait at `k` returns from. -/
def Resume.call : Resume → Call
  | .lockRetry _ _ c _ | .condWoken _ _ c | .semRetry _ c | .semTimedRetry _ _ c
  | .sleepWoken c => c
  | .rdRetry rw => .pthreadRwlockRdlock rw
  | .wrRetry rw => .pthreadRwlockWrlock rw
  | .joinRetry th => .pthreadJoin th
  | .barrierWoken b => .pthreadBarrierWait b
  | .lineupWoken l => .lineupStart l
  | .nonDetWoken => .nonDetStart

/-- The wrapper a timed call with no `abstime` runs as. -/
def Call.twin : Call → Call
  | .pthreadMutexTimedLock mu none => .pthreadMutexLock mu
  | .pthreadCondTimedWait cv mu none => .pthreadCondWait cv mu
  | c => c

/-- The waits the code of wrapper `c` parks at, with what it keeps for the retry. -/
def Call.Parks : Call → Resume → Prop
  | .pthreadJoin th, k => k = .joinRetry th
  | .pthreadMutexLock mu, k => k = .lockRetry mu none (.pthreadMutexLock mu) 0
  | .pthreadMutexTimedLock mu none, k => k = .lockRetry mu none (.pthreadMutexLock mu) 0
  | .pthreadMutexTimedLock mu (some a), k =>
    ∃ dl, k = .lockRetry mu (some dl) (.pthreadMutexTimedLock mu (some a)) 0
  | .pthreadRwlockRdlock rw, k => k = .rdRetry rw
  | .pthreadRwlockWrlock rw, k => k = .wrRetry rw
  | .pthreadBarrierWait b, k => k = .barrierWoken b
  | .pthreadCondWait cv mu, k => k = .condWoken cv mu (.pthreadCondWait cv mu)
  | .pthreadCondTimedWait cv mu none, k => k = .condWoken cv mu (.pthreadCondWait cv mu)
  | .pthreadCondTimedWait cv mu (some a), k =>
    k = .condWoken cv mu (.pthreadCondTimedWait cv mu (some a))
  | .semWait s, k => k = .semRetry s (.semWait s)
  | .semTimedWait s none, k => k = .semRetry s (.semTimedWait s none)
  | .semTimedWait s (some a), k => ∃ dl, k = .semTimedRetry s dl (.semTimedWait s (some a))
  | .lineupStart l, k => k = .lineupWoken l
  | .nonDetStart, k => k = .nonDetWoken
  | .sleep n, k => k = .sleepWoken (.sleep n)
  | .usleep n, k => k = .sleepWoken (.usleep n)
  | .nanosleep req, k => k = .sleepWoken (.nanosleep req)
  | _, _ => False

/-- The waits the code after a wait at `k` parks at again: the retry loops wait where they
waited, a condition wait goes on to wait for its mutex. -/
def Resume.Reparks : Resume → Resume → Prop
  | .condWoken _ mu c, k => ∃ s, k = .lockRetry mu none c s
  | .barrierWoken _, _ | .lineupWoken _, _ | .nonDetWoken, _ | .sleepWoken _, _ => False
  | k, k' => k' = k

/-- The points a step goes between. -/
inductive Next : Pc → Pc → Prop
  | abort {p : Pc} : Next p .aborted
  | stay {c : Option Call} {v : Int} : Next (.ret c v) (.ret c v)
  | enter {c : Call} : Next (.call c) (.get (.body c))
  | pass {c : Call} : Next (.call c) (.native (some c))
  | native {c : Option Call} : Next (.native c) (.ret c 0)
  | ioPass {op : IoOp} {fd : Nat} : Next (.ioCall op fd) (.native none)
  | ioBlock {op : IoOp} {fd : Nat} : Next (.ioCall op fd) (.blocked op)
  | ioEnd {op : IoOp} : Next (.blocked op) (.ret none 0)
  | nonDetEnd : Next .nonDetEnd (.ret none 0)
  | ret {c : Call} {v : Int} : Next (.get (.body c)) (.ret (some c.twin) v)
  | park {c : Call} {k : Resume} : c.Parks k → Next (.get (.body c)) (.parked k)
  | resumeRet {k : Resume} {v : Int} : Next (.parked k) (.ret (some k.call) v)
  | repark {k k' : Resume} : k.Reparks k' → Next (.parked k) (.parked k')
  | cycle {b : Nat} : Next (.get (.body (.pthreadBarrierWait b))) (.get (.barrierCycled b))
  | cycled {b : Nat} {v : Int} :
      Next (.get (.barrierCycled b)) (.ret (some (.pthreadBarrierWait b)) v)
  | threadEnd : Next (.get (.body .threadEnd)) .zombie
  | create : Next (.get (.body .pthreadCreate)) (.post .beginHandshake)
  | posted : Next (.post .beginHandshake) (.post .beginDone)
  | created : Next (.post .beginDone) (.ret (some .pthreadCreate) 0)
  | forkIdle : Next (.get (.body .fork)) (.call .pthreadCreate)
  | nonDetWoken : Next (.parked .nonDetWoken) (.post .nonDetBlock)
  | nonDetBlock : Next (.post .nonDetBlock) (.ret (some .nonDetStart) 0)
  | begin : Next .zombie (.call .threadBegin)

/-! ### The calls a point may make -/

/-- The barrier a call works on. -/
def Call.barrier : Call → Option Nat
  | .pthreadBarrierInit b _ | .pthreadBarrierWait b | .pthreadBarrierDestroy b => some b
  | _ => none

/-- The lineup a call works on. -/
def Call.lineup : Call → Option Nat
  | .lineupInit l _ _ | .lineupDestroy l | .lineupStart l | .lineupEnd l => some l
  | _ => none

/-- The calls whose wait has a deadline. -/
def Call.timed : Call → Bool
  | .pthreadMutexTimedLock _ (some _) | .pthreadCondTimedWait _ _ (some _)
  | .semTimedWait _ (some _) | .lineupStart _ | .sleep _ | .usleep _ | .nanosleep _ => true
  | _ => false

namespace Pc

/-- A point waiting for the turn. -/
def isGet : Pc → Bool
  | .get _ => true
  | _ => false

/-- A point whose step runs holding the turn. -/
def inTurn : Pc → Bool
  | .get _ | .parked _ => true
  | _ => false

/-- A point inside a turn-based wrapper, past its `SCHED_GET_TURN`. -/
def inCall : Pc → Bool
  | .get _ | .parked _ | .post _ => true
  | _ => false

/-- A point where a wrapper call is over: application code, the thread's end, or the call of
the next wrapper. -/
def settled : Pc → Bool
  | .ret _ _ | .zombie | .call _ => true
  | _ => false

/-- The points whose step blocks the thread out of turn (`BLOCK_TIMER_START`, `nonDetStart`). -/
def blocks : Pc → Bool
  | .ioCall _ _ | .post .nonDetBlock => true
  | _ => false

/-- The points whose step wakes the thread up out of turn (`BLOCK_TIMER_END`, `nonDetEnd`). -/
def wakes : Pc → Bool
  | .blocked _ | .nonDetEnd => true
  | _ => false

/-- The thread `pthread_join` waits for, at the points of its loop. -/
def joinee : Pc → Option Tid
  | .get (.body (.pthreadJoin th)) | .parked (.joinRetry th) => some th
  | _ => none

/-- The barrier whose entry the step from a point may write. -/
def barrier : Pc → Option Nat
  | .get (.body c) => c.barrier
  | _ => none

/-- The lineup whose entry the step from a point may write. -/
def lineup : Pc → Option Nat
  | .get (.body c) => c.lineup
  | .parked (.lineupWoken l) => some l
  | _ => none

/-- The points whose step may wait with a deadline. -/
def timed : Pc → Bool
  | .get (.body c) => c.timed
  | .parked (.lockRetry _ dl _ _) => dl.isSome
  | .parked (.semTimedRetry _ _ _) => true
  | _ => false

/-- The table writes the step from `p` may make. -/
def Writes (p : Pc) : Write → Prop
  | .barrier b _ => p.barrier = some b
  | .lineup l _ => p.lineup = some l
  | .nNonDetWait _ => p = .get (.body .nonDetStart) ∨ p = .parked .nonDetWoken

/-- The native calls the step from `p` may make, in state `x`. -/
def Natives (p : Pc) (x : Rt) : Native → Prop
  | .spawn th => p = .get (.body .pthreadCreate) ∧ th = x.sched.nthread
  | .beginPost => p = .post .beginHandshake
  | .beginWait | .donePost => p = .zombie
  | .doneWait => p = .post .beginDone
  | .forkChild => p = .get (.body .fork) ∧ x.env.forkRet x.sched.turnCount = 0
  | .mutex _ _ | .rwlock _ _ | .sem _ _ => p.inTurn = true

/-- The calls the step from `p` may make in state `x`, and what each reads of the state. -/
def Allows (p : Pc) (x : Rt) : Ev → Prop
  | .getTurn => p.isGet = true
  | .wait ch dl =>
    (ch = .nonDet → p = .get (.body .nonDetStart) ∧ dl = none) ∧ (dl.isSome = true → p.timed = true)
  | .signal ch _ => ch ≠ .nonDet
  | .block => p.blocks = true
  | .wakeup => p.wakes = true
  | .create th => p = .get (.body .pthreadCreate) ∧ th = x.sched.nthread
  | .join th => th ∈ x.sched.zombies
  | .childForkReturn => p = .get (.body .fork) ∧ x.env.forkRet x.sched.turnCount = 0
  | .logSync _ _ turn => turn = x.sched.turnCount
  | .mutate w => p.Writes w
  | .native n => p.Natives x n
  | .setInNonDet v => p = if v then .post .nonDetBlock else .nonDetEnd
  | .putTurn | .endTurn | .incTurnCount => True

end Pc

/-! ### The automaton -/

/-- Whether a thread holds the turn; `closed` after an out-of-turn `block` or `wakeup`. -/
inductive Hold where
  | free | held | closed
  deriving DecidableEq, Repr

/-- The transition of `Hold` on one call; `none` is a call made in the wrong state. -/
def Hold.next : Hold → Ev → Option Hold
  | .free, .getTurn => some .held
  | .held, .putTurn | .held, .endTurn => some .free
  | .free, .block | .free, .wakeup | .closed, .block | .closed, .wakeup => some .closed
  | h, .native _ | h, .setInNonDet _ => some h
  | .held, .incTurnCount | .held, .wait _ _ | .held, .signal _ _ | .held, .logSync _ _ _
  | .held, .mutate _ | .held, .create _ | .held, .join _ | .held, .childForkReturn => some .held
  | _, _ => none

/-- The records of one wrapper call: none yet, the first half of `op`, or the whole group. -/
inductive Grp where
  | fresh
  | half (op : SyncOp)
  | done
  deriving DecidableEq, Repr

/-- The transition of `Grp` on a record of `op`, a second half when `after`: an operation of
one record logs a second half, an operation of two a first half and then the second half. -/
def Grp.take : Grp → SyncOp → Bool → Option Grp
  | .fresh, op, false => if numRecordsForSync op = 2 then some (.half op) else none
  | .fresh, op, true => if numRecordsForSync op = 1 then some .done else none
  | .half op, op', true => if op' = op then some .done else none
  | _, _, _ => none

/-- Where the thread running wrapper code stands in the queues. -/
inductive Stand where
  | running
  | waiting (ch : Chan)
  | ended
  deriving DecidableEq, Repr

/-- The automaton's state. -/
structure Gh where
  hold : Hold
  grp : Grp
  stand : Stand
  counted : Bool
  fresh : Bool
  joined : Option Tid
  deriving DecidableEq, Repr

/-- The transition of the automaton on one call. -/
def Gh.next (g : Gh) (e : Ev) : Option Gh :=
  match g.stand, g.hold.next e, e with
  | .running, some h, .getTurn => if g.fresh then some { g with hold := h, fresh := false } else none
  | .running, some h, .incTurnCount => some { g with hold := h, counted := true }
  | .running, some h, .logSync op after _ =>
    if g.counted then (g.grp.take op after).map fun gr => { g with hold := h, grp := gr, counted := false }
    else none
  | .running, some h, .wait ch _ => some { g with hold := h, stand := .waiting ch }
  | .running, some h, .endTurn => some { g with hold := h, stand := .ended }
  | .running, some h, .join th => some { g with hold := h, joined := some th }
  | .running, some h, _ => some { g with hold := h }
  | _, _, _ => none

/-- Where a call leaves the running thread that makes it: `wait` on its channel, `putTurn(true)`
out of the queues, every other call where it was. -/
def Ev.stand : Ev → Stand
  | .wait ch _ => .waiting ch
  | .endTurn => .ended
  | _ => .running

/-- The automaton accepts calls only from a running thread, and moves it as `Ev.stand` says. -/
theorem Gh.next_stand {g g₁ : Gh} {e : Ev} (h : g.next e = some g₁) :
    g.stand = .running ∧ g₁.stand = e.stand := by
  unfold Gh.next at h
  split at h <;> (try split_ifs at h) <;>
    first | cases h | obtain ⟨_, -, rfl⟩ := Option.map_eq_some'.1 h
  all_goals exact ⟨‹_›, by simp_all [Ev.stand]⟩

/-- The automaton moves the turn as `Hold.next` says. -/
theorem Gh.next_hold {g g₁ : Gh} {e : Ev} (h : g.next e = some g₁) :
    g.hold.next e = some g₁.hold := by
  unfold Gh.next at h
  split at h <;> (try split_ifs at h) <;>
    first | cases h | obtain ⟨_, -, rfl⟩ := Option.map_eq_some'.1 h
  all_goals assumption

/-- `getTurn` is accepted once, while the step is fresh. -/
theorem Gh.next_fresh {g g₁ : Gh} {e : Ev} (h : g.next e = some g₁) :
    if e = .getTurn then g.fresh = true ∧ g₁.fresh = false else g₁.fresh = g.fresh := by
  unfold Gh.next at h
  split at h <;> (try split_ifs at h) <;>
    first | cases h | obtain ⟨_, -, rfl⟩ := Option.map_eq_some'.1 h
  all_goals simp_all

/-- Only `join` records a reaped thread. -/
theorem Gh.next_joined {g g₁ : Gh} {e : Ev} (h : g.next e = some g₁) :
    ∀ th, g₁.joined = some th → g.joined = some th ∨ e = .join th := by
  unfold Gh.next at h
  split at h <;> (try split_ifs at h) <;>
    first | cases h | obtain ⟨_, -, rfl⟩ := Option.map_eq_some'.1 h
  all_goals simp_all

theorem Gh.next_ended {g : Gh} (hs : g.stand = .ended) (e : Ev) : g.next e = none := by
  unfold Gh.next
  split <;> simp_all

/-- The calls `es` of thread `t`, made by a step from `p` from state `x`, are accepted from `g`
and lead to `g'`. -/
inductive Acc (t : Tid) (p : Pc) : Gh → Rt → List Ev → Gh → Prop
  | nil (g : Gh) (x : Rt) : Acc t p g x [] g
  | cons {g g₁ g' : Gh} {x : Rt} {e : Ev} {es : List Ev} :
      p.Allows x e → g.next e = some g₁ → Acc t p g₁ (e.apply t x) es g' → Acc t p g x (e :: es) g'

namespace Acc

variable {t : Tid} {p : Pc}

theorem append {g g₁ g₂ : Gh} {x : Rt} {l₁ l₂ : List Ev} (h₁ : Acc t p g x l₁ g₁)
    (h₂ : Acc t p g₁ (replay t x l₁) l₂ g₂) : Acc t p g x (l₁ ++ l₂) g₂ := by
  induction h₁ with
  | nil => exact h₂
  | cons ha hn _ ih => exact .cons ha hn (ih h₂)

/-- What every accepted call keeps holds after a whole sequence of them. -/
theorem fold {P : Gh → Rt → Prop}
    (hP : ∀ g x e g₁, p.Allows x e → g.next e = some g₁ → P g x → P g₁ (e.apply t x))
    {g g' : Gh} {x : Rt} {es : List Ev} (h : Acc t p g x es g') (h₀ : P g x) :
    P g' (replay t x es) := by
  induction h with
  | nil => exact h₀
  | cons ha hn _ ih => exact ih (hP _ _ _ _ ha hn h₀)

end Acc

/-! ### Where a step starts and where it stops -/

/-- The records a thread parked in wrapper `c` has logged: the first half of a condition wait. -/
def Call.grp : Call → Grp
  | .pthreadCondWait _ _ => .half .pthreadCondWait
  | .pthreadCondTimedWait _ _ _ => .half .pthreadCondTimedwait
  | _ => .fresh

/-- The records a thread parked at `k` has logged in its wrapper call. -/
def Resume.grp : Resume → Grp
  | .barrierWoken _ => .half .pthreadBarrierWait
  | .lockRetry _ _ c _ | .condWoken _ _ c => c.grp
  | _ => .fresh

namespace Pc

/-- The records a thread at `p` has logged in its wrapper call, with `log_sync` on. -/
def grpAt : Pc → Grp
  | .get (.barrierCycled _) => .half .pthreadBarrierWait
  | .parked k => k.grp
  | .post _ => .done
  | _ => .fresh

/-- Whether a thread at `p` may hold the turn as `h` says. -/
def holdOk : Pc → Hold → Bool
  | .parked _, h => h == .held
  | .ret _ _, h | .blocked _, h => h != .held
  | .aborted, _ => true
  | _, h => h == .free

/-- Where a thread that has just reached `p` stands. -/
def standAt : Pc → Stand
  | .parked k => .waiting k.chan
  | .zombie => .ended
  | _ => .running

end Pc

/-- The automaton states a step from `p` may start in. -/
structure Gh.Starts (o : Options) (p : Pc) (g : Gh) : Prop where
  hold : p.holdOk g.hold = true
  grp : o.logSync = true → g.grp = p.grpAt
  stand : g.stand = .running
  counted : g.counted = false
  fresh : g.fresh = true
  joined : g.joined = none

/-- The automaton state a step from `p` to `q` ends in: the turn as `q` says, the records of a
finished call complete, the thread where `q` says, and the return from `pthread_join` after the
join. -/
structure Lands (o : Options) (p q : Pc) (g : Gh) : Prop where
  hold : q.holdOk g.hold = true
  grp : o.logSync = true →
    g.grp = if q.settled then (if p.inCall then .done else .fresh) else q.grpAt
  stand : g.stand = q.standAt
  joined : ∀ th, p.joinee = some th → (∃ c v, q = .ret c v) → g.joined = some th

/-- Where a step from `p` may stop: a point `Next` allows, landing as `Lands` says unless the
process ended, which it does with the thread still running. -/
def Reaches (o : Options) (p q : Pc) (g : Gh) : Prop :=
  Next p q ∧ (q = .aborted ∧ g.stand = .running ∨ Lands o p q g)

/-- The automaton state the next step starts in: the thread runs again. -/
def Gh.resume (g : Gh) : Gh := { g with stand := .running, counted := false, fresh := true, joined := none }

/-- A step that stops at a point inside a call leaves the automaton where the next step starts. -/
theorem Lands.starts {o : Options} {p q : Pc} {g : Gh} (h : Lands o p q g) (hq : q.settled = false) :
    g.resume.Starts o q where
  hold := h.hold
  grp ho := by simpa [hq] using h.grp ho
  stand := rfl
  counted := rfl
  fresh := rfl
  joined := rfl

/-! ### Walking the wrapper code -/

/-- From state `r` and automaton state `g`, the calls of `m` are accepted, the state `m` ends in
is their replay, and `Q` holds of its result, the automaton state reached and the final state. -/
def Walks (t : Tid) (p : Pc) {α : Type} (g : Gh) (r : Rt) (m : M α) (Q : α → Gh → Rt → Prop) :
    Prop :=
  ∃ g', Acc t p g r (m r).2.2 g' ∧ (m r).2.1 = replay t r (m r).2.2 ∧ Q (m r).1 g' (m r).2.1

namespace Walks

variable {t : Tid} {p : Pc} {α β : Type} {g : Gh} {r : Rt} {Q : α → Gh → Rt → Prop}

theorem pure {a : α} (h : Q a g r) : Walks t p g r (pure a : M α) Q := ⟨g, .nil g r, rfl, h⟩

theorem bind {m : M β} {f : β → M α} (h : Walks t p g r m fun b g' r' => Walks t p g' r' (f b) Q) :
    Walks t p g r (m >>= f) Q := by
  obtain ⟨g₁, h₁, e₁, g₂, h₂, e₂, hq⟩ := h
  refine ⟨g₂, h₁.append (e₁ ▸ h₂), ?_, hq⟩
  show _ = replay t r (_ ++ _)
  rw [replay_append, ← e₁]
  exact e₂

theorem rd {f : Rt → M α} (h : Walks t p g r (f r) Q) : Walks t p g r (M.rd >>= f) Q := h

theorem call {e : Ev} {g₁ : Gh} {k : Unit → M α} (ha : p.Allows r e) (hn : g.next e = some g₁)
    (h : Walks t p g₁ (e.apply t r) (k ()) Q) : Walks t p g r (call t e >>= k) Q :=
  let ⟨g', h', e', hq⟩ := h
  ⟨g', .cons ha hn h', e', hq⟩

/-- A call that ends the code. -/
theorem last {e : Ev} {g₁ : Gh} {Q : Unit → Gh → Rt → Prop} (ha : p.Allows r e)
    (hn : g.next e = some g₁) (h : Q () g₁ (e.apply t r)) : Walks t p g r (Xtern.call t e) Q :=
  ⟨g₁, .cons ha hn (.nil _ _), rfl, h⟩

theorem ite {c : Prop} [Decidable c] {a b : M α} (ha : c → Walks t p g r a Q)
    (hb : ¬c → Walks t p g r b Q) : Walks t p g r (if c then a else b) Q := by
  split_ifs with h
  exacts [ha h, hb h]

theorem orAbort {x : Option β} {k : β → M Pc} {Q : Pc → Gh → Rt → Prop} (hn : Q .aborted g r)
    (hs : ∀ b, Walks t p g r (k b) Q) : Walks t p g r (Xtern.orAbort x k) Q := by
  cases x
  · exact pure hn
  · exact hs _

/-- A native call in a turn section leaves the automaton as it is. -/
theorem native {n : Native} {k : Unit → M α} (ha : p.Natives r n) (hs : g.stand = .running)
    (h : Walks t p g ((Ev.native n).apply t r) (k ()) Q) :
    Walks t p g r (Xtern.call t (.native n) >>= k) Q := by
  refine call ha ?_ h
  obtain ⟨ho, gr, st, cnt, fr, jn⟩ := g
  cases hs
  cases ho <;> rfl

end Walks

/-! ### The native calls -/

section Natives

variable {t : Tid} {p : Pc} {α : Type} {g : Gh} {r : Rt} {Q : α → Gh → Rt → Prop}
  (hp : p.inTurn = true) (hs : g.stand = .running)
include hp hs

theorem walks_mutexTrylock {mu : Nat} {k : Int → M α} (hk : ∀ v r', Walks t p g r' (k v) Q) :
    Walks t p g r (mutexTrylock t mu >>= k) Q := by
  unfold mutexTrylock
  refine Walks.bind <| Walks.rd <| Walks.ite (fun _ => ?_) fun _ => Walks.pure <| hk _ _
  exact Walks.native hp hs <| Walks.pure <| hk _ _

theorem walks_mutexUnlock {mu : Nat} {k : Int → M α} (hk : ∀ v r', Walks t p g r' (k v) Q) :
    Walks t p g r (mutexUnlock t mu >>= k) Q := by
  unfold mutexUnlock
  exact Walks.bind <| Walks.native hp hs <| Walks.pure <| hk _ _

theorem walks_rwTryrdlock {rw : Nat} {k : Int → M α} (hk : ∀ v r', Walks t p g r' (k v) Q) :
    Walks t p g r (rwTryrdlock t rw >>= k) Q := by
  unfold rwTryrdlock
  refine Walks.bind <| Walks.rd <| Walks.ite (fun _ => ?_) fun _ => Walks.pure <| hk _ _
  exact Walks.native hp hs <| Walks.pure <| hk _ _

theorem walks_rwTrywrlock {rw : Nat} {k : Int → M α} (hk : ∀ v r', Walks t p g r' (k v) Q) :
    Walks t p g r (rwTrywrlock t rw >>= k) Q := by
  unfold rwTrywrlock
  refine Walks.bind <| Walks.rd <| Walks.ite (fun _ => ?_) fun _ => Walks.pure <| hk _ _
  exact Walks.native hp hs <| Walks.pure <| hk _ _

theorem walks_rwUnlock {rw : Nat} {k : Int → M α} (hk : ∀ v r', Walks t p g r' (k v) Q) :
    Walks t p g r (rwUnlock t rw >>= k) Q := by
  unfold rwUnlock
  exact Walks.bind <| Walks.rd <| Walks.native hp hs <| Walks.pure <| hk _ _

theorem walks_semTrywait {s : Nat} {k : Int → M α} (hk : ∀ v r', Walks t p g r' (k v) Q) :
    Walks t p g r (semTrywait t s >>= k) Q := by
  unfold semTrywait
  refine Walks.bind <| Walks.rd <| Walks.ite (fun _ => ?_) fun _ => Walks.pure <| hk _ _
  exact Walks.native hp hs <| Walks.pure <| hk _ _

theorem walks_semPost {s : Nat} {k : Int → M α} (hk : ∀ v r', Walks t p g r' (k v) Q) :
    Walks t p g r (semPost t s >>= k) Q := by
  unfold semPost
  exact Walks.bind <| Walks.rd <| Walks.native hp hs <| Walks.pure <| hk _ _

theorem walks_semInit {s v : Nat} {k : Int → M α} (hk : ∀ v r', Walks t p g r' (k v) Q) :
    Walks t p g r (semInit t s v >>= k) Q := by
  unfold semInit
  exact Walks.bind <| Walks.native hp hs <| Walks.pure <| hk _ _

end Natives

/-! ### The turn macros -/

section Macros

variable {o : Options} {t : Tid} {p : Pc} {r : Rt}

/-- What a step from `p` may stop at. -/
abbrev Stops (o : Options) (p : Pc) : Pc → Gh → Rt → Prop := fun q g _ => Reaches o p q g

theorem Gh.next_logSync {gr gr' : Grp} {fr : Bool} {jn : Option Tid} {op : SyncOp}
    {after : Bool} {n : Nat} (hg : gr.take op after = some gr') :
    Gh.next ⟨.held, gr, .running, true, fr, jn⟩ (.logSync op after n) =
      some ⟨.held, gr', .running, false, fr, jn⟩ := by
  simp [Gh.next, Hold.next, hg]

/-- `_S::incTurnCount()` in a turn section. -/
theorem walks_incTurnCount {gr : Grp} {cnt fr : Bool} {jn : Option Tid} {Q : Nat → Gh → Rt → Prop}
    (h : Q (r.sched.turnCount + 1) ⟨.held, gr, .running, true, fr, jn⟩ (r.mapSched .incTurnCount)) :
    Walks t p ⟨.held, gr, .running, cnt, fr, jn⟩ r (incTurnCount t) Q :=
  Walks.call trivial rfl <| Walks.rd <| Walks.pure h

/-- `SCHED_PUT_TURN` at the end of a turn section: the count goes up, the second half is logged
at the new count, and the turn is given up. -/
theorem walks_schedPutTurn {α : Type} {gr : Grp} {cnt fr : Bool} {jn : Option Tid} {op : SyncOp}
    {next : α} {Q : α → Gh → Rt → Prop} (hgr : o.logSync = true → gr.take op true = some .done)
    (hq : ∀ gr' cnt' r', (o.logSync = true → gr' = .done) →
      Q next ⟨.free, gr', .running, cnt', fr, jn⟩ r') :
    Walks t p ⟨.held, gr, .running, cnt, fr, jn⟩ r (schedPutTurn o t op next) Q := by
  refine Walks.bind <| walks_incTurnCount <| Walks.ite (fun ho => ?_) fun ho => ?_
  · refine Walks.bind <| Walks.rd <| Walks.pure <| Walks.call (by rfl) (Gh.next_logSync (hgr ho)) ?_
    exact Walks.call trivial rfl <| Walks.pure <| hq _ false _ fun _ => rfl
  · exact Walks.bind <| Walks.pure <| Walks.call trivial rfl <| Walks.pure <|
      hq _ true _ fun h => absurd h ho

/-- `SCHED_INC_TURN` in a turn section: the count goes up and the first half is logged. -/
theorem walks_schedIncTurn {α : Type} {gr gr₁ : Grp} {cnt fr : Bool} {jn : Option Tid}
    {op : SyncOp} {k : Unit → M α} {Q : α → Gh → Rt → Prop}
    (hgr : o.logSync = true → gr.take op false = some gr₁)
    (hk : ∀ gr' cnt' r', (o.logSync = true → gr' = gr₁) →
      Walks t p ⟨.held, gr', .running, cnt', fr, jn⟩ r' (k ()) Q) :
    Walks t p ⟨.held, gr, .running, cnt, fr, jn⟩ r (schedIncTurn o t op >>= k) Q := by
  refine Walks.bind <| Walks.bind <| walks_incTurnCount <| Walks.ite (fun ho => ?_) fun ho => ?_
  · exact Walks.call (by rfl) (Gh.next_logSync (hgr ho)) <| Walks.pure <| hk _ _ _ fun _ => rfl
  · exact Walks.pure <| hk _ _ _ fun h => absurd h ho

/-- `sched_thread_end`: as `SCHED_PUT_TURN`, ending the thread. -/
theorem walks_schedThreadEnd {gr : Grp} {cnt fr : Bool} {jn : Option Tid}
    (hgr : o.logSync = true → gr.take .ternThreadEnd true = some .done)
    (hq : ∀ gr' cnt', (o.logSync = true → gr' = .done) →
      Reaches o p .zombie ⟨.free, gr', .ended, cnt', fr, jn⟩) :
    Walks t p ⟨.held, gr, .running, cnt, fr, jn⟩ r (schedThreadEnd o t) (Stops o p) := by
  refine Walks.bind <| walks_incTurnCount <| Walks.ite (fun ho => ?_) fun ho => ?_
  · refine Walks.bind <| Walks.rd <| Walks.pure <| Walks.call (by rfl) (Gh.next_logSync (hgr ho)) ?_
    exact Walks.call trivial rfl <| Walks.pure <| hq _ false fun _ => rfl
  · exact Walks.bind <| Walks.pure <| Walks.call trivial rfl <| Walks.pure <|
      hq _ true fun h => absurd h ho

/-- `_S::wait` ends the step, parked at `k` holding the turn. -/
theorem walks_wait {gr : Grp} {cnt fr : Bool} {jn : Option Tid} {ch : Chan} {dl : Option Nat}
    {k : Resume} (hch : k.chan = ch) (ha : p.Allows r (.wait ch dl)) (hn : Next p (.parked k))
    (hgr : o.logSync = true → gr = k.grp) :
    Walks t p ⟨.held, gr, .running, cnt, fr, jn⟩ r (wait t ch dl k) (Stops o p) :=
  Walks.call ha rfl <| Walks.pure
    ⟨hn, .inr ⟨rfl, hgr, by rw [← hch]; rfl, fun _ _ ⟨_, _, h⟩ => Pc.noConfusion h⟩⟩

end Macros

/-! ### The helpers and loops -/

section Helpers

variable {o : Options} {t : Tid} {p : Pc} {r : Rt} {gr : Grp} {cnt fr : Bool} {jn : Option Tid}

theorem reaches_aborted {g : Gh} (hs : g.stand = .running) : Reaches o p .aborted g :=
  ⟨.abort, .inl ⟨rfl, hs⟩⟩

theorem Grp.take_fresh_one {op : SyncOp} (h : numRecordsForSync op = 1) :
    Grp.fresh.take op true = some .done := by
  simp [Grp.take, h]

theorem Grp.take_fresh_two {op : SyncOp} (h : numRecordsForSync op = 2) :
    Grp.fresh.take op false = some (.half op) := by
  simp [Grp.take, h]

theorem Grp.take_half (op : SyncOp) : (Grp.half op).take op true = some .done := by
  simp [Grp.take]

theorem numRecordsForSync_sleepOp (c : Call) : numRecordsForSync (sleepOp c) = 1 := by
  unfold sleepOp
  split <;> rfl

/-- The end of a wrapper call: `SCHED_PUT_TURN`, returning `v`. -/
theorem walks_ret {c : Option Call} {v : Int} {op : SyncOp} (hn : Next p (.ret c v))
    (hp : p.inCall = true) (hgr : o.logSync = true → gr.take op true = some .done)
    (hj : ∀ th, p.joinee = some th → jn = some th) :
    Walks t p ⟨.held, gr, .running, cnt, fr, jn⟩ r (schedPutTurn o t op (.ret c v)) (Stops o p) :=
  walks_schedPutTurn hgr fun _ _ _ h =>
    ⟨hn, .inr ⟨rfl, fun ho => by simp [Pc.settled, hp, h ho], rfl, fun th hth _ => hj th hth⟩⟩

/-- What follows the mutex helper returns from the wrapper that called it, with its records
complete whatever the wrapper. -/
theorem walks_afterLock {c : Call} {saved v : Int} (hn : ∀ v, Next p (.ret (some c) v))
    (hp : p.inCall = true) (hgr : o.logSync = true → gr = c.grp)
    (hj : ∀ th, p.joinee = some th → jn = some th) :
    Walks t p ⟨.held, gr, .running, cnt, fr, jn⟩ r (afterLock o t c saved v) (Stops o p) := by
  cases c <;> exact walks_ret (hn _) hp (fun ho => by rw [hgr ho]; rfl) hj

theorem walks_lockHelper {mu : Nat} {dl : Option Nat} {c : Call} {saved : Int}
    (hn : ∀ v, Next p (.ret (some c) v)) (hk : Next p (.parked (.lockRetry mu dl c saved)))
    (hp : p.inTurn = true) (hc : p.inCall = true) (ht : dl.isSome = true → p.timed = true)
    (hgr : o.logSync = true → gr = c.grp) (hj : ∀ th, p.joinee = some th → jn = some th) :
    Walks t p ⟨.held, gr, .running, cnt, fr, jn⟩ r (lockHelper o t mu dl c saved) (Stops o p) :=
  walks_mutexTrylock hp rfl fun _ _ => Walks.ite (fun _ => walks_afterLock hn hc hgr hj)
    fun _ => walks_wait rfl ⟨nofun, ht⟩ hk hgr

theorem walks_rdLockHelper {rw : Nat} (hn : Next p (.ret (some (.pthreadRwlockRdlock rw)) 0))
    (hk : Next p (.parked (.rdRetry rw))) (hp : p.inTurn = true) (hc : p.inCall = true)
    (hgr : o.logSync = true → gr = .fresh) (hj : ∀ th, p.joinee = some th → jn = some th) :
    Walks t p ⟨.held, gr, .running, cnt, fr, jn⟩ r (rdLockHelper o t rw) (Stops o p) :=
  walks_rwTryrdlock hp rfl fun _ _ => Walks.ite
    (fun _ => walks_ret hn hc (fun ho => by rw [hgr ho]; rfl) hj)
    fun _ => walks_wait rfl ⟨nofun, nofun⟩ hk hgr

theorem walks_wrLockHelper {rw : Nat} (hn : Next p (.ret (some (.pthreadRwlockWrlock rw)) 0))
    (hk : Next p (.parked (.wrRetry rw))) (hp : p.inTurn = true) (hc : p.inCall = true)
    (hgr : o.logSync = true → gr = .fresh) (hj : ∀ th, p.joinee = some th → jn = some th) :
    Walks t p ⟨.held, gr, .running, cnt, fr, jn⟩ r (wrLockHelper o t rw) (Stops o p) :=
  walks_rwTrywrlock hp rfl fun _ _ => Walks.ite
    (fun _ => walks_ret hn hc (fun ho => by rw [hgr ho]; rfl) hj)
    fun _ => walks_wait rfl ⟨nofun, nofun⟩ hk hgr

/-- The join loop reaps the thread it waits for, and returns only after reaping it. -/
theorem walks_joinLoop {th : Tid} (hn : Next p (.ret (some (.pthreadJoin th)) 0))
    (hk : Next p (.parked (.joinRetry th))) (hc : p.inCall = true) (hj : p.joinee = some th)
    (hgr : o.logSync = true → gr = .fresh) :
    Walks t p ⟨.held, gr, .running, cnt, fr, jn⟩ r (joinLoop o t th) (Stops o p) :=
  Walks.rd <| Walks.ite
    (fun hz => Walks.call hz rfl <| walks_ret hn hc (fun ho => by rw [hgr ho]; rfl)
      fun _ h => by rw [hj] at h; rw [h])
    fun _ => walks_wait rfl ⟨nofun, nofun⟩ hk hgr

theorem walks_semWaitLoop {s : Nat} {c : Call} (hn : Next p (.ret (some c) 0))
    (hk : Next p (.parked (.semRetry s c))) (hp : p.inTurn = true) (hc : p.inCall = true)
    (hgr : o.logSync = true → gr = .fresh) (hj : ∀ th, p.joinee = some th → jn = some th) :
    Walks t p ⟨.held, gr, .running, cnt, fr, jn⟩ r (semWaitLoop o t s c) (Stops o p) :=
  walks_semTrywait hp rfl fun _ _ => Walks.ite
    (fun _ => walks_ret hn hc (fun ho => by rw [hgr ho]; rfl) hj)
    fun _ => walks_wait rfl ⟨nofun, nofun⟩ hk hgr

theorem walks_semTimedLoop {s dl : Nat} {c : Call} (hn : Next p (.ret (some c) 0))
    (hk : Next p (.parked (.semTimedRetry s dl c))) (hp : p.inTurn = true) (hc : p.inCall = true)
    (ht : p.timed = true) (hgr : o.logSync = true → gr = .fresh)
    (hj : ∀ th, p.joinee = some th → jn = some th) :
    Walks t p ⟨.held, gr, .running, cnt, fr, jn⟩ r (semTimedLoop o t s dl c) (Stops o p) :=
  walks_semTrywait hp rfl fun _ _ => Walks.ite
    (fun _ => walks_ret hn hc (fun ho => by rw [hgr ho]; rfl) hj)
    fun _ => walks_wait rfl ⟨nofun, fun _ => ht⟩ hk hgr

theorem walks_setPhase {l : Nat} {ph : Phase} {g : Gh} {k : Unit → M α} {Q : α → Gh → Rt → Prop}
    (hl : p.lineup = some l) (hg : g.next (.mutate (.lineup l ((r.lineups l).map
      ({ · with phase := ph })))) = some g) (h : ∀ r', Walks t p g r' (k ()) Q) :
    Walks t p g r (setPhase t l ph >>= k) Q :=
  Walks.bind <| Walks.rd <| Walks.last hl hg <| h _

theorem walks_barrierArrive {b : Nat} (hgr : o.logSync = true → gr = .half .pthreadBarrierWait) :
    Walks t (.get (.body (.pthreadBarrierWait b))) ⟨.held, gr, .running, cnt, fr, none⟩ r
      (barrierArrive t b) (Stops o (.get (.body (.pthreadBarrierWait b)))) :=
  Walks.rd <| Walks.orAbort (reaches_aborted rfl) fun _ => Walks.call rfl rfl <|
    Walks.ite (fun _ => Walks.pure (reaches_aborted rfl)) fun _ =>
    Walks.ite (fun _ => Walks.call rfl rfl <| Walks.call nofun rfl <| Walks.call trivial rfl <|
      Walks.pure ⟨.cycle, .inr ⟨rfl, hgr, rfl, fun _ => nofun⟩⟩)
    fun _ => walks_wait rfl ⟨nofun, nofun⟩ (.park rfl) hgr

end Helpers

/-! ### Every step -/

section Steps

variable {o : Options} {t : Tid} {r : Rt} {gr : Grp}

theorem enter_eq (o : Options) (t : Tid) (c : Call) : enter o t c = schedGetTurn o t c ∨
    (c = .idleSleep ∧ enter o t c = pure (.get (.body c))) ∨ enter o t c = nonDetOrTurn o t c := by
  cases c <;> simp [enter]

/-- `SCHED_GET_TURN` and the non-det test make no call. -/
theorem walks_enter (c : Call) (hgr : o.logSync = true → gr = .fresh) :
    Walks t (.call c) ⟨.free, gr, .running, false, true, none⟩ r (enter o t c) (Stops o (.call c)) := by
  have get : ∀ r, Walks t (.call c) ⟨.free, gr, .running, false, true, none⟩ r (schedGetTurn o t c)
      (Stops o (.call c)) := fun _ => Walks.rd <| Walks.ite (fun _ => Walks.pure (reaches_aborted rfl))
    fun _ => Walks.pure ⟨.enter, .inr ⟨rfl, hgr, rfl, fun _ => nofun⟩⟩
  rcases enter_eq o t c with e | ⟨-, e⟩ | e <;> rw [e]
  · exact get r
  · exact Walks.pure ⟨.enter, .inr ⟨rfl, hgr, rfl, fun _ => nofun⟩⟩
  · exact Walks.rd <| Walks.ite (fun _ => Walks.pure ⟨.pass, .inr ⟨rfl, hgr, rfl, fun _ => nofun⟩⟩)
      fun _ => get r

/-- Every wrapper's code, from the turn on, makes only the calls its point allows and stops
where `Next` says, with its records complete when it returns. -/
theorem walks_body (c : Call) (h₀ : o.logSync = true → gr = .fresh) :
    Walks t (.get (.body c)) ⟨.held, gr, .running, false, false, none⟩ r (body o t c)
      (Stops o (.get (.body c))) := by
  have one {op : SyncOp} (h : numRecordsForSync op = 1) (ho : o.logSync = true) :
      gr.take op true = some .done := by rw [h₀ ho]; exact Grp.take_fresh_one h
  have two {op : SyncOp} (h : numRecordsForSync op = 2) (ho : o.logSync = true) :
      gr.take op false = some (.half op) := by rw [h₀ ho]; exact Grp.take_fresh_two h
  cases c with
  | threadBegin => exact walks_ret .ret rfl (one rfl) fun _ => nofun
  | threadEnd =>
    exact walks_schedThreadEnd (one rfl) fun _ _ h => ⟨.threadEnd, .inr ⟨rfl, h, rfl, fun _ => nofun⟩⟩
  | pthreadCreate =>
    exact Walks.rd <| Walks.native ⟨rfl, rfl⟩ rfl <| Walks.call ⟨rfl, rfl⟩ rfl <|
      walks_schedPutTurn (one rfl) fun _ _ _ h => ⟨.create, .inr ⟨rfl, h, rfl, fun _ => nofun⟩⟩
  | pthreadJoin th => exact walks_joinLoop .ret (.park rfl) rfl rfl h₀
  | pthreadMutexInit mu => exact Walks.native rfl rfl <| walks_ret .ret rfl (one rfl) fun _ => nofun
  | pthreadMutexDestroy mu => exact Walks.rd <| walks_ret .ret rfl (one rfl) fun _ => nofun
  | pthreadMutexLock mu =>
    exact walks_lockHelper (fun _ => .ret) (.park rfl) rfl rfl nofun h₀ fun _ => nofun
  | pthreadMutexTryLock mu =>
    exact walks_mutexTrylock (by rfl) (by rfl) fun _ _ => walks_ret .ret rfl (one rfl) fun _ => nofun
  | pthreadMutexTimedLock mu abstime =>
    cases abstime with
    | none => exact walks_lockHelper (fun _ => .ret) (.park rfl) rfl rfl nofun h₀ fun _ => nofun
    | some a =>
      exact Walks.bind <| Walks.rd <| Walks.pure <| Walks.bind <| Walks.rd <| Walks.pure <|
        Walks.orAbort (reaches_aborted rfl) fun _ =>
        walks_lockHelper (fun _ => .ret) (.park ⟨_, rfl⟩) rfl rfl (fun _ => rfl) h₀ fun _ => nofun
  | pthreadMutexUnlock mu =>
    exact walks_mutexUnlock (by rfl) (by rfl) fun _ _ => Walks.call nofun rfl <|
      walks_ret .ret rfl (one rfl) fun _ => nofun
  | pthreadRwlockInit rw => exact Walks.native rfl rfl <| walks_ret .ret rfl (one rfl) fun _ => nofun
  | pthreadRwlockRdlock rw => exact walks_rdLockHelper .ret (.park rfl) rfl rfl h₀ fun _ => nofun
  | pthreadRwlockWrlock rw => exact walks_wrLockHelper .ret (.park rfl) rfl rfl h₀ fun _ => nofun
  | pthreadRwlockTryrdlock rw | pthreadRwlockTrywrlock rw =>
    exact walks_rwTrywrlock (by rfl) (by rfl) fun _ _ => walks_ret .ret rfl (one rfl) fun _ => nofun
  | pthreadRwlockUnlock rw =>
    exact walks_rwUnlock (by rfl) (by rfl) fun _ _ => Walks.call nofun rfl <|
      walks_ret .ret rfl (one rfl) fun _ => nofun
  | pthreadRwlockDestroy _ => exact walks_ret .ret rfl (one rfl) fun _ => nofun
  | pthreadBarrierInit b count =>
    exact Walks.ite (fun _ => Walks.pure (reaches_aborted rfl)) fun _ => Walks.rd <|
      Walks.ite (fun _ => Walks.pure (reaches_aborted rfl)) fun _ => Walks.call rfl rfl <|
      walks_ret .ret rfl (one rfl) fun _ => nofun
  | pthreadBarrierWait b => exact walks_schedIncTurn (two rfl) fun _ _ _ h => walks_barrierArrive h
  | pthreadBarrierDestroy b =>
    exact Walks.rd <| Walks.ite (fun _ => Walks.pure (reaches_aborted rfl)) fun _ => Walks.call rfl rfl <|
      walks_ret .ret rfl (one rfl) fun _ => nofun
  | pthreadCondWait cv mu =>
    exact walks_mutexUnlock (by rfl) (by rfl) fun _ _ => Walks.call nofun rfl <|
      walks_schedIncTurn (two rfl) fun _ _ _ h => walks_wait rfl ⟨nofun, nofun⟩ (.park rfl) h
  | pthreadCondTimedWait cv mu abstime =>
    cases abstime with
    | none =>
      exact walks_mutexUnlock (by rfl) (by rfl) fun _ _ => Walks.call nofun rfl <|
        walks_schedIncTurn (two rfl) fun _ _ _ h => walks_wait rfl ⟨nofun, nofun⟩ (.park rfl) h
    | some a =>
      exact Walks.bind <| Walks.rd <| Walks.pure <| walks_mutexUnlock (by rfl) (by rfl) fun _ _ =>
        walks_schedIncTurn (two rfl) fun _ _ _ h => Walks.call nofun rfl <| Walks.bind <| Walks.rd <|
        Walks.pure <| Walks.orAbort (reaches_aborted rfl) fun _ =>
        walks_wait rfl ⟨nofun, fun _ => rfl⟩ (.park rfl) h
  | pthreadCondSignal cv | pthreadCondBroadcast cv =>
    exact Walks.call nofun rfl <| walks_ret .ret rfl (one rfl) fun _ => nofun
  | semWait s => exact walks_semWaitLoop .ret (.park rfl) rfl rfl h₀ fun _ => nofun
  | semTryWait s =>
    exact walks_semTrywait (by rfl) (by rfl) fun _ _ => walks_ret .ret rfl (one rfl) fun _ => nofun
  | semTimedWait s abstime =>
    cases abstime with
    | none => exact walks_semWaitLoop .ret (.park rfl) rfl rfl h₀ fun _ => nofun
    | some a =>
      exact Walks.bind <| Walks.rd <| Walks.pure <| Walks.bind <| Walks.rd <| Walks.pure <|
        Walks.orAbort (reaches_aborted rfl) fun _ =>
        walks_semTimedLoop .ret (.park ⟨_, rfl⟩) rfl rfl rfl h₀ fun _ => nofun
  | semPost s =>
    exact walks_semPost (by rfl) (by rfl) fun _ _ => Walks.call nofun rfl <|
      walks_ret .ret rfl (one rfl) fun _ => nofun
  | semInit s v => exact walks_semInit (by rfl) (by rfl) fun _ _ => walks_ret .ret rfl (one rfl) fun _ => nofun
  | lineupInit l count timeout | lineupDestroy l =>
    exact Walks.rd <| Walks.ite (fun _ => Walks.pure (reaches_aborted rfl)) fun _ => Walks.call rfl rfl <|
      walks_ret .ret rfl (one rfl) fun _ => nofun
  | lineupStart l =>
    exact Walks.rd <| Walks.orAbort (reaches_aborted rfl) fun _ => Walks.call rfl rfl <|
      Walks.ite (fun _ => Walks.ite
        (fun _ => walks_setPhase rfl rfl fun _ => Walks.call nofun rfl <|
          walks_ret .ret rfl (one rfl) fun _ => nofun)
        fun _ => Walks.bind <| Walks.rd <| Walks.pure <|
          walks_wait rfl ⟨nofun, fun _ => rfl⟩ (.park rfl) h₀)
      fun _ => walks_ret .ret rfl (one rfl) fun _ => nofun
  | lineupEnd l =>
    exact Walks.rd <| Walks.orAbort (reaches_aborted rfl) fun _ => Walks.call rfl rfl <|
      Walks.ite (fun _ => walks_setPhase rfl rfl fun _ => walks_ret .ret rfl (one rfl) fun _ => nofun)
      fun _ => Walks.bind <| Walks.pure <| walks_ret .ret rfl (one rfl) fun _ => nofun
  | nonDetStart =>
    exact Walks.rd <| Walks.call (Or.inl rfl) rfl <|
      walks_wait rfl ⟨fun _ => ⟨rfl, rfl⟩, nofun⟩ (.park rfl) h₀
  | symbolic | schedYield => exact walks_ret .ret rfl (one rfl) fun _ => nofun
  | fork =>
    refine Walks.rd <| Walks.ite (fun h => Walks.native ⟨rfl, h⟩ rfl <| Walks.call ⟨rfl, h⟩ rfl <|
      walks_schedPutTurn (one rfl) fun _ _ _ hg => ?_) fun _ => Walks.ite
      (fun _ => Walks.pure (reaches_aborted rfl)) fun _ => walks_ret .ret rfl (one rfl) fun _ => nofun
    split
    exacts [⟨.forkIdle, .inr ⟨rfl, hg, rfl, fun _ => nofun⟩⟩, ⟨.ret, .inr ⟨rfl, hg, rfl, fun _ => nofun⟩⟩]
  | sleep _ | usleep _ | nanosleep _ =>
    exact Walks.bind <| Walks.rd <| Walks.pure <| Walks.orAbort (reaches_aborted rfl) fun _ =>
      walks_wait rfl ⟨nofun, fun _ => rfl⟩ (.park rfl) h₀
  | idleSleep =>
    exact Walks.bind <| walks_incTurnCount <| Walks.ite
      (fun ho => Walks.call (by rfl) (Gh.next_logSync (one rfl ho)) <| Walks.call trivial rfl <|
        Walks.pure ⟨.ret, .inr ⟨rfl, fun _ => rfl, rfl, fun _ => nofun⟩⟩)
      fun ho => Walks.bind <| Walks.pure <| Walks.call trivial rfl <|
        Walks.pure ⟨.ret, .inr ⟨rfl, fun h => absurd h ho, rfl, fun _ => nofun⟩⟩

/-- The code after a wait, whatever the wait returned. -/
theorem walks_resume (k : Resume) (w : WaitRes) (h₀ : o.logSync = true → gr = k.grp) :
    Walks t (.parked k) ⟨.held, gr, .running, false, true, none⟩ r (resume o t k w)
      (Stops o (.parked k)) := by
  cases k with
  | lockRetry mu dl c saved =>
    exact Walks.ite (fun _ => walks_afterLock (fun _ => .resumeRet) rfl h₀ fun _ => nofun)
      fun _ => walks_lockHelper (fun _ => .resumeRet) (.repark rfl) rfl rfl id h₀ fun _ => nofun
  | rdRetry rw =>
    exact Walks.ite (fun _ => walks_ret .resumeRet rfl (fun ho => by rw [h₀ ho]; rfl) fun _ => nofun)
      fun _ => walks_rdLockHelper .resumeRet (.repark rfl) rfl rfl h₀ fun _ => nofun
  | wrRetry rw =>
    exact Walks.ite (fun _ => walks_ret .resumeRet rfl (fun ho => by rw [h₀ ho]; rfl) fun _ => nofun)
      fun _ => walks_wrLockHelper .resumeRet (.repark rfl) rfl rfl h₀ fun _ => nofun
  | joinRetry th => exact walks_joinLoop .resumeRet (.repark rfl) rfl rfl h₀
  | barrierWoken b =>
    exact walks_ret .resumeRet rfl (fun ho => by rw [h₀ ho]; exact Grp.take_half _) fun _ => nofun
  | condWoken cv mu c =>
    exact walks_lockHelper (fun _ => .resumeRet) (.repark ⟨_, rfl⟩) rfl rfl nofun h₀ fun _ => nofun
  | semRetry s c => exact walks_semWaitLoop .resumeRet (.repark rfl) rfl rfl h₀ fun _ => nofun
  | semTimedRetry s dl c =>
    exact Walks.ite (fun _ => walks_ret .resumeRet rfl (fun ho => by rw [h₀ ho]; rfl) fun _ => nofun)
      fun _ => walks_semTimedLoop .resumeRet (.repark rfl) rfl rfl rfl h₀ fun _ => nofun
  | lineupWoken l =>
    exact Walks.rd <| Walks.orAbort (reaches_aborted rfl) fun _ => Walks.ite
      (fun _ => walks_setPhase rfl rfl fun _ => Walks.call nofun rfl <|
        walks_ret .resumeRet rfl (fun ho => by rw [h₀ ho]; rfl) fun _ => nofun)
      fun _ => Walks.bind <| Walks.pure <|
        walks_ret .resumeRet rfl (fun ho => by rw [h₀ ho]; rfl) fun _ => nofun
  | nonDetWoken =>
    exact Walks.rd <| Walks.call (Or.inr rfl) rfl <| walks_schedPutTurn
      (fun ho => by rw [h₀ ho]; rfl) fun _ _ _ h => ⟨.nonDetWoken, .inr ⟨rfl, h, rfl, fun _ => nofun⟩⟩
  | sleepWoken c =>
    exact walks_ret .resumeRet rfl
      (fun ho => by rw [h₀ ho]; exact Grp.take_fresh_one (numRecordsForSync_sleepOp c)) fun _ => nofun

/-- Every step, from every point and every state, makes only calls the automaton accepts, ends in
their replay, and stops at a point `Next` allows, landing where `Lands` says. -/
theorem step_calls (o : Options) (t : Tid) (p : Pc) {g : Gh} (hg : g.Starts o p) (r : Rt) :
    Walks t p g r (step o t p) (Stops o p) := by
  obtain ⟨h, gr, st, cnt, fr, jn⟩ := g
  obtain ⟨hh, hgr, hs, hc, hf, hj⟩ := hg
  cases hs; cases hc; cases hf; cases hj
  cases p with
  | ret c v => exact Walks.pure ⟨.stay, .inr ⟨hh, hgr, rfl, fun _ => nofun⟩⟩
  | call c => cases h <;> cases hh; exact walks_enter c hgr
  | ioCall op fd =>
    cases h <;> cases hh
    exact Walks.rd <| Walks.ite (fun _ => Walks.pure ⟨.ioPass, .inr ⟨rfl, hgr, rfl, fun _ => nofun⟩⟩)
      fun _ => Walks.ite (fun _ => Walks.pure ⟨.ioPass, .inr ⟨rfl, hgr, rfl, fun _ => nofun⟩⟩)
      fun _ => Walks.ite (fun _ => Walks.call rfl rfl <|
        Walks.pure ⟨.ioBlock, .inr ⟨rfl, hgr, rfl, fun _ => nofun⟩⟩)
      fun _ => Walks.bind <| Walks.pure <| Walks.pure ⟨.ioBlock, .inr ⟨rfl, hgr, rfl, fun _ => nofun⟩⟩
  | nonDetEnd =>
    cases h <;> cases hh
    exact Walks.rd <| Walks.ite (fun _ => Walks.pure (reaches_aborted rfl)) fun _ => Walks.bind <|
      Walks.pure <| Walks.call rfl rfl <| Walks.call rfl rfl <|
      Walks.pure ⟨.nonDetEnd, .inr ⟨rfl, hgr, rfl, fun _ => nofun⟩⟩
  | get k =>
    cases h <;> cases hh
    cases k with
    | body c => exact Walks.call rfl rfl <| walks_body c hgr
    | barrierCycled b =>
      exact Walks.call rfl rfl <| walks_ret .cycled rfl
        (fun ho => by rw [hgr ho]; exact Grp.take_half _) fun _ => nofun
  | parked k => cases h <;> cases hh; exact Walks.rd <| walks_resume k _ hgr
  | post k =>
    cases h <;> cases hh
    cases k with
    | beginHandshake =>
      exact Walks.native rfl rfl <| Walks.pure ⟨.posted, .inr ⟨rfl, hgr, rfl, fun _ => nofun⟩⟩
    | beginDone =>
      exact Walks.native rfl rfl <| Walks.pure ⟨.created, .inr ⟨rfl, hgr, rfl, fun _ => nofun⟩⟩
    | nonDetBlock =>
      exact Walks.call rfl rfl <| Walks.rd <| Walks.ite (fun _ => Walks.pure (reaches_aborted rfl))
        fun _ => Walks.bind <| Walks.pure <| Walks.call rfl rfl <|
        Walks.pure ⟨.nonDetBlock, .inr ⟨rfl, hgr, rfl, fun _ => nofun⟩⟩
  | native c =>
    cases h <;> cases hh
    exact Walks.pure ⟨.native, .inr ⟨rfl, hgr, rfl, fun _ => nofun⟩⟩
  | blocked op =>
    cases h <;> cases hh <;>
    exact Walks.rd <| Walks.ite
      (fun _ => Walks.call rfl rfl <| Walks.pure ⟨.ioEnd, .inr ⟨rfl, hgr, rfl, fun _ => nofun⟩⟩)
      fun _ => Walks.bind <| Walks.pure <| Walks.pure ⟨.ioEnd, .inr ⟨rfl, hgr, rfl, fun _ => nofun⟩⟩
  | zombie =>
    cases h <;> cases hh
    exact Walks.native rfl rfl <| Walks.native rfl rfl <|
      Walks.pure ⟨.begin, .inr ⟨rfl, hgr, rfl, fun _ => nofun⟩⟩
  | aborted => exact Walks.pure (reaches_aborted rfl)

/-! ### Reading a step back -/

/-- The turn a thread at `p` holds when it is not inside a `BLOCK_TIMER` wrapper. -/
def Pc.holdAt : Pc → Hold
  | .parked _ => .held
  | _ => .free

theorem Pc.holdOk_holdAt (p : Pc) : p.holdOk p.holdAt = true := by
  cases p <;> rfl

/-- The automaton state a step from `p` starts in, the thread holding the turn as `h` says. -/
def Gh.start (p : Pc) (h : Hold) : Gh := ⟨h, p.grpAt, .running, false, true, none⟩

theorem Gh.start_starts (o : Options) {p : Pc} {h : Hold} (hh : p.holdOk h = true) :
    (Gh.start p h).Starts o p :=
  ⟨hh, fun _ => rfl, rfl, rfl, rfl, rfl⟩

/-- `step_calls` unfolded: the calls of a step are accepted, its state is their replay, and it
stops where `Reaches` says. -/
theorem step_spec (o : Options) (t : Tid) {p : Pc} {g : Gh} (hg : g.Starts o p) (r : Rt) :
    ∃ g', Acc t p g r (step o t p r).2.2 g' ∧
      (step o t p r).2.1 = replay t r (step o t p r).2.2 ∧ Reaches o p (step o t p r).1 g' :=
  step_calls o t p hg r

/-- Every state a step leaves is the replay of its calls. -/
theorem step_replay (o : Options) (t : Tid) (p : Pc) (r : Rt) :
    (step o t p r).2.1 = replay t r (step o t p r).2.2 :=
  (step_spec o t (Gh.start_starts o p.holdOk_holdAt) r).choose_spec.2.1

/-- Every step goes where `Next` says. -/
theorem step_next (o : Options) (t : Tid) (p : Pc) (r : Rt) : Next p (step o t p r).1 :=
  (step_spec o t (Gh.start_starts o p.holdOk_holdAt) r).choose_spec.2.2.1

/-- A property of the state that every call `p` allows keeps, a step from `p` keeps. -/
theorem step_keeps (P : Rt → Prop) (o : Options) (t : Tid) (p : Pc) {r : Rt}
    (hP : ∀ x e, p.Allows x e → P x → P (e.apply t x)) (h : P r) : P (step o t p r).2.1 := by
  obtain ⟨g', hacc, hrep, -⟩ := step_spec o t (Gh.start_starts o p.holdOk_holdAt) r
  rw [hrep]
  exact hacc.fold (P := fun _ x => P x) (fun _ x e _ ha _ => hP x e ha) h

end Steps

end Xtern
