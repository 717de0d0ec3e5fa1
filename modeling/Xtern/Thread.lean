import Xtern.Wrappers

/-! # One step of a thread

`body c` is the code of wrapper `c` from its `SCHED_GET_TURN` to the point where the thread
gives up the turn; `resume k r` the code after a `wait` that returned `r`; `enter c` the code
before `SCHED_GET_TURN`. `step` runs a thread from one blocking point to the next: holding the
turn from `get` and `parked` (once the scheduler has put it back at the head of the run queue),
without it from every other point. -/

namespace Xtern

open M

variable (o : Options) (t : Tid)

/-- `RecorderRT::pthreadBarrierWait` after `SCHED_INC_TURN`: count the arrival; the last
arriver resets the count, signals every waiter and cycles the turn, the others wait. -/
def barrierArrive (b : Nat) : M Pc := do
  orAbort ((← rd).barriers b) fun br => do
    let n := br.narrived + 1
    mutate t (.barrier b (some { br with narrived := n }))
    if n > br.count then return .aborted
    else if br.count = n then
      mutate t (.barrier b (some { br with narrived := 0 }))
      signal t (.barrier b) true
      putTurn t
      return .get (.barrierCycled b)
    else wait t (.barrier b) none (.barrierWoken b)

/-- The code of a turn-based wrapper from `SCHED_GET_TURN` on. -/
def body (c : Call) : M Pc :=
  match c with
  | .threadBegin => schedPutTurn o t .ternThreadBegin (.ret c 0)
  | .threadEnd => schedThreadEnd o t
  | .pthreadCreate => do
    let th := (← rd).sched.nthread
    call t (.native (.spawn th))
    create t th
    schedPutTurn o t .pthreadCreate (.post .beginHandshake)
  | .pthreadJoin th => joinLoop o t th
  | .pthreadMutexInit mu => do
    call t (.native (.mutex mu none))
    schedPutTurn o t .pthreadMutexInit (.ret c 0)
  | .pthreadMutexDestroy mu => do
    let ret := if (← rd).mutex mu = none then 0 else eBusy
    schedPutTurn o t .pthreadMutexDestroy (.ret c ret)
  | .pthreadMutexLock mu => lockHelper o t mu none c 0
  | .pthreadMutexTryLock mu => do
    let ret ← mutexTrylock t mu
    schedPutTurn o t .pthreadMutexTrylock (.ret c ret)
  | .pthreadMutexTimedLock mu abstime =>
    match abstime with
    | none => lockHelper o t mu none (.pthreadMutexLock mu) 0
    | some a => do
      orAbort (← deadline o (some (← relTime t a))) fun dl => lockHelper o t mu (some dl) c 0
  | .pthreadMutexUnlock mu => do
    let _ ← mutexUnlock t mu
    signal t (.mutex mu) false
    schedPutTurn o t .pthreadMutexUnlock (.ret c 0)
  | .pthreadRwlockInit rw => do
    call t (.native (.rwlock rw ⟨none, []⟩))
    schedPutTurn o t .pthreadRwlockInit (.ret c 0)
  | .pthreadRwlockRdlock rw => rdLockHelper o t rw
  | .pthreadRwlockWrlock rw => wrLockHelper o t rw
  | .pthreadRwlockTryrdlock rw => do
    let ret ← rwTrywrlock t rw
    schedPutTurn o t .pthreadRwlockTryrdlock (.ret c ret)
  | .pthreadRwlockTrywrlock rw => do
    let ret ← rwTrywrlock t rw
    schedPutTurn o t .pthreadRwlockTrywrlock (.ret c ret)
  | .pthreadRwlockUnlock rw => do
    let ret ← rwUnlock t rw
    signal t (.rwlock rw) false
    schedPutTurn o t .pthreadRwlockUnlock (.ret c ret)
  | .pthreadRwlockDestroy _ => schedPutTurn o t .pthreadRwlockDestroy (.ret c 0)
  | .pthreadBarrierInit b count => do
    if count = 0 then return .aborted
    else if ((← rd).barriers b).isSome then return .aborted
    else
      mutate t (.barrier b (some ⟨count, 0⟩))
      schedPutTurn o t .pthreadBarrierInit (.ret c 0)
  | .pthreadBarrierWait b => do
    schedIncTurn o t .pthreadBarrierWait
    barrierArrive t b
  | .pthreadBarrierDestroy b => do
    if ((← rd).barriers b).isNone then return .aborted
    else
      mutate t (.barrier b none)
      schedPutTurn o t .pthreadBarrierDestroy (.ret c 0)
  | .pthreadCondWait cv mu => do
    let _ ← mutexUnlock t mu
    signal t (.mutex mu) false
    schedIncTurn o t .pthreadCondWait
    wait t (.cond cv) none (.condWoken cv mu c)
  | .pthreadCondTimedWait cv mu abstime =>
    match abstime with
    | none => do
      let _ ← mutexUnlock t mu
      signal t (.mutex mu) false
      schedIncTurn o t .pthreadCondWait
      wait t (.cond cv) none (.condWoken cv mu (.pthreadCondWait cv mu))
    | some a => do
      let rel ← relTime t a
      let _ ← mutexUnlock t mu
      schedIncTurn o t .pthreadCondTimedwait
      signal t (.mutex mu) false
      orAbort (← deadline o (some rel)) fun dl => wait t (.cond cv) (some dl) (.condWoken cv mu c)
  | .pthreadCondSignal cv => do
    signal t (.cond cv) false
    schedPutTurn o t .pthreadCondSignal (.ret c 0)
  | .pthreadCondBroadcast cv => do
    signal t (.cond cv) true
    schedPutTurn o t .pthreadCondBroadcast (.ret c 0)
  | .semWait s => semWaitLoop o t s c
  | .semTryWait s => do
    let ret ← semTrywait t s
    schedPutTurn o t .semTrywait (.ret c ret)
  | .semTimedWait s abstime =>
    match abstime with
    | none => semWaitLoop o t s c
    | some a => do
      let rel ← relTime t a
      orAbort (← deadline o (some rel)) fun dl => semTimedLoop o t s dl c
  | .semPost s => do
    let _ ← semPost t s
    signal t (.sem s) false
    schedPutTurn o t .semPost (.ret c 0)
  | .semInit s v => do
    let _ ← semInit t s v
    schedPutTurn o t .semInit (.ret c 0)
  | .lineupInit l count timeout => do
    if ((← rd).lineups l).isSome then return .aborted
    else
      mutate t (.lineup l (some ⟨count, 0, timeout, .arriving⟩))
      schedPutTurn o t .ternLineupInit (.ret c 0)
  | .lineupDestroy l => do
    if ((← rd).lineups l).isNone then return .aborted
    else
      mutate t (.lineup l none)
      schedPutTurn o t .ternLineupDestroy (.ret c 0)
  | .lineupStart l => do
    orAbort ((← rd).lineups l) fun b => do
      let b := { b with nactive := b.nactive + 1 }
      mutate t (.lineup l (some b))
      if b.phase = .arriving then
        if b.nactive = b.count then
          setPhase t l .leaving
          signal t (.lineup l) true
          lineupStartEnd o t l
        else wait t (.lineup l) (some (u32 ((← getTurnCount) + b.timeout))) (.lineupWoken l)
      else lineupStartEnd o t l
  | .lineupEnd l => do
    orAbort ((← rd).lineups l) fun b => do
      let b := { b with nactive := b.nactive - 1 }
      mutate t (.lineup l (some b))
      if b.nactive = 0 ∧ b.phase = .leaving then setPhase t l .arriving
      schedPutTurn o t .ternLineupEnd (.ret c 0)
  | .nonDetStart => do
    mutate t (.nNonDetWait ((← rd).nNonDetWait + 1))
    wait t .nonDet none .nonDetWoken
  | .symbolic => schedPutTurn o t .ternSymbolic (.ret c 0)
  | .schedYield => schedPutTurn o t .schedYield (.ret c 0)
  | .fork => do
    let r ← rd
    let ret := r.env.forkRet r.sched.turnCount
    if ret = 0 then
      call t (.native .forkChild)
      childForkReturn t
      schedPutTurn o t .fork (if o.launchIdleThread then .call .pthreadCreate else .ret c 0)
    else if ret < 0 then return .aborted
    else schedPutTurn o t .fork (.ret c ret)
  | .sleep s => do
    orAbort (← deadline o (some (sleepTimespec s))) fun dl => wait t .null (some dl) (.sleepWoken c)
  | .usleep u => do
    orAbort (← deadline o (some (usleepTimespec u))) fun dl => wait t .null (some dl) (.sleepWoken c)
  | .nanosleep req => do
    orAbort (← deadline o req) fun dl => wait t .null (some dl) (.sleepWoken c)
  | .idleSleep => do
    let turn ← incTurnCount t
    if o.logSync then logSync t .ternIdle true turn
    putTurn t
    return .ret c 0

/-- The code that runs when a `wait` returns `r`. -/
def resume (k : Resume) (r : WaitRes) : M Pc :=
  match k with
  | .lockRetry mu dl c saved =>
    if r = .timedout then afterLock o t c saved eTimedOut else lockHelper o t mu dl c saved
  | .rdRetry rw =>
    if r = .timedout then schedPutTurn o t .pthreadRwlockRdlock (.ret (some (.pthreadRwlockRdlock rw)) 0)
    else rdLockHelper o t rw
  | .wrRetry rw =>
    if r = .timedout then schedPutTurn o t .pthreadRwlockWrlock (.ret (some (.pthreadRwlockWrlock rw)) 0)
    else wrLockHelper o t rw
  | .joinRetry th => joinLoop o t th
  | .barrierWoken b => schedPutTurn o t .pthreadBarrierWait (.ret (some (.pthreadBarrierWait b)) 0)
  | .condWoken _ mu c => lockHelper o t mu none c (if r = .timedout then eTimedOut else 0)
  | .semRetry s c => semWaitLoop o t s c
  | .semTimedRetry s dl c =>
    if r = .timedout then schedPutTurn o t .semTimedwait (.ret c (-1)) else semTimedLoop o t s dl c
  | .lineupWoken l => do
    orAbort ((← rd).lineups l) fun b => do
      if b.nactive < b.count ∧ b.phase = .arriving then
        setPhase t l .leaving
        signal t (.lineup l) true
      lineupStartEnd o t l
  | .nonDetWoken => do
    mutate t (.nNonDetWait ((← rd).nNonDetWait - 1))
    schedPutTurn o t .ternNonDetStart (.post .nonDetBlock)
  | .sleepWoken c => schedPutTurn o t (sleepOp c) (.ret c 0)

/-- The code after the final `putTurn` of `pthreadCreate` (the `thread_begin_sem` hand-off) and
of `nonDetStart` (`block()` and `inNonDet = true`). -/
def post (k : Post) : M Pc :=
  match k with
  | .beginHandshake => do
    call t (.native .beginPost)
    return .post .beginDone
  | .beginDone => do
    call t (.native .doneWait)
    return .ret (some .pthreadCreate) 0
  | .nonDetBlock => do
    block t
    if (← rd).inNonDet t then return .aborted
    call t (.setInNonDet true)
    return .ret (some .nonDetStart) 0

/-- `threadBegin` of a created thread, before its `SCHED_GET_TURN`: `sem_wait(&thread_begin_sem)`,
`_S::self(th)` (the id `_S::create` gave it, which is `t`), and
`sem_post(&thread_begin_done_sem)`. -/
def begin : M Pc := do
  call t (.native .beginWait)
  call t (.native .donePost)
  return .call .threadBegin

/-- The code of a wrapper before `SCHED_GET_TURN`. `sleep`, `usleep`, `nanosleep`,
`pthreadCreate`, `pthreadJoin`, `fork`, `symbolic`, `nonDetStart` and the thread hooks have no
non-det test; `idle_sleep` calls `_S::getTurn` directly. -/
def enter (c : Call) : M Pc :=
  match c with
  | .threadBegin | .threadEnd | .pthreadCreate | .pthreadJoin _ | .symbolic | .fork
  | .nonDetStart | .sleep _ | .usleep _ | .nanosleep _ => schedGetTurn o t c
  | .idleSleep => return .get (.body c)
  | _ => nonDetOrTurn o t c

/-- `BLOCK_TIMER_START`: the regular-file bypass of the file wrappers, the non-det passthrough,
and `if (_S::interProStart()) _S::block()`. -/
def blockTimerStart (op : IoOp) (fd : Nat) : M Pc := do
  let r ← rd
  if o.ignoreRwRegularFile && op.regularBypass && r.env.regular fd then return .native none
  else if inNonDetRegion o t r then return .native none
  else
    if r.env.interProStart then block t
    return .blocked op

/-- `BLOCK_TIMER_END`: `if (_S::interProEnd()) _S::wakeup()`. -/
def blockTimerEnd : M Pc := do
  if (← rd).env.interProEnd then wakeup t
  return .ret none 0

/-- `RecorderRT::nonDetEnd`: clear `inNonDet` and `_S::wakeup()`, without the turn. -/
def nonDetEnd : M Pc := do
  let r ← rd
  if !o.enforceNonDetAnnotations || !r.inNonDet t then return .aborted
  call t (.setInNonDet false)
  wakeup t
  return .ret none 0

/-- One step of thread `t` from `p`; `get` and `parked` points run holding the turn, `zombie`
once the thread has been created and `thread_begin_sem` posted. -/
def step (p : Pc) : M Pc :=
  match p with
  | .call c => enter o t c
  | .ioCall op fd => blockTimerStart o t op fd
  | .nonDetEnd => nonDetEnd o t
  | .get (.body c) => do getTurn t; body o t c
  | .get (.barrierCycled b) => do
    getTurn t
    schedPutTurn o t .pthreadBarrierWait (.ret (some (.pthreadBarrierWait b)) barrierSerialThread)
  | .parked k => do resume o t k ((← rd).sched.wakeRes t)
  | .post k => post t k
  | .native c => return .ret c 0
  | .blocked _ => blockTimerEnd t
  | .zombie => begin t
  | p => return p

end Xtern
