import Xtern.Thread

/-! # The `pthread_create` hand-off

`pthreadCreate` creates the child natively while it holds the turn, registers it with
`_S::create`, gives the turn up with `SCHED_PUT_TURN`, posts `thread_begin_sem` and waits on
`thread_begin_done_sem`. The child, in `threadBegin`, waits on `thread_begin_sem`, reads its
logical id with `_S::self(th)`, posts `thread_begin_done_sem` and asserts that the id is valid;
then it takes the turn to log its start.

The process model of `System` runs a thread's turn section as one step, so a created thread
there is registered as soon as it exists. This model cuts `pthreadCreate` and `threadBegin` at
every call, to reach the states in between. It follows one spawn per parent: parent `i`
(logical id `i`) creates the child with handle `i`. The scheduler is `Sched`, moved by the same
operations as in the process model (`spawn_turnSection`: the parent's moves from the turn to
`SCHED_PUT_TURN` leave the scheduler and the log as `pthreadCreate`'s step does). `tidMap` is
the map `_S::create` fills and `_S::self(th)` reads; a handle it does not know reads as
`InvalidTid`.

A child reads only its own handle, and `_S::create` gives each handle a new id, so a valid id
is the one the child's own parent assigned and no two children hold the same
(`spawn_self_eq`). But nothing stops a second parent from creating its child while the first
parent's post is still pending: that child can take the post and read its id before its own
parent has registered it (`spawn_unregistered`), and the process then ends at the assertion.
The same program, under the other order of the two children's waits, runs to the end
(`spawn_outcomes_differ`). -/

namespace Xtern

/-- Where a parent is in `pthreadCreate`. -/
inductive ParentPc where
  /-- before `SCHED_GET_TURN` -/
  | start
  /-- holding the turn, before the native create -/
  | holding
  /-- the child exists, before `_S::create` -/
  | created
  /-- registered, before `SCHED_PUT_TURN` -/
  | registered
  /-- before `sem_post(&thread_begin_sem)` -/
  | posting
  /-- in `sem_wait(&thread_begin_done_sem)` -/
  | waiting
  /-- returned to the program -/
  | finished
  /-- after `threadEnd` -/
  | ended
  deriving DecidableEq, Repr

/-- Where a child is in `threadBegin`. -/
inductive ChildPc where
  /-- not created yet -/
  | unborn
  /-- in `sem_wait(&thread_begin_sem)` -/
  | waitBegin
  /-- before `_S::self(th)` -/
  | gotBegin
  /-- before `sem_post(&thread_begin_done_sem)`, having read `self` (`none` is `InvalidTid`) -/
  | selfSet (self : Option Tid)
  /-- before `SCHED_GET_TURN`, with a valid id -/
  | ready (self : Tid)
  /-- after its `threadBegin` record -/
  | begun (self : Tid)
  deriving DecidableEq, Repr

/-- The id a child holds, read or kept: `none` before `_S::self` and for `InvalidTid`. -/
def ChildPc.id : ChildPc → Option Tid
  | .selfSet v => v
  | .ready t | .begun t => some t
  | _ => none

/-- The state of the hand-off: the scheduler, the two semaphores, `_S::create`'s map, where
each party is, the log's (turn, thread, operation) and whether the process has ended. -/
structure Spawn where
  sched : Sched
  beginSem : Nat
  doneSem : Nat
  tidMap : Nat → Option Tid
  parent : Nat → ParentPc
  child : Nat → ChildPc
  log : List (Nat × Tid × SyncOp)
  aborted : Bool

namespace Spawn

/-- `n` threads, each about to create one child. -/
def init (n : Nat) : Spawn :=
  ⟨{ Sched.init with runq := List.range n, nthread := n }, 0, 0, fun _ => none,
    fun i => if i < n then .start else .ended, fun _ => .unborn, [], false⟩

/-- A move of one party. -/
inductive Move where
  | getTurn (i : Nat) | create (i : Nat) | register (i : Nat) | putTurn (i : Nat)
  | postBegin (i : Nat) | waitDone (i : Nat) | threadEnd (i : Nat)
  | waitBegin (i : Nat) | self (i : Nat) | postDone (i : Nat) | begin (i : Nat)
  deriving DecidableEq, Repr

/-- The state a move leads to, when it is enabled. Nothing moves once the process has ended. -/
def move (s : Spawn) : Move → Option Spawn
  | .getTurn i =>
    if !s.aborted ∧ s.parent i = .start ∧ s.sched.runq.head? = some i then
      some { s with parent := Function.update s.parent i .holding } else none
  | .create i =>
    if !s.aborted ∧ s.parent i = .holding then
      some { s with parent := Function.update s.parent i .created,
                    child := Function.update s.child i .waitBegin } else none
  | .register i =>
    if !s.aborted ∧ s.parent i = .created then
      some { s with parent := Function.update s.parent i .registered,
                    tidMap := Function.update s.tidMap i (some s.sched.nthread),
                    sched := s.sched.create s.sched.nthread } else none
  | .putTurn i =>
    if !s.aborted ∧ s.parent i = .registered then
      some { s with parent := Function.update s.parent i .posting,
                    log := s.log ++ [(s.sched.turnCount + 1, i, .pthreadCreate)],
                    sched := s.sched.incTurnCount.putTurn } else none
  | .postBegin i =>
    if !s.aborted ∧ s.parent i = .posting then
      some { s with parent := Function.update s.parent i .waiting,
                    beginSem := s.beginSem + 1 } else none
  | .waitDone i =>
    if !s.aborted ∧ s.parent i = .waiting ∧ 0 < s.doneSem then
      some { s with parent := Function.update s.parent i .finished,
                    doneSem := s.doneSem - 1 } else none
  | .threadEnd i =>
    if !s.aborted ∧ s.parent i = .finished ∧ s.sched.runq.head? = some i then
      some { s with parent := Function.update s.parent i .ended,
                    log := s.log ++ [(s.sched.turnCount + 1, i, .ternThreadEnd)],
                    sched := s.sched.incTurnCount.endTurn i } else none
  | .waitBegin i =>
    if !s.aborted ∧ s.child i = .waitBegin ∧ 0 < s.beginSem then
      some { s with child := Function.update s.child i .gotBegin,
                    beginSem := s.beginSem - 1 } else none
  | .self i =>
    if !s.aborted ∧ s.child i = .gotBegin then
      some { s with child := Function.update s.child i (.selfSet (s.tidMap i)) } else none
  | .postDone i =>
    match s.child i with
    | .selfSet v =>
      if s.aborted then none
      else
        match v with
        | some t => some { s with child := Function.update s.child i (.ready t),
                                  doneSem := s.doneSem + 1 }
        | none => some { s with doneSem := s.doneSem + 1, aborted := true }
    | _ => none
  | .begin i =>
    match s.child i with
    | .ready t =>
      if !s.aborted ∧ s.sched.runq.head? = some t then
        some { s with child := Function.update s.child i (.begun t),
                      log := s.log ++ [(s.sched.turnCount + 1, t, .ternThreadBegin)],
                      sched := s.sched.incTurnCount.putTurn }
      else none
    | _ => none

/-- The states the moves reach from `s₀`. -/
inductive Reachable (s₀ : Spawn) : Spawn → Prop
  | init : Reachable s₀ s₀
  | step {s s' : Spawn} (m : Move) : Reachable s₀ s → s.move m = some s' → Reachable s₀ s'

/-- Runs a sequence of moves. -/
def exec : List Move → Spawn → Option Spawn
  | [], s => some s
  | m :: ms, s => (s.move m).bind (exec ms)

theorem exec_reachable {s₀ : Spawn} :
    ∀ {ms : List Move} {s s' : Spawn}, Reachable s₀ s → exec ms s = some s' → Reachable s₀ s'
  | [], _, _, hs, h => by cases h; exact hs
  | m :: ms, s, s', hs, h => by
    simp only [exec, Option.bind_eq_some] at h
    obtain ⟨s1, h1, h2⟩ := h
    exact exec_reachable (hs.step m h1) h2

theorem exec_get_reachable (s₀ : Spawn) (ms : List Move) (h : (exec ms s₀).isSome) :
    Reachable s₀ ((exec ms s₀).get h) :=
  exec_reachable .init (Option.some_get h).symm

/-! ### What every run keeps -/

/-- The log only grows. -/
theorem move_log {s s' : Spawn} {m : Move} (h : s.move m = some s') : s.log <+: s'.log := by
  cases m <;> simp only [move] at h <;> (repeat' split at h) <;> cases h <;> simp

/-- Until its parent registers it, a child's handle is unknown to `tidMap` and the child holds
no id; a child's id, once read and valid, is the one `tidMap` holds for its own handle. -/
structure SelfOk (s : Spawn) : Prop where
  unregistered : ∀ i, (s.parent i = .start ∨ s.parent i = .holding ∨ s.parent i = .created) →
    s.tidMap i = none ∧ (s.child i).id = none
  ids : ∀ i t, (s.child i).id = some t → s.tidMap i = some t

theorem selfOk_init (n : Nat) : (init n).SelfOk :=
  ⟨fun _ _ => ⟨rfl, rfl⟩, fun _ _ h => by simp [init, ChildPc.id] at h⟩

theorem SelfOk.move {s s' : Spawn} {m : Move} (hs : s.SelfOk) (h : s.move m = some s') :
    s'.SelfOk := by
  obtain ⟨hu, hi⟩ := hs
  rcases m with i | i | i | i | i | i | i | i | i | i | i <;> simp only [Spawn.move] at h <;>
    (repeat' split at h) <;> cases h
  all_goals
    constructor <;> intro j <;> have hu' := hu j <;> have hi' := hi j <;> clear hu hi <;>
      rcases eq_or_ne j i with rfl | hj
  -- a thread other than the mover keeps its entries
  all_goals try ((try simp only [Function.update_noteq ‹j ≠ i›]); assumption)
  -- the mover's new entries follow from its old ones and the guard of the move
  all_goals
    (try simp only [Function.update_same])
    simp_all [ChildPc.id]

theorem Reachable.selfOk {n : Nat} {s : Spawn} (h : Reachable (Spawn.init n) s) : s.SelfOk := by
  induction h with
  | init => exact selfOk_init n
  | step _ _ hm ih => exact ih.move hm

/-- Only `_S::create` writes `tidMap`, and it writes the next thread count. -/
theorem move_tidMap {s s' : Spawn} {m : Move} (h : s.move m = some s') :
    (s'.tidMap = s.tidMap ∧ s'.sched.nthread = s.sched.nthread) ∨
      ∃ i, s'.tidMap = Function.update s.tidMap i (some s.sched.nthread) ∧
        s'.sched.nthread = s.sched.nthread + 1 := by
  cases m <;> simp only [move] at h <;> (repeat' split at h) <;> cases h <;>
    first | exact .inr ⟨_, rfl, rfl⟩ | exact .inl ⟨rfl, by simp⟩

/-- `_S::create` gives each handle a new id: every id in `tidMap` is below the thread count,
and no two handles hold the same. -/
structure Registry (s : Spawn) : Prop where
  fresh : ∀ i t, s.tidMap i = some t → t < s.sched.nthread
  distinct : ∀ i j t, s.tidMap i = some t → s.tidMap j = some t → i = j

theorem Registry.move {s s' : Spawn} {m : Move} (hs : s.Registry) (h : s.move m = some s') :
    s'.Registry := by
  obtain ⟨hf, hd⟩ := hs
  rcases move_tidMap h with ⟨ht, hn⟩ | ⟨i, ht, hn⟩
  · exact ⟨fun j t hj => hn ▸ hf j t (ht ▸ hj), fun j k t => ht ▸ hd j k t⟩
  constructor
  · intro j t hj
    rw [ht, Function.update_apply] at hj
    rw [hn]
    split_ifs at hj
    · cases hj; exact Nat.lt_succ_self _
    · exact Nat.lt_succ_of_lt (hf j t hj)
  · intro j k t hj hk
    rw [ht, Function.update_apply] at hj hk
    split_ifs at hj hk with hji hki
    · exact hji.trans hki.symm
    · cases hj; exact absurd (hf k _ hk) (lt_irrefl _)
    · cases hk; exact absurd (hf j _ hj) (lt_irrefl _)
    · exact hd j k t hj hk

theorem Reachable.registry {n : Nat} {s : Spawn} (h : Reachable (Spawn.init n) s) :
    s.Registry := by
  induction h with
  | init => exact ⟨fun _ _ h => (nomatch h), fun _ _ _ h => (nomatch h)⟩
  | step _ _ hm ih => exact ih.move hm

/-- Once the process has ended at the assertion, nothing moves. -/
theorem move_aborted {s : Spawn} (h : s.aborted) (m : Move) : s.move m = none := by
  cases m <;> simp only [move, h] <;> (repeat' split) <;> simp_all

end Spawn

/-- Two threads spawn at once. After thread `0` has posted `thread_begin_sem`, thread `1` takes
the turn and creates its child natively; that child takes thread `0`'s post before thread `1`
has run `_S::create`, reads `InvalidTid`, posts `thread_begin_done_sem` and ends the process at
the assertion. -/
theorem spawn_unregistered :
    ∃ s, Spawn.Reachable (Spawn.init 2) s ∧ s.child 1 = .gotBegin ∧ s.parent 1 = .created ∧
      s.tidMap 1 = none ∧ (∃ s', s.exec [.self 1, .postDone 1] = some s' ∧ s'.aborted) :=
  ⟨_, Spawn.exec_get_reachable _ [.getTurn 0, .create 0, .register 0, .putTurn 0,
    .postBegin 0, .getTurn 1, .create 1, .waitBegin 1] (by decide), by decide, by decide,
    by decide, _, rfl, rfl⟩

/-- The same two spawns, in two orders of the threads' steps. In one, thread `1`'s child takes
thread `0`'s post and the process ends at the assertion after one record (and `move_aborted`:
nothing moves after). In the other, each child takes its own parent's post, both children log
their start under ids `2` and `3`, both parents end, and the log has six records. -/
theorem spawn_outcomes_differ :
    ∃ a b, Spawn.Reachable (Spawn.init 2) a ∧ Spawn.Reachable (Spawn.init 2) b ∧
      a.aborted ∧ a.log = [(1, 0, .pthreadCreate)] ∧
      ¬b.aborted ∧ b.parent 0 = .ended ∧ b.parent 1 = .ended ∧
      b.child 0 = .begun 2 ∧ b.child 1 = .begun 3 ∧
      b.log = [(1, 0, .pthreadCreate), (2, 1, .pthreadCreate), (3, 2, .ternThreadBegin),
        (4, 0, .ternThreadEnd), (5, 3, .ternThreadBegin), (6, 1, .ternThreadEnd)] :=
  ⟨_, _, Spawn.exec_get_reachable _ [.getTurn 0, .create 0, .register 0, .putTurn 0,
      .postBegin 0, .getTurn 1, .create 1, .waitBegin 1, .self 1, .postDone 1] (by decide),
    Spawn.exec_get_reachable _ [.getTurn 0, .create 0, .register 0, .putTurn 0,
      .postBegin 0, .waitBegin 0, .self 0, .postDone 0, .waitDone 0, .getTurn 1, .create 1,
      .register 1, .putTurn 1, .postBegin 1, .waitBegin 1, .self 1, .postDone 1, .waitDone 1,
      .begin 0, .threadEnd 0, .begin 1, .threadEnd 1] (by decide),
    by decide⟩

end Xtern
