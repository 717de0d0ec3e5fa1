import Xtern.Tables
import Xtern.Wakeup

/-! # Barriers: counting arrivals, and `pthread_barrier_destroy`

`RecorderRT` keeps its own count of the arrivals at a barrier (`barrier_t`: `count`,
`narrived`), so that the last arriver can tell that it is the last: it resets `narrived`,
signals every waiter and returns `PTHREAD_BARRIER_SERIAL_THREAD`; the others wait on the
barrier and return `0` once signalled.

`BarrierRun` is a run of the process from the state right after `pthreadBarrierInit` created a
barrier, along which the barrier stays initialised, together with the number of arrivals made
in it (a history variable: every move of such a run is one of its moves, `BarrierRun.extend`).
`barrier_counting` says that after `k` arrivals the entry is `⟨count, k % count⟩`, so that the
`barrier overflow` assertion never fails, and that the `(k+1)`-th arrival is the one that cycles
the barrier, signals it and returns `PTHREAD_BARRIER_SERIAL_THREAD` exactly when `count` divides
`k + 1`.

`pthreadBarrierDestroy` erases the entry when the native `pthread_barrier_destroy` returns `0`,
and that native barrier is never waited on: the record runtime's `pthreadBarrierWait` does not
call `pthread_barrier_wait`. `barrierDestroy_inUse` shows the destroy succeeding and erasing the
entry while a thread is still parked on the barrier. -/

namespace Xtern

variable (o : Options) (t : Tid)

/-! ### One arrival -/

/-- `k % n + 1 = n` exactly when `n` divides `k + 1`. -/
theorem mod_add_one_eq_iff_dvd {n : Nat} (k : Nat) (hn : 0 < n) : k % n + 1 = n ↔ n ∣ k + 1 := by
  have hlt := Nat.mod_lt k hn
  rw [Nat.dvd_iff_mod_eq_zero, ← Nat.mod_add_mod]
  constructor
  · intro h
    rw [h, Nat.mod_self]
  · intro h
    by_contra hne
    rw [Nat.mod_eq_of_lt (by omega : k % n + 1 < n)] at h
    omega

/-- What the arrival code does to an entry below its count: it counts the arrival modulo the
count; the last arriver cycles the barrier and signals every waiter, the others wait on it. -/
theorem barrierArrive_spec {r : Rt} {b : Nat} {br : Barrier} (h : r.barriers b = some br)
    (hn : br.narrived < br.count) :
    (barrierArrive t b r).2.1.barriers b = some ⟨br.count, (br.narrived + 1) % br.count⟩ ∧
    (barrierArrive t b r).1 = (if br.narrived + 1 = br.count then .get (.barrierCycled b)
      else .parked (.barrierWoken b)) ∧
    (Ev.signal (.barrier b) true ∈ (barrierArrive t b r).2.2 ↔ br.narrived + 1 = br.count) := by
  have hle : ¬br.narrived + 1 > br.count := by omega
  by_cases hc : br.narrived + 1 = br.count
  · simp [barrierArrive, h, orAbort, mutate, signal, putTurn, Ev.apply, Write.apply, hle, hc]
  · have hc' : br.count ≠ br.narrived + 1 := Ne.symm hc
    simp [barrierArrive, h, orAbort, mutate, wait, waitOn, Ev.apply, Write.apply, hle, hc, hc',
      Nat.mod_eq_of_lt (by omega : br.narrived + 1 < br.count)]

/-- `SCHED_INC_TURN` signals no channel. -/
theorem signal_not_mem_schedIncTurn (op : SyncOp) (r : Rt) (ch : Chan) (all : Bool) :
    Ev.signal ch all ∉ (schedIncTurn o t op r).2.2 := by
  unfold schedIncTurn; split <;> simp [incTurnCount, logSync]

/-- An arrival at a barrier whose entry is below its count: `barrierArrive_spec` after
`SCHED_INC_TURN`. -/
theorem arrive_spec {r : Rt} {b : Nat} {br : Barrier} (h : r.barriers b = some br)
    (hn : br.narrived < br.count) :
    (step o t (.get (.body (.pthreadBarrierWait b))) r).2.1.barriers b =
      some ⟨br.count, (br.narrived + 1) % br.count⟩ ∧
    (step o t (.get (.body (.pthreadBarrierWait b))) r).1 = (if br.narrived + 1 = br.count then
      .get (.barrierCycled b) else .parked (.barrierWoken b)) ∧
    (Ev.signal (.barrier b) true ∈ (step o t (.get (.body (.pthreadBarrierWait b))) r).2.2 ↔
      br.narrived + 1 = br.count) := by
  have hr : (schedIncTurn o t .pthreadBarrierWait r).2.1.barriers b = some br := by simpa using h
  obtain ⟨h₁, h₂, h₃⟩ := barrierArrive_spec t hr hn
  simp only [step, body, getTurn, M.run_bind, run_call, Ev.apply, id, List.mem_append,
    List.mem_singleton, reduceCtorEq, false_or]
  exact ⟨h₁, h₂, by simp [signal_not_mem_schedIncTurn, h₃]⟩

/-- `pthreadBarrierInit` of a new barrier with a positive count creates the entry
`⟨count, 0⟩` and returns `0`. -/
theorem barrierInit_spec {r : Rt} {b count : Nat} (h : r.barriers b = none) (hc : 0 < count) :
    (step o t (.get (.body (.pthreadBarrierInit b count))) r).1 =
      .ret (some (.pthreadBarrierInit b count)) 0 ∧
    (step o t (.get (.body (.pthreadBarrierInit b count))) r).2.1.barriers b = some ⟨count, 0⟩ := by
  simp [step, body, getTurn, h, hc.ne', mutate, Ev.apply, Write.apply,
    (schedPutTurn_untimed o t _ _ _).1]

/-- `pthreadBarrierInit` of a barrier that exists ends the process and leaves the entry. -/
theorem barrierInit_exists {r : Rt} {b count : Nat} (h : (r.barriers b).isSome) :
    (step o t (.get (.body (.pthreadBarrierInit b count))) r).1 = .aborted ∧
    (step o t (.get (.body (.pthreadBarrierInit b count))) r).2.1.barriers b = r.barriers b := by
  by_cases hc : count = 0 <;> simp [step, body, getTurn, Ev.apply, h, hc]

/-- `pthreadBarrierDestroy` of an existing barrier returns `0` and erases the entry, whatever
its count of arrivals. -/
theorem barrierDestroy_spec {r : Rt} {b : Nat} (h : (r.barriers b).isSome) :
    (step o t (.get (.body (.pthreadBarrierDestroy b))) r).1 =
      .ret (some (.pthreadBarrierDestroy b)) 0 ∧
    (step o t (.get (.body (.pthreadBarrierDestroy b))) r).2.1.barriers b = none := by
  simp [step, body, getTurn, Option.isSome_iff_ne_none.1 h, mutate, Ev.apply, Write.apply,
    (schedPutTurn_untimed o t _ _ _).1]

/-- The last arriver, once it has the turn again, returns `PTHREAD_BARRIER_SERIAL_THREAD`; a
woken waiter returns `0`. -/
theorem barrierWait_returns (b : Nat) (r : Rt) :
    (step o t (.get (.barrierCycled b)) r).1 = .ret (some (.pthreadBarrierWait b)) barrierSerialThread ∧
    (step o t (.parked (.barrierWoken b)) r).1 = .ret (some (.pthreadBarrierWait b)) 0 :=
  ⟨(schedPutTurn_untimed o t _ _ _).1, (schedPutTurn_untimed o t _ _ _).1⟩

/-! ### Runs of the process after `pthreadBarrierInit` -/

/-- A run of the process from `s₀` along which barrier `b` stays initialised, with the number
of arrivals at `b` made in it: an arrival is a step of a thread from the turn section of
`pthreadBarrierWait b`; every other move leaves every thread at that point where it is. -/
inductive BarrierRun (app : Pc → Bool) (b : Nat) (s₀ : Sys) : Sys → Nat → Prop
  | init : BarrierRun app b s₀ s₀ 0
  | other {s s' : Sys} {k : Nat} : BarrierRun app b s₀ s k → Step o app s s' →
      (∀ u, s.pc u = .get (.body (.pthreadBarrierWait b)) → s'.pc u = s.pc u) →
      (s'.rt.barriers b).isSome → BarrierRun app b s₀ s' k
  | arrive {s : Sys} {k : Nat} {u : Tid} : BarrierRun app b s₀ s k → s.ready u →
      s.pc u = .get (.body (.pthreadBarrierWait b)) → BarrierRun app b s₀ (s.runStep o u) (k + 1)

variable {o} {app : Pc → Bool} {b : Nat} {s₀ s s' : Sys} {k : Nat}

/-- Every move that keeps the barrier initialised extends a `BarrierRun`: the count of
arrivals restricts no run. -/
theorem BarrierRun.extend (h : BarrierRun o app b s₀ s k) (hs : Step o app s s')
    (hb : (s'.rt.barriers b).isSome) : ∃ k', BarrierRun o app b s₀ s' k' := by
  by_cases hno : ∀ u, s.pc u = .get (.body (.pthreadBarrierWait b)) → s'.pc u = s.pc u
  · exact ⟨k, h.other hs hno hb⟩
  push_neg at hno
  obtain ⟨u, hu, hne⟩ := hno
  cases hs with
  | @call t _ _ _ ht _ =>
    rcases eq_or_ne u t with rfl | hut
    · rw [ht] at hu; cases hu
    · exact absurd (Function.update_noteq hut _ _) hne
  | @run t hr =>
    rcases eq_or_ne u t with rfl | hut
    · exact ⟨k + 1, h.arrive hr hu⟩
    · exact absurd (Function.update_noteq hut _ _) hne
  | expire | deadlock => exact absurd rfl hne

/-- After `k` arrivals at a barrier created with count `count`, its entry is
`⟨count, k % count⟩`. -/
theorem BarrierRun.entry {count : Nat} (hc : 0 < count) (h₀ : s₀.rt.barriers b = some ⟨count, 0⟩)
    (h : BarrierRun o app b s₀ s k) : s.rt.barriers b = some ⟨count, k % count⟩ := by
  induction h with
  | init => simpa using h₀
  | @other s s' k _ hs hno hb ih =>
    rcases Step.barrier_cases b hs with heq | ⟨t, c, -, hpc, hcb, rfl⟩
    · rw [heq, ih]
    have hrt : (s.runStep o t).rt = (step o t (.get (.body c)) s.rt).2.1 := by
      simp only [Sys.runStep, hpc]
    have hpct : (s.runStep o t).pc t = (step o t (.get (.body c)) s.rt).1 := by
      simp only [Sys.runStep, hpc, Function.update_same]
    cases c <;> simp only [Call.barrier, reduceCtorEq, Option.some.injEq] at hcb <;> subst hcb
    case pthreadBarrierInit n =>
      rw [hrt, (barrierInit_exists o t (by rw [ih]; rfl)).2, ih]
    case pthreadBarrierWait =>
      have h₂ := (arrive_spec o t ih (Nat.mod_lt _ hc)).2.1
      have := hno t hpc
      rw [hpct, h₂, hpc] at this
      split_ifs at this; cases this
    case pthreadBarrierDestroy =>
      rw [hrt, (barrierDestroy_spec o t (by rw [ih]; rfl)).2] at hb
      cases hb
  | @arrive s k t _ _ hpc ih =>
    show (step o t (s.pc t) s.rt).2.1.barriers b = _
    rw [hpc, (arrive_spec o t ih (Nat.mod_lt _ hc)).1, Nat.mod_add_mod]

/-- Barrier counting. `pthreadBarrierInit b count` with `count ≥ 1` returns `0`; along every
run after it in which `b` stays initialised, after `k` arrivals the entry is
`⟨count, k % count⟩` (so `narrived < count` and the overflow assertion never fails), and the next
arrival, the `(k+1)`-th, cycles the barrier and signals every waiter on it exactly when `count`
divides `k + 1`, and waits on it otherwise. A cycling thread returns
`PTHREAD_BARRIER_SERIAL_THREAD` and a woken waiter `0`. -/
theorem barrier_counting {t : Tid} {count : Nat}
    (hinit : s₀.pc t = .get (.body (.pthreadBarrierInit b count))) (hnone : s₀.rt.barriers b = none)
    (hc : 0 < count) :
    (s₀.runStep o t).pc t = .ret (some (.pthreadBarrierInit b count)) 0 ∧
    (∀ s k, BarrierRun o app b (s₀.runStep o t) s k →
      s.rt.barriers b = some ⟨count, k % count⟩ ∧
      ∀ u, s.pc u = .get (.body (.pthreadBarrierWait b)) →
        (s.runStep o u).pc u =
          (if count ∣ k + 1 then .get (.barrierCycled b) else .parked (.barrierWoken b)) ∧
        (Ev.signal (.barrier b) true ∈ (step o u (s.pc u) s.rt).2.2 ↔ count ∣ k + 1)) ∧
    ∀ u r, (step o u (.get (.barrierCycled b)) r).1 =
        .ret (some (.pthreadBarrierWait b)) barrierSerialThread ∧
      (step o u (.parked (.barrierWoken b)) r).1 = .ret (some (.pthreadBarrierWait b)) 0 := by
  have hinit' := barrierInit_spec o t hnone hc
  rw [← hinit] at hinit'
  refine ⟨by simpa [Sys.runStep] using hinit'.1, fun s k h => ?_, fun u r => barrierWait_returns o u b r⟩
  have he := h.entry hc hinit'.2
  refine ⟨he, fun u hu => ?_⟩
  obtain ⟨-, h₂, h₃⟩ := arrive_spec o u he (Nat.mod_lt _ hc)
  simp only [mod_add_one_eq_iff_dvd k hc] at h₂ h₃
  rw [hu]
  exact ⟨by simpa [Sys.runStep, hu] using h₂, h₃⟩

/-- Thread `0` of two, at the turn section of `pthread_barrier_init(0, 2)` in a fresh process:
the barrier then counts arrivals modulo `2`. -/
theorem barrier_counting_fresh :
    let o : Options := ⟨false, false, false, 1000, false, false⟩
    let env : Env := ⟨⟨0, 0⟩, fun _ => 1, fun _ => false, false, false⟩
    let s₀ := ((Sys.init env 2).exec o anyCall
      [.call 0 (.call (.pthreadBarrierInit 0 2)), .run 0]).get (by decide)
    (s₀.runStep o 0).pc 0 = .ret (some (.pthreadBarrierInit 0 2)) 0 ∧
      ∀ s k, BarrierRun o anyCall 0 (s₀.runStep o 0) s k → s.rt.barriers 0 = some ⟨2, k % 2⟩ := by
  intro o env s₀
  obtain ⟨h₁, h₂, -⟩ := @barrier_counting o anyCall 0 s₀ 0 2 (by decide) (by decide) (by decide)
  exact ⟨h₁, fun s k h => (h₂ s k h).1⟩

/-! ### `pthreadBarrierDestroy` of a barrier in use -/

/-- `pthreadBarrierDestroy` does not refuse a barrier in use. On every existing entry it returns
`0` and erases the entry, whatever `narrived` is: the native barrier it destroys is never waited
on. In a run of two threads, thread `1` waits at barrier `0` of count `2` and parks, leaving
`narrived = 1`; thread `0` then destroys the barrier, gets `0`, and the entry is gone while
thread `1` is still parked on it. -/
theorem barrierDestroy_inUse :
    (∀ o t (r : Rt) b, (r.barriers b).isSome →
      (step o t (.get (.body (.pthreadBarrierDestroy b))) r).1 =
        .ret (some (.pthreadBarrierDestroy b)) 0 ∧
      (step o t (.get (.body (.pthreadBarrierDestroy b))) r).2.1.barriers b = none) ∧
    let o : Options := ⟨false, false, false, 1000, false, false⟩
    let env : Env := ⟨⟨0, 0⟩, fun _ => 1, fun _ => false, false, false⟩
    let s := ((Sys.init env 2).exec o anyCall [.call 0 (.call (.pthreadBarrierInit 0 2)),
        .run 0, .run 0, .call 1 (.call (.pthreadBarrierWait 0)), .run 1, .run 1,
        .call 0 (.call (.pthreadBarrierDestroy 0)), .run 0]).get (by decide)
    Reachable o anyCall (Sys.init env 2) s ∧ s.pc 1 = .parked (.barrierWoken 0) ∧
      s.rt.barriers 0 = some ⟨2, 1⟩ ∧ s.pc 0 = .get (.body (.pthreadBarrierDestroy 0)) ∧
      s.ready 0 ∧ (s.runStep o 0).pc 0 = .ret (some (.pthreadBarrierDestroy 0)) 0 ∧
      (s.runStep o 0).rt.barriers 0 = none ∧ (s.runStep o 0).pc 1 = .parked (.barrierWoken 0) :=
  ⟨fun o t _ _ h => barrierDestroy_spec o t h, exec_get_reachable _ _, by decide, by decide,
    by decide, by decide, by decide, by decide, by decide⟩

end Xtern
