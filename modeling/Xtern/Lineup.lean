import Xtern.Tables
import Xtern.Wakeup

/-! # Lineups: the soft barrier

A lineup (`ref_cnt_barrier_t`) counts the threads between `lineupStart` and `lineupEnd` in
`nactive`. While it is `Arriving`, a thread in `lineupStart` parks on the lineup until `count`
threads have arrived or its deadline passes; the `count`-th arriver, or the first thread back
from a timed-out wait, turns the lineup to `Leaving` and signals every waiter; the last thread
out of `lineupEnd` turns it back to `Arriving`.

A lineup program is one whose threads only call `lineupStart` and `lineupEnd` on lineup `l`, each
`lineupEnd` after the thread's own `lineupStart` returned (`LineupStep`). `LineupTx` lists what
one move of such a program does, transition by transition; `Step.lineupTx` shows that the code
makes these moves, up to the turn count and the log. `LineupInv` holds from a fresh entry on and
is kept by every move (`LineupTx.inv`); `lineup_invariant` reads it back: `nactive` is the number
of threads between the increment of `lineupStart` and the decrement of `lineupEnd`; while the
lineup is `Arriving` fewer than `count` are, each parked on the lineup or promoted by its
deadline; while it is `Leaving` nobody is parked on it; every `lineupStart` returns with the
lineup `Leaving`; and it goes back to `Arriving` exactly when `nactive` drops to `0`. -/

namespace Xtern

/-! ### Lineup programs -/

/-- A point of a thread of a program that only calls `lineupStart l` and `lineupEnd l`. -/
def Pc.onLineup (l : Nat) : Pc → Bool
  | .ret _ _ | .zombie => true
  | .call (.lineupStart l') | .call (.lineupEnd l') | .get (.body (.lineupStart l'))
  | .get (.body (.lineupEnd l')) | .parked (.lineupWoken l') => l' = l
  | _ => false

/-- A thread counted in `nactive` of lineup `l`: past the increment of `lineupStart` and not yet
past the decrement of `lineupEnd`. -/
def Pc.activeOn (l : Nat) : Pc → Bool
  | .parked (.lineupWoken l') | .ret (some (.lineupStart l')) _ | .call (.lineupEnd l')
  | .get (.body (.lineupEnd l')) => l' = l
  | _ => false

/-- The number of threads among `0 … n-1` counted in lineup `l`. -/
def Sys.nActive (s : Sys) (l n : Nat) : Nat := (List.range n).countP fun u => (s.pc u).activeOn l

/-- Thread `u` is parked on channel `ch`. -/
def Sched.Parked (s : Sched) (u : Tid) (ch : Chan) : Prop := ∃ w ∈ s.waitq, w.tid = u ∧ w.chan = ch

/-- One move of a lineup program on lineup `l`: a thread not in the lineup calls `lineupStart`,
a thread whose `lineupStart` returned calls `lineupEnd`, or the process moves without a call. -/
inductive LineupStep (o : Options) (l : Nat) : Sys → Sys → Prop
  | start {s : Sys} {t : Tid} {c : Option Call} {v : Int} : s.pc t = .ret c v →
      c ≠ some (.lineupStart l) → LineupStep o l s ⟨s.rt, Function.update s.pc t (.call (.lineupStart l))⟩
  | finish {s : Sys} {t : Tid} {v : Int} : s.pc t = .ret (some (.lineupStart l)) v →
      LineupStep o l s ⟨s.rt, Function.update s.pc t (.call (.lineupEnd l))⟩
  | move {s s' : Sys} : Step o (fun _ => false) s s' → LineupStep o l s s'

/-- The states a lineup program reaches from `s₀`. -/
inductive LineupReachable (o : Options) (l : Nat) (s₀ : Sys) : Sys → Prop
  | init : LineupReachable o l s₀ s₀
  | step {s s' : Sys} : LineupReachable o l s₀ s → LineupStep o l s s' → LineupReachable o l s₀ s'

/-- The entry `lineupEnd` leaves: one thread fewer, and `Arriving` again once the last thread of a
`Leaving` lineup is out. -/
def Lineup.depart (e : Lineup) : Lineup :=
  if e.nactive - 1 = 0 ∧ e.phase = .leaving then { e with nactive := e.nactive - 1, phase := .arriving }
  else { e with nactive := e.nactive - 1 }

/-! ### The moves of a lineup program -/

open Sys in
/-- What one move of a lineup program does to the process. A thread at a turn section holds the
turn; `e` is the entry of the lineup when the move starts. -/
inductive LineupTx (l : Nat) : Sys → Sys → Prop
  /-- A thread not in the lineup calls `lineupStart`. -/
  | start {s : Sys} {t : Tid} {c : Option Call} {v : Int} : s.pc t = .ret c v →
      c ≠ some (.lineupStart l) → LineupTx l s (s.setPc t (.call (.lineupStart l)))
  /-- A thread whose `lineupStart` returned calls `lineupEnd`. -/
  | finish {s : Sys} {t : Tid} {v : Int} : s.pc t = .ret (some (.lineupStart l)) v →
      LineupTx l s (s.setPc t (.call (.lineupEnd l)))
  /-- The wrapper's entry, outside a non-det region: the thread waits for the turn. -/
  | enter {s : Sys} {t : Tid} {c : Call} : s.pc t = .call c →
      (c = .lineupStart l ∨ c = .lineupEnd l) → LineupTx l s (s.setPc t (.get (.body c)))
  /-- The `count`-th arriver turns the lineup to `Leaving`, signals every waiter and returns. -/
  | arriveLast {s : Sys} {t : Tid} {e : Lineup} : s.Head t →
      s.pc t = .get (.body (.lineupStart l)) → s.rt.lineups l = some e → e.phase = .arriving →
      e.nactive + 1 = e.count → LineupTx l s (((s.mapRt (·.setLineup l
        (some { e with nactive := e.nactive + 1, phase := .leaving }))).signalOn (.lineup l)
          true).finish t (.ret (some (.lineupStart l)) 0))
  /-- An earlier arriver parks on the lineup until its deadline. -/
  | arriveWait {s : Sys} {t : Tid} {e : Lineup} {dl : Nat} : s.Head t →
      s.pc t = .get (.body (.lineupStart l)) → s.rt.lineups l = some e → e.phase = .arriving →
      e.nactive + 1 ≠ e.count → LineupTx l s ((s.mapRt (·.setLineup l
        (some { e with nactive := e.nactive + 1 }))).parkAt t (.lineup l) (some dl) (.lineupWoken l))
  /-- An arriver at a `Leaving` lineup goes through. -/
  | arriveLeaving {s : Sys} {t : Tid} {e : Lineup} : s.Head t →
      s.pc t = .get (.body (.lineupStart l)) → s.rt.lineups l = some e → e.phase = .leaving →
      LineupTx l s ((s.mapRt (·.setLineup l (some { e with nactive := e.nactive + 1 }))).finish t
        (.ret (some (.lineupStart l)) 0))
  /-- A thread leaves the lineup in `lineupEnd`. -/
  | depart {s : Sys} {t : Tid} {e : Lineup} : s.Head t → s.pc t = .get (.body (.lineupEnd l)) →
      s.rt.lineups l = some e → LineupTx l s ((s.mapRt (·.setLineup l (some e.depart))).finish t
        (.ret (some (.lineupEnd l)) 0))
  /-- A waiter back while the lineup is short and `Arriving` (its deadline passed) turns it to
  `Leaving`, signals every waiter and returns. -/
  | wokenFirst {s : Sys} {t : Tid} {e : Lineup} : s.Head t →
      s.pc t = .parked (.lineupWoken l) → s.rt.lineups l = some e →
      e.nactive < e.count ∧ e.phase = .arriving → LineupTx l s (((s.mapRt (·.setLineup l
        (some { e with phase := .leaving }))).signalOn (.lineup l) true).finish t
          (.ret (some (.lineupStart l)) 0))
  /-- Any other waiter back returns. -/
  | woken {s : Sys} {t : Tid} {e : Lineup} : s.Head t → s.pc t = .parked (.lineupWoken l) →
      s.rt.lineups l = some e → ¬(e.nactive < e.count ∧ e.phase = .arriving) →
      LineupTx l s (s.finish t (.ret (some (.lineupStart l)) 0))
  /-- The scheduler promotes a waiter whose deadline has passed, or the first waiter when the run
  queue is empty. -/
  | promote {s : Sys} {w : Waiter} : s.rt.sched.Expired w ∨ s.rt.sched.Deadlocked w →
      LineupTx l s (s.promote w)

/-! ### The code makes the moves of a lineup program -/

@[simp] theorem Rt.setLineup_setLineup (r : Rt) (l : Nat) (x y : Option Lineup) :
    (r.setLineup l x).setLineup l y = r.setLineup l y := by
  simp [Rt.setLineup]

section Refine

variable (o : Options) {l : Nat} {s : Sys} {t : Tid}

/-- The entry of a lineup wrapper outside a non-det region goes to the turn. -/
theorem enter_lineup (hn : s.rt.inNonDet t = false) (c : Call) :
    (s.setPc t (.get (.body c))).Sim (s.run t (enter o t c)) := by
  have he : enter o t c s.rt = (.get (.body c), s.rt, []) :=
    step_call o t (.inl (by simp [inNonDetRegion, hn]))
  simp only [Sys.run, he]
  exact ⟨rfl, rfl⟩

/-- `lineupStart`'s turn section, by the head. -/
theorem lineupStart_tx (hh : s.Head t) (hp : s.pc t = .get (.body (.lineupStart l))) {e : Lineup}
    (he : s.rt.lineups l = some e) :
    ∃ s', LineupTx l s s' ∧ s'.Sim (s.run t (body o t (.lineupStart l))) := by
  by_cases hph : e.phase = .arriving
  · by_cases hc : e.nactive + 1 = e.count
    · refine ⟨_, .arriveLast hh hp he hph hc, ?_⟩
      simp only [Sys.run, body, M.run_bind, M.run_rd, he, orAbort, mutate, setPhase, signal,
        lineupStartEnd, run_call, Ev.apply, Write.apply, hph, hc, if_true, Rt.setLineup_lineups,
        Function.update_same, Option.map_some', Rt.setLineup_setLineup]
      exact finish_sim o t _ _ _
    · refine ⟨_, @LineupTx.arriveWait l s t e (u32 (s.rt.sched.turnCount + e.timeout)) hh hp he hph hc, ?_⟩
      simp only [Sys.run, body, M.run_bind, M.run_rd, he, orAbort, mutate, wait, waitOn,
        getTurnCount, run_call, Ev.apply, Write.apply, M.run_pure, hph, hc, if_true, if_false]
      exact ⟨rfl, rfl⟩
  · have hl : e.phase = .leaving := by cases h : e.phase <;> simp_all
    refine ⟨_, .arriveLeaving hh hp he hl, ?_⟩
    simp only [Sys.run, body, M.run_bind, M.run_rd, he, orAbort, mutate, lineupStartEnd,
      run_call, Ev.apply, Write.apply, hph, if_false]
    exact finish_sim o t _ _ _

/-- `lineupEnd`'s turn section, by the head. -/
theorem lineupEnd_tx (hh : s.Head t) (hp : s.pc t = .get (.body (.lineupEnd l))) {e : Lineup}
    (he : s.rt.lineups l = some e) :
    ∃ s', LineupTx l s s' ∧ s'.Sim (s.run t (body o t (.lineupEnd l))) := by
  refine ⟨_, .depart hh hp he, ?_⟩
  by_cases hz : e.nactive - 1 = 0 ∧ e.phase = .leaving
  · simp only [Sys.run, body, M.run_bind, M.run_rd, he, orAbort, mutate, setPhase, run_call,
      Ev.apply, Write.apply, hz, and_self, if_true, Rt.setLineup_lineups, Function.update_same,
      Option.map_some', Rt.setLineup_setLineup, Lineup.depart]
    exact finish_sim o t _ _ _
  · simp only [Sys.run, body, M.run_bind, M.run_rd, he, orAbort, mutate, run_call, Ev.apply,
      Write.apply, M.run_pure, hz, if_false, Lineup.depart]
    exact finish_sim o t _ _ _

/-- The code after a lineup wait, by the head once released. -/
theorem lineupWoken_tx (hh : s.Head t) (hp : s.pc t = .parked (.lineupWoken l)) {e : Lineup}
    (he : s.rt.lineups l = some e) (w : WaitRes) :
    ∃ s', LineupTx l s s' ∧ s'.Sim (s.run t (resume o t (.lineupWoken l) w)) := by
  by_cases hf : e.nactive < e.count ∧ e.phase = .arriving
  · refine ⟨_, .wokenFirst hh hp he hf, ?_⟩
    simp only [Sys.run, resume, M.run_bind, M.run_rd, he, orAbort, setPhase, mutate, signal,
      lineupStartEnd, run_call, Ev.apply, Write.apply, hf, and_self, if_true,
      Rt.setLineup_lineups, Option.map_some']
    exact finish_sim o t _ _ _
  · refine ⟨_, .woken hh hp he hf, ?_⟩
    simp only [Sys.run, resume, M.run_bind, M.run_rd, he, orAbort, lineupStartEnd, M.run_pure,
      hf, if_false]
    exact finish_sim o t _ _ _

theorem onLineup_call {c : Call} (h : (Pc.call c).onLineup l) :
    c = .lineupStart l ∨ c = .lineupEnd l := by
  cases c <;> simp_all [Pc.onLineup]

theorem onLineup_body {c : Call} (h : (Pc.get (.body c)).onLineup l) :
    c = .lineupStart l ∨ c = .lineupEnd l := by
  cases c <;> simp_all [Pc.onLineup]

theorem onLineup_parked {k : Resume} (h : (Pc.parked k).onLineup l) : k = .lineupWoken l := by
  cases k <;> simp_all [Pc.onLineup]

/-- Every step of a thread of a lineup program, outside a non-det region and with the entry of
the lineup in place, is a move of a lineup program. -/
theorem step_lineupTx (hp : (s.pc t).onLineup l) (hn : s.rt.inNonDet t = false)
    (hpe : s.rt.pending t = false) {e : Lineup} (he : s.rt.lineups l = some e) (hr : s.ready t) :
    ∃ s', LineupTx l s s' ∧ s'.Sim (s.runStep o t) := by
  change ∃ s', LineupTx l s s' ∧ s'.Sim (s.run t (step o t (s.pc t)))
  cases hq : s.pc t with
  | ret | zombie | aborted => simp [Sys.ready, hq, hpe] at hr
  | call c =>
    have hc := onLineup_call (hq ▸ hp)
    exact ⟨_, .enter hq hc, enter_lineup o hn c⟩
  | get k =>
    have hh : s.Head t := by simpa [Sys.ready, hq] using hr
    cases k with
    | body c =>
      simp only [step]
      rw [Sys.run_bind_of_rt t rfl]
      rcases onLineup_body (hq ▸ hp) with rfl | rfl
      · exact lineupStart_tx o hh hq he
      · exact lineupEnd_tx o hh hq he
    | barrierCycled => simp [Pc.onLineup, hq] at hp
  | parked k =>
    have hh : s.Head t := by simpa [Sys.ready, hq] using hr
    obtain rfl := onLineup_parked (hq ▸ hp)
    simp only [step]
    rw [Sys.run_bind_of_rt t rfl]
    exact lineupWoken_tx o hh hq he _
  | ioCall | nonDetEnd | post | native | blocked => simp [Pc.onLineup, hq] at hp

/-- Every move of a lineup program, the scheduler's included, is one of `LineupTx`, while its
threads are at points of the program, none is in a non-det region, and the entry is in place. -/
theorem LineupStep.lineupTx {s' : Sys} (hp : ∀ u, (s.pc u).onLineup l)
    (hn : ∀ u, s.rt.inNonDet u = false) (hpe : ∀ u, s.rt.pending u = false) {e : Lineup}
    (he : s.rt.lineups l = some e)
    (h : LineupStep o l s s') : ∃ s'', LineupTx l s s'' ∧ s''.Sim s' := by
  cases h with
  | start ht hc => exact ⟨_, .start ht hc, rfl, rfl⟩
  | finish ht => exact ⟨_, .finish ht, rfl, rfl⟩
  | move h =>
    cases h with
    | call _ ha => cases ha
    | run hr => exact step_lineupTx o (hp _) (hn _) (hpe _) he hr
    | expire hw => exact ⟨_, .promote (.inl hw), rfl, rfl⟩
    | deadlock hw => exact ⟨_, .promote (.inr hw), rfl, rfl⟩

end Refine

/-! ### The invariant -/

/-- What the phase of lineup `l` says of the threads in it, `N` of them: while `Arriving`,
fewer than `count`, each parked on the lineup or promoted by its deadline; while `Leaving`, some,
and none is parked on the lineup. -/
def LineupPhaseOk (l count N : Nat) (s : Sys) : Phase → Prop
  | .arriving => N < count ∧ ∀ u, (s.pc u).activeOn l →
      s.pc u = .parked (.lineupWoken l) ∧
        (s.rt.sched.Parked u (.lineup l) ∨ s.rt.sched.wakeRes u = .timedout)
  | .leaving => 0 < N ∧ ¬s.rt.sched.Waiting (.lineup l)

/-- Modelled from the spec: a lineup of `count` as a state machine on the number of threads in
it and its phase. An arrival at an `Arriving` lineup fills it or waits; an arrival at a `Leaving`
one goes through; a departure from a `Leaving` lineup turns it `Arriving` once it is empty; a
timeout turns a short `Arriving` lineup `Leaving`. -/
inductive LineupAbs (count : Nat) : Nat × Phase → Nat × Phase → Prop
  | stay {a : Nat × Phase} : LineupAbs count a a
  | arriveLast {N : Nat} : N + 1 = count → LineupAbs count (N, .arriving) (N + 1, .leaving)
  | arriveWait {N : Nat} : N + 1 < count → LineupAbs count (N, .arriving) (N + 1, .arriving)
  | arriveLeaving {N : Nat} : LineupAbs count (N, .leaving) (N + 1, .leaving)
  | depart {N : Nat} : 0 < N →
      LineupAbs count (N, .leaving) (N - 1, if N = 1 then .arriving else .leaving)
  | timeout {N : Nat} : 0 < N → N < count → LineupAbs count (N, .arriving) (N, .leaving)

/-- The abstract lineup goes back to `Arriving` exactly when its count drops to `0`. -/
theorem LineupAbs.back_iff {count : Nat} {a a' : Nat × Phase} (h : LineupAbs count a a') :
    a.2 = .leaving ∧ a'.2 = .arriving ↔ 0 < a.1 ∧ a'.1 = 0 := by
  cases h with
  | stay => constructor <;> rintro ⟨h₁, h₂⟩ <;> first | (rw [h₁] at h₂; cases h₂) | omega
  | @depart N hN => by_cases h1 : N = 1 <;> simp [h1]; omega
  | timeout hN => simp; omega
  | arriveLast | arriveWait | arriveLeaving => simp

/-- The phase of lineup `l`. -/
def Sys.lineupPhase (s : Sys) (l : Nat) : Option Phase := (s.rt.lineups l).map (·.phase)

/-- A move of the process that the abstract lineup makes too, on the threads among `0 … n-1`. -/
def Sys.LineupMoves (l n count : Nat) (s s' : Sys) : Prop :=
  ∃ ph ph', s.lineupPhase l = some ph ∧ s'.lineupPhase l = some ph' ∧
    LineupAbs count (s.nActive l n, ph) (s'.nActive l n, ph')

/-- The shape of a state of a lineup program on `l` with threads `0 … n-1`: every thread is at a
point of the program, ids from `n` on are not threads and none is about to start, and no thread
is in a non-det region. -/
structure Sys.LineupShape (l n : Nat) (s : Sys) : Prop where
  points : ∀ u, (s.pc u).onLineup l
  zombie : ∀ u, n ≤ u → s.pc u = .zombie
  nonDet : ∀ u, s.rt.inNonDet u = false
  pending : ∀ u, s.rt.pending u = false

/-- The invariant of a lineup program: the entry keeps its count and timeout, its `nactive` is
the number of threads in the lineup, and its phase says what `LineupPhaseOk` says. -/
structure Sys.LineupInv (l n count timeout : Nat) (s : Sys) : Prop where
  shape : s.LineupShape l n
  count_pos : 0 < count
  entry : ∃ ph, s.rt.lineups l = some ⟨count, s.nActive l n, timeout, ph⟩ ∧
    LineupPhaseOk l count (s.nActive l n) s ph

/-- A lineup just created by `lineupInit`, in a program whose threads are all in application
code outside it, with no thread about to start. -/
structure Sys.LineupFresh (l n count timeout : Nat) (s : Sys) : Prop where
  count_pos : 0 < count
  entry : s.rt.lineups l = some ⟨count, 0, timeout, .arriving⟩
  idle : ∀ u < n, ∃ c v, s.pc u = .ret c v ∧ c ≠ some (.lineupStart l)
  zombie : ∀ u, n ≤ u → s.pc u = .zombie
  nonDet : ∀ u, s.rt.inNonDet u = false
  pending : ∀ u, s.rt.pending u = false

/-! ### Counting the threads in the lineup -/

theorem countP_range_update (f : Nat → Bool) (t : Nat) (b : Bool) :
    ∀ n, t < n → (List.range n).countP (Function.update f t b) + (f t).toNat =
      (List.range n).countP f + b.toNat
  | 0, h => absurd h (Nat.not_lt_zero _)
  | n + 1, h => by
    simp only [List.range_succ, List.countP_append, List.countP_singleton]
    rcases Nat.lt_succ_iff_lt_or_eq.1 h with h | rfl
    · have := countP_range_update f t b n h
      simp only [Function.update_noteq (Nat.ne_of_gt h)]
      omega
    · have : (List.range t).countP (Function.update f t b) = (List.range t).countP f :=
        List.countP_congr fun u hu => by
          simp [Function.update_noteq (Nat.ne_of_lt (List.mem_range.1 hu))]
      rw [this]
      cases b <;> cases f t <;> simp

variable {l n count timeout : Nat} {s s' : Sys} {t : Tid} {p : Pc}

/-- One thread moving changes the count by what its activity changes. -/
theorem nActive_update (h : s'.pc = Function.update s.pc t p) (ht : t < n) :
    s'.nActive l n + ((s.pc t).activeOn l).toNat = s.nActive l n + (p.activeOn l).toNat := by
  have : (fun u => (s'.pc u).activeOn l) = Function.update (fun u => (s.pc u).activeOn l) t
      (p.activeOn l) := by
    funext u; rw [h]; rcases eq_or_ne u t with rfl | hu <;> simp [*]
  unfold Sys.nActive
  rw [this]
  exact countP_range_update _ t _ n ht

theorem nActive_eq_of_pc (h : s'.pc = s.pc) : s'.nActive l n = s.nActive l n := by
  simp [Sys.nActive, h]

theorem nActive_pos (ht : t < n) (ha : (s.pc t).activeOn l) : 0 < s.nActive l n :=
  List.countP_pos_iff.2 ⟨t, List.mem_range.2 ht, ha⟩

theorem not_active_of_nActive_zero (h : s.nActive l n = 0) (hu : u < n) :
    (s.pc u).activeOn l = false := by
  simpa using List.countP_eq_zero.1 h u (List.mem_range.2 hu)

theorem Sys.LineupShape.lt_of_ne_zombie (hs : s.LineupShape l n) (ht : s.pc t ≠ .zombie) : t < n :=
  Nat.lt_of_not_le fun h => ht (hs.zombie t h)

theorem Sys.LineupShape.lt_of_active (hs : s.LineupShape l n) (ha : (s.pc t).activeOn l) : t < n :=
  hs.lt_of_ne_zombie fun h => by simp [h, Pc.activeOn] at ha

/-- One thread moving to a point of the program, the rest of the state kept apart from the
scheduler and the tables. -/
theorem Sys.LineupShape.update (hs : s.LineupShape l n) (ht : s.pc t ≠ .zombie) (hp : p.onLineup l)
    (hpc : s'.pc = Function.update s.pc t p)
    (hn : s'.rt.inNonDet = s.rt.inNonDet ∧ s'.rt.pending = s.rt.pending) :
    s'.LineupShape l n where
  points u := by rw [hpc]; rcases eq_or_ne u t with rfl | hu <;> simp [*, hs.points u]
  zombie u hu := by
    have : u ≠ t := fun e => absurd (hs.lt_of_ne_zombie ht) (e ▸ Nat.not_lt.2 hu)
    rw [hpc, Function.update_noteq this, hs.zombie u hu]
  nonDet u := by rw [hn.1, hs.nonDet u]
  pending u := by rw [hn.2, hs.pending u]

/-! ### The scheduler on the lineup's channel -/

theorem Sched.not_waiting_signal_all (s : Sched) (ch : Chan) : ¬(s.signal ch true).Waiting ch := by
  rintro ⟨w, hw, hc⟩
  simp only [signal, wake, signalled, if_true, List.mem_filter, decide_eq_true_eq] at hw
  exact hw.2 ⟨hw.1, hc⟩

theorem Sched.waiting_of_promote {s : Sched} {w : Waiter} {ch : Chan}
    (h : (s.promote w).Waiting ch) : s.Waiting ch := by
  obtain ⟨w', hw', hc⟩ := h
  exact ⟨w', (List.mem_filter.1 hw').1, hc⟩

/-- A thread parked on `ch` stays parked on it, or is promoted, when the scheduler promotes a
waiter. -/
theorem Sched.parked_promote {s : Sched} {w : Waiter} {u : Tid} {ch : Chan}
    (h : s.Parked u ch ∨ s.wakeRes u = .timedout) :
    (s.promote w).Parked u ch ∨ (s.promote w).wakeRes u = .timedout := by
  by_cases hu : u = w.tid
  · exact .inr (by simp [promote, wake, hu])
  · refine h.imp (fun ⟨w', hw', hu', hc⟩ => ⟨w', ?_, hu', hc⟩) fun h => by simp [promote, wake, hu, h]
    simp only [promote, wake, List.mem_filter, List.mem_singleton, decide_eq_true_eq]
    exact ⟨hw', fun e => hu (e ▸ hu'.symm)⟩

@[simp] theorem Sched.waiting_putTurn (s : Sched) (ch : Chan) : s.putTurn.Waiting ch ↔ s.Waiting ch := by
  simp [Waiting]

theorem activeOn_ret (c : Option Call) (v : Int) :
    (Pc.ret c v).activeOn l = decide (c = some (.lineupStart l)) := by
  rcases c with _ | c
  · rfl
  · cases c <;> simp [Pc.activeOn]

/-! ### Every move keeps the invariant -/

/-- A thread in the lineup that is not parked means the lineup is `Leaving`. -/
theorem LineupPhaseOk.leaving_of_active {N : Nat} {ph : Phase} (hok : LineupPhaseOk l count N s ph)
    (ha : (s.pc t).activeOn l) (hp : s.pc t ≠ .parked (.lineupWoken l)) : ph = .leaving := by
  cases ph
  · exact absurd (hok.2 t ha).1 hp
  · rfl

/-- A move of thread `t` to `p` keeps the invariant, and is a move of the abstract lineup, when
the entry it leaves counts the threads in the lineup after the move, `N'`, its phase says what it
must of them, and the abstract lineup goes from the old count and phase to the new ones. -/
theorem Sys.LineupInv.move (hi : s.LineupInv l n count timeout) (hpc : s'.pc = Function.update s.pc t p)
    (hn : s'.rt.inNonDet = s.rt.inNonDet ∧ s'.rt.pending = s.rt.pending) (ht : s.pc t ≠ .zombie)
    (hp : p.onLineup l) {ph : Phase}
    (hent : s.rt.lineups l = some ⟨count, s.nActive l n, timeout, ph⟩) (N' : Nat)
    (hN : N' + ((s.pc t).activeOn l).toNat = s.nActive l n + (p.activeOn l).toNat) (ph' : Phase)
    (he : s'.rt.lineups l = some ⟨count, N', timeout, ph'⟩)
    (habs : LineupAbs count (s.nActive l n, ph) (N', ph'))
    (hok : s'.nActive l n = N' → LineupPhaseOk l count N' s' ph') :
    s'.LineupInv l n count timeout ∧ s.LineupMoves l n count s' := by
  have hN' : s'.nActive l n = N' := by
    have := nActive_update (l := l) hpc (hi.shape.lt_of_ne_zombie ht)
    omega
  exact ⟨⟨hi.shape.update ht hp hpc hn, hi.count_pos, ph', by rw [hN']; exact he, hN' ▸ hok hN'⟩,
    ph, ph', by simp [Sys.lineupPhase, hent], by simp [Sys.lineupPhase, he], hN' ▸ habs⟩

/-- A move of one thread between points, the runtime state unchanged, that neither enters nor
leaves the lineup, and moves no parked thread in it. -/
theorem Sys.LineupInv.setPc (hi : s.LineupInv l n count timeout) (hp : p.onLineup l)
    (ht : s.pc t ≠ .zombie) (hact : p.activeOn l = (s.pc t).activeOn l)
    (hpk : p.activeOn l → s.pc t ≠ .parked (.lineupWoken l)) :
    (s.setPc t p).LineupInv l n count timeout ∧ s.LineupMoves l n count (s.setPc t p) := by
  obtain ⟨ph, he, hok⟩ := hi.entry
  refine hi.move rfl ⟨rfl, rfl⟩ ht hp he _ (by rw [hact]) ph he .stay fun _ => ?_
  cases ph with
  | arriving =>
    refine ⟨hok.1, fun u hu => ?_⟩
    rcases eq_or_ne u t with rfl | hut
    · have hpa : p.activeOn l := by simpa using hu
      exact absurd (hok.2 u (hact ▸ hpa)).1 (hpk hpa)
    · simpa [hut] using hok.2 u (by simpa [hut] using hu)
  | leaving => exact hok

/-- Every move of a lineup program keeps the invariant and is a move of the abstract lineup. -/
theorem LineupTx.inv (hi : s.LineupInv l n count timeout) (h : LineupTx l s s') :
    s'.LineupInv l n count timeout ∧ s.LineupMoves l n count s' := by
  obtain ⟨ph, hent, hok⟩ := hi.entry
  cases h with
  | start ht hc =>
    refine hi.setPc (by simp [Pc.onLineup]) (by simp [ht]) ?_ (by simp [Pc.activeOn])
    rw [ht, activeOn_ret]; simp [hc, Pc.activeOn]
  | finish ht =>
    exact hi.setPc (by simp [Pc.onLineup]) (by simp [ht]) (by simp [ht, Pc.activeOn])
      (fun _ => by simp [ht])
  | enter hq hc =>
    rcases hc with rfl | rfl <;>
      exact hi.setPc (by simp [Pc.onLineup]) (by simp [hq]) (by simp [hq, Pc.activeOn])
        (by simp [hq, Pc.activeOn])
  | arriveLast _ hp he hph hc =>
    rw [hent] at he; cases he
    obtain rfl : ph = .arriving := hph
    refine hi.move rfl ⟨rfl, rfl⟩ (by simp [hp]) (by simp [Pc.onLineup]) hent (s.nActive l n + 1)
      (by simp [hp, Pc.activeOn, activeOn_ret]) .leaving (by simp)
      (.arriveLast (by dsimp only at hc; exact_mod_cast hc)) fun _ => ⟨by omega, ?_⟩
    simpa using Sched.not_waiting_signal_all _ (.lineup l)
  | @arriveWait t e dl _ hp he hph hc =>
    rw [hent] at he; cases he
    obtain rfl : ph = .arriving := hph
    have hlt : s.nActive l n + 1 < count := by
      have := hok.1; simp only [ne_eq] at hc; omega
    refine hi.move rfl ⟨rfl, rfl⟩ (by simp [hp]) (by simp [Pc.onLineup]) hent (s.nActive l n + 1)
      (by simp [hp, Pc.activeOn]) .arriving (by simp)
      (.arriveWait hlt) fun _ => ⟨hlt, fun u hu => ?_⟩
    rcases eq_or_ne u t with rfl | hut
    · exact ⟨by simp, .inl ⟨⟨u, .lineup l, some dl⟩, by simp [Sched.park], rfl, rfl⟩⟩
    · have hu' : (s.pc u).activeOn l := by simpa [hut] using hu
      obtain ⟨hpu, hw⟩ := hok.2 u hu'
      refine ⟨by simpa [hut] using hpu, hw.imp ?_ id⟩
      rintro ⟨w, hw, hwu, hwc⟩
      exact ⟨w, by simp [Sched.park, hw], hwu, hwc⟩
  | arriveLeaving _ hp he hph =>
    rw [hent] at he; cases he
    obtain rfl : ph = .leaving := hph
    refine hi.move rfl ⟨rfl, rfl⟩ (by simp [hp]) (by simp [Pc.onLineup]) hent (s.nActive l n + 1)
      (by simp [hp, Pc.activeOn, activeOn_ret]) .leaving (by simp) .arriveLeaving
      fun _ => ⟨by omega, by simpa using hok.2⟩
  | @depart t e _ hp he =>
    rw [hent] at he; cases he
    have ha : (s.pc t).activeOn l := by simp [hp, Pc.activeOn]
    obtain rfl := hok.leaving_of_active ha (by simp [hp])
    have hpos := hok.1
    by_cases hz : s.nActive l n = 1
    · refine hi.move rfl ⟨rfl, rfl⟩ (by simp [hp]) (by simp [Pc.onLineup]) hent 0
        (by simp [hp, Pc.activeOn, activeOn_ret, hz]) .arriving
        (by simp [Lineup.depart, hz])
        (by simpa [hz] using (LineupAbs.depart hpos : LineupAbs count _ _))
        fun h0 => ⟨hi.count_pos, ?_⟩
      intro u hu
      rcases eq_or_ne u t with rfl | hut
      · simp [activeOn_ret] at hu
      · have hu' : (s.pc u).activeOn l := by simpa [hut] using hu
        exact absurd hu (by rw [not_active_of_nActive_zero h0 (hi.shape.lt_of_active hu')]; simp)
    · refine hi.move rfl ⟨rfl, rfl⟩ (by simp [hp]) (by simp [Pc.onLineup]) hent (s.nActive l n - 1)
        (by simp [hp, Pc.activeOn, activeOn_ret]; omega) .leaving ?_
        (by simpa [hz] using (LineupAbs.depart hpos : LineupAbs count _ _))
        fun _ => ⟨by omega, by simpa using hok.2⟩
      have : ¬((s.nActive l n : Int) - 1 = 0) := by omega
      simp [Lineup.depart, this]
      omega
  | @wokenFirst t e _ hp he hf =>
    rw [hent] at he; cases he
    obtain rfl : ph = .arriving := hf.2
    have ha : (s.pc t).activeOn l := by simp [hp, Pc.activeOn]
    have hpos := nActive_pos (hi.shape.lt_of_active ha) ha
    refine hi.move rfl ⟨rfl, rfl⟩ (by simp [hp]) (by simp [Pc.onLineup]) hent (s.nActive l n)
      (by simp [hp, Pc.activeOn, activeOn_ret]) .leaving (by simp)
      (.timeout hpos (by have h := hf.1; dsimp only at h; exact_mod_cast h)) fun _ => ⟨hpos, ?_⟩
    simpa using Sched.not_waiting_signal_all _ (.lineup l)
  | @woken t e _ hp he hf =>
    rw [hent] at he; cases he
    have hl : ph = .leaving := by
      cases ph
      · exact absurd ⟨show (s.nActive l n : Int) < count by exact_mod_cast hok.1, rfl⟩ hf
      · rfl
    subst hl
    refine hi.move rfl ⟨rfl, rfl⟩ (by simp [hp]) (by simp [Pc.onLineup]) hent (s.nActive l n)
      (by simp [hp, Pc.activeOn, activeOn_ret]) .leaving (by simpa using hent) .stay
      fun _ => ⟨hok.1, by simpa using hok.2⟩
  | @promote w _ =>
    have hN : (s.promote w).nActive l n = s.nActive l n := nActive_eq_of_pc rfl
    refine ⟨⟨⟨hi.shape.points, hi.shape.zombie, hi.shape.nonDet, hi.shape.pending⟩, hi.count_pos, ph,
      by rw [hN]; exact hent, ?_⟩, ph, ph, by simp [Sys.lineupPhase, hent],
      by simp [Sys.lineupPhase, Sys.promote, hent], hN ▸ .stay⟩
    rw [hN]
    cases ph with
    | arriving =>
      exact ⟨hok.1, fun u hu => ⟨(hok.2 u hu).1, Sched.parked_promote (hok.2 u hu).2⟩⟩
    | leaving => exact ⟨hok.1, fun h => hok.2 (Sched.waiting_of_promote h)⟩

/-! ### A lineup created by `lineupInit` -/

/-- `lineupInit l count timeout` on a missing entry, by a thread of a program whose other threads
are in application code outside the lineup, leaves a fresh lineup. -/
theorem lineupInit_fresh (o : Options) (hp : s.pc t = .get (.body (.lineupInit l count timeout)))
    (hnone : s.rt.lineups l = none) (hc : 0 < count) (ht : t < n)
    (hidle : ∀ u < n, u ≠ t → ∃ c v, s.pc u = .ret c v ∧ c ≠ some (.lineupStart l))
    (hz : ∀ u, n ≤ u → s.pc u = .zombie) (hnd : ∀ u, s.rt.inNonDet u = false)
    (hpe : ∀ u, s.rt.pending u = false) :
    (s.runStep o t).LineupFresh l n count timeout := by
  simp only [Sys.runStep, hp, step, body, getTurn, M.run_bind, run_call, Ev.apply, id, M.run_rd,
    hnone, Option.isSome_none, Bool.false_eq_true, if_false, mutate, Write.apply]
  have hr := schedPutTurn_untimed o t .ternLineupInit (.ret (some (.lineupInit l count timeout)) 0)
    (s.rt.setLineup l (some ⟨count, 0, timeout, .arriving⟩))
  refine ⟨hc, by simp, fun u hu => ?_, fun u hu => ?_, fun u => ?_, fun u => ?_⟩
  · rcases eq_or_ne u t with rfl | hut
    · exact ⟨some (.lineupInit l count timeout), 0, by simp [hr.1], by simp⟩
    · simpa [hut] using hidle u hu hut
  · have : u ≠ t := fun e => absurd ht (e ▸ Nat.not_lt.2 hu)
    simp [this, hz u hu]
  · exact (congrFun (congrArg Rt.inNonDet hr.2 :) u).trans (hnd u)
  · exact (congrFun (congrArg Rt.pending hr.2 :) u).trans (hpe u)

/-! ### Every reachable state -/

/-- The invariant reads nothing the turn count and the log hold. -/
theorem Sys.LineupInv.of_sim (hi : s.LineupInv l n count timeout) (h : s.Sim s') :
    s'.LineupInv l n count timeout := by
  obtain ⟨hrt, hpc⟩ := h
  have hN : s'.nActive l n = s.nActive l n := nActive_eq_of_pc hpc.symm
  have hl : s'.rt.lineups = s.rt.lineups := (congrArg Rt.lineups hrt.symm :)
  have hq : s'.rt.sched.waitq = s.rt.sched.waitq := (congrArg (·.sched.waitq) hrt.symm :)
  have hw : s'.rt.sched.wakeRes = s.rt.sched.wakeRes := (congrArg (·.sched.wakeRes) hrt.symm :)
  have hnd : s'.rt.inNonDet = s.rt.inNonDet := (congrArg Rt.inNonDet hrt.symm :)
  have hpe : s'.rt.pending = s.rt.pending := (congrArg Rt.pending hrt.symm :)
  obtain ⟨ph, he, hok⟩ := hi.entry
  refine ⟨⟨fun u => hpc ▸ hi.shape.points u, fun u hu => hpc ▸ hi.shape.zombie u hu,
    fun u => hnd ▸ hi.shape.nonDet u, fun u => hpe ▸ hi.shape.pending u⟩, hi.count_pos, ph, by rw [hl, hN]; exact he, ?_⟩
  rw [hN]
  cases ph with
  | arriving =>
    exact ⟨hok.1, fun u hu => by
      rw [← hpc] at hu ⊢; simpa [Sched.Parked, hq, hw] using hok.2 u hu⟩
  | leaving => exact ⟨hok.1, by simpa [Sched.Waiting, hq] using hok.2⟩

theorem Sys.LineupMoves.of_sim (h : s.LineupMoves l n count s') {s'' : Sys} (hs : s'.Sim s'') :
    s.LineupMoves l n count s'' := by
  obtain ⟨ph, ph', h₁, h₂, h₃⟩ := h
  have hl : s''.rt.lineups = s'.rt.lineups := (congrArg Rt.lineups hs.1.symm :)
  exact ⟨ph, ph', h₁, by simpa [Sys.lineupPhase, hl] using h₂,
    by rwa [nActive_eq_of_pc (l := l) (n := n) hs.2.symm]⟩

/-- A fresh lineup satisfies the invariant: nobody is in it and it is `Arriving`. -/
theorem Sys.LineupFresh.inv (h : s.LineupFresh l n count timeout) : s.LineupInv l n count timeout := by
  have hidle : ∀ u, (s.pc u).activeOn l = false := fun u => by
    by_cases hu : u < n
    · obtain ⟨c, v, hp, hc⟩ := h.idle u hu
      simp [hp, activeOn_ret, hc]
    · simp [h.zombie u (Nat.not_lt.1 hu), Pc.activeOn]
  have hN : s.nActive l n = 0 := List.countP_eq_zero.2 fun u _ => by simp [hidle u]
  refine ⟨⟨fun u => ?_, h.zombie, h.nonDet, h.pending⟩, h.count_pos, .arriving, by rw [hN]; exact h.entry,
    hN ▸ h.count_pos, fun u hu => by simp [hidle u] at hu⟩
  by_cases hu : u < n
  · obtain ⟨c, v, hp, -⟩ := h.idle u hu
    simp [hp, Pc.onLineup]
  · simp [h.zombie u (Nat.not_lt.1 hu), Pc.onLineup]

/-- Every move of a lineup program from a state of the invariant keeps it and is a move of the
abstract lineup. -/
theorem LineupStep.inv (o : Options) (hi : s.LineupInv l n count timeout) (h : LineupStep o l s s') :
    s'.LineupInv l n count timeout ∧ s.LineupMoves l n count s' := by
  obtain ⟨ph, he, -⟩ := hi.entry
  obtain ⟨s'', htx, hsim⟩ :=
    LineupStep.lineupTx o hi.shape.points hi.shape.nonDet hi.shape.pending he h
  obtain ⟨hi'', hm⟩ := htx.inv hi
  exact ⟨hi''.of_sim hsim, hm.of_sim hsim⟩

theorem LineupReachable.inv {o : Options} {s₀ : Sys} (h₀ : s₀.LineupFresh l n count timeout)
    (h : LineupReachable o l s₀ s) : s.LineupInv l n count timeout := by
  induction h with
  | init => exact h₀.inv
  | step _ hs ih => exact (LineupStep.inv o ih hs).1

/-- Lineup invariant. Along every run of a lineup program from a fresh lineup of `count ≥ 1`:
`nactive` is the number of threads between the increment of `lineupStart` and the decrement of
`lineupEnd`; while the lineup is `Arriving`, fewer than `count` threads are in it and each is
parked on the lineup or promoted by its deadline; while it is `Leaving`, nobody is parked on it;
a thread back from `lineupStart` sees it `Leaving`; and a move turns it from `Leaving` to
`Arriving` exactly when it takes the count of threads in it from positive to `0`. -/
theorem lineup_invariant {o : Options} {s₀ : Sys} (h₀ : s₀.LineupFresh l n count timeout) :
    ∀ s, LineupReachable o l s₀ s →
      (∃ ph, s.rt.lineups l = some ⟨count, s.nActive l n, timeout, ph⟩) ∧
      (s.lineupPhase l = some .arriving → s.nActive l n < count ∧ ∀ u, (s.pc u).activeOn l →
        s.pc u = .parked (.lineupWoken l) ∧
          (s.rt.sched.Parked u (.lineup l) ∨ s.rt.sched.wakeRes u = .timedout)) ∧
      (s.lineupPhase l = some .leaving → ¬s.rt.sched.Waiting (.lineup l)) ∧
      (∀ u v, s.pc u = .ret (some (.lineupStart l)) v → s.lineupPhase l = some .leaving) ∧
      ∀ s', LineupStep o l s s' → (s.lineupPhase l = some .leaving ∧
        s'.lineupPhase l = some .arriving ↔ 0 < s.nActive l n ∧ s'.nActive l n = 0) := by
  intro s hs
  have hi := hs.inv h₀
  obtain ⟨ph, he, hok⟩ := hi.entry
  have hph : s.lineupPhase l = some ph := by simp [Sys.lineupPhase, he]
  refine ⟨⟨ph, he⟩, fun ha => ?_, fun hl => ?_, fun u v hu => ?_, fun s' hs' => ?_⟩
  · obtain rfl : ph = .arriving := by simpa [hph] using ha
    exact hok
  · obtain rfl : ph = .leaving := by simpa [hph] using hl
    exact hok.2
  · have ha : (s.pc u).activeOn l := by simp [hu, activeOn_ret]
    rw [hph, hok.leaving_of_active ha (by simp [hu])]
  · obtain ⟨ph₁, ph₂, h₁, h₂, habs⟩ := (LineupStep.inv o hi hs').2
    rw [h₁, h₂]
    simpa using habs.back_iff

/-- Two threads: thread `0` creates lineup `0` of count `2` and timeout `5` while thread `1` is in
application code; from there on, a thread back from `lineupStart` finds the lineup `Leaving`. -/
theorem lineup_invariant_twoThreads :
    let o : Options := ⟨false, false, false, 1000, false, false⟩
    let s₀ : Sys := ⟨Rt.init ⟨⟨0, 0⟩, fun _ => 1, fun _ => false, false, false⟩,
      fun u => if u = 0 then .get (.body (.lineupInit 0 2 5)) else if u < 2 then .ret none 0
        else .zombie⟩
    (s₀.runStep o 0).LineupFresh 0 2 2 5 ∧ ∀ s, LineupReachable o 0 (s₀.runStep o 0) s →
      ∀ u v, s.pc u = .ret (some (.lineupStart 0)) v → s.lineupPhase 0 = some .leaving := by
  intro o s₀
  have h₀ : (s₀.runStep o 0).LineupFresh 0 2 2 5 :=
    lineupInit_fresh o rfl rfl (by decide) (by decide)
      (fun u hu hne => ⟨none, 0, by simp [s₀, hne, hu], by simp⟩)
      (fun u hu => by simp [s₀, show u ≠ 0 by omega, Nat.not_lt.2 hu]) (fun _ => rfl) fun _ => rfl
  exact ⟨h₀, fun s hs => (lineup_invariant h₀ s hs).2.2.2.1⟩

end Xtern
