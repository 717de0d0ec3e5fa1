import Xtern.Locks
import Mathlib.Data.List.Nodup

/-! # No lost wakeup on mutexes and semaphores

A lock program is one whose threads call only the mutex, condition-variable and semaphore
wrappers (`lockApp`). In every state such a program reaches, under every interleaving and every
choice of the scheduler's promotions, no wakeup is lost (`noLostWakeup`): a thread parked on a
mutex finds it locked or some signalled thread yet to retry it, and a thread parked on a semaphore
finds no more units than there are signalled threads yet to retry it.

The proof has two levels. Above, `LockTx` lists what one move of a lock program does to the
queues, the locks and the threads' points: a thread takes a lock, releases one and signals its
channel, parks, gives up the turn, or the scheduler promotes a waiter. `LockTx.inv` proves the
invariant `LockInv` preserved by each of them, from the way each one moves the three quantities
of `NoLostWakeup` (which threads wait, the free units, the signalled threads). Below,
`Step.lockTx` proves that each move of the wrappers' code is one of them, up to the turn count
and the log (`Sys.Sim`), which the invariant does not read. -/

namespace Xtern

/-! ### Lock programs -/

/-- The wrappers of the lock programs: the mutex, condition-variable and semaphore operations
other than their initialisers and destructors. -/
def Call.isLockCall : Call → Bool
  | .pthreadMutexLock _ | .pthreadMutexTryLock _ | .pthreadMutexTimedLock _ _
  | .pthreadMutexUnlock _ | .pthreadCondWait _ _ | .pthreadCondTimedWait _ _ _
  | .pthreadCondSignal _ | .pthreadCondBroadcast _ | .semWait _ | .semTryWait _
  | .semTimedWait _ _ | .semPost _ => true
  | _ => false

/-- A lock program: its threads call the lock wrappers only. -/
def lockApp : Pc → Bool
  | .call c => c.isLockCall
  | _ => false

/-- The waits of the lock wrappers. -/
def Resume.isLock : Resume → Bool
  | .lockRetry .. | .condWoken .. | .semRetry .. | .semTimedRetry .. => true
  | _ => false

/-- The points a thread of a lock program reaches. -/
def Pc.isLock : Pc → Bool
  | .ret _ _ | .native _ | .zombie | .aborted => true
  | .call c | .get (.body c) => c.isLockCall
  | .parked k => k.isLock
  | _ => false

/-- A thread at a wait. -/
def Pc.isParked : Pc → Bool
  | .parked _ => true
  | _ => false

/-- A wait of a lock wrapper on a mutex or a semaphore retries it when signalled. -/
theorem Resume.retry_of_isLock {k : Resume} (hk : k.isLock) :
    k.retry = some k.chan ∨ ∃ cv, k.chan = .cond cv := by
  cases k <;> simp_all [Resume.isLock, Resume.retry, Resume.chan]

/-! ### Moves on the process -/

/-- The runtime state with the turn count and the log forgotten. -/
def Rt.untimed (r : Rt) : Rt := { r with sched := { r.sched with turnCount := 0 }, log := [] }

namespace Sys

/-- Updates the runtime state. -/
def mapRt (f : Rt → Rt) (s : Sys) : Sys := ⟨f s.rt, s.pc⟩

/-- Thread `t` moves to `p`. -/
def setPc (t : Tid) (p : Pc) (s : Sys) : Sys := ⟨s.rt, Function.update s.pc t p⟩

/-- `signal(ch, all)`. -/
def signalOn (ch : Chan) (all : Bool) (s : Sys) : Sys := s.mapRt (·.mapSched (·.signal ch all))

/-- The head `t` gives the turn up and goes on at `p`. -/
def finish (t : Tid) (p : Pc) (s : Sys) : Sys := (s.mapRt (·.mapSched Sched.putTurn)).setPc t p

/-- The head `t` parks on `ch` at `k`. -/
def parkAt (t : Tid) (ch : Chan) (dl : Option Nat) (k : Resume) (s : Sys) : Sys :=
  (s.mapRt (·.mapSched (·.park t ch dl))).setPc t (.parked k)

section Fields

variable {s : Sys} {t : Tid} {p : Pc}

@[simp] theorem mapRt_rt (f : Rt → Rt) : (s.mapRt f).rt = f s.rt := rfl
@[simp] theorem mapRt_pc (f : Rt → Rt) : (s.mapRt f).pc = s.pc := rfl
@[simp] theorem setPc_rt : (s.setPc t p).rt = s.rt := rfl
@[simp] theorem setPc_pc : (s.setPc t p).pc = Function.update s.pc t p := rfl
@[simp] theorem signalOn_rt (ch : Chan) (all : Bool) :
    (s.signalOn ch all).rt = s.rt.mapSched (·.signal ch all) := rfl
@[simp] theorem signalOn_pc (ch : Chan) (all : Bool) : (s.signalOn ch all).pc = s.pc := rfl
@[simp] theorem finish_rt : (s.finish t p).rt = s.rt.mapSched Sched.putTurn := rfl
@[simp] theorem finish_pc : (s.finish t p).pc = Function.update s.pc t p := rfl
@[simp] theorem parkAt_rt (ch : Chan) (dl : Option Nat) (k : Resume) :
    (s.parkAt t ch dl k).rt = s.rt.mapSched (·.park t ch dl) := rfl
@[simp] theorem parkAt_pc (ch : Chan) (dl : Option Nat) (k : Resume) :
    (s.parkAt t ch dl k).pc = Function.update s.pc t (.parked k) := rfl

end Fields

/-- Thread `t` runs `m`. -/
def run (s : Sys) (t : Tid) (m : M Pc) : Sys :=
  ⟨(m s.rt).2.1, Function.update s.pc t (m s.rt).1⟩

/-- The same process up to the turn count and the log. -/
def Sim (s s' : Sys) : Prop := s.rt.untimed = s'.rt.untimed ∧ s.pc = s'.pc

/-- Thread `t` holds the turn. -/
def Head (s : Sys) (t : Tid) : Prop := s.rt.sched.runq.head? = some t

end Sys

/-- The free units after a mutex changes hands. -/
theorem Rt.avail_setMutex (r : Rt) (mu : Nat) (v : Option Tid) (c : Chan) :
    (r.setMutex mu v).avail c = if c = .mutex mu then (if v = none then 1 else 0) else r.avail c := by
  cases c <;> simp [Rt.avail, Function.update_apply]
  split_ifs <;> simp_all

/-- The free units after a semaphore's value changes. -/
theorem Rt.avail_setSem (r : Rt) (sm v : Nat) (c : Chan) :
    (r.setSem sm v).avail c = if c = .sem sm then v else r.avail c := by
  cases c <;> simp [Rt.avail, Function.update_apply]

@[simp] theorem Rt.avail_mapSched (r : Rt) (f : Sched → Sched) (c : Chan) :
    (r.mapSched f).avail c = r.avail c := rfl

theorem Rt.avail_mutex_le (r : Rt) (mu : Nat) : r.avail (.mutex mu) ≤ 1 := by
  simp only [Rt.avail]; split <;> omega

/-! ### The invariant -/

/-- The shape of a state of a lock program: the run queue and the waiters have no duplicates and
are disjoint, each waiter is parked at a wait on its channel, and every thread is at a point of a
lock wrapper. -/
structure Sys.WF (s : Sys) : Prop where
  runq_nodup : s.rt.sched.runq.Nodup
  waitq_nodup : (s.rt.sched.waitq.map (·.tid)).Nodup
  waiter_off : ∀ w ∈ s.rt.sched.waitq, w.tid ∉ s.rt.sched.runq
  waiter_pc : ∀ w ∈ s.rt.sched.waitq, ∃ k, s.pc w.tid = .parked k ∧ k.chan = w.chan
  pc_lock : ∀ u, (s.pc u).isLock

/-- The invariant of lock programs. -/
structure Sys.LockInv (s : Sys) : Prop where
  wf : s.WF
  nlw : s.NoLostWakeup

namespace Sys

variable {s : Sys} {t u : Tid}

theorem Head.eq_cons (h : s.Head t) : ∃ rest, s.rt.sched.runq = t :: rest :=
  List.head?_eq_some_iff.mp h

theorem WF.not_waiter (hs : s.WF) (ht : t ∈ s.rt.sched.runq) {w : Waiter}
    (hw : w ∈ s.rt.sched.waitq) : w.tid ≠ t :=
  fun e => hs.waiter_off w hw (e ▸ ht)

theorem retryChan_congr {s' : Sys} (hp : s'.pc u = s.pc u)
    (hw : s'.rt.sched.wakeRes u = s.rt.sched.wakeRes u) : s'.retryChan u = s.retryChan u := by
  simp only [retryChan, hp, hw]

theorem retryChan_eq_none (h : (s.pc u).isParked = false) : s.retryChan u = none := by
  unfold retryChan; split <;> simp_all [Pc.isParked]

/-- A thread yet to retry `ch` counts towards `pend ch`. -/
theorem one_le_pend (ht : t ∈ s.rt.sched.runq) {ch : Chan} (h : s.retryChan t = some ch) :
    1 ≤ s.pend ch :=
  List.countP_pos_iff.mpr ⟨t, ht, by simpa using h⟩

theorem countP_retry_congr {s' : Sys} {l : List Tid} (h : ∀ u ∈ l, s'.retryChan u = s.retryChan u)
    (ch : Chan) : l.countP (fun u => s'.retryChan u = some ch) =
      l.countP (fun u => s.retryChan u = some ch) :=
  List.countP_congr fun u hu => by rw [h u hu]

theorem pend_congr {s' : Sys} (hq : s'.rt.sched.runq = s.rt.sched.runq)
    (h : ∀ u ∈ s.rt.sched.runq, s'.retryChan u = s.retryChan u) (ch : Chan) :
    s'.pend ch = s.pend ch := by
  unfold pend; rw [hq]; exact countP_retry_congr h ch

end Sys

/-! ### How each move changes the queues -/

namespace Sched

theorem putTurn_perm (s : Sched) : s.putTurn.runq.Perm s.runq := by
  unfold putTurn; split <;> simp_all

theorem signalled_sublist (s : Sched) (ch : Chan) (all : Bool) :
    (s.signalled ch all).Sublist s.waitq := by
  unfold signalled; split
  · exact List.filter_sublist _
  · cases h : s.waitq.find? (·.chan = ch) with
    | none => simp
    | some w => simpa using List.mem_of_find?_eq_some h

theorem waiting_wake {s : Sched} {ws : List Waiter} {r : WaitRes} {ch : Chan}
    (h : (s.wake ws r).Waiting ch) : s.Waiting ch := by
  obtain ⟨w, hw, hc⟩ := h
  exact ⟨w, (List.mem_filter.mp hw).1, hc⟩

theorem waiting_park {s : Sched} {t : Tid} {ch c : Chan} {dl : Option Nat} :
    (s.park t ch dl).Waiting c ↔ s.Waiting c ∨ c = ch := by
  simp only [Waiting, park, List.mem_append, List.mem_singleton]
  constructor
  · rintro ⟨w, hw | rfl, rfl⟩
    exacts [.inl ⟨w, hw, rfl⟩, .inr rfl]
  · rintro (⟨w, hw, rfl⟩ | rfl)
    exacts [⟨w, .inl hw, rfl⟩, ⟨_, .inr rfl, rfl⟩]

end Sched

namespace Sys

variable {s : Sys} {t : Tid}

theorem signalOn_eq (ch : Chan) (all : Bool) :
    s.signalOn ch all = s.mapRt (·.mapSched (·.wake (s.rt.sched.signalled ch all) .ok)) := rfl

theorem promote_eq (w : Waiter) : s.promote w = s.mapRt (·.mapSched (·.wake [w] .timedout)) := rfl

section Pend

/-- A move of a thread between points other than waits leaves `pend` alone. -/
theorem pend_setPc {p : Pc} (ht : (s.pc t).isParked = false) (hp : p.isParked = false)
    (ch : Chan) : (s.setPc t p).pend ch = s.pend ch := by
  refine pend_congr (by rfl) (fun u _ => ?_) ch
  by_cases hu : u = t
  · subst hu
    rw [retryChan_eq_none ht, retryChan_eq_none (by simpa using hp)]
  · exact retryChan_congr (by simp [hu]) rfl

/-- The head giving up the turn leaves the run queue's count of `ch` less its own. -/
theorem pend_finish (hh : s.Head t) (hn : s.rt.sched.runq.Nodup) {p : Pc}
    (hp : p.isParked = false) (ch : Chan) :
    (s.finish t p).pend ch + (if s.retryChan t = some ch then 1 else 0) = s.pend ch := by
  obtain ⟨rest, hq⟩ := hh.eq_cons
  have ht : t ∉ rest := (List.nodup_cons.mp (hq ▸ hn)).1
  have hr : ∀ u ∈ rest, (s.finish t p).retryChan u = s.retryChan u := fun u hu =>
    retryChan_congr (by simp [ne_of_mem_of_not_mem hu ht]) (by simp)
  have hl : (s.finish t p).retryChan t = none := retryChan_eq_none (by simpa using hp)
  have hq' : (s.finish t p).rt.sched.runq = rest ++ [t] := by
    simp [Sched.putTurn, hq]
  unfold pend
  rw [hq', List.countP_append, List.countP_singleton, hq, List.countP_cons, countP_retry_congr hr]
  simp [hl]

/-- The head parking leaves the run queue's count of `ch` less its own. -/
theorem pend_parkAt (hh : s.Head t) (hn : s.rt.sched.runq.Nodup) (ch : Chan) (dl : Option Nat)
    (k : Resume) (c : Chan) :
    (s.parkAt t ch dl k).pend c + (if s.retryChan t = some c then 1 else 0) = s.pend c := by
  obtain ⟨rest, hq⟩ := hh.eq_cons
  have ht : t ∉ rest := (List.nodup_cons.mp (hq ▸ hn)).1
  have hr : ∀ u ∈ rest, (s.parkAt t ch dl k).retryChan u = s.retryChan u := fun u hu =>
    retryChan_congr (by simp [ne_of_mem_of_not_mem hu ht]) rfl
  have hq' : (s.parkAt t ch dl k).rt.sched.runq = rest := by
    simp [Sched.park, hq]
  unfold pend
  rw [hq', hq, List.countP_cons, countP_retry_congr hr]
  simp

/-- Waking waiters appends them to the run queue and changes no other thread's count. -/
theorem pend_wake (hs : s.WF) {ws : List Waiter} (hws : ws.Sublist s.rt.sched.waitq)
    (r : WaitRes) (ch : Chan) :
    (s.mapRt (·.mapSched (·.wake ws r))).pend ch = s.pend ch +
      (ws.map (·.tid)).countP fun u => (s.mapRt (·.mapSched (·.wake ws r))).retryChan u = some ch := by
  have hr : ∀ u ∈ s.rt.sched.runq,
      (s.mapRt (·.mapSched (·.wake ws r))).retryChan u = s.retryChan u := fun u hu =>
    retryChan_congr rfl (by
      simp only [mapRt_rt, Rt.mapSched_sched, Sched.wake, List.mem_map, ite_eq_right_iff]
      rintro ⟨w, hw, rfl⟩
      exact absurd hu (hs.waiter_off w (hws.subset hw)))
  unfold pend
  rw [show (s.mapRt (·.mapSched (·.wake ws r))).rt.sched.runq =
    s.rt.sched.runq ++ ws.map (·.tid) from rfl, List.countP_append, countP_retry_congr hr]

theorem pend_le_wake (hs : s.WF) {ws : List Waiter} (hws : ws.Sublist s.rt.sched.waitq)
    (r : WaitRes) (ch : Chan) : s.pend ch ≤ (s.mapRt (·.mapSched (·.wake ws r))).pend ch := by
  rw [pend_wake hs hws]; omega

/-- `signal(ch, false)` on a mutex or a semaphore with a waiter adds the waiter it releases to
the threads yet to retry `ch`. -/
theorem pend_signal_succ (hs : s.WF) {ch : Chan} (hw : s.rt.sched.Waiting ch)
    (hl : ∀ cv, ch ≠ .cond cv) : s.pend ch + 1 ≤ (s.signalOn ch false).pend ch := by
  obtain ⟨w, hf⟩ : ∃ w, s.rt.sched.waitq.find? (·.chan = ch) = some w := by
    obtain ⟨w, hw, hc⟩ := hw
    exact Option.isSome_iff_exists.mp (List.find?_isSome.mpr ⟨w, hw, by simpa using hc⟩)
  have hwq := List.mem_of_find?_eq_some hf
  have hwc : w.chan = ch := by simpa using List.find?_some hf
  obtain ⟨k, hk, hkc⟩ := hs.waiter_pc w hwq
  have hret : k.retry = some ch := by
    rcases Resume.retry_of_isLock (by simpa [hk, Pc.isLock] using hs.pc_lock w.tid) with h | ⟨cv, h⟩
    · rw [h, hkc, hwc]
    · rw [hkc, hwc] at h; exact absurd h (hl cv)
  have hsig : s.rt.sched.signalled ch false = [w] := by simp [Sched.signalled, hf]
  rw [signalOn_eq, pend_wake hs (Sched.signalled_sublist _ _ _), hsig]
  simp [retryChan, Sched.wake, hk, hret]

end Pend

/-! ### The shape is kept -/

section Shape

theorem WF.setPc (hs : s.WF) {p : Pc} (ht : ∀ w ∈ s.rt.sched.waitq, w.tid ≠ t) (hl : p.isLock) :
    (s.setPc t p).WF where
  runq_nodup := hs.runq_nodup
  waitq_nodup := hs.waitq_nodup
  waiter_off := hs.waiter_off
  waiter_pc w hw := by simpa [ht w hw] using hs.waiter_pc w hw
  pc_lock u := by
    by_cases hu : u = t
    · simpa [hu] using hl
    · simpa [hu] using hs.pc_lock u

/-- A thread not at a wait is no waiter. -/
theorem WF.not_waiter_of (hs : s.WF) (ht : (s.pc t).isParked = false) :
    ∀ w ∈ s.rt.sched.waitq, w.tid ≠ t := fun w hw e => by
  obtain ⟨k, hk, -⟩ := hs.waiter_pc w hw
  rw [e] at hk; simp [hk, Pc.isParked] at ht

theorem WF.putTurn (hs : s.WF) : (s.mapRt (·.mapSched Sched.putTurn)).WF where
  runq_nodup := (Sched.putTurn_perm _).nodup_iff.mpr hs.runq_nodup
  waitq_nodup := by simpa using hs.waitq_nodup
  waiter_off w hw := by
    simp only [mapRt_rt, Rt.mapSched_sched, Sched.putTurn_waitq] at hw ⊢
    rw [(Sched.putTurn_perm _).mem_iff]; exact hs.waiter_off w hw
  waiter_pc w hw := hs.waiter_pc w (by simpa using hw)
  pc_lock := hs.pc_lock

theorem WF.finish (hs : s.WF) (hh : s.Head t) {p : Pc} (hl : p.isLock) : (s.finish t p).WF := by
  obtain ⟨rest, hq⟩ := hh.eq_cons
  exact hs.putTurn.setPc (fun w hw => hs.not_waiter (by simp [hq])
    (by simpa using hw)) hl

theorem WF.parkAt (hs : s.WF) (hh : s.Head t) {ch : Chan} {k : Resume} (hk : k.chan = ch)
    (hl : k.isLock) (dl : Option Nat) : (s.parkAt t ch dl k).WF := by
  obtain ⟨rest, hq⟩ := hh.eq_cons
  have ht : t ∈ s.rt.sched.runq := by simp [hq]
  refine ⟨hs.runq_nodup.erase t, ?_, ?_, ?_, ?_⟩
  · simp only [parkAt_rt, Rt.mapSched_sched, Sched.park, List.map_append, List.map_singleton]
    exact hs.waitq_nodup.append (List.nodup_singleton t) fun u hu hu' => by
      obtain ⟨w, hw, rfl⟩ := List.mem_map.mp hu
      exact hs.not_waiter ht hw (List.mem_singleton.mp hu')
  · simp only [parkAt_rt, Rt.mapSched_sched, Sched.park, List.mem_append, List.mem_singleton]
    rintro w (hw | rfl)
    · exact fun h => hs.waiter_off w hw (List.mem_of_mem_erase h)
    · exact hs.runq_nodup.not_mem_erase
  · simp only [parkAt_rt, Rt.mapSched_sched, Sched.park, List.mem_append, List.mem_singleton]
    rintro w (hw | rfl)
    · simpa [hs.not_waiter ht hw] using hs.waiter_pc w hw
    · simpa using hk
  · intro u
    by_cases hu : u = t
    · simpa [hu, Pc.isLock] using hl
    · simpa [hu] using hs.pc_lock u

theorem WF.wake (hs : s.WF) {ws : List Waiter} (hws : ws.Sublist s.rt.sched.waitq)
    (r : WaitRes) : (s.mapRt (·.mapSched (·.wake ws r))).WF := by
  have hoff : ∀ u ∈ ws.map (·.tid), u ∉ s.rt.sched.runq := fun u hu => by
    obtain ⟨w, hw, rfl⟩ := List.mem_map.mp hu
    exact hs.waiter_off w (hws.subset hw)
  refine ⟨?_, ?_, ?_, ?_, hs.pc_lock⟩
  · exact hs.runq_nodup.append ((hws.map _).nodup hs.waitq_nodup) fun u hu hu' => hoff u hu' hu
  · exact ((List.filter_sublist _).map _).nodup hs.waitq_nodup
  · simp only [mapRt_rt, Rt.mapSched_sched, Sched.wake, List.mem_filter, decide_eq_true_eq,
      List.mem_append, not_or]
    rintro w ⟨hw, hn⟩
    refine ⟨hs.waiter_off w hw, fun hm => hn ?_⟩
    obtain ⟨w', hw', he⟩ := List.mem_map.mp hm
    rwa [← List.inj_on_of_nodup_map hs.waitq_nodup (hws.subset hw') hw he]
  · intro w hw
    exact hs.waiter_pc w (List.mem_filter.mp hw).1

end Shape

/-! ### No lost wakeup is kept -/

section Balance

theorem mapRt_lock {f : Rt → Rt} (hf : (f s.rt).sched = s.rt.sched) :
    (s.mapRt f).pend = s.pend ∧ ((s.mapRt f).WF ↔ s.WF) := by
  obtain ⟨r, pc⟩ := s
  simp only [mapRt] at hf ⊢
  constructor
  · funext ch; simp only [pend, retryChan, hf]
  · constructor <;> rintro ⟨h1, h2, h3, h4, h5⟩ <;> exact ⟨by simpa [hf] using h1,
      by simpa [hf] using h2, by simpa [hf] using h3, by simpa [hf] using h4, h5⟩

variable (h : s.NoLostWakeup) (hs : s.WF)
include h

theorem NoLostWakeup.setPc {p : Pc} (ht : (s.pc t).isParked = false) (hp : p.isParked = false) :
    (s.setPc t p).NoLostWakeup := fun ch hw => by
  rw [pend_setPc ht hp]; exact h ch hw

theorem NoLostWakeup.finish (hh : s.Head t) (hn : s.rt.sched.runq.Nodup) (hρ : s.retryChan t = none)
    {p : Pc} (hp : p.isParked = false) : (s.finish t p).NoLostWakeup := fun ch hw => by
  have e := pend_finish hh hn hp ch
  simp only [hρ, reduceCtorEq, if_false, add_zero] at e
  rw [e]; exact h ch (by simpa [Sched.Waiting] using hw)

theorem NoLostWakeup.parkAt (hh : s.Head t) (hn : s.rt.sched.runq.Nodup) {ch : Chan}
    (h0 : s.rt.avail ch = 0) (hρ : ∀ c, s.retryChan t = some c → c = ch) (dl : Option Nat)
    (k : Resume) : (s.parkAt t ch dl k).NoLostWakeup := fun c hw => by
  by_cases hc : c = ch
  · subst hc; exact h0.trans_le (Nat.zero_le _)
  · have e := pend_parkAt hh hn ch dl k c
    rw [if_neg fun h' => hc (hρ c h'), add_zero] at e
    rw [e]; exact h c ((Sched.waiting_park.mp hw).resolve_right hc)

include hs

theorem NoLostWakeup.wake {ws : List Waiter} (hws : ws.Sublist s.rt.sched.waitq) (r : WaitRes) :
    (s.mapRt (·.mapSched (·.wake ws r))).NoLostWakeup := fun c hw =>
  (h c (Sched.waiting_wake hw)).trans (pend_le_wake hs hws r c)

/-- A lock's release raises its free units by `d` and its `signal` releases a waiter: every
channel is as well off as before. -/
theorem NoLostWakeup.signalAfter {f : Rt → Rt} (hf : (f s.rt).sched = s.rt.sched) {ch : Chan}
    (hch : ∀ cv, ch ≠ .cond cv) (hd : ∀ c, c ≠ ch → (f s.rt).avail c = s.rt.avail c)
    (hch' : (f s.rt).avail ch ≤ s.rt.avail ch + 1) :
    ((s.mapRt f).signalOn ch false).NoLostWakeup := fun c hw => by
  obtain ⟨hp1, hw1⟩ := mapRt_lock hf
  have hs1 := hw1.mpr hs
  have hwc : s.rt.sched.Waiting c := by simpa [hf] using Sched.waiting_wake hw
  have hle := pend_le_wake hs1 (Sched.signalled_sublist _ ch false) .ok c
  rw [← signalOn_eq, hp1] at hle
  have := h c hwc
  rw [show ((s.mapRt f).signalOn ch false).rt.avail c = (f s.rt).avail c from rfl]
  by_cases hc : c = ch
  · subst hc
    have := pend_signal_succ hs1 (by simpa [hf] using hwc) hch
    rw [hp1] at this
    omega
  · rw [hd c hc]; exact this.trans hle

/-- `pthread_mutex_unlock` and the `signal` that follows it. -/
theorem NoLostWakeup.release (mu : Nat) :
    ((s.mapRt (·.setMutex mu none)).signalOn (.mutex mu) false).NoLostWakeup :=
  h.signalAfter hs rfl (by simp) (fun c hc => by simp [Rt.avail_setMutex, hc])
    ((Rt.avail_mutex_le _ mu).trans (Nat.le_add_left _ _))

/-- `sem_post` and the `signal` that follows it. -/
theorem NoLostWakeup.post (sm : Nat) :
    ((s.mapRt (·.setSem sm (s.rt.sem sm + 1))).signalOn (.sem sm) false).NoLostWakeup :=
  h.signalAfter hs rfl (by simp) (fun c hc => by simp [Rt.avail_setSem, hc])
    (by simp [Rt.avail_setSem, Rt.avail])

/-- The head takes units of a lock it alone may be yet to retry, and gives up the turn. -/
theorem NoLostWakeup.takeFinish (hh : s.Head t) {f : Rt → Rt} (hf : (f s.rt).sched = s.rt.sched)
    {ch : Chan} (hρ : ∀ c, s.retryChan t = some c → c = ch)
    (hd : ∀ c, c ≠ ch → (f s.rt).avail c = s.rt.avail c)
    (hch : s.rt.sched.Waiting ch → (f s.rt).avail ch + 1 ≤ s.rt.avail ch ∨ (f s.rt).avail ch = 0)
    {p : Pc} (hp : p.isParked = false) : ((s.mapRt f).finish t p).NoLostWakeup := fun c hw => by
  obtain ⟨hp1, hw1⟩ := mapRt_lock hf
  have hh1 : (s.mapRt f).Head t := by simpa [Head, hf] using hh
  have e := pend_finish hh1 (hw1.mpr hs).runq_nodup hp c
  rw [hp1, show (s.mapRt f).retryChan t = s.retryChan t from
    retryChan_congr rfl (by simp [hf])] at e
  have hwc : s.rt.sched.Waiting c := by simpa [Sched.Waiting, hf] using hw
  have := h c hwc
  simp only [finish_rt, mapRt_rt, Rt.avail_mapSched]
  by_cases hc : c = ch
  · subst hc
    rcases hch hwc with hlt | h0
    · split_ifs at e <;> omega
    · omega
  · rw [if_neg fun h' => hc (hρ c h'), add_zero] at e
    rw [e, hd c hc]; exact this

/-- The head takes a free mutex and gives up the turn. -/
theorem NoLostWakeup.acquire (hh : s.Head t) {mu : Nat}
    (hρ : ∀ c, s.retryChan t = some c → c = .mutex mu) {p : Pc} (hp : p.isParked = false) :
    ((s.mapRt (·.setMutex mu (some t))).finish t p).NoLostWakeup :=
  h.takeFinish hs hh rfl hρ (fun c hc => by simp [Rt.avail_setMutex, hc])
    (fun _ => .inr (by simp [Rt.avail_setMutex])) hp

/-- The head takes a unit of a semaphore with units and gives up the turn. -/
theorem NoLostWakeup.take (hh : s.Head t) {sm : Nat} (hv : 0 < s.rt.sem sm)
    (hρ : ∀ c, s.retryChan t = some c → c = .sem sm) {p : Pc} (hp : p.isParked = false) :
    ((s.mapRt (·.setSem sm (s.rt.sem sm - 1))).finish t p).NoLostWakeup :=
  h.takeFinish hs hh rfl hρ (fun c hc => by simp [Rt.avail_setSem, hc])
    (fun _ => .inl (by simp [Rt.avail_setSem, Rt.avail]; omega)) hp

end Balance

theorem Head.signalOn (hh : s.Head t) (ch : Chan) (all : Bool) : (s.signalOn ch all).Head t := by
  obtain ⟨rest, hq⟩ := hh.eq_cons
  simp [Head, Sched.signal, Sched.wake, hq]

end Sys

/-! ### The moves of a lock program -/

open Sys in
/-- What one move of a lock program does to the process. The acting thread `t` holds the turn,
except in a move between points. The moves that take a lock, or park on one, are made by a thread
that is yet to retry that lock or by one that is yet to retry none. -/
inductive LockTx : Sys → Sys → Prop
  /-- A move between points that are not waits, the state unchanged: a call, a wrapper's
  entry, a native call, the end of the process. -/
  | move {s : Sys} {t : Tid} {p : Pc} : (s.pc t).isParked = false → p.isParked = false →
      p.isLock → LockTx s (s.setPc t p)
  /-- The head gives up the turn without taking a lock. -/
  | finish {s : Sys} {t : Tid} {c : Option Call} {v : Int} : s.Head t → s.retryChan t = none →
      LockTx s (s.finish t (.ret c v))
  /-- The head takes a free mutex and gives up the turn. -/
  | acquire {s : Sys} {t : Tid} {mu : Nat} {c : Option Call} {v : Int} : s.Head t →
      s.rt.mutex mu = none → (∀ ch, s.retryChan t = some ch → ch = .mutex mu) →
      LockTx s ((s.mapRt (·.setMutex mu (some t))).finish t (.ret c v))
  /-- The head takes a unit of a semaphore and gives up the turn. -/
  | take {s : Sys} {t : Tid} {sm : Nat} {c : Option Call} {v : Int} : s.Head t →
      0 < s.rt.sem sm → (∀ ch, s.retryChan t = some ch → ch = .sem sm) →
      LockTx s ((s.mapRt (·.setSem sm (s.rt.sem sm - 1))).finish t (.ret c v))
  /-- The head parks on a lock with no free unit. -/
  | park {s : Sys} {t : Tid} {ch : Chan} {dl : Option Nat} {k : Resume} : s.Head t →
      s.rt.avail ch = 0 → k.chan = ch → k.isLock → k.retry = some ch →
      (∀ c, s.retryChan t = some c → c = ch) →
      LockTx s (s.parkAt t ch dl k)
  /-- The head unlocks a mutex, signals it, and gives up the turn. -/
  | release {s : Sys} {t : Tid} {mu : Nat} {c : Option Call} {v : Int} : s.Head t →
      (s.pc t).isParked = false →
      LockTx s (((s.mapRt (·.setMutex mu none)).signalOn (.mutex mu) false).finish t (.ret c v))
  /-- The head posts a semaphore, signals it, and gives up the turn. -/
  | post {s : Sys} {t : Tid} {sm : Nat} {c : Option Call} {v : Int} : s.Head t →
      (s.pc t).isParked = false → LockTx s
        (((s.mapRt (·.setSem sm (s.rt.sem sm + 1))).signalOn (.sem sm) false).finish t (.ret c v))
  /-- The head, in `pthread_cond_signal` or `pthread_cond_broadcast`, signals the condition
  variable and gives up the turn. -/
  | notify {s : Sys} {t : Tid} {cv : Nat} {all : Bool} {c : Option Call} {v : Int} : s.Head t →
      s.pc t = .get (.body (if all then .pthreadCondBroadcast cv else .pthreadCondSignal cv)) →
      LockTx s ((s.signalOn (.cond cv) all).finish t (.ret c v))
  /-- The head, in the code of a wrapper, unlocks a mutex, signals it, and parks on a condition
  variable after the first half of its wait. -/
  | condWait {s : Sys} {t : Tid} {cv mu : Nat} {dl : Option Nat} {k : Resume} : s.Head t →
      (s.pc t).isParked = false → k.chan = .cond cv → k.isLock → (∃ c, s.pc t = .get (.body c)) →
      LockTx s
        (((s.mapRt (·.setMutex mu none)).signalOn (.mutex mu) false).parkAt t (.cond cv) dl k)
  /-- The head unlocks a mutex, signals it, and ends the process. -/
  | condAbort {s : Sys} {t : Tid} {mu : Nat} : (s.pc t).isParked = false →
      LockTx s (((s.mapRt (·.setMutex mu none)).signalOn (.mutex mu) false).setPc t .aborted)
  /-- The scheduler promotes a waiter whose deadline has passed, or the first waiter when the run
  queue is empty. -/
  | promote {s : Sys} {w : Waiter} : s.rt.sched.Expired w ∨ s.rt.sched.Deadlocked w →
      LockTx s (s.promote w)

namespace LockTx

open Sys

variable {s s' : Sys}

/-- After a release and its signal the head still holds the turn and is yet to retry nothing. -/
theorem released (hs : s.LockInv) {t : Tid} (hh : s.Head t) (ht : (s.pc t).isParked = false)
    (mu : Nat) : let s2 := (s.mapRt (·.setMutex mu none)).signalOn (.mutex mu) false
    s2.LockInv ∧ s2.Head t ∧ s2.retryChan t = none ∧ (s2.pc t).isParked = false :=
  ⟨⟨((mapRt_lock rfl).2.mpr hs.wf).wake (Sched.signalled_sublist _ _ _) .ok,
    hs.nlw.release hs.wf mu⟩, hh.signalOn _ _, retryChan_eq_none ht, ht⟩

/-- Every move of a lock program keeps the invariant. -/
theorem inv (hs : s.LockInv) (h : LockTx s s') : s'.LockInv := by
  obtain ⟨hw, hn⟩ := hs
  cases h with
  | move ht hp hl => exact ⟨hw.setPc (hw.not_waiter_of ht) hl, hn.setPc ht hp⟩
  | finish hh hρ => exact ⟨hw.finish hh rfl, hn.finish hh hw.runq_nodup hρ rfl⟩
  | @acquire t mu _ _ hh _ hρ =>
    have hw1 : (s.mapRt (·.setMutex mu (some t))).WF := (mapRt_lock rfl).2.mpr hw
    exact ⟨hw1.finish hh rfl, hn.acquire hw hh hρ rfl⟩
  | @take t sm _ _ hh hv hρ =>
    have hw1 : (s.mapRt (·.setSem sm (s.rt.sem sm - 1))).WF := (mapRt_lock rfl).2.mpr hw
    exact ⟨hw1.finish hh rfl, hn.take hw hh hv hρ rfl⟩
  | park hh h0 hk hl _ hρ => exact ⟨hw.parkAt hh hk hl _, hn.parkAt hh hw.runq_nodup h0 hρ _ _⟩
  | release hh ht =>
    obtain ⟨⟨hw2, hn2⟩, hh2, hρ2, -⟩ := released ⟨hw, hn⟩ hh ht _
    exact ⟨hw2.finish hh2 rfl, hn2.finish hh2 hw2.runq_nodup hρ2 rfl⟩
  | @post _ sm _ _ hh ht =>
    have hw1 : (s.mapRt (·.setSem sm (s.rt.sem sm + 1))).WF := (mapRt_lock rfl).2.mpr hw
    have hw2 := hw1.wake (Sched.signalled_sublist _ (.sem sm) false) .ok
    have hh2 := hh.signalOn (.sem sm) false
    exact ⟨hw2.finish hh2 rfl,
      (hn.post hw _).finish hh2 hw2.runq_nodup (retryChan_eq_none ht) rfl⟩
  | @notify _ cv all _ _ hh hp =>
    have hsub := Sched.signalled_sublist s.rt.sched (.cond cv) all
    have hw2 := hw.wake hsub .ok
    exact ⟨hw2.finish (hh.signalOn _ _) rfl, (hn.wake hw hsub .ok).finish (hh.signalOn _ _)
      hw2.runq_nodup (retryChan_eq_none (show (s.pc _).isParked = false by rw [hp]; rfl)) rfl⟩
  | condWait hh ht hk hl _ =>
    obtain ⟨⟨hw2, hn2⟩, hh2, hρ2, -⟩ := released ⟨hw, hn⟩ hh ht _
    exact ⟨hw2.parkAt hh2 hk hl _,
      hn2.parkAt hh2 hw2.runq_nodup (by rfl) (fun c h' => by simp [hρ2] at h') _ _⟩
  | @condAbort _ mu ht =>
    have hw1 : (s.mapRt (·.setMutex mu none)).WF := (mapRt_lock rfl).2.mpr hw
    have hw2 := hw1.wake (Sched.signalled_sublist _ (.mutex mu) false) .ok
    exact ⟨hw2.setPc (hw2.not_waiter_of ht) rfl, (hn.release hw mu).setPc ht rfl⟩
  | promote hm =>
    have hsub := List.singleton_sublist.mpr (hm.elim (·.1) (·.2.1))
    exact ⟨hw.wake hsub .timedout, hn.wake hw hsub .timedout⟩

end LockTx

/-! ### Up to the turn count and the log -/

namespace Rt

theorem untimed_putTurn (r : Rt) :
    (r.mapSched Sched.putTurn).untimed = (r.untimed.mapSched Sched.putTurn).untimed := by
  simp only [untimed, mapSched, Sched.putTurn]; split <;> rfl

theorem untimed_signal (ch : Chan) (all : Bool) (r : Rt) :
    (r.mapSched (·.signal ch all)).untimed = (r.untimed.mapSched (·.signal ch all)).untimed := rfl

theorem untimed_park (t : Tid) (ch : Chan) (dl : Option Nat) (r : Rt) :
    (r.mapSched (·.park t ch dl)).untimed = (r.untimed.mapSched (·.park t ch dl)).untimed := rfl

theorem untimed_congr {r r' : Rt} (h : r.untimed = r'.untimed) (f : Sched → Sched)
    (hf : ∀ r : Rt, (r.mapSched f).untimed = (r.untimed.mapSched f).untimed) :
    (r.mapSched f).untimed = (r'.mapSched f).untimed := by
  rw [hf, h, ← hf]

end Rt

variable (o : Options) (t : Tid)

/-- `SCHED_PUT_TURN` gives the turn up and goes on at `next`; it also counts a turn and may log. -/
theorem schedPutTurn_untimed (op : SyncOp) (next : Pc) (r : Rt) :
    (schedPutTurn o t op next r).1 = next ∧
      (schedPutTurn o t op next r).2.1.untimed = (r.mapSched Sched.putTurn).untimed := by
  refine ⟨by simp only [schedPutTurn]; split <;> rfl, ?_⟩
  simp only [schedPutTurn]
  split <;> simp only [incTurnCount, getTurnCount, logSync, putTurn, M.run_bind,
    run_call, Ev.apply, Native.apply, M.run_rd, M.run_pure] <;> rw [Rt.untimed_putTurn, Rt.untimed_putTurn r] <;> rfl

/-- `SCHED_INC_TURN` counts a turn and may log. -/
theorem schedIncTurn_untimed (op : SyncOp) (r : Rt) :
    (schedIncTurn o t op r).2.1.untimed = r.untimed := by
  simp only [schedIncTurn]; split <;> rfl

/-! `SCHED_PUT_TURN` and `SCHED_INC_TURN` leave the tables alone. -/

@[simp] theorem schedPutTurn_barriers (op : SyncOp) (next : Pc) (r : Rt) :
    (schedPutTurn o t op next r).2.1.barriers = r.barriers :=
  (congrArg Rt.barriers (schedPutTurn_untimed o t op next r).2 :)

@[simp] theorem schedPutTurn_lineups (op : SyncOp) (next : Pc) (r : Rt) :
    (schedPutTurn o t op next r).2.1.lineups = r.lineups :=
  (congrArg Rt.lineups (schedPutTurn_untimed o t op next r).2 :)

/-! They leave the thread ids alone. -/

@[simp] theorem schedPutTurn_pending (op : SyncOp) (next : Pc) (r : Rt) :
    (schedPutTurn o t op next r).2.1.pending = r.pending :=
  (congrArg Rt.pending (schedPutTurn_untimed o t op next r).2 :)

@[simp] theorem schedPutTurn_nthread (op : SyncOp) (next : Pc) (r : Rt) :
    (schedPutTurn o t op next r).2.1.sched.nthread = r.sched.nthread :=
  (congrArg (·.sched.nthread) (schedPutTurn_untimed o t op next r).2).trans (Sched.putTurn_nthread _)

@[simp] theorem schedIncTurn_barriers (op : SyncOp) (r : Rt) :
    (schedIncTurn o t op r).2.1.barriers = r.barriers :=
  (congrArg Rt.barriers (schedIncTurn_untimed o t op r) :)

@[simp] theorem schedIncTurn_lineups (op : SyncOp) (r : Rt) :
    (schedIncTurn o t op r).2.1.lineups = r.lineups :=
  (congrArg Rt.lineups (schedIncTurn_untimed o t op r) :)

theorem afterLock_untimed (c : Call) (saved ret : Int) (r : Rt) :
    ∃ c' v, (afterLock o t c saved ret r).1 = .ret c' v ∧
      (afterLock o t c saved ret r).2.1.untimed = (r.mapSched Sched.putTurn).untimed := by
  unfold afterLock
  split <;> exact ⟨_, _, schedPutTurn_untimed o t _ _ r⟩


/-! ### The code makes the moves of a lock program -/

section Refine

variable {s : Sys}

theorem Sys.run_bind_of_rt {β : Type} {m : M β} {f : β → M Pc} (hm : (m s.rt).2.1 = s.rt) :
    s.run t (m >>= f) = s.run t (f (m s.rt).1) := by
  simp only [Sys.run, M.run_bind, hm]

theorem finish_sim (s' : Sys) (op : SyncOp) (next : Pc) :
    (s'.finish t next).Sim ⟨(schedPutTurn o t op next s'.rt).2.1,
      Function.update s'.pc t (schedPutTurn o t op next s'.rt).1⟩ :=
  ⟨(schedPutTurn_untimed o t op next s'.rt).2.symm, by rw [(schedPutTurn_untimed o t op next s'.rt).1]; rfl⟩

/-- `_S::wait` after a `SCHED_INC_TURN` and the signals made with the turn. -/
theorem parkAt_sim (s' : Sys) {r : Rt} (hr : r.untimed = s'.rt.untimed) (ch : Chan)
    (dl : Option Nat) (k : Resume) :
    (s'.parkAt t ch dl k).Sim ⟨r.mapSched (·.park t ch dl), Function.update s'.pc t (.parked k)⟩ :=
  ⟨(Rt.untimed_congr hr _ (Rt.untimed_park t ch dl)).symm, rfl⟩

/-- `orAbort` from a thread not at a wait: the process ends, or the code goes on. -/
theorem orAbort_tx {β : Type} (ht : (s.pc t).isParked = false) {k : β → M Pc}
    (hk : ∀ b, ∃ s', LockTx s s' ∧ s'.Sim (s.run t (k b))) (x : Option β) :
    ∃ s', LockTx s s' ∧ s'.Sim (s.run t (orAbort x k)) := by
  cases x with
  | none => exact ⟨_, @LockTx.move s t .aborted ht rfl rfl, rfl, rfl⟩
  | some b => exact hk b

/-- `pthreadMutexLockHelper` by the head: it takes the mutex or parks on it. -/
theorem lockHelper_tx (hh : s.Head t) {mu : Nat} (hρ : ∀ c, s.retryChan t = some c → c = .mutex mu)
    (dl : Option Nat) (c : Call) (saved : Int) :
    ∃ s', LockTx s s' ∧ s'.Sim (s.run t (lockHelper o t mu dl c saved)) := by
  by_cases hf : s.rt.mutex mu = none
  · obtain ⟨c', v, h1, h2⟩ := afterLock_untimed o t c saved 0 (s.rt.setMutex mu (some t))
    refine ⟨_, @LockTx.acquire s t mu c' v hh hf hρ, ?_⟩
    simp only [Sys.run, lockHelper, mutexTrylock, M.run_bind, M.run_rd, run_call, Ev.apply, Native.apply, M.run_pure, hf,
      if_true]
    exact ⟨h2.symm, by rw [h1]; rfl⟩
  · refine ⟨_, @LockTx.park s t (.mutex mu) dl (.lockRetry mu dl c saved) hh
      (by simp [Rt.avail, hf]) rfl rfl rfl hρ, ?_⟩
    simp only [Sys.run, lockHelper, mutexTrylock, M.run_bind, M.run_rd, M.run_pure, hf, if_false]
    exact ⟨rfl, rfl⟩

/-- The loop of `semWait` and `semTimedWait` by the head: it takes a unit or parks. -/
theorem semLoop_tx (hh : s.Head t) {sm : Nat} (hρ : ∀ c, s.retryChan t = some c → c = .sem sm)
    (op : SyncOp) (c : Call) (dl : Option Nat) (k : Resume) (hk : k.chan = .sem sm)
    (hl : k.isLock) (hr : k.retry = some (.sem sm)) : ∃ s', LockTx s s' ∧ s'.Sim (s.run t do
      if (← semTrywait t sm) = 0 then schedPutTurn o t op (.ret c 0) else wait t (.sem sm) dl k) := by
  by_cases hv : 0 < s.rt.sem sm
  · refine ⟨_, @LockTx.take s t sm c 0 hh hv hρ, ?_⟩
    simp only [Sys.run, semTrywait, M.run_bind, M.run_rd, run_call, Ev.apply, Native.apply, M.run_pure, hv, if_true]
    exact finish_sim o t _ _ _
  · refine ⟨_, @LockTx.park s t (.sem sm) dl k hh (by simpa [Rt.avail] using hv) hk hl hr hρ, ?_⟩
    simp only [Sys.run, semTrywait, M.run_bind, M.run_rd, M.run_pure, hv, if_false]
    exact ⟨rfl, rfl⟩

/-- `pthreadCondWait` (and `pthreadCondTimedWait` with no deadline) by the head. -/
theorem condWait_tx (hh : s.Head t) (ht : (s.pc t).isParked = false)
    (hb : ∃ c, s.pc t = .get (.body c)) (cv mu : Nat) :
    ∃ s', LockTx s s' ∧ s'.Sim (s.run t (body o t (.pthreadCondWait cv mu))) := by
  refine ⟨_, @LockTx.condWait s t cv mu none (.condWoken cv mu (.pthreadCondWait cv mu)) hh ht
    rfl rfl hb, ?_⟩
  simp only [Sys.run, body, mutexUnlock, signal, wait, waitOn, M.run_bind, run_call, Ev.apply, Native.apply,
    M.run_pure, Ev.apply, Native.apply]
  exact parkAt_sim t _ (schedIncTurn_untimed o t _ _) _ _ _

/-- The body of every lock wrapper, run by the head from its `SCHED_GET_TURN`. -/
theorem body_tx (hh : s.Head t) {c : Call} (hp : s.pc t = .get (.body c)) (hc : c.isLockCall) :
    ∃ s', LockTx s s' ∧ s'.Sim (s.run t (body o t c)) := by
  have ht : (s.pc t).isParked = false := by rw [hp]; rfl
  have hρ : ∀ ch c, s.retryChan t = some c → c = ch := fun _ _ h => by
    simp [Sys.retryChan_eq_none ht] at h
  cases c <;> simp only [Call.isLockCall, reduceCtorEq] at hc
  case pthreadMutexLock mu => exact lockHelper_tx o t hh (hρ _) none _ 0
  case pthreadMutexTryLock mu =>
    by_cases hf : s.rt.mutex mu = none
    · refine ⟨_, @LockTx.acquire s t mu (some (.pthreadMutexTryLock mu)) 0 hh hf (hρ _), ?_⟩
      simp only [Sys.run, body, mutexTrylock, M.run_bind, M.run_rd, run_call, Ev.apply, Native.apply, M.run_pure, hf,
        if_true]
      exact finish_sim o t _ _ _
    · refine ⟨_, @LockTx.finish s t (some (.pthreadMutexTryLock mu)) eBusy hh (Sys.retryChan_eq_none ht), ?_⟩
      simp only [Sys.run, body, mutexTrylock, M.run_bind, M.run_rd, M.run_pure, hf, if_false]
      exact finish_sim o t _ _ _
  case pthreadMutexTimedLock mu abstime =>
    cases abstime with
    | none => exact lockHelper_tx o t hh (hρ _) none _ 0
    | some a =>
      simp only [body]
      rw [Sys.run_bind_of_rt t rfl, Sys.run_bind_of_rt t rfl]
      exact orAbort_tx t ht (fun dl => lockHelper_tx o t hh (hρ _) (some dl) _ 0) _
  case pthreadMutexUnlock mu =>
    refine ⟨_, @LockTx.release s t mu (some (.pthreadMutexUnlock mu)) 0 hh ht, ?_⟩
    simp only [Sys.run, body, mutexUnlock, signal, M.run_bind, run_call, Ev.apply, Native.apply, M.run_pure,
      Ev.apply, Native.apply]
    exact finish_sim o t _ _ _
  case pthreadCondWait cv mu => exact condWait_tx o t hh ht ⟨_, hp⟩ cv mu
  case pthreadCondTimedWait cv mu abstime =>
    cases abstime with
    | none => exact condWait_tx o t hh ht ⟨_, hp⟩ cv mu
    | some a =>
      simp only [Sys.run, body, mutexUnlock, signal, M.run_bind, run_call, Ev.apply, Native.apply, M.run_pure,
        Ev.apply, Native.apply, relTime, M.run_rd, orAbort]
      generalize (deadline o _ _).1 = x
      have hd : ∀ rel r, (deadline o rel r).2.1 = r := fun _ _ => rfl
      have hi := Rt.untimed_congr (schedIncTurn_untimed o t .pthreadCondTimedwait
        (s.rt.setMutex mu none)) _ (Rt.untimed_signal (.mutex mu) false)
      cases x with
      | none =>
        refine ⟨_, @LockTx.condAbort s t mu ht, ?_⟩
        simp only [hd, M.run_pure]
        exact ⟨hi.symm, rfl⟩
      | some dl =>
        refine ⟨_, @LockTx.condWait s t cv mu (some dl)
          (.condWoken cv mu (.pthreadCondTimedWait cv mu (some a))) hh ht rfl rfl ⟨_, hp⟩, ?_⟩
        simp only [hd, wait, waitOn, M.run_bind, run_call, Ev.apply, Native.apply, M.run_pure, Ev.apply, Native.apply]
        exact parkAt_sim t _ hi _ _ _
  case pthreadCondSignal cv =>
    refine ⟨_, @LockTx.notify s t cv false (some (.pthreadCondSignal cv)) 0 hh hp, ?_⟩
    simp only [Sys.run, body, signal, M.run_bind, run_call, Ev.apply, Native.apply]
    exact finish_sim o t _ _ _
  case pthreadCondBroadcast cv =>
    refine ⟨_, @LockTx.notify s t cv true (some (.pthreadCondBroadcast cv)) 0 hh hp, ?_⟩
    simp only [Sys.run, body, signal, M.run_bind, run_call, Ev.apply, Native.apply]
    exact finish_sim o t _ _ _
  case semWait sm =>
    exact semLoop_tx o t hh (hρ _) .semWait _ none (.semRetry sm (.semWait sm)) rfl rfl rfl
  case semTryWait sm =>
    by_cases hv : 0 < s.rt.sem sm
    · refine ⟨_, @LockTx.take s t sm (some (.semTryWait sm)) 0 hh hv (hρ _), ?_⟩
      simp only [Sys.run, body, semTrywait, M.run_bind, M.run_rd, run_call, Ev.apply, Native.apply, M.run_pure, hv,
        if_true]
      exact finish_sim o t _ _ _
    · refine ⟨_, @LockTx.finish s t (some (.semTryWait sm)) (-1) hh (Sys.retryChan_eq_none ht), ?_⟩
      simp only [Sys.run, body, semTrywait, M.run_bind, M.run_rd, M.run_pure, hv, if_false]
      exact finish_sim o t _ _ _
  case semTimedWait sm abstime =>
    cases abstime with
    | none => exact semLoop_tx o t hh (hρ _) .semWait _ none (.semRetry sm _) rfl rfl rfl
    | some a =>
      simp only [body]
      rw [Sys.run_bind_of_rt t rfl, Sys.run_bind_of_rt t rfl]
      exact orAbort_tx t ht (fun dl => semLoop_tx o t hh (hρ _) .semTimedwait _ (some dl)
        (.semTimedRetry sm dl (.semTimedWait sm (some a))) rfl rfl rfl) _
  case semPost sm =>
    refine ⟨_, @LockTx.post s t sm (some (.semPost sm)) 0 hh ht, ?_⟩
    simp only [Sys.run, body, semPost, signal, M.run_bind, run_call, Ev.apply, Native.apply, M.run_pure,
      Ev.apply, Native.apply]
    exact finish_sim o t _ _ _

theorem Sys.retryChan_of_parked {k : Resume} (hp : s.pc t = .parked k) :
    s.retryChan t = if s.rt.sched.wakeRes t = .ok then k.retry else none := by
  simp [Sys.retryChan, hp]

/-- The code after a wait of a lock wrapper, run by the head once released. -/
theorem resume_tx (hh : s.Head t) {k : Resume} (hp : s.pc t = .parked k) (hk : k.isLock) :
    ∃ s', LockTx s s' ∧ s'.Sim (s.run t (resume o t k (s.rt.sched.wakeRes t))) := by
  have hρ := Sys.retryChan_of_parked t hp
  have hto : s.rt.sched.wakeRes t = .timedout → s.retryChan t = none := fun h => by simp [hρ, h]
  have hret : ∀ ch, s.retryChan t = some ch → k.retry = some ch := fun ch h => by
    rw [hρ] at h; split_ifs at h; exact h
  cases k <;> simp only [Resume.isLock, reduceCtorEq] at hk <;> simp only [resume]
  case lockRetry mu dl c saved =>
    split_ifs with hr
    · obtain ⟨c', v, h1, h2⟩ := afterLock_untimed o t c saved eTimedOut s.rt
      exact ⟨_, @LockTx.finish s t c' v hh (hto hr), h2.symm, by simp only [Sys.run, h1]; rfl⟩
    · exact lockHelper_tx o t hh (fun ch h => by simpa [Resume.retry] using (hret ch h).symm) dl c saved
  case condWoken cv mu c =>
    exact lockHelper_tx o t hh (fun ch h => by simpa [Resume.retry] using hret ch h) none c _
  case semRetry sm c =>
    exact semLoop_tx o t hh (fun ch h => by simpa [Resume.retry] using (hret ch h).symm) .semWait c
      none (.semRetry sm c) rfl rfl rfl
  case semTimedRetry sm dl c =>
    split_ifs with hr
    · exact ⟨_, @LockTx.finish s t (some c) (-1) hh (hto hr), finish_sim o t _ _ _⟩
    · exact semLoop_tx o t hh (fun ch h => by simpa [Resume.retry] using (hret ch h).symm)
        .semTimedwait c (some dl) (.semTimedRetry sm dl c) rfl rfl rfl

/-- A wrapper's entry leaves the state alone and goes to wait for the turn, to the native
primitive, or ends the process. -/
theorem step_call_cases {c : Call} (hc : c ≠ .idleSleep) (r : Rt) :
    (step o t (.call c) r).2.1 = r ∧ ((step o t (.call c) r).1 = .get (.body c) ∨
      (step o t (.call c) r).1 = .native (some c) ∨ (step o t (.call c) r).1 = .aborted) := by
  cases hn : inNonDetRegion o t r
  · rw [step_call o t (.inl hn)]; exact ⟨rfl, .inl rfl⟩
  · obtain ⟨h2, h1⟩ := step_call_inNonDet o t hn hc
    exact ⟨congrArg Prod.fst h2, .inr h1⟩

/-- Every step of a thread of a lock program is a move of a lock program. -/
theorem step_tx (hs : s.WF) (hi : ∀ u, s.rt.pending u = false) (hr : s.ready t) :
    ∃ s', LockTx s s' ∧ s'.Sim (s.runStep o t) := by
  have hl := hs.pc_lock t
  change ∃ s', LockTx s s' ∧ s'.Sim (s.run t (step o t (s.pc t)))
  cases hp : s.pc t with
  | ret | aborted => simp [Sys.ready, hp] at hr
  | zombie => simp [Sys.ready, hp, hi t] at hr
  | ioCall | nonDetEnd | post | blocked => simp [hp, Pc.isLock] at hl
  | call c =>
    rw [hp] at hl
    obtain ⟨hrt, hq⟩ := step_call_cases o t (c := c) (by rintro rfl; cases hl) s.rt
    refine ⟨_, @LockTx.move s t (step o t (.call c) s.rt).1 (by simp [hp, Pc.isParked]) ?_ ?_,
      congrArg Rt.untimed hrt.symm, rfl⟩
    · rcases hq with h | h | h <;> rw [h] <;> rfl
    · simp only [Pc.isLock] at hl
      rcases hq with h | h | h <;> simp [h, Pc.isLock, hl]
  | native c => exact ⟨_, @LockTx.move s t (.ret c 0) (by simp [hp, Pc.isParked]) rfl rfl, rfl, rfl⟩
  | get k =>
    cases k with
    | body c =>
      rw [hp] at hl
      simp only [step]
      rw [Sys.run_bind_of_rt t rfl]
      exact body_tx o t (by simpa [Sys.ready, hp] using hr) hp hl
    | barrierCycled b => simp [hp, Pc.isLock] at hl
  | parked k =>
    rw [hp] at hl
    simp only [step]
    rw [Sys.run_bind_of_rt t rfl]
    exact resume_tx o t (by simpa [Sys.ready, hp] using hr) hp hl

/-- Every move of a lock program, the scheduler's included, is one of `LockTx`. -/
theorem Step.lockTx {s s' : Sys} (hs : s.WF) (hi : ∀ u, s.rt.pending u = false)
    (h : Step o lockApp s s') : ∃ s'', LockTx s s'' ∧ s''.Sim s' := by
  cases h with
  | @call t c v p hp ha =>
    cases p <;> simp only [lockApp, reduceCtorEq] at ha
    exact ⟨_, .move (by simp [hp, Pc.isParked]) (by rfl) (by simpa [Pc.isLock] using ha), rfl, rfl⟩
  | run hr => exact step_tx o _ hs hi hr
  | expire hw => exact ⟨_, .promote (.inl hw), rfl, rfl⟩
  | deadlock hw => exact ⟨_, .promote (.inr hw), rfl, rfl⟩

end Refine

/-! ### Every reachable state -/

theorem Sys.LockInv.of_sim {s s' : Sys} (h : s.LockInv) (hs : s.Sim s') : s'.LockInv := by
  have key : ∀ s : Sys, s.LockInv ↔ (⟨s.rt.untimed, s.pc⟩ : Sys).LockInv := fun _ =>
    ⟨fun ⟨⟨a, b, c, d, e⟩, n⟩ => ⟨⟨a, b, c, d, e⟩, n⟩, fun ⟨⟨a, b, c, d, e⟩, n⟩ => ⟨⟨a, b, c, d, e⟩, n⟩⟩
  rw [key] at h ⊢
  rwa [← hs.1, ← hs.2]

theorem lockInv_init (env : Env) (n : Nat) : (Sys.init env n).LockInv where
  wf := {
    runq_nodup := List.nodup_range n
    waitq_nodup := List.nodup_nil
    waiter_off := fun _ h => absurd h (List.not_mem_nil _)
    waiter_pc := fun _ h => absurd h (List.not_mem_nil _)
    pc_lock := fun u => by simp only [Sys.init]; split <;> rfl }
  nlw := fun _ ⟨_, h, _⟩ => absurd h (List.not_mem_nil _)

/-- A lock program creates no thread: none is waiting to start. -/
theorem LockTx.pending_eq {s s' : Sys} (h : LockTx s s') : s'.rt.pending = s.rt.pending := by
  cases h <;> rfl

theorem Reachable.lockInv {o : Options} {env : Env} {n : Nat} {s : Sys}
    (h : Reachable o lockApp (Sys.init env n) s) : s.LockInv ∧ ∀ u, s.rt.pending u = false := by
  induction h with
  | init => exact ⟨lockInv_init env n, fun _ => rfl⟩
  | step _ hst ih =>
    obtain ⟨s'', htx, hsim⟩ := hst.lockTx o ih.1.wf ih.2
    refine ⟨(htx.inv ih.1).of_sim hsim, fun u => ?_⟩
    rw [← ih.2 u, ← htx.pending_eq]
    exact (congrArg (·.pending u) hsim.1).symm

/-- No lost wakeup. In every state a lock program reaches, a thread parked on a mutex finds it
locked or some signalled thread yet to retry it, and a thread parked on a semaphore finds no more
units than signalled threads yet to retry it. So once every signalled thread has retried, no
thread is parked on a free mutex or on a semaphore with units. -/
theorem noLostWakeup {o : Options} {env : Env} {n : Nat} {s : Sys}
    (h : Reachable o lockApp (Sys.init env n) s) :
    (∀ mu, s.rt.sched.Waiting (.mutex mu) → s.rt.mutex mu ≠ none ∨ 0 < s.pend (.mutex mu)) ∧
    (∀ sm, s.rt.sched.Waiting (.sem sm) → s.rt.sem sm ≤ s.pend (.sem sm)) ∧
    (∀ mu, s.pend (.mutex mu) = 0 → s.rt.sched.Waiting (.mutex mu) → s.rt.mutex mu ≠ none) ∧
    (∀ sm, s.pend (.sem sm) = 0 → s.rt.sched.Waiting (.sem sm) → s.rt.sem sm = 0) := by
  have hn := h.lockInv.1.nlw
  have hm : ∀ mu, s.rt.sched.Waiting (.mutex mu) → s.rt.mutex mu ≠ none ∨ 0 < s.pend (.mutex mu) :=
    fun mu hw => by
      have := hn _ hw
      simp only [Rt.avail] at this
      split_ifs at this with hf
      · exact .inr this
      · exact .inl hf
  refine ⟨hm, fun sm hw => hn _ hw, fun mu h0 hw => ?_, fun sm h0 hw => ?_⟩
  · simpa [h0] using hm mu hw
  · simpa [h0, Rt.avail] using hn _ hw

/-- Two threads lock mutex `0`; the second parks on it, and the first holds it. -/
theorem noLostWakeup_run :
    let s := ((Sys.init ⟨⟨0, 0⟩, fun _ => 1, fun _ => false, false, false⟩ 2).exec
      ⟨false, false, false, 1000, true, false⟩ lockApp [.call 0 (.call (.pthreadMutexLock 0)),
        .run 0, .run 0, .call 1 (.call (.pthreadMutexLock 0)), .run 1, .run 1]).get (by decide)
    ⟨1, .mutex 0, none⟩ ∈ s.rt.sched.waitq ∧
    (∀ mu, s.rt.sched.Waiting (.mutex mu) → s.rt.mutex mu ≠ none ∨ 0 < s.pend (.mutex mu)) ∧
    (∀ sm, s.rt.sched.Waiting (.sem sm) → s.rt.sem sm ≤ s.pend (.sem sm)) ∧
    (∀ mu, s.pend (.mutex mu) = 0 → s.rt.sched.Waiting (.mutex mu) → s.rt.mutex mu ≠ none) ∧
    (∀ sm, s.pend (.sem sm) = 0 → s.rt.sched.Waiting (.sem sm) → s.rt.sem sm = 0) :=
  ⟨by decide, noLostWakeup (exec_get_reachable _ _)⟩

end Xtern
