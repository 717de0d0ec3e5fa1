import Xtern.Tables
import Xtern.Wakeup

/-! # The run queue and the wait queue over every run

The round-robin scheduler keeps a thread in the run queue while it runs application code or a
wrapper, moves it to the wait queue when it calls `wait`, back to the run queue when it is
signalled or promoted, and out of both when it ends (`putTurn(true)`). The wrappers call these
operations on their own thread, in the turn; `Sched.Placed` says where a thread must be for its
point. `Sys.Queued` says that every thread is where its point says, once.

`Queues` reads a thread's wrapper code for its effect on the queues, as `Logs` reads it for the
log: the other threads stay where their points say, and the thread itself goes from the run
queue to the run queue, to the wait queue on its wait's channel, or out of both, as the point it
reaches says (`queues_step`). The invariant then holds in every state a turn program reaches
(`Reachable.queued`): no thread is lost or scheduled twice.

A turn program has a fixed set of threads, which call turn-based wrappers only: no I/O wrapper,
no non-det region (whose start blocks the thread out of turn), no `pthread_create` or `fork`
(whose new thread or process the process model does not start). In such a program the process
never hangs in the runtime (`turnProgram_noHang`): the head of the run queue can take its step
unless it is in application code or has ended the process, and an empty run queue with a waiter
is always resolved by the deadlock rule. -/

namespace Xtern

/-! ### Turn programs -/

/-- The calls of a turn program: every turn-based wrapper but `pthread_create`, `fork` and
`tern_non_det_start`. -/
def Call.inTurnProgram : Call → Bool
  | .pthreadCreate | .fork | .nonDetStart => false
  | _ => true

/-- A turn program: its threads call the turn-based wrappers of `Call.inTurnProgram` only. -/
def turnApp : Pc → Bool
  | .call c => c.inTurnProgram
  | _ => false

/-- The points a thread of a turn program reaches. -/
def Pc.inTurnProgram : Pc → Bool
  | .call c | .get (.body c) => c.inTurnProgram
  | .parked .nonDetWoken | .ioCall _ _ | .nonDetEnd | .post _ | .blocked _ => false
  | _ => true

/-! ### Where a thread is -/

namespace Sched

/-- Thread `u` is in the run queue and has no waiter. -/
def Running (s : Sched) (u : Tid) : Prop := u ∈ s.runq ∧ ∀ w ∈ s.waitq, w.tid ≠ u

/-- Thread `u` is out of the run queue and has a waiter on `ch`. -/
def WaitsOn (s : Sched) (u : Tid) (ch : Chan) : Prop :=
  u ∉ s.runq ∧ ∃ w ∈ s.waitq, w.tid = u ∧ w.chan = ch

/-- Thread `u` is in neither queue. -/
def Gone (s : Sched) (u : Tid) : Prop := u ∉ s.runq ∧ ∀ w ∈ s.waitq, w.tid ≠ u

/-- Thread `u` is where its point `p` says: a parked thread waits on its wait's channel or,
released, is back in the run queue; a finished thread is in neither queue; every other thread is
in the run queue. -/
def Placed (s : Sched) (u : Tid) : Pc → Prop
  | .parked k => s.WaitsOn u k.chan ∨ s.Running u
  | .zombie => s.Gone u
  | _ => s.Running u

/-- The queues hold each thread at most once. -/
structure Distinct (s : Sched) : Prop where
  runq : s.runq.Nodup
  waitq : (s.waitq.map (·.tid)).Nodup

/-- `s'` holds thread `u` where `s` does. -/
def SameFor (s s' : Sched) (u : Tid) : Prop :=
  (u ∈ s'.runq ↔ u ∈ s.runq) ∧
    ∀ w : Waiter, w.tid = u → (w ∈ s'.waitq ↔ w ∈ s.waitq)

variable {s s' : Sched} {u : Tid}

theorem Running.of_sameFor (h : s.Running u) (hs : SameFor s s' u) : s'.Running u :=
  ⟨hs.1.2 h.1, fun w hw e => h.2 w ((hs.2 w e).1 hw) e⟩

theorem WaitsOn.of_sameFor {ch : Chan} (h : s.WaitsOn u ch) (hs : SameFor s s' u) :
    s'.WaitsOn u ch :=
  let ⟨h₁, w, hw, he, hc⟩ := h
  ⟨fun h' => h₁ (hs.1.1 h'), w, (hs.2 w he).2 hw, he, hc⟩

theorem Gone.of_sameFor (h : s.Gone u) (hs : SameFor s s' u) : s'.Gone u :=
  ⟨fun h' => h.1 (hs.1.1 h'), fun w hw e => h.2 w ((hs.2 w e).1 hw) e⟩

theorem Placed.of_sameFor {p : Pc} (h : s.Placed u p) (hs : SameFor s s' u) : s'.Placed u p := by
  cases p
  case parked k => exact Or.imp (·.of_sameFor hs) (·.of_sameFor hs) h
  case zombie => exact Gone.of_sameFor h hs
  all_goals exact Running.of_sameFor h hs

/-- A thread with a waiter is parked, out of the run queue. -/
theorem Placed.waiter {p : Pc} (h : s.Placed u p) {w : Waiter} (hw : w ∈ s.waitq)
    (hu : w.tid = u) : u ∉ s.runq ∧ ∃ k, p = .parked k := by
  cases p
  case parked k =>
    rcases h with h | h
    · exact ⟨h.1, _, rfl⟩
    · exact absurd hu (h.2 w hw)
  all_goals exact absurd hu (h.2 w hw)

/-- `putTurn` moves no thread between the queues. -/
theorem sameFor_putTurn (s : Sched) (u : Tid) : SameFor s s.putTurn u :=
  ⟨(putTurn_perm s).mem_iff, fun w _ => by rw [putTurn_waitq]⟩

/-- Waking waiters leaves every thread without a waiter among them where it was. -/
theorem sameFor_wake {ws : List Waiter} (r : WaitRes) (hu : ∀ w ∈ ws, w.tid ≠ u) :
    SameFor s (s.wake ws r) u := by
  refine ⟨?_, fun w hw => ?_⟩
  · simp only [wake, List.mem_append, List.mem_map]
    exact or_iff_left fun ⟨w, hw, e⟩ => hu w hw e
  · simp only [wake, List.mem_filter, decide_eq_true_eq]
    exact and_iff_left fun h => hu w h hw

/-- Two waiters of one thread are the same waiter. -/
theorem Distinct.waiter_eq (h : s.Distinct) {w w' : Waiter} (hw : w ∈ s.waitq)
    (hw' : w' ∈ s.waitq) (e : w.tid = w'.tid) : w = w' :=
  List.inj_on_of_nodup_map h.waitq hw hw' e

/-- The queues after waking some waiters, none of whose threads is in the run queue. -/
theorem Distinct.wake (h : s.Distinct) {ws : List Waiter} (hws : ws.Sublist s.waitq)
    (hoff : ∀ w ∈ s.waitq, w.tid ∉ s.runq) (r : WaitRes) : (s.wake ws r).Distinct where
  runq := h.runq.append ((hws.map _).nodup h.waitq) fun u hu hu' => by
    obtain ⟨w, hw, rfl⟩ := List.mem_map.1 hu'
    exact hoff w (hws.subset hw) hu
  waitq := ((List.filter_sublist _).map _).nodup h.waitq

/-- Waking waiters puts their threads, parked, back in the run queue, and leaves every other
thread where it was. -/
theorem Placed.wake (hd : s.Distinct) {ws : List Waiter} (hws : ws.Sublist s.waitq) {p : Pc}
    (h : s.Placed u p) (r : WaitRes) : (s.wake ws r).Placed u p := by
  by_cases hu : ∃ w ∈ ws, w.tid = u
  · obtain ⟨w, hw, rfl⟩ := hu
    obtain ⟨-, k, rfl⟩ := h.waiter (hws.subset hw) rfl
    refine .inr ⟨List.mem_append_right _ (List.mem_map_of_mem _ hw), fun w' hw' e => ?_⟩
    obtain ⟨hw'q, hw'n⟩ := List.mem_filter.1 hw'
    exact absurd (hd.waiter_eq hw'q (hws.subset hw) e ▸ hw) (by simpa using hw'n)
  · exact h.of_sameFor (sameFor_wake r fun w hw e => hu ⟨w, hw, e⟩)

end Sched

/-! ### Reading the placement off the queues -/

namespace Sched

variable {s : Sched} {u : Tid} {p : Pc}

theorem Placed.mem_or_waiter (h : s.Placed u p) (hp : p ≠ .zombie) :
    u ∈ s.runq ∨ ∃ w ∈ s.waitq, w.tid = u := by
  cases p
  case parked k => exact h.elim (fun ⟨_, w, hw, he, _⟩ => .inr ⟨w, hw, he⟩) (.inl ·.1)
  case zombie => exact absurd rfl hp
  all_goals exact .inl h.1

theorem Placed.not_waiter (h : s.Placed u p) (hu : u ∈ s.runq) :
    ∀ w ∈ s.waitq, w.tid ≠ u := by
  cases p
  case parked k => exact h.elim (fun h' => absurd hu h'.1) (·.2)
  case zombie => exact absurd hu h.1
  all_goals exact h.2

/-- A waiter's thread is parked on the waiter's channel. -/
theorem Placed.chan (hd : s.Distinct) {w : Waiter} (h : s.Placed w.tid p) (hw : w ∈ s.waitq) :
    ∃ k, p = .parked k ∧ k.chan = w.chan := by
  obtain ⟨-, k, rfl⟩ := h.waiter hw rfl
  rcases h with ⟨-, w', hw', he, hc⟩ | h
  · exact ⟨k, rfl, hd.waiter_eq hw' hw he ▸ hc.symm⟩
  · exact absurd rfl (h.2 w hw)

/-! The deadlock rule's order: the smaller deadline first, `FOREVER` last, then the smaller id. -/

theorem dlLe_refl (a : Option Nat) : dlLe a a := by cases a <;> simp [dlLe]

theorem dlLe_trans {a b c : Option Nat} (h₁ : dlLe a b) (h₂ : dlLe b c) : dlLe a c := by
  cases a <;> cases b <;> cases c <;> simp_all [dlLe]
  omega

theorem dlLe_total (a b : Option Nat) : dlLe a b ∨ dlLe b a := by
  cases a <;> cases b <;> simp [dlLe]
  omega

/-- `w` comes no later than `w'` for the deadlock rule. -/
def Before (w w' : Waiter) : Prop :=
  dlLe w.deadline w'.deadline ∧ (dlLe w'.deadline w.deadline → w.tid ≤ w'.tid)

theorem Before.refl (w : Waiter) : Before w w := ⟨dlLe_refl _, fun _ => le_rfl⟩

theorem Before.trans {a b c : Waiter} (h₁ : Before a b) (h₂ : Before b c) : Before a c :=
  ⟨dlLe_trans h₁.1 h₂.1, fun hca =>
    (h₁.2 (dlLe_trans h₂.1 hca)).trans (h₂.2 (dlLe_trans hca h₁.1))⟩

theorem Before.total (a b : Waiter) : Before a b ∨ Before b a := by
  have := dlLe_total a.deadline b.deadline
  have := le_total a.tid b.tid
  unfold Before; tauto

theorem exists_first : ∀ {l : List Waiter}, l ≠ [] → ∃ w ∈ l, ∀ w' ∈ l, Before w w'
  | [], h => absurd rfl h
  | [a], _ =>
    ⟨a, List.mem_singleton_self a, fun _ h => List.mem_singleton.1 h ▸ Before.refl a⟩
  | a :: b :: l, _ => by
    obtain ⟨m, hm, hmin⟩ := exists_first (List.cons_ne_nil b l)
    by_cases h : Before a m
    · exact ⟨a, List.mem_cons_self _ _,
        List.forall_mem_cons.2 ⟨Before.refl a, fun w hw => h.trans (hmin w hw)⟩⟩
    · exact ⟨m, List.mem_cons_of_mem _ hm,
        List.forall_mem_cons.2 ⟨(Before.total a m).resolve_left h, hmin⟩⟩

/-- With the run queue empty and a thread waiting, the deadlock rule has a waiter to promote. -/
theorem exists_deadlocked (hr : s.runq = []) (hw : s.waitq ≠ []) : ∃ w, s.Deadlocked w :=
  let ⟨w, hw, hmin⟩ := exists_first hw
  ⟨w, hr, hw, hmin⟩

end Sched

/-! ### The thread running wrapper code -/

namespace Sched

/-- `s` holds thread `u` where `st`, the automaton's place of the thread, says. -/
def At (s : Sched) (u : Tid) : Stand → Prop
  | .running => s.Running u
  | .waiting ch => s.WaitsOn u ch
  | .ended => s.Gone u

/-- The queues hold each thread once, and every thread but `t` is where its point in `pc` says. -/
structure Others (s : Sched) (t : Tid) (pc : Tid → Pc) : Prop where
  distinct : s.Distinct
  placed : ∀ u, u ≠ t → s.Placed u (pc u)

variable {s s' : Sched} {t : Tid} {pc : Tid → Pc} {st : Stand}

theorem At.of_sameFor (h : s.At t st) (hs : SameFor s s' t) : s'.At t st := by
  cases st
  · exact Running.of_sameFor h hs
  · exact WaitsOn.of_sameFor h hs
  · exact Gone.of_sameFor h hs

/-- A thread standing where the point it reaches says is placed. -/
theorem At.placed {q : Pc} (h : s.At t q.standAt) : s.Placed t q := by
  cases q
  case parked k => exact .inl h
  all_goals exact h

/-- Code that moves no thread between the queues. -/
theorem Others.of_queues (h : s.Others t pc) (hr : s'.runq = s.runq) (hw : s'.waitq = s.waitq) :
    s'.Others t pc ∧ ∀ u, SameFor s s' u :=
  have hs : ∀ u, SameFor s s' u := fun _ => ⟨by rw [hr], fun _ _ => by rw [hw]⟩
  ⟨⟨⟨hr ▸ h.distinct.runq, hw ▸ h.distinct.waitq⟩,
    fun u hu => (h.placed u hu).of_sameFor (hs u)⟩, hs⟩

/-- With `t` not waiting, no waiter's thread is in the run queue. -/
theorem Others.waiter_off (h : s.Others t pc) (ht : ∀ w ∈ s.waitq, w.tid ≠ t) :
    ∀ w ∈ s.waitq, w.tid ∉ s.runq := fun w hw =>
  ((h.placed w.tid (ht w hw)).waiter hw rfl).1

/-- Waking waiters, as `signal` does, by a thread that is not waiting. -/
theorem Others.wake (h : s.Others t pc) (ht : ∀ w ∈ s.waitq, w.tid ≠ t) {ws : List Waiter}
    (hws : ws.Sublist s.waitq) (r : WaitRes) :
    (s.wake ws r).Others t pc ∧ SameFor s (s.wake ws r) t :=
  ⟨⟨h.distinct.wake hws (h.waiter_off ht) r, fun u hu => (h.placed u hu).wake h.distinct hws r⟩,
    sameFor_wake r fun w hw => ht w (hws.subset hw)⟩

theorem Others.putTurn (h : s.Others t pc) : s.putTurn.Others t pc ∧ SameFor s s.putTurn t :=
  ⟨⟨⟨(putTurn_perm s).nodup_iff.2 h.distinct.runq, by rw [putTurn_waitq]; exact h.distinct.waitq⟩,
    fun u hu => (h.placed u hu).of_sameFor (sameFor_putTurn s u)⟩, sameFor_putTurn s t⟩

/-- `wait` by a running thread: it leaves the run queue for the wait queue. -/
theorem Others.park (h : s.Others t pc) (ht : s.Running t) (ch : Chan) (dl : Option Nat) :
    (s.park t ch dl).Others t pc ∧ (s.park t ch dl).WaitsOn t ch := by
  have hsame : ∀ u, u ≠ t → SameFor s (s.park t ch dl) u := fun u hu =>
    ⟨List.mem_erase_of_ne hu, fun w e => by
      simp only [Sched.park, List.mem_append, List.mem_singleton]
      exact or_iff_left fun h' => hu (h' ▸ e).symm⟩
  refine ⟨⟨⟨h.distinct.runq.erase t, ?_⟩, fun u hu => (h.placed u hu).of_sameFor (hsame u hu)⟩,
    h.distinct.runq.not_mem_erase, _, List.mem_append_right _ (List.mem_singleton_self _),
    rfl, rfl⟩
  simp only [Sched.park, List.map_append, List.map_singleton]
  exact h.distinct.waitq.append (List.nodup_singleton t) fun u hu hu' => by
    obtain ⟨w, hw, rfl⟩ := List.mem_map.1 hu
    exact ht.2 w hw (List.mem_singleton.1 hu')

/-- The end of a running thread (`putTurn(true)`): it leaves the run queue, and its joiners are
released. -/
theorem Others.endTurn (h : s.Others t pc) (ht : s.Running t) :
    (s.endTurn t).Others t pc ∧ (s.endTurn t).Gone t := by
  let s₁ : Sched := { s with runq := s.runq.erase t, zombies := t :: s.zombies }
  have h₁ : s₁.Others t pc := ⟨⟨h.distinct.runq.erase t, h.distinct.waitq⟩, fun u hu =>
    (h.placed u hu).of_sameFor ⟨List.mem_erase_of_ne hu, fun _ _ => Iff.rfl⟩⟩
  obtain ⟨h₂, hs⟩ := h₁.wake ht.2 (s₁.signalled_sublist (.thread t) true) .ok
  exact ⟨h₂, Gone.of_sameFor (s := s₁) ⟨h.distinct.runq.not_mem_erase, ht.2⟩ hs⟩

theorem Others.update (h : s.Others t pc) (q : Pc) : s.Others t (Function.update pc t q) :=
  ⟨h.distinct, fun u hu => by rw [Function.update_noteq hu]; exact h.placed u hu⟩

end Sched

/-! ### The calls of the thread that runs -/

section Calls

variable {t : Tid} {pc : Tid → Pc} {p : Pc}

/-- The calls that move a thread other than through the turn: out of the run queue and back in,
into a new thread, a new process, or a non-det region. -/
def Ev.outOfTurn : Ev → Bool
  | .block | .wakeup | .create _ | .childForkReturn | .setInNonDet _ | .native (.spawn _) => true
  | _ => false

/-- The points of a turn program block and wake no thread, create none, fork no process and enter
no non-det region. -/
theorem Pc.Allows.turnProgram (hp : p.inTurnProgram = true) {x : Rt} {e : Ev} (ha : p.Allows x e) :
    e.outOfTurn = false := by
  cases e <;> (try cases ‹Native›) <;> (try rfl) <;> (try cases ‹Bool›) <;> exfalso <;>
    cases p <;> simp_all [Pc.Allows, Pc.blocks, Pc.wakes, Pc.Natives, Pc.inTurnProgram,
      Call.inTurnProgram]

/-- One call of a thread of a turn program keeps every other thread where its point says and
each thread once in the queues, and moves the thread itself as the automaton says. -/
theorem Ev.queues_apply {x : Rt} {e : Ev} {g g₁ : Gh} (he : e.outOfTurn = false)
    (hn : g.next e = some g₁) (ho : x.sched.Others t pc)
    (hs : x.sched.At t g.stand) :
    (e.apply t x).sched.Others t pc ∧ (e.apply t x).sched.At t g₁.stand := by
  obtain ⟨hr, hst⟩ := Gh.next_stand hn
  rw [hr] at hs
  rw [hst]
  have frame (hq : (e.apply t x).sched.runq = x.sched.runq ∧
      (e.apply t x).sched.waitq = x.sched.waitq) (he : e.stand = .running) :
      (e.apply t x).sched.Others t pc ∧ (e.apply t x).sched.At t e.stand := by
    obtain ⟨ho', hsame⟩ := ho.of_queues hq.1 hq.2
    exact ⟨ho', he ▸ Sched.At.of_sameFor hs (hsame t)⟩
  cases e with
  | putTurn => exact ⟨ho.putTurn.1, Sched.At.of_sameFor hs ho.putTurn.2⟩
  | endTurn => exact ho.endTurn hs
  | wait ch dl => exact ho.park hs ch dl
  | signal ch all =>
    obtain ⟨h₁, h₂⟩ := ho.wake hs.2 (x.sched.signalled_sublist ch all) .ok
    exact ⟨h₁, Sched.At.of_sameFor hs h₂⟩
  | block | wakeup | create | childForkReturn | setInNonDet => cases he
  | native n => exact frame (by cases n <;> exact ⟨rfl, rfl⟩) rfl
  | mutate w => exact frame (by cases w <;> exact ⟨rfl, rfl⟩) rfl
  | getTurn | incTurnCount | logSync | join => exact frame ⟨rfl, rfl⟩ rfl

/-- A step of a turn program from a point other than the end starts no thread. -/
theorem Ev.pending_apply (hp : p.inTurnProgram = true) (hz : p ≠ .zombie) (x : Rt) (e : Ev)
    (ha : p.Allows x e) : (e.apply t x).pending = x.pending := by
  have he := ha.turnProgram hp
  cases e with
  | native n =>
    cases n with
    | spawn th => cases he
    | beginWait | donePost => exact absurd ha hz
    | forkChild => cases p <;> simp_all [Pc.Allows, Pc.Natives, Pc.inTurnProgram, Call.inTurnProgram]
    | _ => rfl
  | mutate w => cases w <;> rfl
  | _ => rfl

/-- A point of a turn program steps to a point of a turn program. -/
theorem Next.inTurnProgram {q : Pc} (h : Next p q) (hp : p.inTurnProgram = true) :
    q.inTurnProgram = true := by
  cases h with
  | park hc =>
    rename_i c k
    unfold Call.Parks at hc
    split at hc <;> first
      | exact hc.elim
      | (subst hc; simp_all [Pc.inTurnProgram, Call.inTurnProgram])
      | (obtain ⟨_, rfl⟩ := hc; rfl)
  | @repark k k' hr =>
    unfold Resume.Reparks at hr
    split at hr <;> first
      | exact hr.elim
      | (obtain ⟨_, rfl⟩ := hr; rfl)
      | (subst hr; exact hp)
  | _ => simp_all [Pc.inTurnProgram, Call.inTurnProgram]

end Calls

/-! ### One step -/

/-- One step of a running thread from a point whose calls move no thread out of turn: every
other thread stays where it was, each thread is still once in the queues, and the thread stands
where the point it reaches says. -/
theorem step_queues (o : Options) (t : Tid) {pc : Tid → Pc} {p : Pc}
    (hp : ∀ x e, p.Allows x e → e.outOfTurn = false) {r : Rt} (ho : r.sched.Others t pc)
    (hs : r.sched.Running t) :
    (step o t p r).2.1.sched.Others t pc ∧ (step o t p r).2.1.sched.Placed t (step o t p r).1 := by
  obtain ⟨g', hacc, hrep, -, hland⟩ := step_spec o t (Gh.start_starts o p.holdOk_holdAt) r
  have hq := hacc.fold (P := fun g x => x.sched.Others t pc ∧ x.sched.At t g.stand)
    (fun _ x e _ ha hn h => Ev.queues_apply (hp x e ha) hn h.1 h.2) ⟨ho, hs⟩
  rw [← hrep] at hq
  refine ⟨hq.1, ?_⟩
  rcases hland with ⟨hab, hst⟩ | hl
  · rw [hab]; rw [hst] at hq; exact hq.2
  · exact Sched.At.placed (hl.stand ▸ hq.2)

/-- One step of a thread of a turn program, from every point but the end: `step_queues`, and the
point it reaches is one of a turn program, and no thread is made to start. -/
theorem queues_step (o : Options) (t : Tid) {pc : Tid → Pc} {p : Pc}
    (hp : p.inTurnProgram = true) (hz : p ≠ .zombie) {r : Rt} (ho : r.sched.Others t pc)
    (hs : r.sched.Running t) :
    (step o t p r).2.1.sched.Others t pc ∧ (step o t p r).2.1.sched.Placed t (step o t p r).1 ∧
      (step o t p r).1.inTurnProgram = true ∧ (step o t p r).2.1.pending = r.pending :=
  ⟨(step_queues o t (fun _ _ => Pc.Allows.turnProgram hp) ho hs).1,
    (step_queues o t (fun _ _ => Pc.Allows.turnProgram hp) ho hs).2,
    (step_next o t p r).inTurnProgram hp,
    step_frame Rt.pending o t p r fun x e ha => Ev.pending_apply hp hz x e ha⟩

/-! ### The whole process -/

/-- Every thread is where its point says, each once in the queues, and at a point of a turn
program; and none is about to start. -/
structure Sys.Queued (s : Sys) : Prop where
  distinct : s.rt.sched.Distinct
  placed : ∀ u, s.rt.sched.Placed u (s.pc u)
  points : ∀ u, (s.pc u).inTurnProgram = true
  unborn : ∀ u, s.rt.pending u = false

namespace Sys.Queued

variable {o : Options} {s s' : Sys} {t : Tid}

theorem others (h : s.Queued) (t : Tid) : s.rt.sched.Others t s.pc :=
  ⟨h.distinct, fun u _ => h.placed u⟩

/-- A thread that can take a step is in the run queue and not waiting. -/
theorem running (h : s.Queued) (hr : s.ready t) : s.rt.sched.Running t := by
  have hp := h.placed t
  unfold Sys.ready at hr
  cases hq : s.pc t <;> rw [hq] at hp hr
  case parked k =>
    exact hp.resolve_left fun hw => hw.1 (List.mem_of_mem_head? (of_decide_eq_true hr))
  case ret | aborted => exact absurd hr Bool.false_ne_true
  case zombie => simp [h.unborn t] at hr
  all_goals exact hp

/-- Moving `t` to a point of a turn program where the queues hold it. -/
theorem update {rt : Rt} {pc : Tid → Pc} {q : Pc} (ho : rt.sched.Others t pc)
    (hq : rt.sched.Placed t q) (hp : ∀ u, (pc u).inTurnProgram = true)
    (hqp : q.inTurnProgram = true) (hpe : ∀ u, rt.pending u = false) :
    (⟨rt, Function.update pc t q⟩ : Sys).Queued :=
  ⟨ho.distinct, (Function.forall_update_iff _ fun _ (_ : Pc) => _).2 ⟨hq, ho.placed⟩,
    (Function.forall_update_iff _ fun _ (q : Pc) => q.inTurnProgram).2 ⟨hqp, fun u _ => hp u⟩, hpe⟩

theorem runStep (h : s.Queued) (hr : s.ready t) : (s.runStep o t).Queued := by
  have hz : s.pc t ≠ .zombie := fun hz => by simp [Sys.ready, hz, h.unborn t] at hr
  obtain ⟨ho, hpl, hq, hpe⟩ := queues_step o t (h.points t) hz (h.others t) (h.running hr)
  exact update ho hpl h.points hq fun u => by rw [hpe]; exact h.unborn u

theorem promote (h : s.Queued) {w : Waiter} (hw : w ∈ s.rt.sched.waitq) : (s.promote w).Queued :=
  have hsub := List.singleton_sublist.2 hw
  ⟨h.distinct.wake hsub (fun w hw => ((h.placed w.tid).waiter hw rfl).1) .timedout,
    fun u => (h.placed u).wake h.distinct hsub .timedout, h.points, h.unborn⟩

/-- Every move of a turn program keeps it. -/
theorem step (h : s.Queued) (hs : Step o turnApp s s') : s'.Queued := by
  cases hs with
  | @call t c v p hp ha =>
    obtain ⟨c', rfl⟩ : ∃ c', p = .call c' := by
      cases p <;> first | exact ⟨_, rfl⟩ | exact absurd ha Bool.false_ne_true
    have ht := h.placed t
    rw [hp] at ht
    exact update (h.others t) ht h.points ha h.unborn
  | run hr => exact h.runStep hr
  | expire hw => exact h.promote hw.1
  | deadlock hw => exact h.promote hw.2.1

end Sys.Queued

theorem Sys.queued_init (env : Env) (n : Nat) : (Sys.init env n).Queued where
  distinct := ⟨List.nodup_range n, List.nodup_nil⟩
  placed u := by
    simp only [Sys.init]
    split_ifs with hu
    · exact ⟨List.mem_range.2 hu, nofun⟩
    · exact ⟨fun h => hu (List.mem_range.1 h), nofun⟩
  points u := by simp only [Sys.init]; split_ifs <;> rfl
  unborn _ := rfl

theorem Reachable.queued {o : Options} {env : Env} {n : Nat} {s : Sys}
    (h : Reachable o turnApp (Sys.init env n) s) : s.Queued := by
  induction h with
  | init => exact Sys.queued_init env n
  | step _ hs ih => exact ih.step hs

/-! ### What the invariant says -/

section Readings

variable {o : Options} {env : Env} {n : Nat} {s : Sys}

/-- Queue accounting of a turn program (threads that make turn-based calls only, and create no
thread, do not fork and enter no non-det region). In every state it reaches: no thread is twice
in the run queue or twice in the wait queue; a thread that has not finished is in one of the two
queues, and not in both; a finished thread is in neither; and the thread of every waiter is
parked on the waiter's channel. -/
theorem turnProgram_queues (h : Reachable o turnApp (Sys.init env n) s) :
    s.rt.sched.runq.Nodup ∧ (s.rt.sched.waitq.map (·.tid)).Nodup ∧
      (∀ u, s.pc u ≠ .zombie ↔ u ∈ s.rt.sched.runq ∨ ∃ w ∈ s.rt.sched.waitq, w.tid = u) ∧
      (∀ u ∈ s.rt.sched.runq, ∀ w ∈ s.rt.sched.waitq, w.tid ≠ u) ∧
      ∀ w ∈ s.rt.sched.waitq, ∃ k, s.pc w.tid = .parked k ∧ k.chan = w.chan := by
  have hq := h.queued
  refine ⟨hq.distinct.runq, hq.distinct.waitq, fun u => ⟨(hq.placed u).mem_or_waiter, ?_⟩,
    fun u hu => (hq.placed u).not_waiter hu, fun w hw => (hq.placed w.tid).chan hq.distinct hw⟩
  rintro hu hz
  have hg : s.rt.sched.Placed u .zombie := hz ▸ hq.placed u
  rcases hu with hu | ⟨w, hw, he⟩
  exacts [hg.1 hu, hg.2 w hw he]

/-- Two threads lock mutex `0` in turn: thread `1` finds it taken and is the one waiter. -/
theorem turnProgram_queues_lockRun :
    let s := ((Sys.init ⟨⟨0, 0⟩, fun _ => 1, fun _ => false, false, false⟩ 2).exec
      ⟨false, false, false, 1000, true, false⟩ turnApp [.call 0 (.call (.pthreadMutexLock 0)),
        .run 0, .run 0, .call 1 (.call (.pthreadMutexLock 0)), .run 1, .run 1]).get (by decide)
    s.rt.sched.waitq = [⟨1, .mutex 0, none⟩] ∧
      s.rt.sched.runq.Nodup ∧ (s.rt.sched.waitq.map (·.tid)).Nodup ∧
      (∀ u, s.pc u ≠ .zombie ↔ u ∈ s.rt.sched.runq ∨ ∃ w ∈ s.rt.sched.waitq, w.tid = u) ∧
      (∀ u ∈ s.rt.sched.runq, ∀ w ∈ s.rt.sched.waitq, w.tid ≠ u) ∧
      ∀ w ∈ s.rt.sched.waitq, ∃ k, s.pc w.tid = .parked k ∧ k.chan = w.chan :=
  ⟨by decide, turnProgram_queues (exec_get_reachable _ _)⟩

/-- A turn program never hangs in the scheduler. In every state it reaches, the thread at the head
of the run queue can take its step, or is in application code, or has ended the process; and
with the run queue empty, either the deadlock rule has a waiter to promote or every thread has
finished. -/
theorem turnProgram_noHang (h : Reachable o turnApp (Sys.init env n) s) :
    (∀ u, s.rt.sched.runq.head? = some u →
      s.ready u ∨ (∃ c v, s.pc u = .ret c v) ∨ s.pc u = .aborted) ∧
    (s.rt.sched.runq = [] → (∃ w, s.rt.sched.Deadlocked w) ∨ ∀ u, s.pc u = .zombie) := by
  have hq := h.queued
  refine ⟨fun u hu => ?_, fun hr => ?_⟩
  · have hp := hq.placed u
    unfold Sys.ready
    cases hpc : s.pc u <;> rw [hpc] at hp
    case ret c v => exact .inr (.inl ⟨c, v, rfl⟩)
    case aborted => exact .inr (.inr rfl)
    case zombie => exact absurd (List.mem_of_mem_head? hu) hp.1
    case get | parked => exact .inl (decide_eq_true hu)
    case ioCall | nonDetEnd | post | blocked =>
      have := hq.points u
      simp [hpc, Pc.inTurnProgram] at this
    all_goals exact .inl rfl
  · by_cases hw : s.rt.sched.waitq = []
    · refine .inr fun u => ?_
      by_contra hz
      simpa [hr, hw] using (hq.placed u).mem_or_waiter hz
    · exact .inl (Sched.exists_deadlocked hr hw)

/-- One thread waits on semaphore `0` at value `0`: the run queue is empty, and the deadlock rule
promotes the waiter. -/
theorem turnProgram_noHang_semRun :
    let s := ((Sys.init ⟨⟨0, 0⟩, fun _ => 1, fun _ => false, false, false⟩ 1).exec
      ⟨false, false, false, 1000, true, false⟩ turnApp [.call 0 (.call (.semWait 0)), .run 0,
        .run 0]).get (by decide)
    s.rt.sched.Deadlocked ⟨0, .sem 0, none⟩ ∧
      (∀ u, s.rt.sched.runq.head? = some u →
        s.ready u ∨ (∃ c v, s.pc u = .ret c v) ∨ s.pc u = .aborted) ∧
      (s.rt.sched.runq = [] → (∃ w, s.rt.sched.Deadlocked w) ∨ ∀ u, s.pc u = .zombie) :=
  ⟨by decide, turnProgram_noHang (exec_get_reachable _ _)⟩

end Readings

end Xtern
