import Xtern.Queues
import Xtern.Local
import Xtern.Join

/-! # Non-det regions and blocked I/O keep their threads out of the queues

`tern_non_det_start` waits on `nonDetCV`, takes the turn back, gives it up, and takes its thread
out of the run queue with `_S::block()` before it sets `inNonDet`. Until `tern_non_det_end`
clears `inNonDet` and puts the thread back with `_S::wakeup()`, the thread makes no scheduler
call: with `enforce_non_det_annotations`, every wrapper it enters passes through to the native
call or ends the process. An I/O wrapper's `BLOCK_TIMER_START` takes its thread out of the run
queue when `interProStart()` says so, and its `BLOCK_TIMER_END` puts it back when `interProEnd()`
does.

The scheduler thus sees a thread inside a non-det region, or blocked by `interProStart`, as it
sees a finished one: in neither queue. `Rt.seen` is that view, and `Sys.RegionQueued` says that
the queues hold every thread where the point it is seen at says (`Sched.Placed`), once. A step in
the turn makes no call that moves a thread out of turn (`Pc.Allows.regionTurn`), so `step_queues`
reads it over the seen points; the steps out of the turn, which block, wake up, or leave the
queues alone, are computed. The invariant holds in every
state of a region program, whose threads may enter non-det regions and call the I/O wrappers but
create no thread and do not fork, with the annotations enforced and `interProStart` and
`interProEnd` alike (`regionProgram_queues`). -/

namespace Xtern

/-! ### Region programs -/

/-- The calls that start a thread or a process, whose new thread the process model does not
run. -/
def Call.spawns : Call → Bool
  | .pthreadCreate | .fork => true
  | _ => false

/-- A region program: its threads call every wrapper but `pthread_create` and `fork`, the I/O
wrappers and `tern_non_det_end` included. -/
def regionApp : Pc → Bool
  | .call c => !c.spawns
  | .ioCall _ _ | .nonDetEnd => true
  | _ => false

/-- The points a thread of a region program reaches. -/
def Pc.inRegionProgram : Pc → Bool
  | .call c | .get (.body c) => !c.spawns
  | .post .beginHandshake | .post .beginDone => false
  | _ => true

/-- A thread inside an I/O wrapper, between `BLOCK_TIMER_START` and `BLOCK_TIMER_END`. -/
def Pc.isBlocked : Pc → Bool
  | .blocked _ => true
  | _ => false

/-! ### What the scheduler sees -/

/-- Thread `u` at `p` is out of the scheduler's view: inside a non-det region, or blocked in an
I/O wrapper by `interProStart`. -/
def Rt.hides (r : Rt) (u : Tid) (p : Pc) : Bool :=
  r.inNonDet u || p.isBlocked && r.env.interProStart

/-- The point the scheduler sees thread `u` at: a hidden thread is in neither queue, as a finished
one is. -/
def Rt.seen (r : Rt) (pc : Tid → Pc) (u : Tid) : Pc :=
  if r.hides u (pc u) then .zombie else pc u

namespace Rt

variable {r r' : Rt} {pc pc' : Tid → Pc} {u : Tid}

theorem seen_congr (hn : r'.inNonDet u = r.inNonDet u) (he : r'.env = r.env)
    (hp : pc' u = pc u) : r'.seen pc' u = r.seen pc u := by
  simp only [seen, hides, hn, he, hp]

theorem seen_update_self (t : Tid) (q : Pc) :
    r.seen (Function.update pc t q) t = if r.hides t q then .zombie else q := by
  simp only [seen, Function.update_same]

end Rt

/-! ### Blocking and waking up -/

namespace Sched

variable {s : Sched} {t : Tid} {pc : Tid → Pc}

/-- `block()` by a thread with no waiter: it leaves the run queue, and no other thread moves. -/
theorem Others.block (h : s.Others t pc) (ht : ∀ w ∈ s.waitq, w.tid ≠ t) :
    (s.block t).Others t pc ∧ (s.block t).Gone t :=
  ⟨⟨⟨h.distinct.runq.erase t, h.distinct.waitq⟩, fun u hu =>
    (h.placed u hu).of_sameFor ⟨List.mem_erase_of_ne hu, fun _ _ => Iff.rfl⟩⟩,
    h.distinct.runq.not_mem_erase, ht⟩

/-- `wakeup()` of a thread in neither queue: it joins the run queue, and no other thread moves. -/
theorem Others.wakeup (h : s.Others t pc) (ht : s.Gone t) :
    (s.wakeup t).Others t pc ∧ (s.wakeup t).Running t :=
  ⟨⟨⟨h.distinct.runq.append (List.nodup_singleton t) fun _ hu hu' =>
      ht.1 (List.mem_singleton.1 hu' ▸ hu), h.distinct.waitq⟩,
    fun u hu => (h.placed u hu).of_sameFor ⟨by simp [Sched.wakeup, hu], fun _ _ => Iff.rfl⟩⟩,
    List.mem_append_right _ (List.mem_singleton_self t), ht.2⟩

end Sched

/-! ### The steps in the turn -/

/-- The points of a region program that hold the turn make no call that moves a thread out of
turn. -/
theorem Pc.Allows.regionTurn {p : Pc} (hp : p.inTurn = true) (hr : p.inRegionProgram = true)
    {x : Rt} {e : Ev} (ha : p.Allows x e) : e.outOfTurn = false := by
  cases e <;> (try cases ‹Native›) <;> (try rfl) <;> (try cases ‹Bool›) <;> exfalso <;>
    cases p <;> simp_all [Pc.Allows, Pc.blocks, Pc.wakes, Pc.Natives, Pc.inTurn,
      Pc.inRegionProgram, Call.spawns]

/-- A point of a region program that holds the turn steps to a point of a region program, not
blocked. -/
theorem Next.inRegionProgram {p q : Pc} (h : Next p q) (hp : p.inTurn = true)
    (hr : p.inRegionProgram = true) : q.inRegionProgram = true ∧ q.isBlocked = false := by
  cases h <;> simp_all [Pc.inTurn, Pc.inRegionProgram, Pc.isBlocked, Call.spawns]

/-- A call that moves no thread out of turn leaves the caller's `inNonDet` alone. -/
theorem Ev.inNonDet_of_outOfTurn {e : Ev} (he : e.outOfTurn = false) (t : Tid) (x : Rt) :
    (e.apply t x).inNonDet = x.inNonDet := by
  cases e <;> (try cases ‹Native›) <;> (try cases ‹Write›) <;> first | rfl | cases he

section Turn

variable (o : Options) (t : Tid)

/-- A step of `t` keeps the environment and every other thread's `inNonDet`. -/
theorem step_seen_frame (p : Pc) (r : Rt) :
    (step o t p r).2.1.env = r.env ∧
      ∀ u, u ≠ t → (step o t p r).2.1.inNonDet u = r.inNonDet u :=
  ⟨step_frame Rt.env o t p r fun x e _ => Ev.env_apply t e x,
    fun u hu => step_frame (·.inNonDet u) o t p r fun x e _ => Ev.inNonDet_apply (Ne.symm hu) e x⟩

/-- A step in the turn of a region program, the thread running: every other thread stays where
it was, each thread is still once in the queues, the thread stands where the point it reaches
says, a point of a region program and not blocked, and no `inNonDet` changes. -/
theorem regionTurn_step {pc : Tid → Pc} {p : Pc} (hp : p.inTurn = true)
    (hr : p.inRegionProgram = true) {r : Rt} (ho : r.sched.Others t pc) (hs : r.sched.Running t) :
    (step o t p r).2.1.sched.Others t pc ∧ (step o t p r).2.1.sched.Placed t (step o t p r).1 ∧
      (step o t p r).1.inRegionProgram = true ∧ (step o t p r).1.isBlocked = false ∧
      (step o t p r).2.1.inNonDet = r.inNonDet :=
  have hq := step_queues o t (fun _ _ ha => Pc.Allows.regionTurn hp hr ha) ho hs
  have hn := (step_next o t p r).inRegionProgram hp hr
  ⟨hq.1, hq.2, hn.1, hn.2, step_frame Rt.inNonDet o t p r fun x _ ha =>
    Ev.inNonDet_of_outOfTurn (Pc.Allows.regionTurn hp hr ha) t x⟩

end Turn

/-! ### The steps out of the turn -/

section Out

variable (o : Options) (t : Tid) (r : Rt)

/-- `BLOCK_TIMER_START`: the native call on a bypassed regular file or inside a non-det region;
otherwise blocked, out of the run queue if `interProStart`. -/
theorem blockTimerStart_run (op : IoOp) (fd : Nat) : blockTimerStart o t op fd r =
    if (o.ignoreRwRegularFile && op.regularBypass && r.env.regular fd ||
        inNonDetRegion o t r) = true then (.native none, r, [])
    else if r.env.interProStart then (.blocked op, r.mapSched (·.block t), [.block])
    else (.blocked op, r, []) := by
  simp only [blockTimerStart, M.run_bind, M.run_rd]
  cases (o.ignoreRwRegularFile && op.regularBypass && r.env.regular fd) <;>
    cases inNonDetRegion o t r <;> try rfl
  by_cases h : r.env.interProStart = true <;> simp [h, block, run_call, Ev.apply]

/-- `BLOCK_TIMER_END`: back in the run queue if `interProEnd`. -/
theorem blockTimerEnd_run : blockTimerEnd t r =
    if r.env.interProEnd then (.ret none 0, r.mapSched (·.wakeup t), [.wakeup])
    else (.ret none 0, r, []) := by
  simp only [blockTimerEnd, M.run_bind, M.run_rd]
  split <;> simp [wakeup, run_call, Ev.apply]

/-- `RecorderRT::nonDetEnd`: out of the region and back in the run queue, or the end of the
process. -/
theorem nonDetEnd_run : nonDetEnd o t r =
    if (o.enforceNonDetAnnotations && r.inNonDet t) = true
    then (.ret none 0, (r.setInNonDet t false).mapSched (·.wakeup t), [.setInNonDet false, .wakeup])
    else (.aborted, r, []) := by
  simp only [nonDetEnd, M.run_bind, M.run_rd]
  cases o.enforceNonDetAnnotations <;> cases r.inNonDet t <;> simp [wakeup, run_call, Ev.apply]

/-- The end of `nonDetStart`: out of the run queue, then into the region, or the end of the
process if the thread is in one already. -/
theorem post_nonDetBlock_run : post t .nonDetBlock r =
    if r.inNonDet t then (.aborted, r.mapSched (·.block t), [.block])
    else (.ret (some .nonDetStart) 0, (r.mapSched (·.block t)).setInNonDet t true,
      [.block, .setInNonDet true]) := by
  simp only [post, block, M.run_bind, M.run_rd, run_call, Ev.apply, Rt.mapSched_inNonDet]
  cases r.inNonDet t <;> rfl

end Out

/-! ### The whole process -/

/-- Every thread is where the point the scheduler sees it at says, each once in the queues; every
thread is at a point of a region program, and none inside a non-det region is blocked in an I/O
wrapper; `interProEnd()` answers as `interProStart()` does; and no thread is about to start. -/
structure Sys.RegionQueued (s : Sys) : Prop where
  distinct : s.rt.sched.Distinct
  placed : ∀ u, s.rt.sched.Placed u (s.rt.seen s.pc u)
  points : ∀ u, (s.pc u).inRegionProgram = true
  regions : ∀ u, s.rt.inNonDet u = true → (s.pc u).isBlocked = false
  interPro : s.rt.env.interProEnd = s.rt.env.interProStart
  unborn : ∀ u, s.rt.pending u = false

namespace Sys.RegionQueued

variable {o : Options} {s : Sys} {t : Tid}

theorem others (h : s.RegionQueued) (t : Tid) : s.rt.sched.Others t (s.rt.seen s.pc) :=
  ⟨h.distinct, fun u _ => h.placed u⟩

/-- A hidden thread is in neither queue. -/
theorem gone (h : s.RegionQueued) (hh : s.rt.hides t (s.pc t) = true) : s.rt.sched.Gone t := by
  simpa only [Rt.seen, hh, if_true] using h.placed t

/-- A thread in view is where its point says. -/
theorem shown (h : s.RegionQueued) (hh : s.rt.hides t (s.pc t) = false) :
    s.rt.sched.Placed t (s.pc t) := by
  simpa only [Rt.seen, hh, Bool.false_eq_true, if_false] using h.placed t

section Update

variable {rt : Rt} {q : Pc} (h : s.RegionQueued) (ho : rt.sched.Others t (s.rt.seen s.pc))
  (hn : ∀ u, u ≠ t → rt.inNonDet u = s.rt.inNonDet u) (he : rt.env = s.rt.env)
  (hq : q.inRegionProgram = true) (hb : rt.inNonDet t = true → q.isBlocked = false)
  (hpe : ∀ u, rt.pending u = false)
include h ho hn he hq hb hpe

/-- Moving `t` to `q` with the runtime state `rt`, which keeps the other threads where their seen
points say, their `inNonDet` and the environment. -/
theorem update (ht : rt.sched.Placed t (if rt.hides t q then .zombie else q)) :
    (⟨rt, Function.update s.pc t q⟩ : Sys).RegionQueued where
  distinct := ho.distinct
  placed u := by
    dsimp only
    by_cases hu : u = t
    · subst hu; rw [Rt.seen_update_self]; exact ht
    · rw [Rt.seen_congr (hn u hu) he (Function.update_noteq hu _ _)]
      exact ho.placed u hu
  points := (Function.forall_update_iff _ fun _ (p : Pc) => p.inRegionProgram = true).2
    ⟨hq, fun u _ => h.points u⟩
  regions u hu := by
    dsimp only at hu ⊢
    by_cases e : u = t
    · subst e; rw [Function.update_same]; exact hb hu
    · rw [Function.update_noteq e]; exact h.regions u (hn u e ▸ hu)
  interPro := by dsimp only; rw [he]; exact h.interPro
  unborn := hpe

/-- `t` moves out of view, in neither queue. -/
theorem update_hidden (hh : rt.hides t q = true) (hg : rt.sched.Gone t) :
    (⟨rt, Function.update s.pc t q⟩ : Sys).RegionQueued :=
  h.update ho hn he hq hb hpe (by rw [if_pos hh]; exact hg)

/-- `t` moves to a point in view, where the queues hold it. -/
theorem update_shown (hh : rt.hides t q = false) (ht : rt.sched.Placed t q) :
    (⟨rt, Function.update s.pc t q⟩ : Sys).RegionQueued :=
  h.update ho hn he hq hb hpe (by rw [if_neg (Bool.eq_false_iff.1 hh)]; exact ht)

end Update

/-- A step of `t` that leaves the runtime state alone, to a point that `hides` reads as it reads
`t`'s, and that the queues hold where they hold `t`'s. -/
theorem stay {q : Pc} (h : s.RegionQueued) (hh : s.rt.hides t q = s.rt.hides t (s.pc t))
    (hpq : s.rt.sched.Placed t (s.pc t) → s.rt.sched.Placed t q) (hq : q.inRegionProgram = true)
    (hb : s.rt.inNonDet t = true → q.isBlocked = false) :
    (⟨s.rt, Function.update s.pc t q⟩ : Sys).RegionQueued := by
  cases hx : s.rt.hides t (s.pc t)
  · exact h.update_shown (h.others t) (fun _ _ => rfl) rfl hq hb h.unborn (hh.trans hx)
      (hpq (h.shown hx))
  · exact h.update_hidden (h.others t) (fun _ _ => rfl) rfl hq hb h.unborn (hh.trans hx)
      (h.gone hx)

/-! The steps out of the turn. -/

theorem runStep_of_pc {p : Pc} (hp : s.pc t = p) :
    s.runStep o t = ⟨(step o t p s.rt).2.1, Function.update s.pc t (step o t p s.rt).1⟩ := by
  rw [Sys.runStep, hp]

/-- `enter`: to the turn, to the native call, or the end of the process; nothing changes. -/
theorem runStep_call (h : s.RegionQueued) {c : Call} (hp : s.pc t = .call c) :
    (s.runStep o t).RegionQueued := by
  have hc : c.spawns = false := by simpa [hp, Pc.inRegionProgram] using h.points t
  have hn := step_next o t (.call c) s.rt
  rw [runStep_of_pc hp, congrArg Prod.fst (step_call_rt o t c s.rt)]
  generalize (step o t (.call c) s.rt).1 = q at hn ⊢
  cases hn <;>
    exact h.stay (by simp [Rt.hides, hp, Pc.isBlocked]) (fun h' => by rw [hp] at h'; exact h')
      (by simp [Pc.inRegionProgram, hc]) fun _ => rfl

/-- A native call returns; nothing changes. -/
theorem runStep_native (h : s.RegionQueued) {c : Option Call} (hp : s.pc t = .native c) :
    (s.runStep o t).RegionQueued := by
  rw [runStep_of_pc hp, step, M.run_pure]
  exact h.stay (by simp [Rt.hides, hp, Pc.isBlocked]) (fun h' => by rw [hp] at h'; exact h') rfl
    fun _ => rfl

/-- `BLOCK_TIMER_START`: the native call, or blocked, out of the run queue when `interProStart`
says so. -/
theorem runStep_ioCall (ho : o.enforceNonDetAnnotations = true) (h : s.RegionQueued) {op : IoOp}
    {fd : Nat} (hp : s.pc t = .ioCall op fd) : (s.runStep o t).RegionQueued := by
  rw [runStep_of_pc hp, step, blockTimerStart_run]
  split_ifs with hn hi
  · exact h.stay (by simp [Rt.hides, hp, Pc.isBlocked]) (fun h' => by rw [hp] at h'; exact h') rfl
      fun _ => rfl
  all_goals
    have hnd : s.rt.inNonDet t = false := by
      cases e : s.rt.inNonDet t
      · rfl
      · simp [inNonDetRegion, ho, e] at hn
    have hs : s.rt.sched.Running t := by
      have := h.shown (t := t) (by simp [Rt.hides, hp, Pc.isBlocked, hnd]); rw [hp] at this
      exact this
  · obtain ⟨ho', hg⟩ := (h.others t).block hs.2
    exact h.update_hidden ho' (fun _ _ => rfl) rfl rfl (fun e => absurd e (by simp [hnd]))
      h.unborn (by simp [Rt.hides, Pc.isBlocked, hi]) hg
  · exact h.stay (by simp [Rt.hides, hp, Pc.isBlocked, hi]) (fun _ => hs) rfl
      fun e => absurd e (by simp [hnd])

/-- `tern_non_det_end`: out of the region and back in the run queue, or the end of the process. -/
theorem runStep_nonDetEnd (ho : o.enforceNonDetAnnotations = true) (h : s.RegionQueued)
    (hp : s.pc t = .nonDetEnd) : (s.runStep o t).RegionQueued := by
  rw [runStep_of_pc hp, step, nonDetEnd_run, ho]
  cases hn : s.rt.inNonDet t <;>
    simp only [Bool.and_false, Bool.and_self, Bool.false_eq_true, if_true, if_false]
  · exact h.stay (by simp [Rt.hides, hp, Pc.isBlocked]) (fun h' => by rw [hp] at h'; exact h') rfl
      fun _ => rfl
  · obtain ⟨ho', hw⟩ := (h.others t).wakeup (h.gone (by simp [Rt.hides, hn]))
    exact h.update_shown ho' (fun u hu => Function.update_noteq hu _ _) rfl rfl (fun _ => rfl)
      h.unborn (by simp [Rt.hides, Pc.isBlocked]) hw

/-- The end of `tern_non_det_start`: out of the run queue, and inside the region. -/
theorem runStep_post (h : s.RegionQueued) {k : Post} (hp : s.pc t = .post k) :
    (s.runStep o t).RegionQueued := by
  obtain rfl : k = .nonDetBlock := by
    cases k <;> first | rfl | exact absurd (h.points t) (by simp [hp, Pc.inRegionProgram])
  have hw : ∀ w ∈ s.rt.sched.waitq, w.tid ≠ t := by
    cases hx : s.rt.hides t (s.pc t)
    · have := h.shown hx; rw [hp] at this; exact this.2
    · exact (h.gone hx).2
  obtain ⟨ho', hg⟩ := (h.others t).block hw
  rw [runStep_of_pc hp, step, post_nonDetBlock_run]
  cases hn : s.rt.inNonDet t <;> simp only [Bool.false_eq_true, if_true, if_false]
  · exact h.update_hidden ho' (fun u hu => Function.update_noteq hu _ _) rfl rfl (fun _ => rfl)
      h.unborn (by simp [Rt.hides]) hg
  · exact h.update_hidden ho' (fun _ _ => rfl) rfl rfl (fun _ => rfl) h.unborn
      (by simp [Rt.hides, hn]) hg

/-- `BLOCK_TIMER_END`: back in the run queue when `interProEnd` says so. -/
theorem runStep_blocked (h : s.RegionQueued) {op : IoOp} (hp : s.pc t = .blocked op) :
    (s.runStep o t).RegionQueued := by
  have hn : s.rt.inNonDet t = false := by
    have := h.regions t; rw [hp] at this; simpa [Pc.isBlocked] using this
  rw [runStep_of_pc hp, step, blockTimerEnd_run, h.interPro]
  cases hi : s.rt.env.interProStart <;> simp only [Bool.false_eq_true, if_true, if_false]
  · exact h.stay (by simp [Rt.hides, hp, Pc.isBlocked, hi]) (fun h' => by rw [hp] at h'; exact h')
      rfl fun _ => rfl
  · obtain ⟨ho', hw⟩ := (h.others t).wakeup (h.gone (by simp [Rt.hides, hp, Pc.isBlocked, hi]))
    exact h.update_shown ho' (fun _ _ => rfl) rfl rfl (fun _ => rfl) h.unborn
      (by simp [Rt.hides, Pc.isBlocked, hn]) hw

/-- A step in the turn, by the thread at the head of the run queue. -/
theorem runStep_turn (h : s.RegionQueued) (hp : (s.pc t).inTurn = true)
    (hhead : s.rt.sched.runq.head? = some t) : (s.runStep o t).RegionQueued := by
  have hmem : t ∈ s.rt.sched.runq := List.mem_of_mem_head? hhead
  have hnd : s.rt.inNonDet t = false := by
    cases hx : s.rt.hides t (s.pc t)
    · simp only [Rt.hides, Bool.or_eq_false_iff] at hx; exact hx.1
    · exact absurd hmem (h.gone hx).1
  obtain ⟨ho', hpl, hreg, hblk, hn⟩ := regionTurn_step o t hp (h.points t) (h.others t)
    ⟨hmem, (h.placed t).not_waiter hmem⟩
  have hc : s.pc t ≠ .get (.body .pthreadCreate) := fun e => by
    simpa [e, Pc.inRegionProgram, Call.spawns] using h.points t
  have hpe := (step_unborn o t hc s.rt).2
  exact h.update_shown ho' (step_seen_frame o t _ s.rt).2 (step_seen_frame o t _ s.rt).1 hreg
    (fun _ => hblk) (fun u => Bool.eq_false_iff.2 fun hu => by simpa [h.unborn u] using hpe u hu)
    (by simp [Rt.hides, hn, hnd, hblk]) hpl

/-- Every step of a thread of a region program keeps it, with the annotations enforced. -/
theorem runStep (ho : o.enforceNonDetAnnotations = true) (h : s.RegionQueued) (hr : s.ready t) :
    (s.runStep o t).RegionQueued := by
  cases hp : s.pc t with
  | call c => exact h.runStep_call hp
  | native c => exact h.runStep_native hp
  | ioCall op fd => exact h.runStep_ioCall ho hp
  | nonDetEnd => exact h.runStep_nonDetEnd ho hp
  | post k => exact h.runStep_post hp
  | blocked op => exact h.runStep_blocked hp
  | get k | parked k => exact h.runStep_turn (by rw [hp]; rfl) (by simpa [Sys.ready, hp] using hr)
  | zombie => simp [Sys.ready, hp, h.unborn t] at hr
  | ret | aborted => simp [Sys.ready, hp] at hr

/-- A promotion releases a waiter, whose thread is parked, back to the run queue. -/
theorem promote (h : s.RegionQueued) {w : Waiter} (hw : w ∈ s.rt.sched.waitq) :
    (s.promote w).RegionQueued :=
  have hsub := List.singleton_sublist.2 hw
  ⟨h.distinct.wake hsub (fun w hw => ((h.placed w.tid).waiter hw rfl).1) .timedout,
    fun u => (h.placed u).wake h.distinct hsub .timedout, h.points, h.regions, h.interPro,
    h.unborn⟩

/-- Every move of a region program keeps it, with the annotations enforced. -/
theorem step {s' : Sys} (ho : o.enforceNonDetAnnotations = true) (h : s.RegionQueued)
    (hs : Step o regionApp s s') : s'.RegionQueued := by
  cases hs with
  | @call t c v p hp ha =>
    cases p <;> simp only [regionApp, Bool.false_eq_true] at ha <;>
      exact h.stay (by simp [Rt.hides, hp, Pc.isBlocked]) (fun h' => by rw [hp] at h'; exact h')
        (by first | rfl | exact ha) fun _ => rfl
  | run hr => exact h.runStep ho hr
  | expire hw => exact h.promote hw.1
  | deadlock hw => exact h.promote hw.2.1

end Sys.RegionQueued

theorem Sys.regionQueued_init (env : Env) (n : Nat) (he : env.interProEnd = env.interProStart) :
    (Sys.init env n).RegionQueued where
  distinct := (Sys.queued_init env n).distinct
  placed u := by
    have hs : (Sys.init env n).rt.seen (Sys.init env n).pc u = (Sys.init env n).pc u := by
      simp only [Rt.seen, Rt.hides, Sys.init, Rt.init]
      split_ifs <;> simp_all [Pc.isBlocked]
    rw [hs]
    exact (Sys.queued_init env n).placed u
  points u := by simp only [Sys.init]; split_ifs <;> rfl
  regions _ hu := absurd hu Bool.false_ne_true
  interPro := he
  unborn _ := rfl

theorem Reachable.regionQueued {o : Options} {env : Env} {n : Nat} {s : Sys}
    (ho : o.enforceNonDetAnnotations = true) (he : env.interProEnd = env.interProStart)
    (h : Reachable o regionApp (Sys.init env n) s) : s.RegionQueued := by
  induction h with
  | init => exact Sys.regionQueued_init env n he
  | step _ hs ih => exact ih.step ho hs

/-! ### What the invariant says -/

/-- Queue accounting of a region program (threads that may enter non-det regions and call the I/O
wrappers, but create no thread and do not fork), with `enforce_non_det_annotations` on and
`interProStart()` and `interProEnd()` alike. In every state it reaches: no thread is twice in the
run queue or twice in the wait queue; a thread inside a non-det region is in neither queue, and
so is a thread blocked in an I/O wrapper while `interProStart()` blocks; every other thread that
has not finished is in one of the two queues, and not in both; and the thread of every waiter is
parked on the waiter's channel. -/
theorem regionProgram_queues {o : Options} {env : Env} {n : Nat} {s : Sys}
    (ho : o.enforceNonDetAnnotations = true) (he : env.interProEnd = env.interProStart)
    (h : Reachable o regionApp (Sys.init env n) s) :
    s.rt.sched.runq.Nodup ∧ (s.rt.sched.waitq.map (·.tid)).Nodup ∧
      (∀ u, s.rt.hides u (s.pc u) = true →
        u ∉ s.rt.sched.runq ∧ ∀ w ∈ s.rt.sched.waitq, w.tid ≠ u) ∧
      (∀ u, s.rt.hides u (s.pc u) = false → (s.pc u ≠ .zombie ↔
        u ∈ s.rt.sched.runq ∨ ∃ w ∈ s.rt.sched.waitq, w.tid = u)) ∧
      (∀ u ∈ s.rt.sched.runq, ∀ w ∈ s.rt.sched.waitq, w.tid ≠ u) ∧
      ∀ w ∈ s.rt.sched.waitq, ∃ k, s.pc w.tid = .parked k ∧ k.chan = w.chan := by
  have hq := h.regionQueued ho he
  refine ⟨hq.distinct.runq, hq.distinct.waitq, fun u hu => hq.gone hu, fun u hu => ?_,
    fun u hu => (hq.placed u).not_waiter hu, fun w hw => ?_⟩
  · have hp := hq.shown hu
    refine ⟨hp.mem_or_waiter, ?_⟩
    rintro hu' hz
    have hg : s.rt.sched.Placed u .zombie := hz ▸ hp
    rcases hu' with hu' | ⟨w, hw, he⟩
    exacts [hg.1 hu', hg.2 w hw he]
  · obtain ⟨k, hk, hc⟩ := (hq.placed w.tid).chan hq.distinct hw
    refine ⟨k, ?_, hc⟩
    by_cases hx : s.rt.hides w.tid (s.pc w.tid) = true
    · simp [Rt.seen, hx] at hk
    · simpa [Rt.seen, hx] using hk

/-- Thread `0` enters a non-det region while thread `1` is blocked in `read`: once the run queue
is empty, the deadlock rule releases thread `0` from `nonDetCV`; it leaves the run queue and sets
`inNonDet`, and thread `1`'s `BLOCK_TIMER_END` puts it back in the run queue. -/
theorem regionProgram_queues_nonDetRun :
    let o : Options := ⟨false, true, false, 1000, false, false⟩
    let env : Env := ⟨⟨0, 0⟩, fun _ => 1, fun _ => false, true, true⟩
    let s := ((Sys.init env 2).exec o regionApp [.call 0 (.call .nonDetStart), .run 0, .run 0,
      .call 1 (.ioCall .read 3), .run 1, .promote ⟨0, .nonDet, none⟩, .run 0, .run 0,
      .run 1]).get (by decide)
    s.rt.inNonDet 0 = true ∧ s.rt.sched.runq = [1] ∧
      s.rt.sched.runq.Nodup ∧ (s.rt.sched.waitq.map (·.tid)).Nodup ∧
      (∀ u, s.rt.hides u (s.pc u) = true →
        u ∉ s.rt.sched.runq ∧ ∀ w ∈ s.rt.sched.waitq, w.tid ≠ u) ∧
      (∀ u, s.rt.hides u (s.pc u) = false → (s.pc u ≠ .zombie ↔
        u ∈ s.rt.sched.runq ∨ ∃ w ∈ s.rt.sched.waitq, w.tid = u)) ∧
      (∀ u ∈ s.rt.sched.runq, ∀ w ∈ s.rt.sched.waitq, w.tid ≠ u) ∧
      ∀ w ∈ s.rt.sched.waitq, ∃ k, s.pc w.tid = .parked k ∧ k.chan = w.chan :=
  ⟨by decide, by decide, regionProgram_queues rfl rfl (exec_get_reachable _ _)⟩


end Xtern
