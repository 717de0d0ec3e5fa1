import Xtern.Queues

/-! # The run queue is first in, first out

In a turn program the run queue only grows at its tail and only loses its head: `signal` and the
promotions append the threads they release, and the head leaves the front when it gives the turn
up (`putTurn`, `wait`, or `putTurn(true)` at its end). No move takes a thread out of the middle
of the queue or puts one in front of another (`turnProgram_fifo`), so a thread waiting for the
turn is never passed, and each turn given up by the thread at the head brings it one place
forward.

`Ev.fifo_apply` reads each call of the head `t` for this: from a run queue that is `t`, then `R`,
then the threads appended since, the call keeps `R` at the front, behind `t` while `t` stands at
the head (`Gh.atHead`: it holds the turn, or waits for it there), alone once `t` has given it
up; the automaton of `step_calls` lets `t` take the turn once in a step (`Gh.TakesOnce`). -/

namespace Xtern

/-- The run queue in the code of the head `t`: `t` then `R` while `t` holds the turn, `R` once it
has given it up, followed by the threads appended since. -/
def Fronted (t : Tid) (R q : List Tid) : Bool → Prop
  | true => ∃ X, q = t :: R ++ X
  | false => ∃ X, q = R ++ X

namespace Fronted

variable {t : Tid} {R q : List Tid} {b : Bool} {s : Sched}

theorem append (h : Fronted t R q b) (W : List Tid) : Fronted t R (q ++ W) b := by
  cases b <;> obtain ⟨X, rfl⟩ := h <;> exact ⟨X ++ W, by simp⟩

theorem putTurn (h : Fronted t R s.runq true) : Fronted t R s.putTurn.runq false := by
  obtain ⟨X, e⟩ := h
  unfold Sched.putTurn
  rw [e]
  exact ⟨X ++ [t], by simp⟩

theorem erase (h : Fronted t R q true) : Fronted t R (q.erase t) false := by
  obtain ⟨X, rfl⟩ := h
  exact ⟨X, List.erase_cons_head _ _⟩

end Fronted

/-! ### One call of the head -/

/-- Every call but the turn's own, `block` and `wakeup` keeps the turn as it is. -/
theorem Hold.next_keep {h h' : Hold} {e : Ev} (hn : h.next e = some h') (he : e ≠ .getTurn)
    (hp : e ≠ .putTurn) (hd : e ≠ .endTurn) (hb : e ≠ .block) (hw : e ≠ .wakeup) : h' = h := by
  cases h <;> cases e <;> simp_all [Hold.next]

/-- Whether the thread running a step from `p` stands at the head of the run queue: it holds the
turn, or waits for it there. -/
def Gh.atHead (p : Pc) (g : Gh) : Bool :=
  g.stand == .running && (g.hold == .held || p.isGet && g.fresh)

/-- A step from a point that waits for the turn takes it once. -/
def Gh.TakesOnce (p : Pc) (g : Gh) : Prop := p.isGet = true → g.hold = .held → g.fresh = false

theorem Ev.fifo_apply {t : Tid} {R : List Tid} {p : Pc} (hp : p.inTurnProgram = true) {x : Rt}
    {e : Ev} {g g₁ : Gh} (ha : p.Allows x e) (hn : g.next e = some g₁) (hI : g.TakesOnce p)
    (hf : Fronted t R x.sched.runq (g.atHead p)) :
    g₁.TakesOnce p ∧ Fronted t R (e.apply t x).sched.runq (g₁.atHead p) := by
  obtain ⟨hr, hst⟩ := Gh.next_stand hn
  have hh := Gh.next_hold hn
  have hfr := Gh.next_fresh hn
  have he := ha.turnProgram hp
  have hat : g.atHead p = (g.hold == .held || p.isGet && g.fresh) := by simp [Gh.atHead, hr]
  have hat₁ : g₁.atHead p = (e.stand == .running && (g₁.hold == .held || p.isGet && g₁.fresh)) := by
    simp [Gh.atHead, hst]
  -- a call that keeps the turn and the fresh flag and only appends to the run queue
  have keep (hs : e.stand = .running) (hh' : g₁.hold = g.hold) (hf' : g₁.fresh = g.fresh)
      (hq : ∃ W, (e.apply t x).sched.runq = x.sched.runq ++ W) :
      g₁.TakesOnce p ∧ Fronted t R (e.apply t x).sched.runq (g₁.atHead p) := by
    obtain ⟨W, hq⟩ := hq
    rw [hat₁, hs, hh', hf', hq, ← hat]
    exact ⟨fun h₁ h₂ => hf' ▸ hI h₁ (hh' ▸ h₂), by simpa using hf.append W⟩
  have same (hne : e ≠ .getTurn) (hp' : e ≠ .putTurn) (hd : e ≠ .endTurn) (hs : e.stand = .running)
      (hq : ∃ W, (e.apply t x).sched.runq = x.sched.runq ++ W) :
      g₁.TakesOnce p ∧ Fronted t R (e.apply t x).sched.runq (g₁.atHead p) :=
    keep hs (Hold.next_keep hh hne hp' hd (by rintro rfl; cases he) (by rintro rfl; cases he))
      (by simpa [hne] using hfr) hq
  cases e with
  | getTurn =>
    simp only [if_true] at hfr
    cases hg : g.hold <;> simp only [hg, Hold.next, reduceCtorEq, Option.some.injEq] at hh
    have hgt : p.isGet = true := ha
    rw [hat₁, ← hh]
    rw [hat, hg, hgt, hfr.1] at hf
    exact ⟨fun _ _ => hfr.2, by simpa [Ev.stand] using hf⟩
  | putTurn =>
    cases hg : g.hold <;> simp only [hg, Hold.next, reduceCtorEq, Option.some.injEq] at hh
    simp only [if_neg (by nofun : Ev.putTurn ≠ .getTurn)] at hfr
    rw [hat, hg] at hf
    refine ⟨fun _ h => (by rw [← hh] at h; cases h), ?_⟩
    rw [hat₁, ← hh, hfr]
    have := Fronted.putTurn (by simpa using hf)
    cases hgt : p.isGet
    · simpa [Ev.stand] using this
    · simpa [Ev.stand, hI hgt hg] using this
  | endTurn =>
    cases hg : g.hold <;> simp only [hg, Hold.next, reduceCtorEq, Option.some.injEq] at hh
    rw [hat, hg] at hf
    refine ⟨fun _ h => (by rw [← hh] at h; cases h), ?_⟩
    rw [hat₁]
    exact (Fronted.erase (by simpa using hf)).append _
  | wait ch dl =>
    cases hg : g.hold <;> simp only [hg, Hold.next, reduceCtorEq, Option.some.injEq] at hh
    simp only [if_neg (by nofun : Ev.wait ch dl ≠ .getTurn)] at hfr
    rw [hat, hg] at hf
    refine ⟨fun h₁ _ => hfr ▸ hI h₁ hg, ?_⟩
    rw [hat₁]
    exact Fronted.erase (by simpa using hf)
  | block | wakeup | create | childForkReturn => cases he
  | signal ch all => exact same nofun nofun nofun rfl ⟨_, rfl⟩
  | native n => exact same nofun nofun nofun rfl ⟨[], by cases n <;> simp [Ev.apply, Native.apply]⟩
  | mutate w => exact same nofun nofun nofun rfl ⟨[], by cases w <;> simp [Ev.apply, Write.apply]⟩
  | incTurnCount | logSync | join | setInNonDet =>
    exact same nofun nofun nofun rfl ⟨[], by simp [Ev.apply, Sched.incTurnCount, Sched.join]⟩
/-! ### One step -/

section Step

variable (o : Options) (t : Tid)

/-- A step of a thread of a turn program from a point that waits for the turn, taken at the head
of the run queue `t :: R`: the queue after it is `t :: R` or `R`, followed by the threads the
step appended. -/
theorem fifo_step {p : Pc} (hp : p.inTurnProgram = true)
    (hq : (∃ k, p = .get k) ∨ ∃ k, p = .parked k) {r : Rt} {R : List Tid}
    (hr : r.sched.runq = t :: R) : ∃ b, Fronted t R (step o t p r).2.1.sched.runq b := by
  obtain ⟨g', hacc, hrep, -⟩ := step_spec o t (Gh.start_starts o p.holdOk_holdAt) r
  have h₀ : (Gh.start p p.holdAt).atHead p = true := by
    rcases hq with ⟨k, rfl⟩ | ⟨k, rfl⟩ <;> rfl
  have hI : (Gh.start p p.holdAt).TakesOnce p := fun hg hh => by
    cases p <;> simp_all [Pc.isGet, Pc.holdAt, Gh.start]
  have := hacc.fold (P := fun g x => g.TakesOnce p ∧ Fronted t R x.sched.runq (g.atHead p))
    (fun _ _ _ _ ha hn h => Ev.fifo_apply hp ha hn h.1 h.2) ⟨hI, by rw [h₀, hr]; exact ⟨[], by simp⟩⟩
  rw [← hrep] at this
  exact ⟨_, this.2⟩

/-- A step from a wrapper's entry or a native call leaves the runtime state alone. -/
theorem step_rt_of_local {p : Pc} (hp : (∃ c, p = .call c) ∨ ∃ c, p = .native c) (r : Rt) :
    (step o t p r).2.1 = r := by
  rcases hp with ⟨c, rfl⟩ | ⟨c, rfl⟩
  · exact congrArg Prod.fst (step_call_rt o t c r)
  · rfl

end Step

/-! ### The whole process -/

/-- The run queue of a turn program is first in, first out. Every move from a reachable state
leaves the run queue, or the run queue without its head, followed by the threads the move
appends: no move takes a thread out of the middle of the queue or puts one in front of another. -/
theorem turnProgram_fifo {o : Options} {env : Env} {n : Nat} {s s' : Sys}
    (h : Reachable o turnApp (Sys.init env n) s) (hs : Step o turnApp s s') :
    ∃ X, s'.rt.sched.runq = s.rt.sched.runq ++ X ∨ s'.rt.sched.runq = s.rt.sched.runq.tail ++ X := by
  cases hs with
  | call => exact ⟨[], .inl (List.append_nil _).symm⟩
  | expire | deadlock => exact ⟨_, .inl rfl⟩
  | @run t hr =>
    by_cases hq : (∃ k, s.pc t = .get k) ∨ ∃ k, s.pc t = .parked k
    · have hhead : s.rt.sched.runq = t :: s.rt.sched.runq.tail := by
        obtain ⟨k, hk⟩ | ⟨k, hk⟩ := hq <;>
          · simp only [Sys.ready, hk, decide_eq_true_eq] at hr
            exact List.eq_cons_of_mem_head? hr
      obtain ⟨b, hb⟩ := fifo_step o t (h.queued.points t) hq hhead
      cases b <;> obtain ⟨X, e⟩ := hb
      · exact ⟨X, .inr e⟩
      · exact ⟨X, .inl (e.trans (by rw [← hhead]))⟩
    · -- the other points a thread of a turn program can step from
      have hl : (∃ c, s.pc t = .call c) ∨ ∃ c, s.pc t = .native c := by
        have hpt := h.queued.points t
        have hu := h.queued.unborn t
        cases hpc : s.pc t <;> simp_all [Sys.ready, Pc.inTurnProgram]
      have hrt := step_rt_of_local o t hl s.rt
      exact ⟨[], .inl (by simp [Sys.runStep, hrt])⟩

/-- Thread `0` holds mutex `0` and thread `1`, at the head, finds it taken: its turn takes it off
the front of the run queue `[1, 0]` and leaves `[0]`. -/
theorem turnProgram_fifo_lockRun :
    let o : Options := ⟨false, false, false, 1000, true, false⟩
    let s := ((Sys.init ⟨⟨0, 0⟩, fun _ => 1, fun _ => false, false, false⟩ 2).exec o turnApp
      [.call 0 (.call (.pthreadMutexLock 0)), .run 0, .run 0, .call 1 (.call (.pthreadMutexLock 0)),
        .run 1]).get (by decide)
    let s' := (s.move o turnApp (.run 1)).get (by decide)
    s.rt.sched.runq = [1, 0] ∧ s'.rt.sched.runq = [0] ∧
      ∃ X, s'.rt.sched.runq = s.rt.sched.runq ++ X ∨ s'.rt.sched.runq = s.rt.sched.runq.tail ++ X :=
  ⟨by decide, by decide,
    turnProgram_fifo (exec_get_reachable _ _) (Sys.move_step (Option.some_get _).symm)⟩

end Xtern
