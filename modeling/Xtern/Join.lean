import Xtern.Wakeup

/-! # `pthread_join` and the zombie set

A thread that ends puts itself in the scheduler's zombie set (`putTurn(true)` in
`sched_thread_end`); `pthreadJoin(th)` waits on `th`'s channel until `th` is in the set, reaps it
(`_S::join(th)`) and returns. So `pthread_join` returns only once the thread it joins has ended,
and for good: no thread starts again under an id that has ended.

Ids are handed out in `pthreadCreate`'s turn section, which spawns the thread `nthread`
(`__tern_pthread_create`) and counts it (`_S::create`). `Sys.Born` says what this gives every
reachable state: a thread that has started has a taken id and no spawn pending (`Rt.Gone`), and a
pending spawn is of a taken id. Every call keeps an id gone (`Ev.gone_apply`), so an ended thread
whose id is gone (`Sys.Ended`) never runs again.

`step_reaps` reads one step of a thread `t` not in the zombie set call by call (`Reaps`): only
`t` joins the set, when it ends; `t` reaps only threads in it, and comes back from
`pthread_join(th)` only after reaping `th`. `Reachable.joinInv` reads it on every state any
program reaches. The calls a thread is parked inside are never `pthread_join` but in `joinRetry`
(`Pc.joinFree`): the code after such a wait returns to that call. -/

namespace Xtern

/-! ### Thread ids -/

/-- Thread `u`'s id is taken and no spawn of it is pending: nothing starts `u` again. -/
def Rt.Gone (r : Rt) (u : Tid) : Prop := r.pending u = false ∧ u < r.sched.nthread

/-- Every call keeps an id gone: a spawn is of the next free id, and the child of `fork` has no
spawn pending. -/
theorem Ev.gone_apply {p : Pc} {x : Rt} {e : Ev} (t : Tid) (ha : p.Allows x e) {u : Tid}
    (h : x.Gone u) : (e.apply t x).Gone u := by
  obtain ⟨hp, hn⟩ := h
  cases e with
  | native n =>
    cases n with
    | spawn th =>
      have hu : u ≠ th := by rw [ha.2]; exact Nat.ne_of_lt hn
      exact ⟨by simp [Ev.apply, Native.apply, Function.update_noteq hu, hp], hn⟩
    | beginWait => exact ⟨by by_cases hu : u = t <;> simp [Ev.apply, Native.apply, hu, hp], hn⟩
    | forkChild => exact ⟨rfl, hn⟩
    | _ => exact ⟨hp, hn⟩
  | create th => exact ⟨hp, Nat.lt_succ_of_lt hn⟩
  | mutate w => cases w <;> exact ⟨hp, hn⟩
  | putTurn => exact ⟨hp, by simpa [Ev.apply] using hn⟩
  | _ => exact ⟨hp, hn⟩

/-- Every step keeps an id gone. -/
theorem step_gone (o : Options) (t : Tid) (p : Pc) (r : Rt) {u : Tid} (h : r.Gone u) :
    (step o t p r).2.1.Gone u :=
  step_keeps (·.Gone u) o t p (fun _ _ ha => Ev.gone_apply t ha) h

/-- Outside `pthreadCreate`'s turn section a call counts no thread and spawns none. -/
theorem Ev.unborn_apply {p : Pc} (hp : p ≠ .get (.body .pthreadCreate)) {x : Rt} {e : Ev}
    (t : Tid) (ha : p.Allows x e) : (e.apply t x).sched.nthread = x.sched.nthread ∧
      ∀ u, (e.apply t x).pending u = true → x.pending u = true := by
  cases e with
  | create th => exact absurd ha.1 hp
  | native n =>
    cases n with
    | spawn th => exact absurd ha.1 hp
    | beginWait =>
      refine ⟨rfl, fun u h => ?_⟩
      by_cases hu : u = t <;> simp_all [Ev.apply, Native.apply]
    | forkChild => exact ⟨rfl, fun _ h => Bool.noConfusion h⟩
    | _ => exact ⟨rfl, fun _ => id⟩
  | mutate w => cases w <;> exact ⟨rfl, fun _ => id⟩
  | putTurn => exact ⟨by simp [Ev.apply], fun _ => id⟩
  | _ => exact ⟨rfl, fun _ => id⟩

theorem step_unborn (o : Options) (t : Tid) {p : Pc} (hp : p ≠ .get (.body .pthreadCreate))
    (r : Rt) : (step o t p r).2.1.sched.nthread = r.sched.nthread ∧
      ∀ u, (step o t p r).2.1.pending u = true → r.pending u = true :=
  step_keeps (fun x => x.sched.nthread = r.sched.nthread ∧ ∀ u, x.pending u = true → r.pending u = true)
    o t p (fun _ _ ha ⟨hn, hu⟩ => ⟨(Ev.unborn_apply hp t ha).1.trans hn,
      fun u h => hu u ((Ev.unborn_apply hp t ha).2 u h)⟩) ⟨rfl, fun _ => id⟩

/-- `pthreadCreate`'s turn section spawns the thread `nthread` and counts it. -/
theorem step_pthreadCreate (o : Options) (t : Tid) (r : Rt) :
    (step o t (.get (.body .pthreadCreate)) r).2.1.pending =
        Function.update r.pending r.sched.nthread true ∧
      (step o t (.get (.body .pthreadCreate)) r).2.1.sched.nthread = r.sched.nthread + 1 := by
  simp [step, body, getTurn, create, M.run_bind, run_call, M.run_rd, Ev.apply, Native.apply,
    Rt.mapSched, Sched.create]

/-- A thread that starts passes `sem_wait(&thread_begin_sem)`: its spawn is no longer pending. -/
theorem step_begin (o : Options) (t : Tid) (r : Rt) : (step o t .zombie r).2.1.pending t = false := by
  simp [step, begin, M.run_bind, run_call, M.run_pure, Ev.apply, Native.apply]

/-- Thread ids in a state: a thread that has started has its id gone, and a pending spawn is of
a taken id. -/
structure Sys.Born (s : Sys) : Prop where
  started : ∀ u, s.pc u ≠ .zombie → s.rt.Gone u
  pending : ∀ u, s.rt.pending u = true → u < s.rt.sched.nthread

namespace Sys.Born

variable {o : Options} {app : Pc → Bool} {s s' : Sys} {t : Tid}

/-- Moving thread `t` to `q` with a state that keeps ids gone. -/
theorem update (h : s.Born) {rt : Rt} {q : Pc} (hq : q ≠ .zombie → rt.Gone t)
    (hg : ∀ u, s.rt.Gone u → rt.Gone u) (hp : ∀ u, rt.pending u = true → u < rt.sched.nthread) :
    (⟨rt, Function.update s.pc t q⟩ : Sys).Born where
  started u hu := by
    by_cases hut : u = t
    · subst hut; exact hq (by simpa using hu)
    · exact hg u (h.started u (by simpa [Function.update_noteq hut] using hu))
  pending := hp

/-- Every move keeps it: `pthreadCreate` spawns the next id and counts it in one step, and a
thread that starts passes `sem_wait(&thread_begin_sem)`. -/
theorem step (h : s.Born) (hs : Step o app s s') : s'.Born := by
  cases hs with
  | @call t c v p hp =>
    exact h.update (fun _ => h.started t (by rw [hp]; nofun)) (fun _ => id) h.pending
  | @run t hr =>
    refine h.update (fun hq => ?_) (fun u => step_gone o t _ _) ?_
    · by_cases hz : s.pc t = .zombie
      · have hpt : s.rt.pending t = true := by simp_all [Sys.ready]
        refine ⟨hz ▸ step_begin o t s.rt, ?_⟩
        rw [hz, (step_unborn o t (by nofun) s.rt).1]
        exact h.pending t hpt
      · exact step_gone o t _ _ (h.started t hz)
    · intro u hu
      by_cases hc : s.pc t = .get (.body .pthreadCreate)
      · obtain ⟨hpe, hn⟩ := step_pthreadCreate o t s.rt
        rw [hc] at hu ⊢
        rw [hn]
        rw [hpe] at hu
        by_cases hun : u = s.rt.sched.nthread
        · exact hun ▸ Nat.lt_succ_self _
        · exact Nat.lt_succ_of_lt (h.pending u (by simpa [Function.update_noteq hun] using hu))
      · obtain ⟨hn, hpe⟩ := step_unborn o t hc s.rt
        rw [hn]
        exact h.pending u (hpe u hu)
  | expire | deadlock => exact ⟨h.started, h.pending⟩

end Sys.Born

theorem Sys.born_init (env : Env) (n : Nat) : (Sys.init env n).Born where
  started u hu := ⟨rfl, by
    simp only [Sys.init] at hu ⊢
    by_contra hn; exact hu (if_neg hn)⟩
  pending _ h := Bool.noConfusion h

theorem Reachable.born {o : Options} {app : Pc → Bool} {env : Env} {n : Nat} {s : Sys}
    (h : Reachable o app (Sys.init env n) s) : s.Born := by
  induction h with
  | init => exact Sys.born_init env n
  | step _ hs ih => exact ih.step hs

/-! ### The points that return to `pthread_join` -/

/-- `pthread_join`. -/
def Call.isJoin : Call → Bool
  | .pthreadJoin _ => true
  | _ => false

/-- The code after the wait returns to a call other than `pthread_join`. -/
def Resume.joinFree : Resume → Bool
  | .lockRetry _ _ c _ | .condWoken _ _ c | .semRetry _ c | .semTimedRetry _ _ c
  | .sleepWoken c => !c.isJoin
  | _ => true

/-- A point that does not return to `pthread_join` but through `pthreadJoin`'s own code. -/
def Pc.joinFree : Pc → Bool
  | .parked k => k.joinFree
  | .native (some c) => !c.isJoin
  | _ => true

/-- The waits of a wrapper's code return to that wrapper, and `pthread_join` waits at
`joinRetry`. -/
theorem Call.Parks.joinFree {c : Call} {k : Resume} (h : c.Parks k) : k.joinFree = true := by
  unfold Call.Parks at h
  split at h <;> first | exact h.elim | (subst h; rfl) | (obtain ⟨_, rfl⟩ := h; rfl)

theorem Call.eq_of_twin {c : Call} {th : Tid} (h : c.twin = .pthreadJoin th) :
    c = .pthreadJoin th := by
  unfold Call.twin at h; split at h <;> simp_all

/-- A step from such a point that is not a call goes to another. -/
theorem Next.joinFree {p q : Pc} (h : Next p q) (hp : p.joinFree = true) (hc : ∀ c, p ≠ .call c) :
    q.joinFree = true := by
  cases h with
  | enter | pass => exact absurd rfl (hc _)
  | park hk => exact hk.joinFree
  | @repark k k' hk =>
    cases k <;> simp only [Resume.Reparks] at hk <;>
      first | exact hk.elim | (subst hk; exact hp) | (obtain ⟨_, rfl⟩ := hk; exact hp)
  | _ => rfl

/-- The return from `pthread_join(th)` is reached only from `th`'s join loop. -/
theorem Next.joinee {p q : Pc} (h : Next p q) (hp : p.joinFree = true) (hr : ∀ c v, p ≠ .ret c v)
    {th : Tid} {v : Int} (hq : q = .ret (some (.pthreadJoin th)) v) : p.joinee = some th := by
  cases h <;> simp only [Pc.ret.injEq, reduceCtorEq, Option.some.injEq, false_and] at hq
  · exact absurd rfl (hr _ _)
  · obtain ⟨rfl, -⟩ := hq; simp [Pc.joinFree, Call.isJoin] at hp
  · obtain ⟨hc, -⟩ := hq; rw [Call.eq_of_twin hc]; rfl
  · rename_i k _
    cases k <;> simp_all [Resume.call, Pc.joinee, Pc.joinFree, Resume.joinFree, Call.isJoin]

/-- `pthread_join` goes to the turn or ends the process; it never passes through natively. -/
theorem step_call_joinFree (o : Options) (t : Tid) (c : Call) (r : Rt) :
    (step o t (.call c) r).1.joinFree = true := by
  by_cases hj : c.isJoin
  · obtain ⟨th, rfl⟩ : ∃ th, c = .pthreadJoin th := by cases c <;> simp_all [Call.isJoin]
    show (schedGetTurn o t _ r).1.joinFree = true
    rw [schedGetTurn_run]; split <;> rfl
  · have hn := step_next o t (.call c) r
    generalize (step o t (.call c) r).1 = q at hn
    cases hn <;> simp [Pc.joinFree, hj]

/-! ### One step and the zombie set -/

/-- What the calls of thread `t` have done to the zombie set `Z₀` its step started from: the set
holds, but for `t`, only threads of `Z₀`; `t` is in it once ended; and the thread `t` has reaped
is of `Z₀`. -/
structure Reaps (t : Tid) (Z₀ : List Tid) (g : Gh) (x : Rt) : Prop where
  others : ∀ u ∈ x.sched.zombies, u ≠ t → u ∈ Z₀
  self : t ∈ x.sched.zombies ↔ g.stand = .ended
  joined : ∀ th, g.joined = some th → th ∈ Z₀

/-- Every call keeps it: `putTurn(true)` adds the thread itself, `_S::join(th)` reaps a `th` of
the set, which is not `t`, and the child of `fork` has none. -/
theorem Ev.reaps_apply {t : Tid} {Z₀ : List Tid} {p : Pc} {x : Rt} {e : Ev} {g g₁ : Gh}
    (ha : p.Allows x e) (hn : g.next e = some g₁) (h : Reaps t Z₀ g x) :
    Reaps t Z₀ g₁ (e.apply t x) := by
  obtain ⟨hr, hst⟩ := Gh.next_stand hn
  have hj := Gh.next_joined hn
  have ht : t ∉ x.sched.zombies := fun hm => by rw [h.self.1 hm] at hr; cases hr
  have keep (hz : (e.apply t x).sched.zombies = x.sched.zombies) (he : e.stand ≠ .ended)
      (hje : ∀ th, e ≠ .join th) : Reaps t Z₀ g₁ (e.apply t x) :=
    ⟨fun u hu => h.others u (hz ▸ hu), by rw [hz, hst]; exact iff_of_false ht he,
      fun th hth => h.joined th ((hj th hth).resolve_right (hje th))⟩
  cases e with
  | endTurn =>
    refine ⟨fun u hu hne => h.others u ((List.mem_cons.1 hu).resolve_left hne) hne,
      iff_of_true (List.mem_cons_self _ _) hst, fun th hth => h.joined th ?_⟩
    exact (hj th hth).resolve_right nofun
  | join th =>
    refine ⟨fun u hu => h.others u (List.mem_of_mem_erase hu),
      iff_of_false (fun hm => ht (List.mem_of_mem_erase hm)) (by rw [hst]; nofun),
      fun th' hth => (hj th' hth).elim (h.joined th') fun e => ?_⟩
    cases e
    exact h.others th ha fun e => ht (e ▸ ha)
  | childForkReturn =>
    exact ⟨nofun, iff_of_false (List.not_mem_nil t) (by rw [hst]; nofun),
      fun th hth => h.joined th ((hj th hth).resolve_right nofun)⟩
  | putTurn => exact keep (Sched.putTurn_zombies _) nofun nofun
  | mutate w => exact keep (by cases w <;> rfl) nofun nofun
  | native n => exact keep (by cases n <;> rfl) nofun nofun
  | getTurn | incTurnCount | wait | signal | block | wakeup | create | logSync | setInNonDet =>
    exact keep rfl nofun nofun

/-- One step of a thread not in the zombie set: the set gains only the thread itself, when it
ends, and the return from `pthread_join(th)` comes after reaping `th` from the set. -/
theorem step_reaps (o : Options) (t : Tid) (p : Pc) (r : Rt) (ht : t ∉ r.sched.zombies) :
    (∀ u ∈ (step o t p r).2.1.sched.zombies, u ≠ t → u ∈ r.sched.zombies) ∧
      (t ∈ (step o t p r).2.1.sched.zombies → (step o t p r).1 = .zombie) ∧
      ∀ th, p.joinee = some th → (∃ c v, (step o t p r).1 = .ret c v) → th ∈ r.sched.zombies := by
  obtain ⟨g', hacc, hrep, -, hland⟩ := step_spec o t (Gh.start_starts o p.holdOk_holdAt) r
  have h := hacc.fold (P := Reaps t r.sched.zombies) (fun _ _ _ _ => Ev.reaps_apply)
    ⟨fun u hu _ => hu, iff_of_false ht nofun, nofun⟩
  rw [← hrep] at h
  refine ⟨h.others, fun hm => ?_, fun th hj hq => ?_⟩ <;> rcases hland with ⟨hab, hs⟩ | hl
  · rw [h.self.1 hm] at hs; cases hs
  · have hs := hl.stand ▸ h.self.1 hm
    generalize (step o t p r).1 = q at hs
    cases q <;> first | rfl | cases hs
  · obtain ⟨_, _, e⟩ := hq; rw [hab] at e; cases e
  · exact h.joined th (hl.joined th hj hq)

/-! ### The whole process -/

/-- Thread `u` has ended for good: it is at its end, and nothing starts it again. -/
def Sys.Ended (s : Sys) (u : Tid) : Prop := s.pc u = .zombie ∧ s.rt.Gone u

/-- A thread that can take a step has not ended for good. -/
theorem Sys.ready_not_ended {s : Sys} {t : Tid} (hr : s.ready t) : ¬ s.Ended t := fun ⟨hz, hg⟩ => by
  simp [Sys.ready, hz, hg.1] at hr

/-- Every thread in the zombie set has ended for good, so has every thread a return from
`pthread_join` names, and no thread is at a point that comes back to `pthread_join` on its
own. -/
structure Sys.JoinInv (s : Sys) : Prop where
  zombies : ∀ u ∈ s.rt.sched.zombies, s.Ended u
  joined : ∀ t th v, s.pc t = .ret (some (.pthreadJoin th)) v → s.Ended th
  points : ∀ u, (s.pc u).joinFree = true

namespace Sys.JoinInv

variable {o : Options} {s s' : Sys} {t : Tid}

/-- Moving a thread that has not ended to `q`, with a state that keeps ids gone, adds to the
zombie set at most the thread itself, ended, and returns from `pthread_join` only with a thread
of the set. -/
theorem update (h : s.JoinInv) {rt : Rt} {q : Pc} (ht : ¬ s.Ended t)
    (hg : ∀ u, s.rt.Gone u → rt.Gone u)
    (hz : ∀ u ∈ rt.sched.zombies, u ≠ t → u ∈ s.rt.sched.zombies)
    (hself : t ∈ rt.sched.zombies → q = .zombie ∧ rt.Gone t)
    (hj : ∀ th v, q = .ret (some (.pthreadJoin th)) v → th ∈ s.rt.sched.zombies)
    (hq : q.joinFree = true) : (⟨rt, Function.update s.pc t q⟩ : Sys).JoinInv := by
  have keep (u : Tid) (hu : s.Ended u) : Sys.Ended ⟨rt, Function.update s.pc t q⟩ u := by
    have hut : u ≠ t := fun e => ht (e ▸ hu)
    exact ⟨by simpa [Function.update_noteq hut] using hu.1, hg u hu.2⟩
  refine ⟨fun u hu => ?_, fun u th v hu => ?_,
    (Function.forall_update_iff _ fun _ (q : Pc) => q.joinFree = true).2 ⟨hq, fun u _ => h.points u⟩⟩
  · by_cases hut : u = t
    · subst hut; exact ⟨by simpa using (hself hu).1, (hself hu).2⟩
    · exact keep u (h.zombies u (hz u hu hut))
  · by_cases hut : u = t
    · subst hut; exact keep th (h.zombies th (hj th v (by simpa using hu)))
    · exact keep th (h.joined u th v (by simpa [Function.update_noteq hut] using hu))

/-- Every move of any program keeps it. -/
theorem step (hb : s.Born) (h : s.JoinInv) (hs : Step o anyCall s s') : s'.JoinInv := by
  cases hs with
  | @call t c v p hp ha =>
    have ht : ¬ s.Ended t := fun he => by have := he.1; rw [hp] at this; cases this
    refine h.update ht (fun _ => id) (fun u hu _ => hu)
      (fun hm => absurd (h.zombies t hm) ht) ?_ ?_ <;> cases p <;>
      first | exact absurd ha Bool.false_ne_true | rfl | exact fun _ _ => nofun
  | @run t hr =>
    have ht := Sys.ready_not_ended hr
    obtain ⟨hz, hself, hj⟩ := step_reaps o t (s.pc t) s.rt fun hm => ht (h.zombies t hm)
    have hn := step_next o t (s.pc t) s.rt
    have hret : ∀ c v, s.pc t ≠ .ret c v := fun c v e => by simp [Sys.ready, e] at hr
    refine h.update ht (fun u => step_gone o t _ _) hz (fun hm => ⟨hself hm, ?_⟩)
      (fun th v hq => hj th (hn.joinee (h.points t) hret hq) ⟨_, _, hq⟩) ?_
    · have hpz : s.pc t ≠ .zombie := fun e => by rw [hself hm, e] at hn; cases hn
      exact step_gone o t _ _ (hb.started t hpz)
    · by_cases hc : ∃ c, s.pc t = .call c
      · obtain ⟨c, e⟩ := hc; rw [e]; exact step_call_joinFree o t c s.rt
      · exact hn.joinFree (h.points t) fun c e => hc ⟨c, e⟩
  | expire | deadlock => exact ⟨h.zombies, h.joined, h.points⟩

end Sys.JoinInv

theorem Sys.joinInv_init (env : Env) (n : Nat) : (Sys.init env n).JoinInv where
  zombies := nofun
  joined t _ _ h := by simp only [Sys.init] at h ⊢; split_ifs at h ⊢ <;> cases h
  points u := by simp only [Sys.init]; split_ifs <;> rfl

theorem Reachable.joinInv {o : Options} {env : Env} {n : Nat} {s : Sys}
    (h : Reachable o anyCall (Sys.init env n) s) : s.JoinInv := by
  induction h with
  | init => exact Sys.joinInv_init env n
  | step hr hs ih => exact ih.step hr.born hs

/-- `pthread_join(th)` returns only once `th` has ended, and the zombie set holds only threads
that have ended, whatever the program. -/
theorem join_returnsEnded {o : Options} {env : Env} {n : Nat} {s : Sys}
    (h : Reachable o anyCall (Sys.init env n) s) :
    (∀ u ∈ s.rt.sched.zombies, s.pc u = .zombie) ∧
      ∀ t th v, s.pc t = .ret (some (.pthreadJoin th)) v → s.pc th = .zombie :=
  ⟨fun u hu => (h.joinInv.zombies u hu).1, fun t th v ht => (h.joinInv.joined t th v ht).1⟩

/-- Thread `0` joins thread `1` before `1` ends: it parks on `1`'s channel, `1` ends and
releases it, and `pthread_join` returns with `1` ended. -/
theorem join_returnsEnded_joinRun :
    let o : Options := ⟨true, false, false, 1000, true, false⟩
    let ms : List Move := [.call 0 (.call (.pthreadJoin 1)), .run 0, .run 0,
      .call 1 (.call .threadEnd), .run 1, .run 1, .run 0]
    let s := ((Sys.init ⟨⟨0, 0⟩, fun _ => 1, fun _ => false, false, false⟩ 2).exec o anyCall ms).get
      (by decide)
    s.pc 0 = .ret (some (.pthreadJoin 1)) 0 ∧
      (∀ u ∈ s.rt.sched.zombies, s.pc u = .zombie) ∧
      ∀ t th v, s.pc t = .ret (some (.pthreadJoin th)) v → s.pc th = .zombie :=
  ⟨by decide, join_returnsEnded (exec_get_reachable _ _)⟩

end Xtern
