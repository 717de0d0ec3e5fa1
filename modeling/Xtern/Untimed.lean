import Xtern.Queues

/-! # Untimed turn programs

An untimed turn program is a turn program none of whose calls waits with a deadline: no timed
lock or wait with an `abstime`, no `tern_lineup_start` (whose wait has the lineup's timeout) and
no sleep. Its threads only ever wait with `FOREVER`, so the timeout rule never fires, and, with
no non-det region, `inNonDet` stays `false` and no wrapper passes through to the native call.

`Ev.calm_apply` reads each call a step of such a program makes for this: from a calm state
(`Rt.Calm`: no waiter with a deadline, no thread in a non-det region) it reaches a calm state.
`untimed_step` lifts it to every step from a point of an untimed turn program, with the point
reached one of them; `Reachable.calm` reads it on every state the program reaches. -/

namespace Xtern

/-! ### Untimed turn programs -/

/-- The calls of an untimed turn program: those of a turn program, but the ones that wait with a
deadline. -/
def Call.untimed (c : Call) : Bool :=
  c.inTurnProgram &&
    match c with
    | .pthreadMutexTimedLock _ (some _) | .pthreadCondTimedWait _ _ (some _)
    | .semTimedWait _ (some _) | .lineupStart _ | .sleep _ | .usleep _ | .nanosleep _ => false
    | _ => true

/-- The code an untimed wait resumes at. -/
def Resume.untimed : Resume → Bool
  | .lockRetry _ dl _ _ => dl.isNone
  | .rdRetry _ | .wrRetry _ | .joinRetry _ | .barrierWoken _ | .condWoken _ _ _
  | .semRetry _ _ => true
  | .semTimedRetry _ _ _ | .lineupWoken _ | .nonDetWoken | .sleepWoken _ => false

/-- The points a thread of an untimed turn program reaches. -/
def Pc.untimed : Pc → Bool
  | .call c | .get (.body c) => c.untimed
  | .parked k => k.untimed
  | .get (.barrierCycled _) | .ret _ _ | .zombie | .aborted => true
  | .ioCall _ _ | .nonDetEnd | .post _ | .native _ | .blocked _ => false

/-- An untimed turn program: its threads call the wrappers of `Call.untimed` only. -/
def untimedApp : Pc → Bool
  | .call c => c.untimed
  | _ => false

theorem turnApp_of_untimedApp {p : Pc} (h : untimedApp p) : turnApp p := by
  cases p <;> first | exact absurd h Bool.false_ne_true | exact (Bool.and_eq_true _ _ ▸ h).1

/-- The runtime state of an untimed turn program: no waiter has a deadline, and no thread is in
a non-det region. -/
structure Rt.Calm (r : Rt) : Prop where
  waiters : ∀ w ∈ r.sched.waitq, w.deadline = none
  inNonDet : ∀ u, r.inNonDet u = false

theorem Rt.Calm.of_subset {r r' : Rt} (h : r.Calm) (hw : r'.sched.waitq ⊆ r.sched.waitq)
    (hn : r'.inNonDet = r.inNonDet) : r'.Calm :=
  ⟨fun w hw' => h.waiters w (hw hw'), fun u => by rw [hn]; exact h.inNonDet u⟩

/-! ### One call -/

/-- A point of an untimed turn program waits with no deadline. -/
theorem Pc.timed_of_untimed {p : Pc} (hp : p.untimed = true) : p.timed = false := by
  cases p with
  | get k => cases k with
    | body c => cases c <;> (try cases ‹Option Timespec›) <;> simp_all [Pc.untimed, Call.untimed,
        Call.inTurnProgram, Pc.timed, Call.timed]
    | barrierCycled => rfl
  | parked k => cases k <;> simp_all [Pc.untimed, Resume.untimed, Pc.timed]
  | _ => rfl

/-- Every call of a step from a point of an untimed turn program keeps the runtime state calm: a
wait has no deadline, a signal takes waiters off, and no thread enters a non-det region. -/
theorem Ev.calm_apply {t : Tid} {p : Pc} (hp : p.untimed = true) {x : Rt} {e : Ev}
    (ha : p.Allows x e) (h : x.Calm) : (e.apply t x).Calm := by
  have same (hw : (e.apply t x).sched.waitq ⊆ x.sched.waitq)
      (hn : (e.apply t x).inNonDet = x.inNonDet) : (e.apply t x).Calm := h.of_subset hw hn
  cases e with
  | wait ch dl =>
    have hdl : dl = none := by
      cases dl
      · rfl
      · exact absurd (ha.2 rfl) (by rw [Pc.timed_of_untimed hp]; nofun)
    refine ⟨fun w hw => ?_, h.inNonDet⟩
    rcases List.mem_append.1 hw with hw | hw
    · exact h.waiters w hw
    · rw [List.mem_singleton.1 hw, hdl]
  | signal | endTurn => exact same (List.filter_sublist _).subset rfl
  | childForkReturn => exact same (List.nil_subset _) rfl
  | setInNonDet v =>
    cases v <;> simp only [Pc.Allows, if_true, if_false, Bool.false_eq_true] at ha <;> subst ha <;>
      cases hp
  | putTurn => exact same (by simp [Ev.apply]) rfl
  | native n => exact same (by cases n <;> exact List.Subset.refl _) (by cases n <;> rfl)
  | mutate w => exact same (by cases w <;> exact List.Subset.refl _) (by cases w <;> rfl)
  | _ => exact same (List.Subset.refl _) rfl

/-- A step from a point of an untimed turn program other than a wrapper's entry goes to one. -/
theorem Next.untimed {p q : Pc} (h : Next p q) (hp : p.untimed = true) (hc : ∀ c, p ≠ .call c) :
    q.untimed = true := by
  cases h with
  | enter | pass => exact absurd rfl (hc _)
  | park hk =>
    rename_i c k
    unfold Call.Parks at hk
    split at hk <;> first
      | exact hk.elim
      | (subst hk; simp_all [Pc.untimed, Call.untimed, Call.inTurnProgram, Resume.untimed])
      | (obtain ⟨_, rfl⟩ := hk; simp_all [Pc.untimed, Call.untimed, Call.inTurnProgram])
  | @repark k k' hr =>
    unfold Resume.Reparks at hr
    split at hr <;> first
      | exact hr.elim
      | (obtain ⟨_, rfl⟩ := hr; rfl)
      | (subst hr; exact hp)
  | _ => simp_all [Pc.untimed, Call.untimed, Call.inTurnProgram, Resume.untimed]

/-! ### One step -/

/-- One step of a thread of an untimed turn program keeps the runtime state calm, and reaches a
point of an untimed turn program. -/
theorem untimed_step (o : Options) (t : Tid) (p : Pc) (hp : p.untimed = true) (r : Rt)
    (hr : r.Calm) : (step o t p r).2.1.Calm ∧ (step o t p r).1.untimed = true := by
  by_cases hc : ∃ c, p = .call c
  · -- with no thread in a non-det region, a wrapper's entry goes to the turn
    obtain ⟨c, rfl⟩ := hc
    rw [step_call o t (.inl (by simp [inNonDetRegion, hr.inNonDet t]))]
    exact ⟨hr, hp⟩
  · push_neg at hc
    obtain ⟨g', hacc, hrep, hn, -⟩ := step_spec o t (Gh.start_starts o p.holdOk_holdAt) r
    have hcalm := hacc.fold (P := fun _ x => x.Calm) (fun _ _ _ _ ha _ h => Ev.calm_apply hp ha h) hr
    rw [← hrep] at hcalm
    exact ⟨hcalm, hn.untimed hp hc⟩

/-! ### The whole process -/

/-- Every thread is at a point of an untimed turn program, and the runtime state is calm. -/
structure Sys.Calm (s : Sys) : Prop where
  points : ∀ u, (s.pc u).untimed = true
  rt : s.rt.Calm

namespace Sys.Calm

variable {o : Options} {s s' : Sys}

/-- No waiter's deadline ever passes. -/
theorem not_expired (h : s.Calm) (w : Waiter) : ¬s.rt.sched.Expired w := fun ⟨hw, hd⟩ => by
  simp [Waiter.due, h.rt.waiters w hw] at hd

/-- Moving a thread to a point of an untimed turn program, in a calm runtime state. -/
theorem update {rt : Rt} {pc : Tid → Pc} {t : Tid} {q : Pc} (hp : ∀ u, (pc u).untimed = true)
    (hq : q.untimed = true) (hr : rt.Calm) : (⟨rt, Function.update pc t q⟩ : Sys).Calm :=
  ⟨(Function.forall_update_iff _ fun _ (q : Pc) => q.untimed).2 ⟨hq, fun u _ => hp u⟩, hr⟩

/-- Every move of an untimed turn program keeps it. -/
theorem step (h : s.Calm) (hs : Step o untimedApp s s') : s'.Calm := by
  cases hs with
  | @call t c v p _ ha =>
    refine update h.points ?_ h.rt
    cases p <;> first | exact absurd ha Bool.false_ne_true | exact ha
  | @run t _ =>
    obtain ⟨hr, hq⟩ := untimed_step o t (s.pc t) (h.points t) s.rt h.rt
    exact update h.points hq hr
  | expire hw => exact absurd hw (h.not_expired _)
  | deadlock => exact ⟨h.points, h.rt.of_subset (List.filter_sublist _).subset rfl⟩

end Sys.Calm

theorem Sys.calm_init (env : Env) (n : Nat) : (Sys.init env n).Calm where
  points u := by simp only [Sys.init]; split_ifs <;> rfl
  rt := ⟨nofun, fun _ => rfl⟩

theorem Reachable.calm {o : Options} {env : Env} {n : Nat} {s : Sys}
    (h : Reachable o untimedApp (Sys.init env n) s) : s.Calm := by
  induction h with
  | init => exact Sys.calm_init env n
  | step _ hs ih => exact ih.step hs

/-- An untimed turn program is a turn program. -/
theorem Reachable.turnApp_of_untimed {o : Options} {s₀ s : Sys}
    (h : Reachable o untimedApp s₀ s) : Reachable o turnApp s₀ s := by
  induction h with
  | init => exact .init
  | step _ hs ih =>
    refine ih.step ?_
    cases hs with
    | call hp ha => exact .call hp (turnApp_of_untimedApp ha)
    | run hr => exact .run hr
    | expire hw => exact .expire hw
    | deadlock hw => exact .deadlock hw

end Xtern
