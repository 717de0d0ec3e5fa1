import Xtern.System

/-! # What changes the barrier and lineup tables

The barrier table changes only in the turn sections of `pthreadBarrierInit`, `pthreadBarrierWait`
and `pthreadBarrierDestroy`, the lineup table only in those of the four lineup wrappers and in
the code that runs when a lineup wait returns. `step_calls` says so call by call: a write to an
entry is a call `Pc.Writes` allows only at a point of that entry's code (`Pc.barrier`,
`Pc.lineup`). `step_frame` reads a whole step from this: a part of the state that every call a
point may make leaves alone, the step leaves alone. `Step.barrier_cases` and
`Step.lineup_cases` read it on the moves of the process; `Reachable.env_eq` says that no move
changes the environment. -/

namespace Xtern

/-- A part `F` of the state that every call `p` allows leaves alone, a step from `p` leaves
alone. -/
theorem step_frame {β : Type} (F : Rt → β) (o : Options) (t : Tid) (p : Pc) (r : Rt)
    (hF : ∀ x e, p.Allows x e → F (e.apply t x) = F x) : F (step o t p r).2.1 = F r :=
  step_keeps (F · = F r) o t p (fun x e ha h => (hF x e ha).trans h) rfl

/-- A call leaves barrier `b` alone unless it is a write `p` allows to `b`. -/
theorem Ev.barriers_apply {p : Pc} {x : Rt} {e : Ev} (t : Tid) (ha : p.Allows x e) {b : Nat}
    (hb : p.barrier ≠ some b) : (e.apply t x).barriers b = x.barriers b := by
  cases e with
  | mutate w =>
    cases w with
    | barrier b' v =>
      exact Function.update_noteq (fun h : b = b' => hb (h ▸ ha)) _ _
    | _ => rfl
  | native n => cases n <;> rfl
  | _ => rfl

/-- A call leaves lineup `l` alone unless it is a write `p` allows to `l`. -/
theorem Ev.lineups_apply {p : Pc} {x : Rt} {e : Ev} (t : Tid) (ha : p.Allows x e) {l : Nat}
    (hl : p.lineup ≠ some l) : (e.apply t x).lineups l = x.lineups l := by
  cases e with
  | mutate w =>
    cases w with
    | lineup l' v =>
      exact Function.update_noteq (fun h : l = l' => hl (h ▸ ha)) _ _
    | _ => rfl
  | native n => cases n <;> rfl
  | _ => rfl

/-! ### The moves of the process -/

variable {o : Options} {app : Pc → Bool} {s s' : Sys}

/-- No move changes the environment. -/
theorem Step.env_eq (h : Step o app s s') : s'.rt.env = s.rt.env := by
  cases h with
  | call | expire | deadlock => rfl
  | run => exact step_frame Rt.env o _ _ _ fun x e _ => Ev.env_apply _ e x

theorem Reachable.env_eq {s₀ : Sys} (h : Reachable o app s₀ s) : s.rt.env = s₀.rt.env := by
  induction h with
  | init => rfl
  | step _ hs ih => exact hs.env_eq.trans ih

/-- A move changes the entry of barrier `b` only by running a turn section of `b`. -/
theorem Step.barrier_cases (b : Nat) (h : Step o app s s') :
    s'.rt.barriers b = s.rt.barriers b ∨
      ∃ t c, s.ready t ∧ s.pc t = .get (.body c) ∧ c.barrier = some b ∧ s' = s.runStep o t := by
  cases h with
  | call | expire | deadlock => exact .inl rfl
  | @run t hr =>
    by_cases hc : ∃ c, s.pc t = .get (.body c) ∧ c.barrier = some b
    · obtain ⟨c, h₁, h₂⟩ := hc
      exact .inr ⟨t, c, hr, h₁, h₂, rfl⟩
    · refine .inl (step_frame (·.barriers b) o t _ _ fun x e ha => Ev.barriers_apply t ha ?_)
      intro hp
      apply hc
      cases hpc : s.pc t with
      | get k => cases k with
        | body c => rw [hpc] at hp; exact ⟨c, rfl, hp⟩
        | barrierCycled => rw [hpc] at hp; cases hp
      | _ => rw [hpc] at hp; cases hp

/-- A move changes the entry of lineup `l` only by running a turn section of `l` or the code
after a wait on `l`. -/
theorem Step.lineup_cases (l : Nat) (h : Step o app s s') :
    s'.rt.lineups l = s.rt.lineups l ∨
      ∃ t, s.ready t ∧ ((∃ c, s.pc t = .get (.body c) ∧ c.lineup = some l) ∨
        s.pc t = .parked (.lineupWoken l)) ∧ s' = s.runStep o t := by
  cases h with
  | call | expire | deadlock => exact .inl rfl
  | @run t hr =>
    by_cases hc : (∃ c, s.pc t = .get (.body c) ∧ c.lineup = some l) ∨
        s.pc t = .parked (.lineupWoken l)
    · exact .inr ⟨t, hr, hc, rfl⟩
    · refine .inl (step_frame (·.lineups l) o t _ _ fun x e ha => Ev.lineups_apply t ha ?_)
      intro hp
      apply hc
      cases hpc : s.pc t with
      | get k => cases k with
        | body c => rw [hpc] at hp; exact .inl ⟨c, rfl, hp⟩
        | barrierCycled => rw [hpc] at hp; cases hp
      | parked k => rw [hpc] at hp; cases k <;> cases hp; exact .inr rfl
      | _ => rw [hpc] at hp; cases hp

end Xtern
