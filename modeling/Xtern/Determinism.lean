import Xtern.Log
import Xtern.Untimed
import Xtern.Local
import Mathlib.Logic.Relation

/-! # Determinism of untimed turn programs

What the runtime is for: a program whose threads are deterministic functions of the results they
read runs the same way whatever interleaving of their physical steps the operating system picks.

`Prog` is such a program, and `Proc` its process: the process state and the results each thread
has read. A move is made by an `Actor`: a thread in application code makes the call its program
gives it, any other thread takes its next step, and the scheduler promotes a waiter. From a state
an untimed turn program reaches, the moves that can be made are of three kinds:

* the out-of-turn moves of a thread (its call, its wrapper's entry), which commute with every
  move of another actor (`Sys.exec_swap_local`);
* the turn section of the thread at the head of the run queue;
* the deadlock rule's promotion, when the run queue is empty, of the one waiter it picks
  (`Sched.Deadlocked.unique`); the timeout rule never applies, as no waiter has a deadline.

No two moves of the last two kinds are possible at once. So two moves possible from a reachable
state can be made in either order and reach the same state (`Proc.act_diamond`), and the process is
confluent (`Proc.Reach.join`). `untimedProgram_deterministic` reads it back on the results the
threads read, on the sync log and on the state a run stops in.

Timed waits are left out because the scheduler may apply the timeout rule at any move once a
deadline has passed, and `pthread_create` because its new threads race for the hand-off
semaphores (`Xtern.Spawn`). -/

namespace Xtern

/-- A deterministic program: the call thread `t` makes next is a function of the results it has
read, oldest first (the first is the `0` it starts with). Its calls are those of an untimed turn
program. -/
structure Prog where
  next : Tid → List (Option Call × Int) → Call
  untimed : ∀ t h, (next t h).untimed = true

/-- Who makes a move: a thread, or the scheduler promoting a waiter. -/
inductive Actor where
  | thread (t : Tid)
  | promote (w : Waiter)
  deriving DecidableEq, Repr

/-- The thread an actor is. -/
def Actor.tid : Actor → Option Tid
  | .thread t => some t
  | .promote _ => none

/-- The process running a program: the process state, and the results each thread has read. -/
structure Proc where
  sys : Sys
  seen : Tid → List (Option Call × Int)

namespace Proc

variable (P : Prog) (o : Options)

/-- The start: threads `0 … n-1` in application code, having read nothing yet. -/
def init (env : Env) (n : Nat) : Proc := ⟨Sys.init env n, fun _ => []⟩

/-- What thread `t` has read, once it reads the result of the wrapper it is back from. -/
def observed (s : Proc) (t : Tid) : List (Option Call × Int) :=
  match s.sys.pc t with
  | .ret c v => s.seen t ++ [(c, v)]
  | _ => s.seen t

/-- The move of an actor: a thread in application code makes the call its program gives it, any
other thread takes its next step. -/
def toMove (s : Proc) : Actor → Move
  | .thread t =>
    match s.sys.pc t with
    | .ret _ _ => .call t (.call (P.next t (s.observed t)))
    | _ => .run t
  | .promote w => .promote w

/-- What the threads have read after an actor's move. -/
def record (s : Proc) : Actor → Tid → List (Option Call × Int)
  | .thread t => Function.update s.seen t (s.observed t)
  | .promote _ => s.seen

/-- The state an actor's move leads to, when the process allows it. -/
def act (s : Proc) (a : Actor) : Option Proc :=
  (s.sys.move o untimedApp (s.toMove P a)).map fun x => ⟨x, s.record a⟩

/-- One move of the program's process. -/
def Step (s s' : Proc) : Prop := ∃ a, s.act P o a = some s'

/-- The states the program's process reaches. -/
def Reach (env : Env) (n : Nat) (s : Proc) : Prop :=
  Relation.ReflTransGen (Step P o) (init env n) s

/-- No actor can move. -/
def Final (s : Proc) : Prop := ∀ a, s.act P o a = none

/-- Runs a sequence of moves. -/
def exec : List Actor → Proc → Option Proc
  | [], s => some s
  | a :: as, s => (s.act P o a).bind (exec as)

end Proc

/-- The deadlock rule picks one waiter. -/
theorem Sched.Deadlocked.unique {s : Sched} {w w' : Waiter} (hd : s.Distinct) (h : s.Deadlocked w)
    (h' : s.Deadlocked w') : w = w' :=
  hd.waiter_eq h.2.1 h'.2.1
    (le_antisymm ((h.2.2 w' h'.2.1).2 (h'.2.2 w h.2.1).1) ((h'.2.2 w h.2.1).2 (h.2.2 w' h'.2.1).1))

/-- In an untimed turn program, a thread that can take a step from a point other than a
wrapper's entry is at the head of the run queue: no thread is about to start. -/
theorem Sys.Calm.head {s : Sys} {t : Tid} (hc : s.Calm) (hu : s.rt.pending t = false)
    (hl : (s.pc t).isLocal = false) (hr : s.ready t) : s.rt.sched.runq.head? = some t := by
  have hp := hc.points t
  unfold Sys.ready at hr
  cases hq : s.pc t <;> rw [hq] at hr hl hp
  case get | parked => exact of_decide_eq_true hr
  case call => exact absurd hl.symm Bool.false_ne_true
  case zombie => simp [hu] at hr
  all_goals first | exact absurd hr Bool.false_ne_true | exact absurd hp Bool.false_ne_true

namespace Proc

variable {P : Prog} {o : Options} {s s' s₁ s₂ : Proc} {a b : Actor} {t : Tid}

/-! ### The moves of a program -/

theorem toMove_tid (s : Proc) (a : Actor) : (s.toMove P a).tid = a.tid := by
  cases a with
  | thread t => simp only [toMove]; split <;> rfl
  | promote => rfl

theorem observed_congr (hpc : s'.sys.pc t = s.sys.pc t) (hseen : s'.seen t = s.seen t) :
    s'.observed t = s.observed t := by
  simp only [observed, hpc, hseen]

theorem toMove_of_ret {c : Option Call} {v : Int} (h : s.sys.pc t = .ret c v) :
    s.toMove P (.thread t) = .call t (.call (P.next t (s.observed t))) := by
  simp only [toMove, h]

theorem toMove_of_not_ret (h : ∀ c v, s.sys.pc t ≠ .ret c v) :
    s.toMove P (.thread t) = .run t := by
  cases hp : s.sys.pc t <;> simp only [toMove, hp]
  exact absurd hp (h _ _)

/-- A thread's move depends on its point and on what it has read only. -/
theorem toMove_congr (hpc : s'.sys.pc t = s.sys.pc t) (hseen : s'.seen t = s.seen t) :
    s'.toMove P (.thread t) = s.toMove P (.thread t) := by
  simp only [toMove, hpc, observed_congr hpc hseen]

/-- Every move of the program is a move of the process. -/
theorem act_step (h : s.act P o a = some s') : Xtern.Step o untimedApp s.sys s'.sys := by
  obtain ⟨x, hx, rfl⟩ := Option.map_eq_some'.1 h
  exact Sys.move_step hx

theorem steps_reachable (h : Relation.ReflTransGen (Step P o) s s') :
    Reachable o untimedApp s.sys s'.sys := by
  induction h with
  | refl => exact .init
  | tail _ hs ih =>
    obtain ⟨a, ha⟩ := hs
    exact ih.step (act_step ha)

/-- A move reads no result away: what each thread has read only grows. -/
theorem Step.seen_prefix (h : Step P o s s') (u : Tid) : s.seen u <+: s'.seen u := by
  obtain ⟨a, ha⟩ := h
  obtain ⟨x, -, rfl⟩ := Option.map_eq_some'.1 ha
  cases a with
  | thread t =>
    show s.seen u <+: Function.update s.seen t (s.observed t) u
    by_cases hu : u = t
    · subst hu
      rw [Function.update_same]
      unfold observed
      split
      · exact List.prefix_append _ _
      · exact List.prefix_refl _
    · exact Function.update_noteq hu _ _ ▸ List.prefix_refl _
  | promote => exact List.prefix_refl _

/-! ### Two moves from one state -/

/-- An out-of-turn move of a thread and a move of another actor, in either order, reach the same
state. -/
theorem act_swap (hl : s.sys.localMove (s.toMove P a)) (hab : a ≠ b) (h₁ : s.act P o a = some s₁)
    (h₂ : s.act P o b = some s₂) : ∃ s₃, s₁.act P o b = some s₃ ∧ s₂.act P o a = some s₃ := by
  obtain ⟨t, rfl⟩ : ∃ t, a = .thread t := by
    cases a with
    | thread t => exact ⟨t, rfl⟩
    | promote => exact absurd hl Bool.false_ne_true
  have hbt : ∀ u, b = .thread u → u ≠ t := fun u hu e => hab (by rw [hu, e])
  have ht : (s.toMove P (.thread t)).tid = some t := toMove_tid s _
  have hb : (s.toMove P b).tid ≠ some t := by
    rw [toMove_tid]
    cases b with
    | thread u => exact fun e => hbt u rfl (Option.some_inj.1 e)
    | promote => exact Option.noConfusion
  obtain ⟨x₁, hx₁, rfl⟩ := Option.map_eq_some'.1 h₁
  obtain ⟨x₂, hx₂, rfl⟩ := Option.map_eq_some'.1 h₂
  have hx₁' := hx₁
  rw [Sys.move_local hl ht] at hx₁'
  obtain ⟨q, hq, rfl⟩ := Option.map_eq_some'.1 hx₁'
  obtain ⟨hpc, hnd⟩ := Sys.move_keeps hb hx₂
  -- the thread's move is the same after the other actor's, and conversely
  have hseen : s.record b t = s.seen t := by
    cases b with
    | thread u => exact Function.update_noteq (hbt u rfl).symm _ _
    | promote => rfl
  have hma : (⟨x₂, s.record b⟩ : Proc).toMove P (.thread t) = s.toMove P (.thread t) :=
    toMove_congr hpc hseen
  have hmb : (⟨⟨s.sys.rt, Function.update s.sys.pc t q⟩, s.record (.thread t)⟩ : Proc).toMove P b =
      s.toMove P b := by
    cases b with
    | thread u =>
      exact toMove_congr (Function.update_noteq (hbt u rfl) _ _)
        (Function.update_noteq (hbt u rfl) _ _)
    | promote => rfl
  have hrec : (⟨⟨s.sys.rt, Function.update s.sys.pc t q⟩, s.record (.thread t)⟩ : Proc).record b =
      (⟨x₂, s.record b⟩ : Proc).record (.thread t) := by
    have hobs : (⟨x₂, s.record b⟩ : Proc).observed t = s.observed t := observed_congr hpc hseen
    cases b with
    | thread u =>
      have hu := hbt u rfl
      have hobs' : (⟨⟨s.sys.rt, Function.update s.sys.pc t q⟩, s.record (.thread t)⟩ :
          Proc).observed u = s.observed u :=
        observed_congr (Function.update_noteq hu _ _) (Function.update_noteq hu _ _)
      simp only [record] at hobs hobs' ⊢
      rw [hobs, hobs']
      exact Function.update_comm hu.symm _ _ _
    | promote =>
      simp only [record] at hobs ⊢
      rw [hobs]
  -- the process reaches the same state
  have hsw : s.sys.exec o untimedApp [_, _] = s.sys.exec o untimedApp [_, _] :=
    Sys.exec_swap_local hl (ht ▸ hb)
  simp only [Sys.exec, hx₁, hx₂, Option.some_bind, Option.bind_some] at hsw
  have hx₃ : x₂.move o untimedApp (s.toMove P (.thread t)) =
      some ⟨x₂.rt, Function.update x₂.pc t q⟩ := by
    rw [Sys.move_local (Sys.localMove_congr ht hpc hl) ht, Sys.localNext_congr ht hpc hnd hl, hq]
    rfl
  refine ⟨⟨⟨x₂.rt, Function.update x₂.pc t q⟩, (⟨x₂, s.record b⟩ : Proc).record (.thread t)⟩, ?_, ?_⟩
  · simp only [act, hmb, hsw, hx₃, hrec, Option.map_some']
  · simp only [act, hma, hx₃, Option.map_some']

/-- A move that is not out of turn is the turn section of the head of the run queue, or the
deadlock rule's promotion. -/
theorem act_turn (hc : s.sys.Calm) (hu : ∀ u, s.sys.rt.pending u = false)
    (hl : s.sys.localMove (s.toMove P a) = false) (h : s.act P o a = some s') :
    (∃ t, a = .thread t ∧ s.sys.rt.sched.runq.head? = some t) ∨
      ∃ w, a = .promote w ∧ s.sys.rt.sched.Deadlocked w := by
  obtain ⟨x, hx, -⟩ := Option.map_eq_some'.1 h
  cases a with
  | thread t =>
    refine .inl ⟨t, rfl, ?_⟩
    by_cases hret : ∃ c v, s.sys.pc t = .ret c v
    · obtain ⟨c, v, hcv⟩ := hret
      rw [toMove_of_ret hcv] at hl
      exact absurd hl.symm Bool.false_ne_true
    · rw [toMove_of_not_ret fun c v e => hret ⟨c, v, e⟩] at hl hx
      simp only [Sys.move] at hx
      split_ifs at hx with hr
      exact hc.head (hu t) hl hr
  | promote w =>
    simp only [toMove, Sys.move] at hx
    split_ifs at hx with hw
    exact .inr ⟨w, rfl, hw.resolve_left (hc.not_expired w)⟩

/-- The diamond: two moves possible from a state of an untimed turn program are the same move, or
can be made in either order and reach the same state. -/
theorem act_diamond (hq : s.sys.Queued) (hc : s.sys.Calm) (h₁ : s.act P o a = some s₁)
    (h₂ : s.act P o b = some s₂) :
    s₁ = s₂ ∨ ∃ s₃, s₁.act P o b = some s₃ ∧ s₂.act P o a = some s₃ := by
  by_cases hab : a = b
  · subst hab
    exact .inl (Option.some_inj.1 (h₁.symm.trans h₂))
  cases ha : s.sys.localMove (s.toMove P a)
  · cases hb : s.sys.localMove (s.toMove P b)
    · -- two turn moves: the head's section and the deadlock rule never meet
      exfalso
      rcases act_turn hc hq.unborn ha h₁ with ⟨t, rfl, ht⟩ | ⟨w, rfl, hw⟩ <;>
        rcases act_turn hc hq.unborn hb h₂ with ⟨u, rfl, hu⟩ | ⟨w', rfl, hw'⟩
      · exact hab (by rw [Option.some_inj.1 (ht.symm.trans hu)])
      · simp [hw'.1] at ht
      · simp [hw.1] at hu
      · exact hab (by rw [hw.unique hq.distinct hw'])
    · obtain ⟨s₃, h₃, h₄⟩ := act_swap hb (Ne.symm hab) h₂ h₁
      exact .inr ⟨s₃, h₄, h₃⟩
  · exact .inr (act_swap ha hab h₁ h₂)

/-! ### Every run -/

section Reach

variable {env : Env} {n : Nat}

theorem Reach.sys (h : Reach P o env n s) : Reachable o untimedApp (Sys.init env n) s.sys :=
  steps_reachable h

/-- The moves between reachable states. -/
theorem Reach.restrict (h : Reach P o env n s) :
    Relation.ReflTransGen (fun x y => Reach P o env n x ∧ Step P o x y) (init env n) s := by
  induction h with
  | refl => exact .refl
  | tail hx hs ih => exact ih.tail ⟨hx, hs⟩

/-- Confluence: two states the program reaches lead to a common one. -/
theorem Reach.join (h₁ : Reach P o env n s₁) (h₂ : Reach P o env n s₂) :
    ∃ s, Relation.ReflTransGen (Step P o) s₁ s ∧ Relation.ReflTransGen (Step P o) s₂ s := by
  have hd : ∀ x y z, Reach P o env n x ∧ Step P o x y → Reach P o env n x ∧ Step P o x z →
      ∃ w, Relation.ReflGen (fun x y => Reach P o env n x ∧ Step P o x y) y w ∧
        Relation.ReflTransGen (fun x y => Reach P o env n x ∧ Step P o x y) z w := by
    rintro x y z ⟨hx, a, hy⟩ ⟨-, b, hz⟩
    have hxs := hx.sys
    rcases act_diamond hxs.turnApp_of_untimed.queued hxs.calm hy hz with rfl | ⟨w, hyw, hzw⟩
    · exact ⟨y, .refl, .refl⟩
    · exact ⟨w, .single ⟨hx.tail ⟨a, hy⟩, b, hyw⟩, .single ⟨hx.tail ⟨b, hz⟩, a, hzw⟩⟩
  obtain ⟨s, hs₁, hs₂⟩ := Relation.church_rosser hd h₁.restrict h₂.restrict
  exact ⟨s, hs₁.mono fun _ _ => And.right, hs₂.mono fun _ _ => And.right⟩

theorem steps_seen_prefix (h : Relation.ReflTransGen (Step P o) s s') (u : Tid) :
    s.seen u <+: s'.seen u := by
  induction h with
  | refl => exact List.prefix_refl _
  | tail _ hs ih => exact ih.trans (hs.seen_prefix u)

/-- The log only grows. -/
theorem steps_log_prefix (hs : Relation.ReflTransGen (Step P o) s s') :
    s.sys.rt.log <+: s'.sys.rt.log := by
  obtain ⟨l, hl, -⟩ := (steps_reachable hs).log_grows
  exact ⟨l, hl.symm⟩

/-- A state no actor can move from leads nowhere else. -/
theorem Final.eq (hf : s.Final P o) (h : Relation.ReflTransGen (Step P o) s s') : s' = s := by
  rcases h.cases_head with rfl | ⟨x, ⟨a, ha⟩, -⟩
  · rfl
  · exact absurd ha (by rw [hf a]; exact Option.noConfusion)

theorem exec_reach {as : List Actor} (h : Reach P o env n s) (he : s.exec P o as = some s') :
    Reach P o env n s' := by
  induction as generalizing s with
  | nil => cases he; exact h
  | cons a as ih =>
    obtain ⟨x, hx, he⟩ := Option.bind_eq_some.1 he
    exact ih (h.tail ⟨a, hx⟩) he

end Reach

end Proc

/-- Determinism of untimed turn programs over the interleavings the operating system picks: for
a program whose threads are deterministic functions of the results they read and which calls the
turn-based wrappers only, none with a timeout, nor `pthread_create`, `fork` or
`tern_non_det_start`, any two states its process reaches lead to a common one; in the two, the
results each thread has read are one a prefix of the other, and so are the sync logs with
`log_sync` on; and two runs that stop, stop in the same state. -/
theorem untimedProgram_deterministic {P : Prog} {o : Options} {env : Env} {n : Nat} {s₁ s₂ : Proc}
    (h₁ : Proc.Reach P o env n s₁) (h₂ : Proc.Reach P o env n s₂) :
    (∃ s, Relation.ReflTransGen (Proc.Step P o) s₁ s ∧ Relation.ReflTransGen (Proc.Step P o) s₂ s) ∧
      (∀ t, s₁.seen t <+: s₂.seen t ∨ s₂.seen t <+: s₁.seen t) ∧
      (o.logSync = true → s₁.sys.rt.log <+: s₂.sys.rt.log ∨ s₂.sys.rt.log <+: s₁.sys.rt.log) ∧
      (s₁.Final P o → s₂.Final P o → s₁ = s₂) := by
  obtain ⟨s, hs₁, hs₂⟩ := Proc.Reach.join h₁ h₂
  refine ⟨⟨s, hs₁, hs₂⟩, fun t => ?_, fun _ => ?_, fun hf₁ hf₂ => ?_⟩
  · exact List.prefix_or_prefix_of_prefix (Proc.steps_seen_prefix hs₁ t)
      (Proc.steps_seen_prefix hs₂ t)
  · exact List.prefix_or_prefix_of_prefix (Proc.steps_log_prefix hs₁) (Proc.steps_log_prefix hs₂)
  · rw [← hf₁.eq hs₁, ← hf₂.eq hs₂]

/-- Thread `0` posts semaphore `0` and thread `1` waits on it. Whether thread `1` calls and
enters `sem_wait` before thread `0` calls `sem_post` or after thread `0` has returned from it,
the two runs write the same log. -/
theorem untimedProgram_deterministic_semRun :
    let P : Prog := ⟨fun t _ => if t = 0 then .semPost 0 else .semWait 0, fun t _ => by
      dsimp only; split <;> rfl⟩
    let o : Options := ⟨true, false, false, 1000, true, false⟩
    let s₀ := Proc.init ⟨⟨0, 0⟩, fun _ => 1, fun _ => false, false, false⟩ 2
    let s₁ := (s₀.exec P o [.thread 1, .thread 1, .thread 0, .thread 0, .thread 0, .thread 1]).get
      (by decide)
    let s₂ := (s₀.exec P o [.thread 0, .thread 0, .thread 0, .thread 1, .thread 1, .thread 1]).get
      (by decide)
    s₁.sys.rt.log = [⟨0, .semPost, 1, true⟩, ⟨1, .semWait, 2, true⟩] ∧
      s₂.sys.rt.log = s₁.sys.rt.log ∧
      (∃ s, Relation.ReflTransGen (Proc.Step P o) s₁ s ∧ Relation.ReflTransGen (Proc.Step P o) s₂ s) ∧
      (∀ t, s₁.seen t <+: s₂.seen t ∨ s₂.seen t <+: s₁.seen t) ∧
      (o.logSync = true → s₁.sys.rt.log <+: s₂.sys.rt.log ∨ s₂.sys.rt.log <+: s₁.sys.rt.log) ∧
      (s₁.Final P o → s₂.Final P o → s₁ = s₂) :=
  ⟨by decide, by decide, untimedProgram_deterministic
    (Proc.exec_reach .refl (Option.some_get _).symm) (Proc.exec_reach .refl (Option.some_get _).symm)⟩

end Xtern
