import Xtern.Calls

/-! # The turn discipline of the wrappers

`step_calls` says, call by call, what one step may do. This module reads it over a whole wrapper
call. `CallRun` is the sequence of steps a thread takes inside one call, each step taken in
whatever state the other threads left: a relation `R` between the state a step leaves and the
state the next one starts in says what they may do, and `turnDiscipline` holds for every `R`.

Over every such run the thread keeps the turn discipline (`Disciplined`): it calls `getTurn`
only without the turn, and `signal`, `wait`, `incTurnCount`, `putTurn`, the scheduler's
`create`, `join` and `childForkReturn`, the writes to the barrier table, the lineup table and
`nNonDetWait`, and `logSync` only holding it. A call that returns has the shape of
`SCHED_GET_TURN` … `SCHED_PUT_TURN` (`TurnShape`): `getTurn`, then scheduler calls made holding
the turn and `putTurn` at once followed by `getTurn`, then one final `putTurn`; after it only
`nonDetStart` calls the scheduler, with the `block` that takes it out of the run queue. A
`BLOCK_TIMER` wrapper never takes the turn. -/

namespace Xtern

/-! ### The turn a thread holds -/

/-- The calls made holding the turn. -/
def Ev.underTurn : Ev → Bool
  | .signal _ _ | .incTurnCount | .wait _ _ | .putTurn | .endTurn | .create _ | .join _
  | .childForkReturn | .mutate _ | .logSync _ _ _ => true
  | _ => false

/-- The calls on the scheduler (its `getTurnCount` and `self` only read). -/
def Ev.isSched : Ev → Bool
  | .getTurn | .putTurn | .endTurn | .incTurnCount | .wait _ _ | .signal _ _ | .block | .wakeup
  | .create _ | .join _ | .childForkReturn => true
  | _ => false

/-- Whether a thread holds the turn after the call `e`, having held it as `b` before. -/
def Ev.holds (b : Bool) : Ev → Bool
  | .getTurn => true
  | .putTurn | .endTurn => false
  | _ => b

/-- Whether a thread that started without the turn holds it after the calls `es`. -/
def holdsAfter (es : List Ev) : Bool := es.foldl Ev.holds false

/-- The turn discipline of the calls `es` of a thread that starts without the turn: `getTurn`
only without the turn, the calls of `Ev.underTurn` only with it. -/
def Disciplined (es : List Ev) : Prop :=
  ∀ pre e post, es = pre ++ e :: post →
    (e = .getTurn → holdsAfter pre = false) ∧ (e.underTurn = true → holdsAfter pre = true)

/-- The scheduler calls a wrapper makes between its first `getTurn` and its last `putTurn`,
besides the `putTurn`–`getTurn` cycle. -/
def Ev.inMid : Ev → Bool
  | .signal _ _ | .incTurnCount | .wait _ _ | .create _ | .join _ | .childForkReturn => true
  | _ => false

/-- The middle of a wrapper's scheduler calls: `signal`, `incTurnCount`, `wait` and the
bookkeeping calls `create`, `join` and `childForkReturn`, and `putTurn` at once followed by
`getTurn` (the last arriver of a barrier). -/
inductive Mid : List Ev → Prop
  | nil : Mid []
  | call {e : Ev} {es : List Ev} : e.inMid = true → Mid es → Mid (e :: es)
  | cycle {es : List Ev} : Mid es → Mid (.putTurn :: .getTurn :: es)

/-- The scheduler calls of a call of wrapper `c` that returned: `getTurn`, a middle, one final
`putTurn` (`putTurn(true)` at the thread's end), and after it only `nonDetStart`'s `block`. -/
def TurnShape (c : Call) (es : List Ev) : Prop :=
  ∃ mid fin tail, es.filter Ev.isSched = .getTurn :: (mid ++ fin :: tail) ∧ Mid mid ∧
    (fin = .putTurn ∨ fin = .endTurn) ∧ (∀ e ∈ tail, e = .block) ∧ (tail ≠ [] → c = .nonDetStart)

/-! ### The turn automaton over many calls -/

/-- The turn automaton over a sequence of calls. -/
def Hold.run (h : Hold) : List Ev → Option Hold
  | [] => some h
  | e :: es => (h.next e).bind (·.run es)

theorem Hold.run_append (h : Hold) (l₁ l₂ : List Ev) :
    h.run (l₁ ++ l₂) = (h.run l₁).bind (·.run l₂) := by
  induction l₁ generalizing h with
  | nil => rfl
  | cons e es ih => cases hn : h.next e <;> simp [Hold.run, hn, ih]

theorem Hold.next_holds {h h' : Hold} {e : Ev} (hn : h.next e = some h') :
    e.holds (h == .held) = (h' == .held) := by
  cases h <;> cases e <;> simp [Hold.next] at hn <;> subst hn <;> rfl

theorem Hold.held_of_underTurn {h h' : Hold} {e : Ev} (hn : h.next e = some h')
    (he : e.underTurn = true) : h = .held := by
  cases h <;> cases e <;> simp_all [Hold.next, Ev.underTurn]

theorem Hold.free_of_getTurn {h h' : Hold} (hn : h.next .getTurn = some h') : h = .free := by
  cases h <;> simp_all [Hold.next]

theorem Hold.run_holds {h h' : Hold} {es : List Ev} (hr : h.run es = some h') :
    es.foldl Ev.holds (h == .held) = (h' == .held) := by
  induction es generalizing h with
  | nil => cases hr; rfl
  | cons e es ih =>
    obtain ⟨h₁, hn, hr⟩ := Option.bind_eq_some.1 hr
    rw [List.foldl_cons, Hold.next_holds hn]
    exact ih hr

/-- A sequence of calls the turn automaton accepts from `free` keeps the turn discipline. -/
theorem Hold.disciplined {es : List Ev} {h' : Hold} (hr : Hold.free.run es = some h') :
    Disciplined es := by
  rintro pre e post rfl
  rw [Hold.run_append] at hr
  obtain ⟨h₁, hpre, hr⟩ := Option.bind_eq_some.1 hr
  obtain ⟨h₂, hn, -⟩ := Option.bind_eq_some.1 hr
  have hold : holdsAfter pre = (h₁ == .held) := Hold.run_holds hpre
  refine ⟨fun he => ?_, fun he => ?_⟩
  · subst he; rw [hold, Hold.free_of_getTurn hn]; rfl
  · rw [hold, Hold.held_of_underTurn hn he]; rfl

/-! ### The automaton's turn and stand along a step -/

theorem Gh.stand_endTurn {g g₁ : Gh} (h : g.next .endTurn = some g₁) : g₁.stand = .ended := by
  unfold Gh.next at h
  split at h <;> simp_all
  obtain rfl := h
  rfl

namespace Acc

variable {t : Tid} {p : Pc} {g g' : Gh} {x : Rt} {es : List Ev}

theorem hold_run (h : Acc t p g x es g') : g.hold.run es = some g'.hold := by
  induction h with
  | nil => rfl
  | cons _ hn _ ih => exact Option.bind_eq_some.2 ⟨_, Gh.next_hold hn, ih⟩

theorem allows (h : Acc t p g x es g') : ∀ e ∈ es, ∃ y, p.Allows y e := by
  induction h with
  | nil => nofun
  | cons ha _ _ ih => exact List.forall_mem_cons.2 ⟨⟨_, ha⟩, ih⟩

/-- Nothing follows `putTurn(true)`: the thread has ended. -/
theorem ended (h : Acc t p g x es g') {pre post : List Ev} (he : es = pre ++ .endTurn :: post) :
    post = [] ∧ g'.stand = .ended := by
  induction h generalizing pre with
  | nil => exact absurd he (by simp)
  | cons _ hn hr ih =>
    cases pre with
    | nil =>
      obtain ⟨rfl, rfl⟩ := List.cons.inj he
      have hs := Gh.stand_endTurn hn
      cases hr with
      | nil => exact ⟨rfl, hs⟩
      | cons _ hn' _ => exact absurd hn' (by rw [Gh.next_ended hs]; nofun)
    | cons _ pre => exact ih (List.cons.inj he).2

end Acc

/-! ### The points of one call -/

/-- The wrapper a point inside a call belongs to. -/
def Pc.wrapper : Pc → Option Call
  | .get (.body c) => some c.twin
  | .get (.barrierCycled b) => some (.pthreadBarrierWait b)
  | .parked k => some k.call
  | .post .nonDetBlock => some .nonDetStart
  | .post _ => some .pthreadCreate
  | _ => none

theorem Call.Parks.call_eq {c : Call} {k : Resume} (h : c.Parks k) : k.call = c.twin := by
  cases c <;> try cases h
  all_goals first
    | rfl
    | (rename_i abstime; cases abstime <;> (try obtain ⟨_, rfl⟩ := h) <;> rfl)

theorem Resume.Reparks.call_eq {k k' : Resume} (h : k.Reparks k') : k'.call = k.call := by
  cases k <;> simp only [Resume.Reparks] at h
  all_goals first | (subst h; rfl) | (obtain ⟨_, rfl⟩ := h; rfl)

/-- A step from inside a call stays inside the same wrapper's call, returns, or ends the
process. -/
theorem Next.inCall {p q : Pc} (h : Next p q) (hp : p.inCall = true) :
    (q.inCall = true ∧ q.wrapper = p.wrapper) ∨ q.settled = true ∨ q = .aborted := by
  cases h with
  | abort => exact .inr (.inr rfl)
  | park hk => exact .inl ⟨rfl, congrArg some hk.call_eq⟩
  | repark hk => exact .inl ⟨rfl, congrArg some hk.call_eq⟩
  | cycle | create | posted | nonDetWoken => exact .inl ⟨rfl, rfl⟩
  | ret | resumeRet | cycled | threadEnd | created | forkIdle | nonDetBlock => exact .inr (.inl rfl)
  | stay | enter | pass | native | ioPass | ioBlock | ioEnd | nonDetEnd | begin => cases hp

/-- A point of a call of wrapper `c`, or the end of the process. -/
def Pc.Within (c : Call) (p : Pc) : Prop :=
  (p.inCall = true ∧ p.wrapper = some c.twin) ∨ p = .aborted

theorem Call.twin_eq_nonDetStart {c : Call} (h : c.twin = .nonDetStart) : c = .nonDetStart := by
  cases c <;> first | rfl | cases h | (rename_i abstime; cases abstime <;> cases h)

/-- A point of a call of `c` calls `block` only in `nonDetStart`, and never `wakeup`. -/
theorem Pc.Within.allows {c : Call} {p : Pc} (hp : p.Within c) {x : Rt} {e : Ev}
    (ha : p.Allows x e) : e ≠ .wakeup ∧ (e = .block → c = .nonDetStart) := by
  refine ⟨fun he => ?_, fun he => ?_⟩ <;> subst he <;>
    rcases hp with ⟨hc, hw⟩ | rfl <;> try cases ha
  · rcases p with _ | _ | _ | _ | _ | _ | _ | _ | _ | _ | _ <;> cases hc <;> cases ha
  · rcases p with _ | _ | _ | _ | _ | _ | (_ | _ | _) | _ | _ | _ | _ <;> cases hc <;> cases ha
    exact Call.twin_eq_nonDetStart (Option.some.inj hw).symm

/-! ### Runs of one call -/

/-- The steps of thread `t` inside one wrapper call, from `p` in state `r`: each step starts in
a state `R` relates to the one the previous step left (the other threads run in between), and
the run goes on while the thread is inside the call. `es` are its calls, `q` where it stops. -/
inductive CallRun (o : Options) (t : Tid) (R : Rt → Rt → Prop) : Pc → Rt → List Ev → Pc → Prop
  | done (p : Pc) (r : Rt) : CallRun o t R p r [] p
  | step {p : Pc} {r r₁ : Rt} {es : List Ev} {q : Pc} : p.settled = false →
      R (step o t p r).2.1 r₁ → CallRun o t R (step o t p r).1 r₁ es q →
      CallRun o t R p r ((step o t p r).2.2 ++ es) q

namespace CallRun

variable {o : Options} {t : Tid} {R : Rt → Rt → Prop}

/-- A step with no other thread moving before the next one. -/
theorem next {p : Pc} {r : Rt} {es : List Ev} {q : Pc} (hp : p.settled = false)
    (hR : R (Xtern.step o t p r).2.1 (Xtern.step o t p r).2.1)
    (h : CallRun o t R (Xtern.step o t p r).1 (Xtern.step o t p r).2.1 es q) :
    CallRun o t R p r ((Xtern.step o t p r).2.2 ++ es) q :=
  .step hp hR h

theorem of_settled {p : Pc} {r : Rt} {es : List Ev} {q : Pc} (h : CallRun o t R p r es q)
    (hp : p.settled = true) : es = [] ∧ q = p := by
  cases h with
  | done => exact ⟨rfl, rfl⟩
  | step hs => exact absurd hp (by rw [hs]; nofun)

theorem of_aborted {p : Pc} {r : Rt} {es : List Ev} {q : Pc} (h : CallRun o t R p r es q)
    (hp : p = .aborted) : es = [] ∧ q = .aborted := by
  induction h with
  | done => exact ⟨rfl, hp⟩
  | step _ _ _ ih =>
    subst hp
    obtain ⟨rfl, rfl⟩ := ih rfl
    exact ⟨rfl, rfl⟩

/-- What a run inside a call of `c` does: its calls are accepted by the turn automaton from the
turn its first point holds, to a turn its last point allows; it calls `block` only in
`nonDetStart`, never `wakeup`, and nothing after `putTurn(true)`; and until it returns it stays
inside the call. -/
theorem within {c : Call} {p : Pc} {r : Rt} {es : List Ev} {q : Pc} (hrun : CallRun o t R p r es q)
    (hp : p.Within c) {h : Hold} (hh : p.holdOk h = true) :
    ∃ h', h.run es = some h' ∧ q.holdOk h' = true ∧
      (∀ e ∈ es, e ≠ .wakeup ∧ (e = .block → c = .nonDetStart)) ∧
      (∀ pre post, es = pre ++ .endTurn :: post → post = []) ∧
      (q.settled = false → q.Within c) := by
  induction hrun generalizing h with
  | done p r => exact ⟨h, rfl, hh, nofun, fun _ _ he => absurd he (by simp), fun _ => hp⟩
  | @step p r r₁ es q _ _ hrest ih =>
    obtain ⟨g', hacc, -, hn, hq⟩ := step_spec o t (Gh.start_starts o hh) r
    have hh₁ : (Xtern.step o t p r).1.holdOk g'.hold = true := by
      rcases hq with ⟨hq, -⟩ | hq
      · rw [hq]; rfl
      · exact hq.hold
    have hcalls := fun e he => let ⟨_, ha⟩ := hacc.allows e he; hp.allows ha
    -- the rest of the run: empty once the call returned or the process ended
    have hrest' : (Xtern.step o t p r).1.Within c ∨ (es = [] ∧ q = (Xtern.step o t p r).1) := by
      rcases hp with ⟨hc, hw⟩ | hab
      · rcases hn.inCall hc with ⟨hc', hw'⟩ | hs | hab
        · exact .inl (.inl ⟨hc', hw'.trans hw⟩)
        · exact .inr (hrest.of_settled hs)
        · exact .inl (.inr hab)
      · subst hab; cases hn; exact .inl (.inr rfl)
    rcases hrest' with hw | ⟨rfl, rfl⟩
    · obtain ⟨h', hr, hq', hes, hend, hin⟩ := ih hw hh₁
      refine ⟨h', ?_, hq', ?_, fun pre post he => ?_, hin⟩
      · rw [Hold.run_append]; exact Option.bind_eq_some.2 ⟨_, hacc.hold_run, hr⟩
      · exact List.forall_mem_append.2 ⟨hcalls, hes⟩
      · rcases List.append_eq_append_iff.1 he with ⟨a', -, hb⟩ | ⟨_ | ⟨e, c'⟩, ha, hd⟩
        · exact hend _ _ hb
        · exact hend [] post (by simpa using hd.symm)
        · obtain ⟨rfl, rfl⟩ := List.cons.inj hd
          obtain ⟨rfl, hst⟩ := hacc.ended ha
          have hes : es = [] := by
            rcases hq with ⟨hq, -⟩ | hq
            · exact (hrest.of_aborted hq).1
            · have hz : (Xtern.step o t p r).1 = .zombie := by
                have := hq.stand; rw [hst] at this
                revert this; cases (Xtern.step o t p r).1 <;> simp [Pc.standAt]
              rw [hz] at hrest; exact (hrest.of_settled rfl).1
          simp [hes]
    · refine ⟨g'.hold, by simpa using hacc.hold_run, hh₁, by simpa using hcalls,
        fun pre post he => (hacc.ended (by simpa using he)).1, fun hs => ?_⟩
      rcases hp with ⟨hc, hw⟩ | hab
      · rcases hn.inCall hc with ⟨hc', hw'⟩ | hs' | hab
        · exact .inl ⟨hc', hw'.trans hw⟩
        · exact absurd hs' (by rw [hs]; nofun)
        · exact .inr hab
      · subst hab; cases hn; exact .inr rfl

end CallRun

/-! ### The shape of a wrapper's scheduler calls -/

theorem Hold.next_of_not_isSched {h h₁ : Hold} {e : Ev} (hn : h.next e = some h₁)
    (he : e.isSched = false) : h₁ = h := by
  cases h <;> cases e <;> simp_all [Hold.next, Ev.isSched]

theorem Hold.run_filter {h h' : Hold} {es : List Ev} (hr : h.run es = some h') :
    h.run (es.filter Ev.isSched) = some h' := by
  induction es generalizing h with
  | nil => exact hr
  | cons e es ih =>
    obtain ⟨h₁, hn, hr⟩ := Option.bind_eq_some.1 hr
    cases he : e.isSched
    · rw [List.filter_cons_of_neg (by simp [he])]
      exact ih (Hold.next_of_not_isSched hn he ▸ hr)
    · rw [List.filter_cons_of_pos he]
      exact Option.bind_eq_some.2 ⟨h₁, hn, ih hr⟩

theorem Hold.next_held_cases {e : Ev} {h₁ : Hold} (hn : Hold.held.next e = some h₁)
    (hs : e.isSched = true) : (e.inMid = true ∧ h₁ = .held) ∨ ((e = .putTurn ∨ e = .endTurn) ∧ h₁ = .free) := by
  cases e <;> simp_all [Hold.next, Ev.isSched, Ev.inMid]

theorem Hold.next_free_cases {e : Ev} {h₁ : Hold} (hn : Hold.free.next e = some h₁)
    (hs : e.isSched = true) : (e = .getTurn ∧ h₁ = .held) ∨ ((e = .block ∨ e = .wakeup) ∧ h₁ = .closed) := by
  cases e <;> simp_all [Hold.next, Ev.isSched]

theorem Hold.next_closed_cases {e : Ev} {h₁ : Hold} (hn : Hold.closed.next e = some h₁)
    (hs : e.isSched = true) : (e = .block ∨ e = .wakeup) ∧ h₁ = .closed := by
  cases e <;> simp [Hold.next, Ev.isSched] at hn hs ⊢ <;> exact hn.symm

theorem Hold.run_closed {es : List Ev} {h' : Hold} (hr : Hold.closed.run es = some h')
    (hs : ∀ e ∈ es, e.isSched = true ∧ e ≠ .wakeup) : ∀ e ∈ es, e = .block := by
  induction es with
  | nil => nofun
  | cons e es ih =>
    obtain ⟨h₁, hn, hr⟩ := Option.bind_eq_some.1 hr
    obtain ⟨hse, hw⟩ := hs e (List.mem_cons_self _ _)
    obtain ⟨hb, rfl⟩ := Hold.next_closed_cases hn hse
    exact List.forall_mem_cons.2 ⟨hb.resolve_right hw, ih hr fun x hx => hs x (List.mem_cons_of_mem _ hx)⟩

/-- The turn automaton, run from holding the turn to not holding it over scheduler calls with no
`wakeup` and nothing after `putTurn(true)`, reads them as a middle, a final `putTurn` and
`block`s. -/
theorem Hold.shape_of_run : ∀ {xs : List Ev} {h' : Hold}, Hold.held.run xs = some h' →
    h' ≠ .held → (∀ e ∈ xs, e.isSched = true ∧ e ≠ .wakeup) →
    (∀ pre post, xs = pre ++ .endTurn :: post → post = []) →
    ∃ mid fin tail, xs = mid ++ fin :: tail ∧ Mid mid ∧ (fin = .putTurn ∨ fin = .endTurn) ∧
      ∀ e ∈ tail, e = .block
  | [], _, hr, hh, _, _ => absurd (Option.some.inj hr).symm hh
  | [e], _, hr, hh, hs, _ => by
    obtain ⟨h₁, hn, ⟨⟩⟩ := Option.bind_eq_some.1 hr
    rcases Hold.next_held_cases hn (hs e (List.mem_singleton_self _)).1 with ⟨-, rfl⟩ | ⟨hfin, -⟩
    · exact absurd rfl hh
    · exact ⟨[], e, [], rfl, .nil, hfin, nofun⟩
  | e :: e' :: xs, _, hr, hh, hs, he => by
    obtain ⟨h₁, hn, hr⟩ := Option.bind_eq_some.1 hr
    have hs' : ∀ x ∈ e' :: xs, x.isSched = true ∧ x ≠ .wakeup :=
      fun x hx => hs x (List.mem_cons_of_mem _ hx)
    rcases Hold.next_held_cases hn (hs e (List.mem_cons_self _ _)).1 with ⟨hm, rfl⟩ | ⟨hfin, rfl⟩
    · obtain ⟨mid, fin, tail, hxs, hmid, hfin, htail⟩ :=
        Hold.shape_of_run hr hh hs' fun pre post h => he (e :: pre) post (by rw [h]; rfl)
      exact ⟨e :: mid, fin, tail, by rw [hxs]; rfl, .call hm hmid, hfin, htail⟩
    obtain ⟨h₂, hn', hrx⟩ := Option.bind_eq_some.1 hr
    rcases Hold.next_free_cases hn' (hs' e' (List.mem_cons_self _ _)).1 with ⟨rfl, rfl⟩ | ⟨hb, rfl⟩
    · have hput : e = .putTurn := hfin.resolve_right fun h => by
        subst h; exact List.cons_ne_nil _ _ (he [] _ rfl)
      obtain ⟨mid, fin, tail, hxs, hmid, hfin, htail⟩ :=
        Hold.shape_of_run hrx hh (fun x hx => hs' x (List.mem_cons_of_mem _ hx))
          fun pre post h => he (e :: .getTurn :: pre) post (by rw [h]; rfl)
      exact ⟨.putTurn :: .getTurn :: mid, fin, tail, by rw [hput, hxs]; rfl, .cycle hmid, hfin, htail⟩
    · have he' : e' = .block := hb.resolve_right (hs' e' (List.mem_cons_self _ _)).2
      subst he'
      exact ⟨[], e, .block :: xs, rfl, .nil, hfin, List.forall_mem_cons.2
        ⟨rfl, Hold.run_closed hrx fun x hx => hs' x (List.mem_cons_of_mem _ hx)⟩⟩

/-- A call that starts with `getTurn` and whose calls the turn automaton accepts, to a point
without the turn, has the shape `TurnShape` asks. -/
theorem TurnShape.of_run {c : Call} {es : List Ev} {h' : Hold}
    (hr : Hold.free.run (.getTurn :: es) = some h') (hh : h' ≠ .held)
    (hes : ∀ e ∈ es, e ≠ .wakeup ∧ (e = .block → c = .nonDetStart))
    (hend : ∀ pre post, es = pre ++ .endTurn :: post → post = []) : TurnShape c (.getTurn :: es) := by
  have hr' : Hold.held.run (es.filter Ev.isSched) = some h' := Hold.run_filter hr
  obtain ⟨mid, fin, tail, hxs, hmid, hfin, htail⟩ := Hold.shape_of_run hr' hh
    (List.forall_mem_filter.2 fun e he hs => ⟨hs, (hes e he).1⟩) fun pre post h => by
      obtain ⟨l₁, l₂, rfl, -, hl₂⟩ := List.filter_eq_append_iff.1 h
      obtain ⟨l₃, l₄, rfl, -, -, rfl⟩ := List.filter_eq_cons_iff.1 hl₂
      rw [hend (l₁ ++ l₃) l₄ (by simp)]; rfl
  refine ⟨mid, fin, tail, by rw [List.filter_cons_of_pos rfl, hxs], hmid, hfin, htail,
    fun hne => ?_⟩
  obtain ⟨e, he⟩ := List.exists_mem_of_ne_nil _ hne
  have hb := htail e he
  subst hb
  have : Ev.block ∈ es.filter Ev.isSched := by rw [hxs]; simp [he]
  exact (hes _ (List.mem_of_mem_filter this)).2 rfl

/-! ### The `BLOCK_TIMER` wrappers -/

/-- The points of a `BLOCK_TIMER` wrapper: its call, the native call, the native call that
blocks, and the end of the process. -/
def Pc.outOfTurn : Pc → Bool
  | .ioCall _ _ | .native _ | .blocked _ | .aborted => true
  | _ => false

theorem Next.outOfTurn {p q : Pc} (h : Next p q) (hp : p.outOfTurn = true) :
    q.outOfTurn = true ∨ q.settled = true := by
  cases h <;> first | exact .inl rfl | exact .inr rfl | cases hp

/-- A `BLOCK_TIMER` wrapper never calls `getTurn`, and never holds the turn. -/
theorem CallRun.outOfTurn {o : Options} {t : Tid} {R : Rt → Rt → Prop} {p : Pc} {r : Rt}
    {es : List Ev} {q : Pc} (hrun : CallRun o t R p r es q) (hp : p.outOfTurn = true) {h : Hold}
    (hh : p.holdOk h = true) : ∃ h', h.run es = some h' ∧ .getTurn ∉ es := by
  induction hrun generalizing h with
  | done => exact ⟨h, rfl, nofun⟩
  | @step p r r₁ es q _ _ hrest ih =>
    obtain ⟨g', hacc, -, hn, hq⟩ := step_spec o t (Gh.start_starts o hh) r
    have hget : Ev.getTurn ∉ (Xtern.step o t p r).2.2 := fun he => by
      obtain ⟨_, ha⟩ := hacc.allows _ he
      cases p <;> simp [Pc.Allows, Pc.isGet, Pc.outOfTurn] at ha hp
    rcases hn.outOfTurn hp with hp' | hs
    · have hh₁ : (Xtern.step o t p r).1.holdOk g'.hold = true := by
        rcases hq with ⟨hq, -⟩ | hq
        · rw [hq]; rfl
        · exact hq.hold
      obtain ⟨h', hr, hg⟩ := ih hp' hh₁
      refine ⟨h', ?_, by simp [hget, hg]⟩
      rw [Hold.run_append]; exact Option.bind_eq_some.2 ⟨_, hacc.hold_run, hr⟩
    · obtain ⟨rfl, -⟩ := hrest.of_settled hs
      exact ⟨g'.hold, by simpa using hacc.hold_run, by simpa using hget⟩

/-! ### The entry of a wrapper -/

section Entry

variable (o : Options) (t : Tid)

theorem schedGetTurn_run (c : Call) (r : Rt) : schedGetTurn o t c r =
    (if inNonDetRegion o t r then .aborted else .get (.body c), r, []) := by
  simp only [schedGetTurn, M.run_bind, M.run_rd]; split <;> simp [*]

theorem nonDetOrTurn_run (c : Call) (r : Rt) : nonDetOrTurn o t c r =
    (if inNonDetRegion o t r then .native (some c) else .get (.body c), r, []) := by
  simp only [nonDetOrTurn, M.run_bind, M.run_rd]; split <;> simp [*, schedGetTurn_run]

/-- Outside a non-det region (and always for `idle_sleep`) a wrapper goes to wait for the turn,
making no call. -/
theorem step_call {c : Call} {r : Rt} (h : inNonDetRegion o t r = false ∨ c = .idleSleep) :
    step o t (.call c) r = (.get (.body c), r, []) := by
  show enter o t c r = _
  rcases h with h | rfl
  · rcases enter_eq o t c with e | ⟨rfl, e⟩ | e <;> rw [e]
    · simp [schedGetTurn_run, h]
    · rfl
    · simp [nonDetOrTurn_run, h]
  · rfl

/-- Entering a wrapper makes no call and leaves the state alone. -/
theorem step_call_rt (c : Call) (r : Rt) : (step o t (.call c) r).2 = (r, []) := by
  show (enter o t c r).2 = _
  rcases enter_eq o t c with e | ⟨rfl, e⟩ | e <;> rw [e]
  · simp [schedGetTurn_run]
  · rfl
  · simp [nonDetOrTurn_run]

/-- Inside a non-det region, entering a wrapper other than `idle_sleep` makes no call: it passes
through to the native call, or ends the process at `sched_timer_start`'s `assert(!inNonDet)`. -/
theorem step_call_inNonDet {c : Call} {r : Rt} (h : inNonDetRegion o t r = true)
    (hc : c ≠ .idleSleep) : (step o t (.call c) r).2 = (r, []) ∧
      ((step o t (.call c) r).1 = .native (some c) ∨ (step o t (.call c) r).1 = .aborted) := by
  show (enter o t c r).2 = _ ∧ ((enter o t c r).1 = _ ∨ (enter o t c r).1 = _)
  rcases enter_eq o t c with e | ⟨rfl, e⟩ | e
  · simp [e, schedGetTurn_run, h]
  · exact absurd rfl hc
  · simp [e, nonDetOrTurn_run, h]

end Entry

/-! ### The turn discipline -/

/-- The state the turn guards: the barrier table, the lineup table, `nNonDetWait` and the log. -/
def Rt.guarded (r : Rt) : (Nat → Option Barrier) × (Nat → Option Lineup) × Int × List SyncRec :=
  (r.barriers, r.lineups, r.nNonDetWait, r.log)

/-- Only the calls made holding the turn change what the turn guards. -/
theorem Ev.guarded_apply {e : Ev} (t : Tid) (r : Rt) (he : e.underTurn = false) :
    (e.apply t r).guarded = r.guarded := by
  cases e <;> first | rfl | (rename_i n; cases n <;> rfl) | cases he

theorem Pc.holdOk_settled {q : Pc} {h : Hold} (hq : q.holdOk h = true) (hs : q.settled = true) :
    h ≠ .held := by
  rintro rfl; cases q <;> simp [Pc.holdOk, Pc.settled] at hq hs

/-- The turn discipline of every wrapper, on every path and whatever the other threads do
between its steps.

* Outside a non-det region a wrapper's entry makes no call and goes to wait for the turn; inside
  one it makes no call and passes through to the native call, or ends the process.
* From `SCHED_GET_TURN` on, along every run, the thread calls `getTurn` only without the turn,
  and `signal`, `wait`, `incTurnCount`, `putTurn`, `create`, `join`, `childForkReturn`, the
  writes to the barrier table, the lineup table and `nNonDetWait`, and `logSync` only holding
  it. When the call returns, its scheduler calls are `getTurn`, a middle of `signal`,
  `incTurnCount`, `wait`, `create`, `join`, `childForkReturn` and `putTurn`–`getTurn` cycles,
  one final `putTurn` (`putTurn(true)` at the thread's end), and after it only `nonDetStart`'s
  `block`; the thread does not hold the turn.
* A `BLOCK_TIMER` wrapper never calls `getTurn`.
* Every step's state is the replay of its calls, and only the calls made holding the turn change
  the barrier table, the lineup table, `nNonDetWait` and the log. -/
theorem turnDiscipline (o : Options) (t : Tid) :
    (∀ c r, inNonDetRegion o t r = false ∨ c = .idleSleep →
      step o t (.call c) r = (.get (.body c), r, [])) ∧
    (∀ c r, inNonDetRegion o t r = true → c ≠ .idleSleep → (step o t (.call c) r).2 = (r, []) ∧
      ((step o t (.call c) r).1 = .native (some c) ∨ (step o t (.call c) r).1 = .aborted)) ∧
    (∀ c R r es q, CallRun o t R (.get (.body c)) r es q →
      Disciplined es ∧ (q.settled = true → TurnShape c es ∧ holdsAfter es = false)) ∧
    (∀ op fd R r es q, CallRun o t R (.ioCall op fd) r es q → .getTurn ∉ es ∧ Disciplined es) ∧
    (∀ p r, (step o t p r).2.1 = replay t r (step o t p r).2.2) ∧
    (∀ (e : Ev) (r : Rt), e.underTurn = false → (e.apply t r).guarded = r.guarded) := by
  refine ⟨fun c r h => step_call o t h, fun c r h hc => step_call_inNonDet o t h hc,
    fun c R r es q hrun => ?_, fun op fd R r es q hrun => ?_, step_replay o t,
    fun e r he => Ev.guarded_apply t r he⟩
  · obtain ⟨h', hr, hq, hes, hend, -⟩ := hrun.within (.inl ⟨rfl, rfl⟩) (h := .free) rfl
    refine ⟨Hold.disciplined hr, fun hs => ⟨?_, ?_⟩⟩
    swap
    · have hh : es.foldl Ev.holds false = (h' == .held) := Hold.run_holds hr
      rw [holdsAfter, hh]; simpa using Pc.holdOk_settled hq hs
    cases hrun with
    | done => cases hs
    | step _ _ hrest =>
      exact TurnShape.of_run hr (Pc.holdOk_settled hq hs)
        (fun e he => hes e (List.mem_cons_of_mem _ he)) fun pre post h =>
          hend (.getTurn :: pre) post (by rw [List.cons_append, ← h]; rfl)
  · obtain ⟨h', hr, hg⟩ := hrun.outOfTurn rfl (h := .free) rfl
    exact ⟨hg, Hold.disciplined hr⟩

/-- The last arriver at barrier `0` of count one: `pthread_barrier_wait` cycles the turn and
returns `PTHREAD_BARRIER_SERIAL_THREAD` after two steps, with the scheduler calls `getTurn`,
`incTurnCount`, `signal`, `putTurn`, `getTurn`, `incTurnCount`, `putTurn`. -/
theorem turnDiscipline_runs :
    let o : Options := ⟨true, false, true, 1000, true, false⟩
    let r : Rt := { Rt.init ⟨⟨0, 0⟩, fun _ => 1, fun _ => false, true, true⟩ with
      barriers := fun _ => some ⟨1, 0⟩ }
    ∃ es q, CallRun o 0 (fun _ _ => True) (.get (.body (.pthreadBarrierWait 0))) r es q ∧
      q = .ret (some (.pthreadBarrierWait 0)) barrierSerialThread ∧
      es.filter Ev.isSched = [.getTurn, .incTurnCount, .signal (.barrier 0) true, .putTurn,
        .getTurn, .incTurnCount, .putTurn] ∧
      Disciplined es ∧ TurnShape (.pthreadBarrierWait 0) es ∧ holdsAfter es = false := by
  intro o r
  have h : CallRun o 0 (fun _ _ => True) (.get (.body (.pthreadBarrierWait 0))) r _ _ :=
    .next rfl trivial (.next rfl trivial (.done _ _))
  obtain ⟨hd, hs⟩ := (turnDiscipline o 0).2.2.1 _ _ _ _ _ h
  exact ⟨_, _, h, rfl, rfl, hd, hs rfl⟩

/-- `nonDetStart` ends with its thread blocked and `inNonDet` set. A `sleep` the thread then
makes is not passed through to the native call: it reaches `sched_timer_start`'s assertion and
ends the process, where `pthread_mutex_lock` passes through. -/
theorem nonDet_sleep_aborts :
    let o : Options := ⟨false, true, true, 1000, true, false⟩
    let r₀ := Rt.init ⟨⟨0, 0⟩, fun _ => 1, fun _ => false, false, false⟩
    let r := (post 0 .nonDetBlock r₀).2.1
    (post 0 .nonDetBlock r₀).1 = .ret (some .nonDetStart) 0 ∧ inNonDetRegion o 0 r ∧
      (enter o 0 (.sleep 1) r).1 = .aborted ∧
      (enter o 0 (.pthreadMutexLock 0) r).1 = .native (some (.pthreadMutexLock 0)) := by
  decide

end Xtern
