import Xtern.System
import Mathlib.Data.List.Sort

/-! # The sync log

With `log_sync` on, a record is appended by `SCHED_INC_TURN` (a first half, at the value
`incTurnCount` returns), by `SCHED_PUT_TURN` and `sched_thread_end` (a second half, at the count
read after incrementing it) and by `idle_sleep` (at the value `incTurnCount` returns). The call
that appends it is `logSync`, and `step_calls` says that a step makes it only at the current
count (`Pc.Allows`) and only after an `incTurnCount` made since its last record (`Gh.counted`).
No call lowers the count, so every record is past every record before it, whichever thread made
it: the turns of the log strictly increase in the order the records are appended, in every
state any program reaches (`Below`, `Step.log_below`).

Over one wrapper call, the automaton's `grp` component reads the records: from `fresh`, an
operation of one record logs a second half and is `done`; an operation of two
(`pthread_cond_wait`, `pthread_cond_timedwait`, `pthread_barrier_wait`) logs a first half and,
in the same or a later step, the second half of the same operation. A call that returns has
reached `done` (`Lands`), so its records are exactly one group of `NumRecordsForSync(op)`
(`CallRun.oneGroup`), whatever the other threads do in between, as long as they do not lower the
count, which no move of the process does (`Step.turnCount_le`). -/

namespace Xtern

/-! ### The records calls append -/

/-- The record a call of thread `t` appends to the log: `logSync` appends one, no other call
any. -/
def Ev.record (t : Tid) : Ev → Option SyncRec
  | .logSync op after turn => some ⟨t, op, turn, after⟩
  | _ => none

theorem Ev.apply_log (t : Tid) (e : Ev) (x : Rt) :
    (e.apply t x).log = x.log ++ (e.record t).toList := by
  cases e with
  | logSync => rfl
  | mutate w => cases w <;> simp [Ev.apply, Write.apply, Ev.record]
  | native n => cases n <;> simp [Ev.apply, Native.apply, Ev.record]
  | _ => simp [Ev.apply, Ev.record]

/-- No call lowers the turn count: `incTurnCount` and `wait` raise it, the others keep it. -/
theorem Ev.turnCount_le (t : Tid) (e : Ev) (x : Rt) :
    x.sched.turnCount ≤ (e.apply t x).sched.turnCount := by
  cases e with
  | incTurnCount | wait => exact Nat.le_succ _
  | putTurn => simp [Ev.apply]
  | mutate w => cases w <;> exact le_rfl
  | native n => cases n <;> exact le_rfl
  | _ => exact le_rfl

/-- The log after calls `es` of `t`: the log before, then the records of `es` in order. -/
theorem replay_log (t : Tid) (r : Rt) (es : List Ev) :
    (replay t r es).log = r.log ++ es.filterMap (Ev.record t) := by
  induction es generalizing r with
  | nil => simp
  | cons e es ih =>
    rw [replay_cons, ih, Ev.apply_log, List.filterMap_cons]
    cases e.record t <;> simp

theorem turnCount_le_replay (t : Tid) (r : Rt) (es : List Ev) :
    r.sched.turnCount ≤ (replay t r es).sched.turnCount := by
  induction es generalizing r with
  | nil => exact le_rfl
  | cons e es ih => exact (Ev.turnCount_le t e r).trans (ih _)

theorem Ev.record_tid {t : Tid} {e : Ev} {x : SyncRec} (h : e.record t = some x) : x.tid = t := by
  cases e <;> simp [Ev.record] at h
  rw [← h]

/-- The records of thread `t` and of the others, after `t` appends `l'`. -/
theorem filter_tid_append {l l' : List SyncRec} {t : Tid} (h : ∀ e ∈ l', e.tid = t) (u : Tid) :
    (l ++ l').filter (·.tid = u) = l.filter (·.tid = u) ++ if u = t then l' else [] := by
  rw [List.filter_append]
  congr 1
  split_ifs with hu
  · exact List.filter_eq_self.2 fun e he => by simp [h e he, hu]
  · exact List.filter_eq_nil_iff.2 fun e he => by simp [h e he, Ne.symm hu]

/-! ### Records below the count -/

/-- Records at strictly increasing turns, none past the count `n`. -/
structure Below (n : Nat) (l : List SyncRec) : Prop where
  sorted : (l.map (·.turn)).Sorted (· < ·)
  le : ∀ e ∈ l, e.turn ≤ n

theorem Below.mono {n m : Nat} {l : List SyncRec} (h : Below n l) (hn : n ≤ m) : Below m l :=
  ⟨h.sorted, fun e he => (h.le e he).trans hn⟩

/-- A record at the count, past every record before it. -/
theorem Below.snoc {n : Nat} {l : List SyncRec} (h : Below n l) (hlt : ∀ e ∈ l, e.turn < n)
    {e : SyncRec} (he : e.turn = n) : Below n (l ++ [e]) := by
  refine ⟨?_, fun x hx => ?_⟩
  · rw [List.map_append, List.Sorted, List.pairwise_append]
    exact ⟨h.sorted, List.pairwise_singleton _ _, by simpa [he] using hlt⟩
  · rcases List.mem_append.1 hx with hx | hx
    · exact h.le x hx
    · rw [List.mem_singleton.1 hx, he]

/-! ### What a step's calls log -/

/-- The automaton's record component over records. -/
def Grp.runs : Grp → List SyncRec → Option Grp
  | g, [] => some g
  | g, e :: l => (g.take e.op e.after).bind (Grp.runs · l)

theorem Grp.runs_append (g : Grp) (l₁ l₂ : List SyncRec) :
    Grp.runs g (l₁ ++ l₂) = (Grp.runs g l₁).bind (Grp.runs · l₂) := by
  induction l₁ generalizing g with
  | nil => rfl
  | cons e l ih => cases h : g.take e.op e.after <;> simp [Grp.runs, h, ih]

/-- A call other than `incTurnCount` never sets the automaton's `counted`. -/
theorem Gh.next_counted {g g₁ : Gh} {e : Ev} (h : g.next e = some g₁) (he : e ≠ .incTurnCount)
    (hc : g₁.counted = true) : g.counted = true := by
  unfold Gh.next at h
  split at h
  all_goals first
    | exact absurd rfl he
    | (cases h; exact hc)
    | (split_ifs at h; cases h; exact hc)
    | (split_ifs at h with h'; exact h')
    | cases h

/-- The automaton's record component moves on a call's record as `Grp.runs` says. -/
theorem Gh.next_grp (t : Tid) {g g₁ : Gh} {e : Ev} (h : g.next e = some g₁) :
    Grp.runs g.grp (e.record t).toList = some g₁.grp := by
  unfold Gh.next at h
  cases e
  case logSync =>
    split at h <;> simp_all
    obtain ⟨-, _, hg, rfl⟩ := h
    simpa [Ev.record, Grp.runs] using hg
  all_goals split at h <;> first | (cases h; rfl) | (split_ifs at h; cases h; rfl) | simp_all

/-- One accepted call keeps the records below the count, and those of a thread that has
counted a turn since its last record strictly below. -/
theorem Gh.next_below (t : Tid) {p : Pc} {x : Rt} {e : Ev} {g g₁ : Gh} (ha : p.Allows x e)
    (hn : g.next e = some g₁) {l : List SyncRec} (hb : Below x.sched.turnCount l)
    (hc : g.counted = true → ∀ r ∈ l, r.turn < x.sched.turnCount) :
    Below (e.apply t x).sched.turnCount (l ++ (e.record t).toList) ∧
      (g₁.counted = true →
        ∀ r ∈ l ++ (e.record t).toList, r.turn < (e.apply t x).sched.turnCount) := by
  have hle := Ev.turnCount_le t e x
  cases e
  case incTurnCount =>
    exact ⟨by simpa [Ev.record] using hb.mono (Nat.le_succ _),
      fun _ r hr => Nat.lt_succ_of_le (hb.le r (by simpa [Ev.record] using hr))⟩
  case logSync =>
    have ⟨hc', hg⟩ : g.counted = true ∧ g₁.counted = false := by
      unfold Gh.next at hn; split at hn <;> simp_all
      obtain ⟨-, _, -, rfl⟩ := hn; rfl
    exact ⟨hb.snoc (hc hc') ha, by simp [hg]⟩
  all_goals
    refine ⟨by simpa [Ev.record] using hb.mono hle, fun h₁ r hr => ?_⟩
    exact (hc (Gh.next_counted hn nofun h₁) r (by simpa [Ev.record] using hr)).trans_le hle

/-- The calls of a step from `p` keep the records below the count and move the record
component as their records say. -/
theorem Acc.records {t : Tid} {p : Pc} {g g' : Gh} {x : Rt} {es : List Ev} (h : Acc t p g x es g')
    {l : List SyncRec} (hb : Below x.sched.turnCount l)
    (hc : g.counted = true → ∀ r ∈ l, r.turn < x.sched.turnCount) :
    Grp.runs g.grp (es.filterMap (Ev.record t)) = some g'.grp ∧
      Below (replay t x es).sched.turnCount (l ++ es.filterMap (Ev.record t)) := by
  induction h generalizing l with
  | nil => exact ⟨rfl, by simpa using hb⟩
  | @cons g g₁ g' x e es ha hn _ ih =>
    obtain ⟨hb₁, hc₁⟩ := Gh.next_below t ha hn hb hc
    obtain ⟨hr, hb'⟩ := ih hb₁ hc₁
    have hfm : (e :: es).filterMap (Ev.record t) = (e.record t).toList ++ es.filterMap (Ev.record t) := by
      rw [List.filterMap_cons]; cases e.record t <;> rfl
    refine ⟨?_, by simpa [hfm] using hb'⟩
    rw [hfm, Grp.runs_append, Gh.next_grp t hn]
    exact hr

/-- A step keeps the records below the count: those it appends are past every record before
it. -/
theorem step_below (o : Options) (t : Tid) (p : Pc) {r : Rt} {l : List SyncRec}
    (hb : Below r.sched.turnCount l) :
    Below (step o t p r).2.1.sched.turnCount (l ++ (step o t p r).2.2.filterMap (Ev.record t)) := by
  obtain ⟨g', hacc, hrep, -⟩ := step_spec o t (Gh.start_starts o p.holdOk_holdAt) r
  rw [hrep]
  exact (hacc.records hb nofun).2

theorem records_tid (t : Tid) (es : List Ev) : ∀ e ∈ es.filterMap (Ev.record t), e.tid = t :=
  fun _ he => by
    obtain ⟨x, -, hx⟩ := List.mem_filterMap.1 he
    exact Ev.record_tid hx

/-- A step appends the records of its calls to the log. -/
theorem step_log (o : Options) (t : Tid) (p : Pc) (r : Rt) :
    (step o t p r).2.1.log = r.log ++ (step o t p r).2.2.filterMap (Ev.record t) := by
  rw [step_replay, replay_log]

/-- The records a step appends are past the count it started from: a record at that count is
below all of them. -/
theorem step_records_fresh (o : Options) (t : Tid) (p : Pc) (r : Rt) :
    ∀ e ∈ (step o t p r).2.2.filterMap (Ev.record t), r.sched.turnCount < e.turn := by
  obtain ⟨g', hacc, -, -⟩ := step_spec o t (Gh.start_starts o p.holdOk_holdAt) r
  have hs := (hacc.records (l := [⟨t, .ternIdle, r.sched.turnCount, true⟩])
    ⟨List.sorted_singleton _, by simp⟩ nofun).2.sorted
  simp only [List.singleton_append, List.map_cons, List.sorted_cons, List.mem_map] at hs
  exact fun e he => hs.1 _ ⟨e, he, rfl⟩

/-! ### The whole log -/

variable {o : Options} {app : Pc → Bool}

/-- No move of the process lowers the turn count. -/
theorem Step.turnCount_le {s s' : Sys} (h : Step o app s s') :
    s.rt.sched.turnCount ≤ s'.rt.sched.turnCount := by
  cases h with
  | call => exact le_rfl
  | @run t _ =>
    show _ ≤ (step o t (s.pc t) s.rt).2.1.sched.turnCount
    rw [step_replay]
    exact turnCount_le_replay _ _ _
  | expire | deadlock => exact le_rfl

/-- Every move keeps the log below the count. -/
theorem Step.log_below {s s' : Sys} (h : Step o app s s') (hb : Below s.rt.sched.turnCount s.rt.log) :
    Below s'.rt.sched.turnCount s'.rt.log := by
  cases h with
  | call => exact hb
  | @run t _ =>
    have := step_below o t (s.pc t) hb
    rwa [← replay_log, ← step_replay] at this
  | expire | deadlock => exact hb

/-- A move appends records of one thread at most, one that could move, each past the count. -/
theorem Step.log_cases {s s' : Sys} (h : Step o app s s') :
    ∃ l, s'.rt.log = s.rt.log ++ l ∧ (∀ e ∈ l, s.rt.sched.turnCount < e.turn) ∧
      (l = [] ∨ ∃ t, s.ready t ∧ ∀ e ∈ l, e.tid = t) := by
  cases h with
  | call | expire | deadlock => exact ⟨[], (List.append_nil _).symm, nofun, .inl rfl⟩
  | @run t hr =>
    exact ⟨_, step_log o t (s.pc t) s.rt, step_records_fresh o t (s.pc t) s.rt,
      .inr ⟨t, hr, records_tid t _⟩⟩

theorem Reachable.turnCount_le {s₀ s : Sys} (h : Reachable o app s₀ s) :
    s₀.rt.sched.turnCount ≤ s.rt.sched.turnCount := by
  induction h with
  | init => exact le_rfl
  | step _ hs ih => exact ih.trans hs.turnCount_le

/-- Every record appended after a reachable state is past its count. -/
theorem Reachable.log_grows {s₀ s : Sys} (h : Reachable o app s₀ s) :
    ∃ l, s.rt.log = s₀.rt.log ++ l ∧ ∀ e ∈ l, s₀.rt.sched.turnCount < e.turn := by
  induction h with
  | init => exact ⟨[], (List.append_nil _).symm, nofun⟩
  | step hr hs ih =>
    obtain ⟨l₁, h₁, f₁⟩ := ih
    obtain ⟨l₂, h₂, f₂, -⟩ := hs.log_cases
    refine ⟨l₁ ++ l₂, by rw [h₂, h₁, List.append_assoc], fun e he => ?_⟩
    rcases List.mem_append.1 he with he | he
    · exact f₁ e he
    · exact hr.turnCount_le.trans_lt (f₂ e he)

theorem Reachable.log_below {s₀ s : Sys} (h : Reachable o app s₀ s)
    (h₀ : Below s₀.rt.sched.turnCount s₀.rt.log) : Below s.rt.sched.turnCount s.rt.log := by
  induction h with
  | init => exact h₀
  | step _ hs ih => exact hs.log_below ih

/-! ### The records of one call -/

/-- The records of one call of an operation: `NumRecordsForSync(op)` of them, a second half
alone, or a first half and then the second half of the same operation at a larger turn. -/
inductive OneGroup : List SyncRec → Prop
  | one {e : SyncRec} : numRecordsForSync e.op = 1 → e.after = true → OneGroup [e]
  | two {e₁ e₂ : SyncRec} : numRecordsForSync e₁.op = 2 → e₁.after = false → e₂.op = e₁.op →
      e₂.after = true → e₁.turn < e₂.turn → OneGroup [e₁, e₂]

theorem Grp.take_eq_some {g g' : Grp} {op : SyncOp} {after : Bool}
    (h : g.take op after = some g') :
    (g = .fresh ∧ after = false ∧ numRecordsForSync op = 2 ∧ g' = .half op) ∨
      (g = .fresh ∧ after = true ∧ numRecordsForSync op = 1 ∧ g' = .done) ∨
      (g = .half op ∧ after = true ∧ g' = .done) := by
  unfold Grp.take at h
  split at h <;> (try split_ifs at h) <;> cases h <;> simp_all

theorem Grp.runs_done {l : List SyncRec} {g : Grp} (h : Grp.runs .done l = some g) : l = [] := by
  cases l with
  | nil => rfl
  | cons e l => simp [Grp.runs, Grp.take] at h

/-- Records at increasing turns that take the record component from `fresh` to `done` are one
group. -/
theorem Grp.oneGroup {l : List SyncRec} (h : Grp.runs .fresh l = some .done)
    (hs : (l.map (·.turn)).Sorted (· < ·)) : OneGroup l := by
  match l, h with
  | e :: l, h =>
    obtain ⟨g₁, h₁, h₂⟩ := Option.bind_eq_some.1 h
    rcases Grp.take_eq_some h₁ with ⟨-, ha, hk, rfl⟩ | ⟨-, ha, hk, rfl⟩ | ⟨⟨⟩, -⟩
    · match l, h₂ with
      | e₂ :: l, h₂ =>
        obtain ⟨g₂, h₃, h₄⟩ := Option.bind_eq_some.1 h₂
        rcases Grp.take_eq_some h₃ with ⟨⟨⟩, -⟩ | ⟨⟨⟩, -⟩ | ⟨ho, ha₂, rfl⟩
        cases Grp.runs_done h₄
        exact .two hk ha (Grp.half.inj ho).symm ha₂ (by simpa using hs)
    · cases Grp.runs_done h₂
      exact .one hk ha

theorem Pc.inCall_settled {p : Pc} (hp : p.inCall = true) : p.settled = false := by
  cases p <;> simp_all [Pc.inCall, Pc.settled]

namespace CallRun

variable {t : Tid} {R : Rt → Rt → Prop}

/-- Over a run inside a call that returns, whatever the other threads do between its steps as
long as they do not lower the count, the records take the record component from the point's
to `done`, each past the one before. -/
theorem records (ho : o.logSync = true)
    (hR : ∀ x y, R x y → x.sched.turnCount ≤ y.sched.turnCount) {p : Pc} {r : Rt} {es : List Ev}
    {q : Pc} (h : CallRun o t R p r es q) (hp : p.inCall = true) (hq : q.settled = true)
    {l : List SyncRec} (hb : Below r.sched.turnCount l) :
    Grp.runs p.grpAt (es.filterMap (Ev.record t)) = some .done ∧
      ∃ n, Below n (l ++ es.filterMap (Ev.record t)) := by
  induction h generalizing l with
  | done => rw [Pc.inCall_settled hp] at hq; cases hq
  | @step p r r₁ es q _ hr hrest ih =>
    obtain ⟨g', hacc, hrep, hn, hland⟩ := step_spec o t (Gh.start_starts o p.holdOk_holdAt) r
    obtain ⟨hg, hb₁⟩ := hacc.records hb nofun
    change Grp.runs p.grpAt _ = _ at hg
    rw [← hrep] at hb₁
    rw [List.filterMap_append, Grp.runs_append]
    rcases hland with ⟨hab, -⟩ | hl
    · rw [(hrest.of_aborted hab).2] at hq; cases hq
    have hgrp := hl.grp ho
    rw [hp, if_pos rfl] at hgrp
    rcases hn.inCall hp with ⟨hc, -⟩ | hs | hab
    · obtain ⟨hr', n, hb'⟩ := ih hc hq (hb₁.mono (hR _ _ hr))
      rw [if_neg (by rw [Pc.inCall_settled hc]; nofun)] at hgrp
      refine ⟨by rw [hg, Option.some_bind, hgrp]; exact hr', n, by simpa using hb'⟩
    · obtain ⟨rfl, -⟩ := hrest.of_settled hs
      rw [if_pos hs] at hgrp
      exact ⟨by rw [hg, hgrp]; rfl, _, by simpa using hb₁⟩
    · rw [(hrest.of_aborted hab).2] at hq; cases hq

/-- The records of a call of a turn-based wrapper that returns are one group of
`NumRecordsForSync(op)`. -/
theorem oneGroup (ho : o.logSync = true)
    (hR : ∀ x y, R x y → x.sched.turnCount ≤ y.sched.turnCount) {c : Call} {r : Rt}
    {es : List Ev} {q : Pc} (h : CallRun o t R (.get (.body c)) r es q) (hq : q.settled = true) :
    OneGroup (es.filterMap (Ev.record t)) := by
  obtain ⟨hg, n, hb⟩ := h.records ho hR rfl hq (l := []) ⟨List.sorted_nil, nofun⟩
  exact Grp.oneGroup hg (by simpa using hb.sorted)

end CallRun

/-! ### Threads between the halves of an operation -/

/-- Records that leave the record component between the halves of `op` are none, from there,
or end with the first half of `op`. -/
theorem Grp.runs_half {g : Grp} {l : List SyncRec} {op : SyncOp}
    (h : Grp.runs g l = some (.half op)) :
    (l = [] ∧ g = .half op) ∨ ∃ e, l.getLast? = some e ∧ e.op = op ∧ e.after = false := by
  rcases List.eq_nil_or_concat l with rfl | ⟨l', e, rfl⟩
  · exact .inl ⟨rfl, Option.some.inj h⟩
  · rw [List.concat_eq_append] at h ⊢
    rw [Grp.runs_append] at h
    obtain ⟨g₁, -, h'⟩ := Option.bind_eq_some.1 h
    obtain ⟨g₂, hg, he⟩ := Option.bind_eq_some.1 h'
    cases Option.some.inj he
    rcases Grp.take_eq_some hg with ⟨-, ha, -, he⟩ | ⟨-, -, -, ⟨⟩⟩ | ⟨-, -, ⟨⟩⟩
    exact .inr ⟨e, List.getLast?_concat .., (Grp.half.inj he).symm, ha⟩

theorem Pc.settled_of_half {q : Pc} {op : SyncOp} (h : q.grpAt = .half op) :
    q.settled = false := by
  cases q <;> simp_all [Pc.grpAt, Pc.settled]

/-- A step that stops between the halves of `op` logged the first half last, or logged nothing
and started there. -/
theorem step_half (ho : o.logSync = true) (t : Tid) (p : Pc) (r : Rt) {op : SyncOp}
    (hq : (step o t p r).1.grpAt = .half op) :
    (p.grpAt = .half op ∧ (step o t p r).2.2.filterMap (Ev.record t) = []) ∨
      ∃ e, ((step o t p r).2.2.filterMap (Ev.record t)).getLast? = some e ∧ e.op = op ∧
        e.after = false := by
  obtain ⟨g', hacc, -, -, hland⟩ := step_spec o t (Gh.start_starts o p.holdOk_holdAt) r
  rcases hland with ⟨hab, -⟩ | hl
  · rw [hab] at hq; cases hq
  have hg := (hacc.records (l := []) ⟨List.sorted_nil, nofun⟩ nofun).1
  change Grp.runs p.grpAt _ = _ at hg
  rw [hl.grp ho, Pc.settled_of_half hq, if_neg Bool.false_ne_true, hq] at hg
  rcases Grp.runs_half hg with ⟨hn, hp⟩ | he
  · exact .inl ⟨hp, hn⟩
  · exact .inr he

/-- What a move does to a thread that ends between the halves of `op`: it was there with its
records unchanged, or its last record is the first half, logged past the count. -/
theorem Step.half_cases (ho : o.logSync = true)
    (happ : ∀ p, app p = true → p.grpAt = .fresh) {s s' : Sys} (h : Step o app s s') (u : Tid)
    {op : SyncOp} (hu : (s'.pc u).grpAt = .half op) :
    ((s.pc u).grpAt = .half op ∧ s'.rt.log.filter (·.tid = u) = s.rt.log.filter (·.tid = u)) ∨
      ∃ e, (s'.rt.log.filter (·.tid = u)).getLast? = some e ∧ e.op = op ∧ e.after = false ∧
        s.rt.sched.turnCount < e.turn := by
  cases h with
  | @call t _ _ p _ ha =>
    simp only [Function.update_apply] at hu
    split_ifs at hu
    · rw [happ p ha] at hu; cases hu
    · exact .inl ⟨hu, rfl⟩
  | expire | deadlock => exact .inl ⟨hu, rfl⟩
  | @run t _ =>
    simp only [Sys.runStep, Function.update_apply] at hu ⊢
    rw [step_log, filter_tid_append (records_tid t _)]
    split_ifs at hu ⊢ with hut
    · subst hut
      rcases step_half ho u (s.pc u) s.rt hu with ⟨hp, hn⟩ | ⟨e, he, heo, hea⟩
      · exact .inl ⟨hp, by rw [hn, List.append_nil]⟩
      · refine .inr ⟨e, by simp [List.getLast?_append, he], heo, hea,
          step_records_fresh o u _ _ e (List.mem_of_getLast?_eq_some he)⟩
    · exact .inl ⟨hu, List.append_nil _⟩

/-- Every thread between the halves of an operation logged its first half last. -/
def Sys.HalfOk (s : Sys) : Prop :=
  ∀ u op, (s.pc u).grpAt = .half op →
    ∃ e, (s.rt.log.filter (·.tid = u)).getLast? = some e ∧ e.op = op ∧ e.after = false

theorem Sys.HalfOk.step (ho : o.logSync = true) (happ : ∀ p, app p = true → p.grpAt = .fresh)
    {s s' : Sys} (hs : s.HalfOk) (h : Step o app s s') : s'.HalfOk := fun u op hu => by
  rcases h.half_cases ho happ u hu with ⟨hp, he⟩ | ⟨e, he, heo, hea, -⟩
  · rw [he]; exact hs u op hp
  · exact ⟨e, he, heo, hea⟩

end Xtern
