import Mathlib.Data.List.Basic

/-! # Event functions and event-free branches

`EventMgr` (`lib/path-slicer/event-mgr.cpp`) finds the functions that may reach a sync
operation. `traverse_call_graph` runs `DFS(f)` from each function `setupEvents` listed, and
`DFS(f)` marks `f` and walks back from it to each function holding one of its call sites;
`mayCallEvent(f)` reads the marks. `eventBetween(br, post)` flood-fills the control-flow graph
from the successors of a branch, stopping at the block of `post`, and reports whether a visited
block calls a function that may reach an event.

Both searches recurse without a bound in the source. Here they take `fuel` and return `none`
when it runs out. `traverseCallGraph` and `eventBetween` give them one more than the number of
call sites and of blocks, and that always suffices (`dfs_isSome`, `dfsBB_isSome`): each nested
call marks a function, or a block, that was not marked. `traverseCallGraph_exact` and
`eventBetween_exact` say what the two compute. -/

namespace Xtern

/-- The call graph `CallGraphFP` builds: each entry is a call site, as the function it calls and
the function it is in (`cs->getParent()->getParent()`), in the pass's order. -/
structure CallGraph where
  sites : List (Nat × Nat)
  deriving DecidableEq, Repr

/-- `get_call_sites(f)`, each call site given by the function containing it. -/
def CallGraph.getCallSites (g : CallGraph) (f : Nat) : List Nat :=
  (g.sites.filter (·.1 = f)).map (·.2)

/-- An instruction, as `eventBetween` reads it: `is_call`, `is_intrinsic_call` and
`get_called_functions`. -/
structure Inst where
  isCall : Bool
  isIntrinsic : Bool
  calledFunctions : List Nat
  deriving DecidableEq, Repr

/-- The control-flow graph of a function: its blocks in order, the successors of each and its
instructions. The successors of a block of the function are blocks of the function. -/
structure Cfg where
  blocks : List Nat
  succ : Nat → List Nat
  insts : Nat → List Inst
  closed : ∀ b ∈ blocks, ∀ y ∈ succ b, y ∈ blocks

/-- The fields of `EventMgr` that its modelled methods read: `sync_funcs` and `visited`. -/
structure EventMgr where
  syncFuncs : List Nat
  visited : List Nat
  deriving DecidableEq, Repr

/-- `EventMgr::DFS(Function *f)` on the set `visited`, with at most `fuel` nested calls. -/
def dfs (g : CallGraph) : Nat → List Nat → Nat → Option (List Nat)
  | 0, _, _ => none
  | fuel + 1, visited, f =>
    (g.getCallSites f).foldlM
      (fun vis caller => if caller ∈ vis then some vis else dfs g fuel vis caller) (visited.insert f)

/-- `EventMgr::DFS(BasicBlock *x, BasicBlock *sink)` on the set of blocks marked in
`bbVisited`, with at most `fuel` nested calls. -/
def dfsBB (F : Cfg) (sink : Nat) : Nat → List Nat → Nat → Option (List Nat)
  | 0, _, _ => none
  | fuel + 1, visited, x =>
    if x ∈ visited then some visited
    else if x = sink then some visited
    else (F.succ x).foldlM (dfsBB F sink fuel) (x :: visited)

namespace EventMgr

/-- `setupEvents(eventList)`. -/
def setupEvents (m : EventMgr) (eventList : List Nat) : EventMgr := { m with syncFuncs := eventList }

/-- `mayCallEvent(f)`. -/
def mayCallEvent (m : EventMgr) (f : Nat) : Bool := f ∈ m.visited

/-- `traverse_call_graph(M)`: clears `visited` and runs `DFS` from each sync function. -/
def traverseCallGraph (m : EventMgr) (g : CallGraph) : Option EventMgr :=
  (m.syncFuncs.foldlM (dfs g (g.sites.length + 1)) []).map fun v => { m with visited := v }

/-- `eventBetween(prevInstr, postInstr)`, for the branch ending block `brBB` of `F` and
`postInstr` in block `postBB`: flood-fill from the successors of the branch, then look for a
call, not an intrinsic, with a callee that may call an event, in a visited block. -/
def eventBetween (m : EventMgr) (F : Cfg) (brBB postBB : Nat) : Option Bool :=
  ((F.succ brBB).foldlM (dfsBB F postBB (F.blocks.length + 1)) []).map fun visited =>
    F.blocks.any fun b => decide (b ∈ visited) && (F.insts b).any fun i =>
      i.isCall && !i.isIntrinsic && i.calledFunctions.any m.mayCallEvent

end EventMgr

/-! ### What the searches look for -/

/-- `u` reaches `f` along the call graph: `u` is `f`, or holds a call site of a function that
reaches `f`. -/
inductive Calls (g : CallGraph) : Nat → Nat → Prop
  | refl (f : Nat) : Calls g f f
  | site {u w f : Nat} : u ∈ g.getCallSites w → Calls g w f → Calls g u f

theorem Calls.trans {g : CallGraph} {u w f : Nat} (h₁ : Calls g u w) (h₂ : Calls g w f) :
    Calls g u f := by
  induction h₁ with
  | refl => exact h₂
  | site hs _ ih => exact .site hs (ih h₂)

/-- `b` is reached from `x` along edges of `F` by a path that never enters `sink`. -/
inductive Path (F : Cfg) (sink x : Nat) : Nat → Prop
  | refl : x ≠ sink → Path F sink x x
  | edge {a b : Nat} : Path F sink x a → b ∈ F.succ a → b ≠ sink → Path F sink x b

theorem Path.trans {F : Cfg} {sink x a b : Nat} (h₁ : Path F sink x a) (h₂ : Path F sink a b) :
    Path F sink x b := by
  induction h₂ with
  | refl => exact h₁
  | edge _ hs hb ih => exact .edge ih hs hb

theorem Path.ne_sink {F : Cfg} {sink x b : Nat} (h : Path F sink x b) : x ≠ sink := by
  induction h with
  | refl hx => exact hx
  | edge _ _ _ ih => exact ih

/-- A path from a block of the function stays in the function. -/
theorem Path.mem_blocks {F : Cfg} {sink x b : Nat} (h : Path F sink x b) (hx : x ∈ F.blocks) :
    b ∈ F.blocks := by
  induction h with
  | refl => exact hx
  | edge _ hs _ ih => exact F.closed _ ih _ hs

/-! ### The fuel -/

/-- Marking a candidate that was not marked leaves fewer candidates unmarked. -/
theorem countP_insert_lt {U W : List Nat} {c : Nat} (hc : c ∈ U) (hW : c ∉ W) :
    U.countP (· ∉ c :: W) < U.countP (· ∉ W) := by
  rw [List.countP_eq_length_filter, List.countP_eq_length_filter]
  have hs : List.Sublist (U.filter (· ∉ c :: W)) (U.filter (· ∉ W)) :=
    List.monotone_filter_right U fun a ha => by simp_all
  refine lt_of_le_of_ne hs.length_le fun e => ?_
  have hmem : c ∈ U.filter (· ∉ W) := List.mem_filter.2 ⟨hc, by simpa using hW⟩
  rw [← hs.eq_of_length e] at hmem
  simp at hmem

theorem countP_anti {U W W' : List Nat} (h : W ⊆ W') : U.countP (· ∉ W') ≤ U.countP (· ∉ W) :=
  List.countP_mono_left fun _ _ ha => by simp only [decide_eq_true_eq] at ha ⊢; exact fun hw => ha (h hw)

/-! ### Folds that mark -/

section Fold

variable {β : Type} {step : List Nat → β → Option (List Nat)}

/-- A fold ends when each step from marks with property `I` ends in marks with property `I`. -/
theorem foldlM_isSome (I : List Nat → Prop) {xs : List β}
    (hs : ∀ x ∈ xs, ∀ {W}, I W → ∃ W', step W x = some W' ∧ I W') :
    ∀ {W}, I W → (xs.foldlM step W).isSome := by
  induction xs with
  | nil => intro W _; rfl
  | cons x xs ih =>
    intro W hW
    obtain ⟨W₁, h₁, hI⟩ := hs x (List.mem_cons_self _ _) hW
    simp only [List.foldlM_cons, h₁]
    exact ih (fun y hy => hs y (List.mem_cons_of_mem _ hy)) hI

/-- What a fold of a marking step marks. If each step keeps the marks, handles its item (`P`)
and adds only marks with property `Q` of every larger set of marks, so does the fold. -/
theorem foldlM_marks (P : β → List Nat → Prop) (Q : List Nat → Nat → Prop)
    (hP : ∀ {x W W'}, P x W → W ⊆ W' → P x W') (hQ : ∀ {u W W'}, Q W u → W ⊆ W' → Q W' u)
    {xs : List β} (hs : ∀ x ∈ xs, ∀ {W W'}, step W x = some W' →
      W ⊆ W' ∧ P x W' ∧ ∀ u ∈ W', u ∈ W ∨ Q W' u) :
    ∀ {W W'}, xs.foldlM step W = some W' →
      W ⊆ W' ∧ (∀ x ∈ xs, P x W') ∧ ∀ u ∈ W', u ∈ W ∨ Q W' u := by
  induction xs with
  | nil => intro W W' h; cases h; exact ⟨List.Subset.refl _, nofun, fun u hu => .inl hu⟩
  | cons x xs ih =>
    intro W W' h
    obtain ⟨W₁, h₁, h₂⟩ := Option.bind_eq_some.1 h
    obtain ⟨hs₁, hp₁, hq₁⟩ := hs x (List.mem_cons_self _ _) h₁
    obtain ⟨hs₂, hp₂, hq₂⟩ := ih (fun y hy => hs y (List.mem_cons_of_mem _ hy)) h₂
    refine ⟨fun _ hu => hs₂ (hs₁ hu), List.forall_mem_cons.2 ⟨hP hp₁ hs₂, hp₂⟩, fun u hu => ?_⟩
    rcases hq₂ u hu with hu₁ | hq
    · exact (hq₁ u hu₁).imp_right (hQ · hs₂)
    · exact .inr hq

end Fold

section CallGraph

variable (g : CallGraph)

/-- What `DFS(f)` marks: it keeps the marks, marks `f`, and every function it marks reaches `f`
and has the functions holding its call sites marked. -/
theorem dfs_spec {fuel : Nat} : ∀ {V f V'}, dfs g fuel V f = some V' →
    V ⊆ V' ∧ f ∈ V' ∧ ∀ u ∈ V', u ∈ V ∨ (Calls g u f ∧ ∀ c ∈ g.getCallSites u, c ∈ V') := by
  induction fuel with
  | zero => intro V f V' h; cases h
  | succ fuel ih =>
    intro V f V' h
    -- a round of the loop over the call sites of `f` marks its site, unless already marked
    have hstep : ∀ c ∈ g.getCallSites f, ∀ {W W'},
        (if c ∈ W then some W else dfs g fuel W c) = some W' →
        W ⊆ W' ∧ c ∈ W' ∧ ∀ u ∈ W', u ∈ W ∨ (Calls g u f ∧ ∀ c ∈ g.getCallSites u, c ∈ W') := by
      intro c hc W W' h₁
      split_ifs at h₁ with hcW
      · cases h₁
        exact ⟨List.Subset.refl _, hcW, fun u hu => .inl hu⟩
      · obtain ⟨hs, hm, hn⟩ := ih h₁
        exact ⟨hs, hm, fun u hu => (hn u hu).imp_right fun h => ⟨h.1.trans (.site hc (.refl f)), h.2⟩⟩
    obtain ⟨hs, hm, hn⟩ := foldlM_marks (fun c W => c ∈ W)
      (fun W u => Calls g u f ∧ ∀ c ∈ g.getCallSites u, c ∈ W) (fun h hs => hs h)
      (fun h hs => ⟨h.1, fun c hc => hs (h.2 c hc)⟩) hstep h
    refine ⟨fun u hu => hs (List.mem_insert_of_mem hu), hs (List.mem_insert_self _ _),
      fun u hu => ?_⟩
    rcases hn u hu with hu' | hnew
    · rcases List.mem_insert_iff.1 hu' with rfl | hV
      · exact .inr ⟨.refl _, hm⟩
      · exact .inl hV
    · exact .inr hnew

/-- `DFS(f)` ends when the fuel exceeds the number of call sites whose function is unmarked
once `f` is. -/
theorem dfs_isSome : ∀ {fuel V f}, (g.sites.map (·.2)).countP (· ∉ V.insert f) < fuel →
    (dfs g fuel V f).isSome := by
  intro fuel
  induction fuel with
  | zero => intro V f h; omega
  | succ fuel ih =>
    intro V f h
    -- each round of the loop over the call sites of `f` keeps the unmarked ones within the fuel
    refine foldlM_isSome (fun W => (g.sites.map (·.2)).countP (· ∉ W) ≤ fuel)
      (fun c (hc : c ∈ g.getCallSites f) W (hW : _ ≤ fuel) => ?_) (Nat.le_of_lt_succ h)
    have hcU : c ∈ g.sites.map (·.2) := by
      obtain ⟨e, he, rfl⟩ := List.mem_map.1 hc
      exact List.mem_map_of_mem _ (List.mem_of_mem_filter he)
    by_cases hcW : c ∈ W
    · exact ⟨W, if_pos hcW, hW⟩
    · have hins : W.insert c = c :: W := List.insert_of_not_mem hcW
      obtain ⟨W₁, h₁⟩ := Option.isSome_iff_exists.1
        (ih (by rw [hins]; exact (countP_insert_lt hcU hcW).trans_le hW))
      exact ⟨W₁, by rw [if_neg hcW]; exact h₁, (countP_anti (dfs_spec g h₁).1).trans hW⟩

/-- What `traverse_call_graph` marks from the sync functions `syncs`, on top of the marks `W`. -/
theorem traverse_spec (syncs : List Nat) : ∀ {W W'},
    syncs.foldlM (dfs g (g.sites.length + 1)) W = some W' →
    W ⊆ W' ∧ (∀ s ∈ syncs, s ∈ W') ∧
      ∀ u ∈ W', u ∈ W ∨ ((∃ s ∈ syncs, Calls g u s) ∧ ∀ c ∈ g.getCallSites u, c ∈ W') :=
  foldlM_marks (fun s W => s ∈ W)
    (fun W u => (∃ s ∈ syncs, Calls g u s) ∧ ∀ c ∈ g.getCallSites u, c ∈ W) (fun h hs => hs h)
    (fun h hs => ⟨h.1, fun c hc => hs (h.2 c hc)⟩) fun s hs _ _ h => by
      obtain ⟨h₁, h₂, h₃⟩ := dfs_spec g h
      exact ⟨h₁, h₂, fun u hu => (h₃ u hu).imp_right fun h => ⟨⟨s, hs, h.1⟩, h.2⟩⟩

/-- `traverse_call_graph` ends. -/
theorem traverse_isSome (syncs : List Nat) : ∀ {W},
    (syncs.foldlM (dfs g (g.sites.length + 1)) W).isSome := by
  intro W
  refine foldlM_isSome (fun _ => True) (fun s _ W _ => ?_) trivial
  obtain ⟨W₁, h₁⟩ := Option.isSome_iff_exists.1 (@dfs_isSome g _ W s
    (Nat.lt_succ_of_le ((List.countP_le_length _).trans (List.length_map _ _).le)))
  exact ⟨W₁, h₁, trivial⟩

/-- Event-function discovery is exact. For every call graph and every list given to
`setupEvents`, `traverse_call_graph` ends, and then `mayCallEvent(f)` holds exactly when a chain
of calls leads from `f` to one of the listed functions. -/
theorem traverseCallGraph_exact (m : EventMgr) (eventList : List Nat) :
    ∃ m', (m.setupEvents eventList).traverseCallGraph g = some m' ∧
      ∀ f, m'.mayCallEvent f ↔ ∃ s ∈ eventList, Calls g f s := by
  obtain ⟨V, hV⟩ := Option.isSome_iff_exists.1 (@traverse_isSome g eventList [])
  refine ⟨_, by simp only [EventMgr.traverseCallGraph, EventMgr.setupEvents, hV]; rfl, fun f => ?_⟩
  obtain ⟨-, hm, hn⟩ := traverse_spec g eventList hV
  simp only [EventMgr.mayCallEvent, decide_eq_true_eq]
  refine ⟨fun hf => ((hn f hf).resolve_left (List.not_mem_nil _)).1, ?_⟩
  -- a chain ending at a listed function is marked from its end back to `f`
  rintro ⟨s, hs, hfs⟩
  induction hfs with
  | refl => exact hm _ hs
  | site hu _ ih => exact ((hn _ (ih hs)).resolve_left (List.not_mem_nil _)).2 _ hu

end CallGraph

section Cfg

variable (F : Cfg) (sink : Nat)

/-- What `DFS(x, sink)` marks: it keeps the marks, marks `x` unless `x` is the sink, and every
block it marks is reached from `x` without entering the sink and has each successor marked or
the sink. -/
theorem dfsBB_spec {fuel : Nat} : ∀ {V x V'}, dfsBB F sink fuel V x = some V' →
    V ⊆ V' ∧ (x ≠ sink → x ∈ V') ∧
      ∀ b ∈ V', b ∈ V ∨ (Path F sink x b ∧ ∀ y ∈ F.succ b, y = sink ∨ y ∈ V') := by
  induction fuel with
  | zero => intro V x V' h; cases h
  | succ fuel ih =>
    intro V x V' h
    simp only [dfsBB] at h
    split_ifs at h with hx hs
    · cases h
      exact ⟨List.Subset.refl _, fun _ => hx, fun b hb => .inl hb⟩
    · cases h
      exact ⟨List.Subset.refl _, fun hne => absurd hs hne, fun b hb => .inl hb⟩
    -- a `DFS` from a successor `y` of `x` marks `y` unless it is the sink, and what it marks is
    -- reached from `x`
    have hstep : ∀ y ∈ F.succ x, ∀ {W W'}, dfsBB F sink fuel W y = some W' →
        W ⊆ W' ∧ (y = sink ∨ y ∈ W') ∧
          ∀ b ∈ W', b ∈ W ∨ (Path F sink x b ∧ ∀ z ∈ F.succ b, z = sink ∨ z ∈ W') := by
      intro y hy W W' h₁
      obtain ⟨hs₁, hm₁, hn₁⟩ := ih h₁
      exact ⟨hs₁, (eq_or_ne y sink).imp_right hm₁, fun b hb => (hn₁ b hb).imp_right
        fun ⟨hp, hcl⟩ => ⟨(Path.edge (.refl hs) hy hp.ne_sink).trans hp, hcl⟩⟩
    obtain ⟨hs', hm', hn'⟩ := foldlM_marks (fun y W => y = sink ∨ y ∈ W)
      (fun W b => Path F sink x b ∧ ∀ z ∈ F.succ b, z = sink ∨ z ∈ W)
      (fun h hs => h.imp_right fun h => hs h)
      (fun h hs => ⟨h.1, fun z hz => (h.2 z hz).imp_right fun h => hs h⟩) hstep h
    refine ⟨fun _ hb => hs' (List.mem_cons_of_mem _ hb), fun _ => hs' (List.mem_cons_self _ _),
      fun b hb => ?_⟩
    rcases hn' b hb with hb' | hnew
    · rcases List.mem_cons.1 hb' with rfl | hV
      · exact .inr ⟨.refl hs, hm'⟩
      · exact .inl hV
    · exact .inr hnew

/-- `DFS(x, sink)` from a block of the function ends when the fuel exceeds the number of
unmarked blocks. -/
theorem dfsBB_isSome : ∀ {fuel V x}, x ∈ F.blocks → F.blocks.countP (· ∉ V) < fuel →
    (dfsBB F sink fuel V x).isSome := by
  intro fuel
  induction fuel with
  | zero => intro V x _ h; omega
  | succ fuel ih =>
    intro V x hx h
    simp only [dfsBB]
    split_ifs with hv hs
    · rfl
    · rfl
    -- each `DFS` from a successor keeps the unmarked blocks below the fuel
    refine foldlM_isSome (fun W => F.blocks.countP (· ∉ W) < fuel)
      (fun y (hy : y ∈ F.succ x) W (hW : _ < fuel) => ?_)
      (show _ < fuel by have := countP_insert_lt hx hv; omega)
    obtain ⟨W₁, h₁⟩ := Option.isSome_iff_exists.1 (ih (F.closed x hx y hy) hW)
    exact ⟨W₁, h₁, (countP_anti (dfsBB_spec F sink h₁).1).trans_lt hW⟩

/-- What the flood fill from the blocks `starts` marks, on top of the marks `W`. -/
theorem flood_spec {fuel : Nat} (starts : List Nat) : ∀ {W W'},
    starts.foldlM (dfsBB F sink fuel) W = some W' →
    W ⊆ W' ∧ (∀ s ∈ starts, s ≠ sink → s ∈ W') ∧
      ∀ b ∈ W', b ∈ W ∨ ((∃ s ∈ starts, Path F sink s b) ∧ ∀ y ∈ F.succ b, y = sink ∨ y ∈ W') :=
  foldlM_marks (fun s W => s ≠ sink → s ∈ W)
    (fun W b => (∃ s ∈ starts, Path F sink s b) ∧ ∀ y ∈ F.succ b, y = sink ∨ y ∈ W)
    (fun h hs hne => hs (h hne))
    (fun h hs => ⟨h.1, fun y hy => (h.2 y hy).imp_right fun h => hs h⟩) fun s hs _ _ h => by
      obtain ⟨h₁, h₂, h₃⟩ := dfsBB_spec F sink h
      exact ⟨h₁, h₂, fun b hb => (h₃ b hb).imp_right fun h => ⟨⟨s, hs, h.1⟩, h.2⟩⟩

/-- The flood fill from blocks of the function ends. -/
theorem flood_isSome (starts : List Nat) (hst : ∀ s ∈ starts, s ∈ F.blocks) : ∀ {W},
    (starts.foldlM (dfsBB F sink (F.blocks.length + 1)) W).isSome := by
  intro W
  refine foldlM_isSome (fun _ => True) (fun s hs W _ => ?_) trivial
  obtain ⟨W₁, h₁⟩ := Option.isSome_iff_exists.1 (@dfsBB_isSome F sink _ W s (hst s hs)
    (Nat.lt_add_one_of_le (List.countP_le_length _)))
  exact ⟨W₁, h₁, trivial⟩

end Cfg

/-- `eventBetween` is exact flood-fill reachability up to the post-dominator. For every
function and branch in it, it ends, and it returns `true` exactly when a block reached from a
successor of the branch by a path that never enters the block of `post` holds a call, not an
intrinsic, with a callee that may call an event. -/
theorem eventBetween_exact (m : EventMgr) (F : Cfg) {brBB : Nat} (hbr : brBB ∈ F.blocks)
    (postBB : Nat) :
    ∃ r, m.eventBetween F brBB postBB = some r ∧
      (r = true ↔ ∃ s ∈ F.succ brBB, ∃ b, Path F postBB s b ∧ ∃ i ∈ F.insts b,
        i.isCall = true ∧ i.isIntrinsic = false ∧ ∃ f ∈ i.calledFunctions, m.mayCallEvent f = true) := by
  obtain ⟨V, hV⟩ := Option.isSome_iff_exists.1
    (@flood_isSome F postBB (F.succ brBB) (F.closed _ hbr) [])
  refine ⟨_, by simp only [EventMgr.eventBetween, hV]; rfl, ?_⟩
  obtain ⟨-, hm, hn⟩ := flood_spec F postBB _ hV
  -- the marked blocks are those the paths reach
  have hV' : ∀ b, b ∈ V ↔ ∃ s ∈ F.succ brBB, Path F postBB s b := by
    refine fun b => ⟨fun hb => ((hn b hb).resolve_left (List.not_mem_nil _)).1, ?_⟩
    rintro ⟨s, hs, hp⟩
    induction hp with
    | refl hne => exact hm s hs hne
    | edge _ hy hne ih =>
      exact (((hn _ ih).resolve_left (List.not_mem_nil _)).2 _ hy).resolve_left hne
  simp only [List.any_eq_true, Bool.and_eq_true, decide_eq_true_eq, Bool.not_eq_true', hV']
  constructor
  · rintro ⟨b, -, ⟨s, hs, hp⟩, i, hi, ⟨hc, hn⟩, f, hf, hev⟩
    exact ⟨s, hs, b, hp, i, hi, hc, hn, f, hf, hev⟩
  · rintro ⟨s, hs, b, hp, i, hi, hc, hn, f, hf, hev⟩
    exact ⟨b, hp.mem_blocks (F.closed _ hbr s hs), ⟨s, hs, hp⟩, i, hi, ⟨hc, hn⟩, f, hf, hev⟩

/-- A branch in block 0 whose successors are the loop 1 ⇄ 2 and the post-dominator 3; block 2
calls function 7, which may call an event. The flood fill ends on the loop and finds the call. -/
theorem eventBetween_exact_loop :
    let F : Cfg := ⟨[0, 1, 2, 3], fun b => if b = 0 then [1, 3] else if b = 1 then [2]
      else if b = 2 then [1, 3] else [], fun b => if b = 2 then [⟨true, false, [7]⟩] else [],
      by decide⟩
    0 ∈ F.blocks ∧ EventMgr.eventBetween ⟨[], [7]⟩ F 0 3 = some true := by
  intro F
  obtain ⟨r, h, hr⟩ := @eventBetween_exact ⟨[], [7]⟩ F 0 (by decide) 3
  refine ⟨by decide, h.trans (congrArg some (hr.2 ?_))⟩
  exact ⟨1, by decide, 2, (Path.refl (by decide) : Path F 3 1 1).edge (by decide) (by decide), _,
    List.mem_singleton_self _, rfl, rfl, 7, List.mem_singleton_self _, rfl⟩

end Xtern
