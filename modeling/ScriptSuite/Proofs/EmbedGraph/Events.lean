import ScriptSuite.Proofs.EmbedGraph.Components

/-!
# Proofs/EmbedGraph/Events — what happens in a search, from its first step to its last

A search opens nodes, looks at edges and takes nodes off its stack again; what it does in this way
is kept in a log of `Event`s, and `Runs` is a search from some roots that comes to its end after the
events of a log.  Every search comes to its end (`exists_runs`), either outside of all nodes or at
an edge to a number that is no node.

`Logged` is what a log tells about a search that is in progress: which nodes were met and are still
on the stack, and which edges were looked at.  Every step keeps it (`Logged.next`), whether or not
the edges of the graph lead to nodes, and so it holds at the end of every run (`Runs.concluded`).
-/

namespace ScriptSuite.EmbedGraph

variable {g : EmbedGraph}

/-! ## Events -/

/-- **What happens in a search.** -/
inductive Event where
  /-- A node gets its number and goes on the stack. -/
  | enter (v : Nat)
  /-- The edge at this place among those that leave a node is looked at. -/
  | look (v place : Nat)
  /-- Nodes go off the stack, the upmost first. -/
  | close (vs : List Nat)
  deriving DecidableEq, Repr

/-- The nodes that were numbered, in order. -/
def enteredIn (log : List Event) : List Nat :=
  log.filterMap fun | .enter v => some v | _ => none

/-- The edges that were looked at, in order. -/
def lookedIn (log : List Event) : List (Nat × Nat) :=
  log.filterMap fun | .look v place => some (v, place) | _ => none

/-- The nodes that went off the stack, in order. -/
def closedIn (log : List Event) : List Nat :=
  log.flatMap fun | .close vs => vs | _ => []

@[simp] theorem enteredIn_append (log log' : List Event) :
    enteredIn (log ++ log') = enteredIn log ++ enteredIn log' := List.filterMap_append

/-! One more event counts among those of its kind. -/

theorem snoc_enter (log : List Event) (v : Nat) :
    enteredIn (log ++ [.enter v]) = enteredIn log ++ [v] ∧
      lookedIn (log ++ [.enter v]) = lookedIn log ∧
      closedIn (log ++ [.enter v]) = closedIn log := by
  simp [enteredIn, lookedIn, closedIn]

theorem snoc_look (log : List Event) (v place : Nat) :
    enteredIn (log ++ [.look v place]) = enteredIn log ∧
      lookedIn (log ++ [.look v place]) = lookedIn log ++ [(v, place)] ∧
      closedIn (log ++ [.look v place]) = closedIn log := by
  simp [enteredIn, lookedIn, closedIn]

theorem snoc_close (log : List Event) (vs : List Nat) :
    enteredIn (log ++ [.close vs]) = enteredIn log ∧
      lookedIn (log ++ [.close vs]) = lookedIn log ∧
      closedIn (log ++ [.close vs]) = closedIn log ++ vs := by
  simp [enteredIn, lookedIn, closedIn]

namespace Search

variable {s t : Search} {f : Frame} {fs : List Frame} {v w : Nat} {rest : List Nat}
  {roots : List Nat} {log past : List Event} {result : Option Search}

/-- What goes off a stack until `v` has gone off it. -/
def poppedTo (v : Nat) (stack : List Nat) : List Nat :=
  stack.takeWhile (· ≠ v) ++ (stack.dropWhile (· ≠ v)).take 1

/-- **What happens in the next step** of a search. -/
def events (g : EmbedGraph) (s : Search) : List Event :=
  match s.frames with
  | [] => []
  | f :: _ =>
    match f.rest with
    | [] => if f.low = f.order then [.close (poppedTo f.vertex s.stack)] else []
    | w :: rest =>
      .look f.vertex ((g.targets f.vertex).length - (rest.length + 1)) ::
        if s.marks[w]? = some .fresh then [.enter w] else []

/-- **A search from some roots**, in turn, that ends after these events: with a search outside of
all nodes, or stuck at an edge to a number that is no node. -/
inductive Runs (g : EmbedGraph) : List Nat → Search → List Event → Option Search → Prop
  | ended {s : Search} (houtside : s.frames = []) : Runs g [] s [] (some s)
  | skip {root : Nat} {roots : List Nat} {s : Search} {log : List Event} {result : Option Search}
      (houtside : s.frames = []) (hmet : s.marks[root]? ≠ some .fresh)
      (hrest : Runs g roots s log result) : Runs g (root :: roots) s log result
  | enter {root : Nat} {roots : List Nat} {s : Search} {log : List Event} {result : Option Search}
      (houtside : s.frames = []) (hfresh : s.marks[root]? = some .fresh)
      (hrest : Runs g roots (s.enter g root) log result) :
      Runs g (root :: roots) s (.enter root :: log) result
  | next {roots : List Nat} {s t : Search} {log : List Event} {result : Option Search}
      (hstep : s.step g = .next t) (hrest : Runs g roots t log result) :
      Runs g roots s (s.events g ++ log) result
  | stuck {roots : List Nat} {s : Search} (hstep : s.step g = .stuck) :
      Runs g roots s (s.events g) none

/-! ## Every search ends -/

theorem step_of_frames_eq_nil (h : s.frames = []) : s.step g = .ended s := by
  rw [step, h]

theorem frames_of_ended (h : s.step g = .ended t) : s.frames = [] ∧ t = s := by
  unfold step at h
  split at h
  · next hframes => exact ⟨hframes, (Progress.ended.inj h).symm⟩
  · split at h
    · cases h
    · split at h <;> cases h

theorem run_of_frames_eq_nil (h : s.frames = []) : s.run g = some s := by
  rw [run_eq, step_of_frames_eq_nil h]

/-- A search that is inside of some nodes leaves them all, if it can go on from there. -/
theorem exists_runs_of_outside (hroots : ∀ t : Search, t.frames = [] →
      ∃ log, Runs g roots t log (visitAll g roots t)) (s : Search) :
    ∃ log, Runs g roots s log ((s.run g).bind (visitAll g roots)) := by
  induction s using Search.run.induct g with
  | case1 s t hended =>
    obtain ⟨hframes, -⟩ := frames_of_ended hended
    rw [run_of_frames_eq_nil hframes]
    exact hroots s hframes
  | case2 s hstuck =>
    rw [run_eq, hstuck]
    exact ⟨_, .stuck hstuck⟩
  | case3 s t hnext ih =>
    obtain ⟨log, hlog⟩ := ih
    rw [run_eq, hnext]
    exact ⟨_, .next hnext hlog⟩

theorem visit_of_fresh (h : s.marks[v]? = some .fresh) : s.visit g v = (s.enter g v).run g := by
  rw [visit, h]

theorem visit_of_met (h : s.marks[v]? ≠ some .fresh) : s.visit g v = some s := by
  unfold visit
  split
  · contradiction
  · rfl

theorem visitAll_cons (g : EmbedGraph) (root : Nat) (roots : List Nat) (s : Search) :
    visitAll g (root :: roots) s = (s.visit g root).bind (visitAll g roots) := by
  rw [visitAll]
  cases s.visit g root <;> rfl

/-- **Every search ends.** -/
theorem exists_runs (g : EmbedGraph) (roots : List Nat) (s : Search) (h : s.frames = []) :
    ∃ log, Runs g roots s log (visitAll g roots s) := by
  induction roots generalizing s with
  | nil => exact ⟨_, .ended h⟩
  | cons root roots ih =>
    rw [visitAll_cons]
    by_cases hroot : s.marks[root]? = some .fresh
    · obtain ⟨log, hlog⟩ := exists_runs_of_outside ih (s.enter g root)
      rw [visit_of_fresh hroot]
      exact ⟨_, .enter h hroot hlog⟩
    · obtain ⟨log, hlog⟩ := ih s h
      rw [visit_of_met hroot]
      exact ⟨log, .skip h hroot hlog⟩

/-- **Every run comes to what the search comes to.** -/
theorem Runs.result_eq (h : Runs g roots s log result) :
    result = (s.run g).bind (visitAll g roots) := by
  induction h with
  | ended houtside =>
    rw [run_of_frames_eq_nil houtside]
    rfl
  | skip houtside hmet _ ih =>
    rw [ih, run_of_frames_eq_nil houtside, Option.bind_some, Option.bind_some, visitAll_cons,
      visit_of_met hmet, Option.bind_some]
  | enter houtside hfresh _ ih =>
    rw [ih, run_of_frames_eq_nil houtside, Option.bind_some, visitAll_cons, visit_of_fresh hfresh]
  | @next roots s t _ _ hstep _ ih => rw [ih, run_eq g s, hstep]
  | stuck hstep => rw [run_eq, hstep]; rfl

/-! ## Steps -/

/-- **What a step does**: it leaves the innermost node, or looks at the next edge of it. -/
theorem step_cases (h : s.step g = .next t) : ∃ f fs, s.frames = f :: fs ∧
    (f.rest = [] ∧ t = s.leave f fs ∨
      ∃ w rest, f.rest = w :: rest ∧ s.look g f fs w rest = some t) := by
  unfold step at h
  split at h
  · cases h
  · next f fs hframes =>
    refine ⟨f, fs, hframes, ?_⟩
    split at h
    · next hrest => exact .inl ⟨hrest, (Progress.next.inj h).symm⟩
    · next w rest hrest =>
      split at h
      · cases h
      · next t' hlook => exact .inr ⟨w, rest, hrest, by rw [hlook, Progress.next.inj h]⟩

/-- **What looking at an edge does**: it opens the node to which the edge leads, or goes on inside
of the same nodes. -/
theorem look_cases (h : s.look g f fs w rest = some t) :
    (s.marks[w]? = some .fresh ∧
      t = Search.enter g { s with frames := { f with rest := rest } :: fs } w) ∨
    (s.marks[w]? ≠ some .fresh ∧
      ∃ low, t = { s with frames := { f with rest := rest, low := low } :: fs }) := by
  unfold look at h
  split at h
  · cases h
  · next hw => exact .inl ⟨hw, (Option.some.inj h).symm⟩
  · next k hw => exact .inr ⟨by simp [hw], min f.low k, (Option.some.inj h).symm⟩
  · next hw => exact .inr ⟨by simp [hw], f.low, (Option.some.inj h).symm⟩

/-- **A step is stuck** at an edge to a number that has no mark. -/
theorem stuck_cases (h : s.step g = .stuck) : ∃ f fs w rest, s.frames = f :: fs ∧
    f.rest = w :: rest ∧ s.marks[w]? = none := by
  unfold step at h
  split at h
  · cases h
  · next f fs hframes =>
    split at h
    · cases h
    · next w rest hrest =>
      refine ⟨f, fs, w, rest, hframes, hrest, ?_⟩
      split at h
      · next hlook =>
        unfold look at hlook
        split at hlook
        · assumption
        all_goals cases hlook
      · cases h

theorem events_leave (hframes : s.frames = f :: fs) (hrest : f.rest = []) :
    s.events g =
      if f.low = f.order then [.close (poppedTo f.vertex s.stack)] else [] := by
  simp only [events, hframes, hrest]

theorem events_look (hframes : s.frames = f :: fs) (hrest : f.rest = w :: rest) :
    s.events g = .look f.vertex ((g.targets f.vertex).length - (rest.length + 1)) ::
      if s.marks[w]? = some .fresh then [.enter w] else [] := by
  simp only [events, hframes, hrest]

theorem poppedTo_append (v : Nat) (stack : List Nat) :
    poppedTo v stack ++ (stack.dropWhile (· ≠ v)).drop 1 = stack := by
  rw [poppedTo, List.append_assoc, List.take_append_drop, List.takeWhile_append_dropWhile]

/-- **What a step does to the stack**, and how many numbers it gives, is what its events say. -/
theorem stack_of_step (h : s.step g = .next t) :
    closedIn (s.events g) ++ t.stack = enteredIn (s.events g) ++ s.stack ∧
      t.count = s.count + (enteredIn (s.events g)).length := by
  obtain ⟨f, fs, hframes, ⟨hrest, rfl⟩ | ⟨w, rest, hrest, hlook⟩⟩ := step_cases h
  · rw [events_leave hframes hrest, leave]
    by_cases hlow : f.low = f.order
    · simpa [hlow, closedIn, enteredIn, closeComponent] using poppedTo_append f.vertex s.stack
    · simp [hlow, closedIn, enteredIn]
  · rw [events_look hframes hrest]
    obtain ⟨hw, rfl⟩ | ⟨hw, low, rfl⟩ := look_cases hlook
    · simp [hw, closedIn, enteredIn, Search.enter]
    · simp [hw, closedIn, enteredIn]

/-! ## What a log tells -/

/-- How many edges of a node are still to be looked at, by the innermost frame of it. -/
def ahead (v : Nat) : List Frame → Nat
  | [] => 0
  | f :: fs => if f.vertex = v then f.rest.length else ahead v fs

theorem ahead_passLow (v low : Nat) (fs : List Frame) : ahead v (passLow low fs) = ahead v fs := by
  cases fs <;> rfl

theorem ahead_eq_zero (h : ∀ f ∈ fs, f.vertex ≠ v) : ahead v fs = 0 := by
  induction fs with
  | nil => rfl
  | cons f fs ih =>
    obtain ⟨hf, hfs⟩ := List.forall_mem_cons.mp h
    rw [ahead, if_neg hf, ih hfs]

/-- **What a log tells** about nodes and edges of the search that it led to. -/
structure Told (g : EmbedGraph) (log : List Event) (s : Search) : Prop where
  /-- Every node that was numbered went off the stack, or is still there. -/
  entered : (enteredIn log).Perm (closedIn log ++ s.stack)
  closed : (closedIn log).Perm s.found.flatten
  looked_nodup : (lookedIn log).Nodup
  /-- Of the nodes that were numbered, all edges were looked at that are not still ahead. -/
  mem_looked : ∀ v place, (v, place) ∈ lookedIn log ↔
    v ∈ enteredIn log ∧ place + ahead v s.frames < (g.targets v).length
  looked_lt : ∀ v place, (v, place) ∈ lookedIn log →
    ∃ w, (g.targets v)[place]? = some w ∧ w < g.size

/-- **Opening a node** that was not numbered. -/
theorem Told.enter (h : Told g log s) (hnew : v ∉ enteredIn log) :
    Told g (log ++ [.enter v]) (s.enter g v) := by
  obtain ⟨hentered, hlooked, hclosed⟩ := snoc_enter log v
  refine ⟨?_, hclosed ▸ h.closed, hlooked ▸ h.looked_nodup, fun u place => ?_,
    hlooked ▸ h.looked_lt⟩
  · rw [hentered, hclosed]
    exact (List.perm_append_singleton v _).trans ((h.entered.cons v).trans List.perm_middle.symm)
  · rw [hentered, hlooked, h.mem_looked, List.mem_append, List.mem_singleton]
    by_cases hu : v = u
    · subst hu
      simp [hnew, Search.enter, ahead]
    · simp [Ne.symm hu, Search.enter, ahead, hu]

/-- **Looking at an edge** of the innermost node, which leads to a node. -/
theorem Told.look (h : Told g log s) (hframes : s.frames = f :: fs) (hrest : f.rest = w :: rest)
    (hv : f.vertex ∈ enteredIn log) {seen : List Nat}
    (htargets : g.targets f.vertex = seen ++ f.rest) (hw : w < g.size) (low : Nat) :
    Told g (log ++ [.look f.vertex ((g.targets f.vertex).length - (rest.length + 1))])
      { s with frames := { f with rest := rest, low := low } :: fs } := by
  have hplace : (g.targets f.vertex).length - (rest.length + 1) = seen.length := by
    rw [htargets, hrest, List.length_append, List.length_cons, Nat.add_sub_cancel]
  have hlength : (g.targets f.vertex).length = seen.length + (rest.length + 1) := by
    rw [htargets, hrest, List.length_append, List.length_cons]
  rw [hplace]
  obtain ⟨hentered, hlooked, hclosed⟩ := snoc_look log f.vertex seen.length
  have hahead : ahead f.vertex s.frames = rest.length + 1 := by simp [hframes, ahead, hrest]
  have hnew : (f.vertex, seen.length) ∉ lookedIn log := by
    rw [h.mem_looked, hahead, hlength]
    exact fun hlt => Nat.lt_irrefl _ hlt.2
  refine ⟨by rw [hentered, hclosed]; exact h.entered, hclosed ▸ h.closed, ?_, fun u place => ?_,
    fun u place hu => ?_⟩
  · rw [hlooked]
    exact List.nodup_append'.mpr ⟨h.looked_nodup, List.nodup_singleton _, by simpa using hnew⟩
  · rw [hentered, hlooked, List.mem_append, List.mem_singleton, h.mem_looked, Prod.mk.injEq]
    by_cases hu : u = f.vertex
    · subst hu
      rw [hahead, hlength]
      simp only [ahead, if_true, hv, true_and]
      omega
    · simp [hu, Ne.symm hu, ahead, hframes]
  · rw [hlooked, List.mem_append, List.mem_singleton, Prod.mk.injEq] at hu
    rcases hu with hu | ⟨rfl, rfl⟩
    · exact h.looked_lt u place hu
    · exact ⟨w, by simp [htargets, hrest], hw⟩

/-- **A search with its log**, whatever the edges of the graph lead to. -/
structure Logged (g : EmbedGraph) (log : List Event) (s : Search) : Prop extends Told g log s where
  sound : Sound g s

theorem logged_ofGraph (g : EmbedGraph) : Logged g [] (ofGraph g) where
  sound := Sound.ofGraph g
  entered := .refl []
  closed := .refl []
  looked_nodup := List.nodup_nil
  mem_looked v place := by simp [lookedIn, enteredIn]
  looked_lt v place h := by simp [lookedIn] at h

theorem Logged.mem_entered (h : Logged g log s) :
    v ∈ enteredIn log ↔ v ∈ s.found.flatten ∨ v ∈ s.stack := by
  rw [h.entered.mem_iff, List.mem_append, h.closed.mem_iff]

/-- **The nodes that were numbered** are those that were met. -/
theorem Logged.mem_entered_iff (h : Logged g log s) :
    v ∈ enteredIn log ↔ v < g.size ∧ s.marks[v]? ≠ some .fresh := by
  rw [h.mem_entered, h.sound.closed, h.sound.opened, ← h.sound.size]
  constructor
  · rintro (hv | ⟨k, hv⟩) <;> exact ⟨(Array.getElem?_eq_some_iff.mp hv).1, by simp [hv]⟩
  · rintro ⟨hlt, hv⟩
    rw [Array.getElem?_eq_getElem hlt] at hv ⊢
    cases hm : s.marks[v] with
    | fresh => exact absurd (congrArg some hm) hv
    | opened k => exact .inr ⟨k, rfl⟩
    | closed => exact .inl rfl

/-- **No node is numbered twice.** -/
theorem Logged.nodup_entered (h : Logged g log s) : (enteredIn log).Nodup := by
  rw [h.entered.nodup_iff, (h.closed.append_right s.stack).nodup_iff]
  refine List.nodup_append'.mpr ⟨h.sound.nodup, h.sound.later.imp Later.ne, fun v hf hs => ?_⟩
  obtain ⟨k, hk⟩ := (h.sound.opened v).mp hs
  simp [(h.sound.closed v).mp hf] at hk

/-! ## Every step keeps it -/

theorem Logged.enter (h : Logged g log s) (hframes : s.frames = [])
    (hfresh : s.marks[v]? = some .fresh) : Logged g (log ++ [.enter v]) (s.enter g v) where
  toTold := h.toTold.enter fun hv => (h.mem_entered_iff.mp hv).2 hfresh
  sound := h.sound.enter_root hframes hfresh

theorem Logged.look (h : Logged g log s) (hframes : s.frames = f :: fs)
    (hrest : f.rest = w :: rest) (hlook : s.look g f fs w rest = some t) :
    Logged g (log ++ s.events g) t := by
  have hmark : w < g.size := by
    by_contra hw
    rw [Search.look, Array.getElem?_eq_none (Nat.le_of_not_lt (h.sound.size ▸ hw))] at hlook
    cases hlook
  obtain ⟨t', ht', hsound, -⟩ := h.sound.look hframes hrest hmark
  obtain rfl : t' = t := Option.some.inj (ht'.symm.trans hlook)
  obtain ⟨left, below, hstack, hf, -, -⟩ := (hframes ▸ h.sound.nested).uncons
  obtain ⟨seen, htargets, -⟩ := hf.looked
  have hv : f.vertex ∈ enteredIn log := h.mem_entered.mpr (.inr (by simp [hstack]))
  refine ⟨?_, hsound⟩
  rw [events_look hframes hrest]
  obtain ⟨hw, rfl⟩ | ⟨hw, low, rfl⟩ := look_cases hlook
  · have htold := h.toTold.look hframes hrest hv htargets hmark f.low
    have hnew := htold.enter (v := w) (by
      simpa [enteredIn] using fun hmem => (h.mem_entered_iff.mp hmem).2 hw)
    simpa [hw] using hnew
  · simpa [hw] using h.toTold.look hframes hrest hv htargets hmark low

/-- **Leaving the innermost node** of which no edge is ahead. -/
theorem Logged.leave (h : Logged g log s) (hframes : s.frames = f :: fs) (hrest : f.rest = []) :
    Logged g (log ++ s.events g) (s.leave f fs) := by
  obtain ⟨left, below, hstack, hleft, hfs⟩ := h.sound.exists_stack_eq hframes
  have hahead : ∀ v, ahead v (passLow f.low fs) = ahead v s.frames := by
    intro v
    rw [ahead_passLow, hframes, ahead]
    split
    · next hv => rw [hrest, List.length_nil, ahead_eq_zero (hv ▸ hfs)]
    · rfl
  refine ⟨?_, (h.sound.leave hframes hrest).1⟩
  rw [events_leave hframes hrest, Search.leave]
  by_cases hlow : f.low = f.order
  · have hpopped : poppedTo f.vertex s.stack = left ++ [f.vertex] := by
      rw [poppedTo, hstack, takeWhile_ne_append_cons hleft, dropWhile_ne_append_cons hleft]
      rfl
    obtain ⟨hentered, hlooked, hclosed⟩ := snoc_close log (left ++ [f.vertex])
    rw [if_pos hlow, if_pos hlow, hpopped,
      closeComponent_eq (s := { s with frames := passLow f.low fs }) hstack hleft]
    refine ⟨?_, ?_, hlooked ▸ h.looked_nodup, ?_, hlooked ▸ h.looked_lt⟩
    · rw [hentered, hclosed, List.append_assoc, ← List.append_cons, ← hstack]
      exact h.entered
    · rw [hclosed, List.flatten_cons]
      exact (h.closed.append_right _).trans List.perm_append_comm
    · simpa only [hentered, hlooked, hahead] using h.mem_looked
  · rw [if_neg hlow, if_neg hlow, List.append_nil]
    exact ⟨h.entered, h.closed, h.looked_nodup, by simpa only [hahead] using h.mem_looked,
      h.looked_lt⟩

/-- **Every step keeps what a log tells.** -/
theorem Logged.next (h : Logged g log s) (hstep : s.step g = .next t) :
    Logged g (log ++ s.events g) t := by
  obtain ⟨f, fs, hframes, ⟨hrest, rfl⟩ | ⟨w, rest, hrest, hlook⟩⟩ := step_cases hstep
  · exact h.leave hframes hrest
  · exact h.look hframes hrest hlook

/-- **A step that is stuck** looks at an edge for the first time, and the edge leads to a number
that is no node. -/
theorem Logged.stuck (h : Logged g log s) (hstep : s.step g = .stuck) : ∃ v place w,
    s.events g = [.look v place] ∧ v ∈ enteredIn log ∧ (v, place) ∉ lookedIn log ∧
      (g.targets v)[place]? = some w ∧ g.size ≤ w := by
  obtain ⟨f, fs, w, rest, hframes, hrest, hmark⟩ := stuck_cases hstep
  obtain ⟨left, below, hstack, hf, -, -⟩ := (hframes ▸ h.sound.nested).uncons
  obtain ⟨seen, htargets, -⟩ := hf.looked
  rw [hrest] at htargets
  have hplace : (g.targets f.vertex).length - (rest.length + 1) = seen.length := by
    rw [htargets, List.length_append, List.length_cons, Nat.add_sub_cancel]
  refine ⟨f.vertex, seen.length, w, ?_, h.mem_entered.mpr (.inr (by simp [hstack])), ?_,
    by simp [htargets], ?_⟩
  · rw [events_look hframes hrest, hplace, if_neg (by simp [hmark])]
  · rw [h.mem_looked, hframes, ahead, if_pos rfl, hrest, htargets, List.length_append,
      List.length_cons]
    exact fun hlt => Nat.lt_irrefl _ hlt.2
  · rw [← h.sound.size]
    exact Array.getElem?_eq_none_iff.mp hmark

/-! ## The end of a run -/

/-- **What is known when a search from some roots has ended**: its roots were met, or its last event
was to look at an edge to a number that is no node. -/
def Concluded (g : EmbedGraph) (roots : List Nat) (log : List Event) : Option Search → Prop
  | some t => Logged g log t ∧ t.frames = [] ∧ ∀ v ∈ roots, v < g.size → v ∈ enteredIn log
  | none => ∃ before s v place w, log = before ++ [.look v place] ∧ Logged g before s ∧
    v ∈ enteredIn before ∧ (v, place) ∉ lookedIn before ∧ (g.targets v)[place]? = some w ∧
      g.size ≤ w

theorem Concluded.cons {root : Nat} (h : Concluded g roots log result)
    (hroot : root < g.size → root ∈ enteredIn log) : Concluded g (root :: roots) log result := by
  cases result with
  | some t => exact ⟨h.1, h.2.1, List.forall_mem_cons.mpr ⟨hroot, h.2.2⟩⟩
  | none => exact h

/-- **Every run is concluded.** -/
theorem Runs.concluded (h : Runs g roots s log result) (hpast : Logged g past s) :
    Concluded g roots (past ++ log) result := by
  induction h generalizing past with
  | ended houtside =>
    rw [List.append_nil]
    exact ⟨hpast, houtside, List.forall_mem_nil _⟩
  | @skip root _ s log _ _ hmet _ ih =>
    refine (ih hpast).cons fun hroot => ?_
    rw [enteredIn_append]
    exact List.mem_append_left _ (hpast.mem_entered_iff.mpr ⟨hroot, hmet⟩)
  | @enter root _ s log _ houtside hfresh _ ih =>
    rw [List.append_cons]
    refine (ih (hpast.enter houtside hfresh)).cons fun _ => ?_
    simp [enteredIn]
  | next hstep _ ih =>
    rw [← List.append_assoc]
    exact ih (hpast.next hstep)
  | stuck hstep =>
    obtain ⟨v, place, w, hevents, hv, hnew, hw, hlt⟩ := hpast.stuck hstep
    exact ⟨past, _, v, place, w, by rw [hevents], hpast, hv, hnew, hw, hlt⟩

/-- No node was numbered twice, and no edge was looked at twice. -/
theorem Concluded.nodup (h : Concluded g roots log result) :
    (enteredIn log).Nodup ∧ (lookedIn log).Nodup ∧ ∀ v ∈ enteredIn log, v < g.size := by
  have hlt : ∀ {log : List Event} {s : Search}, Logged g log s → ∀ v ∈ enteredIn log, v < g.size :=
    fun hlogged v hv => (hlogged.mem_entered_iff.mp hv).1
  cases result with
  | some t => exact ⟨h.1.nodup_entered, h.1.looked_nodup, hlt h.1⟩
  | none =>
    obtain ⟨before, s, v, place, w, rfl, hlogged, -, hnew, -⟩ := h
    obtain ⟨hentered, hlooked, -⟩ := snoc_look before v place
    rw [hentered, hlooked]
    exact ⟨hlogged.nodup_entered, List.nodup_append'.mpr
      ⟨hlogged.looked_nodup, List.nodup_singleton _, by simpa using hnew⟩, hlt hlogged⟩

/-- **A search that met everything**: each node went on the stack and off it once, and every edge
was looked at. -/
structure Complete (g : EmbedGraph) (log : List Event) : Prop where
  entered : (enteredIn log).Perm (List.range g.size)
  closed : (closedIn log).Perm (List.range g.size)
  mem_looked : ∀ v place, (v, place) ∈ lookedIn log ↔ v < g.size ∧ place < (g.targets v).length

/-- **A search that broke off** at the first edge to a number that is no node. -/
def BrokenOff (g : EmbedGraph) (log : List Event) : Prop :=
  ∃ before v place w, log = before ++ [.look v place] ∧ (g.targets v)[place]? = some w ∧
    g.size ≤ w ∧ ∀ v place, (v, place) ∈ lookedIn before →
      ∃ w, (g.targets v)[place]? = some w ∧ w < g.size

/-- **A search of all nodes that comes through** met everything, and every edge led to a node. -/
theorem Concluded.complete (h : Concluded g (List.range g.size) log (some t)) :
    g.Closed ∧ Complete g log := by
  obtain ⟨hlogged, hframes, hroots⟩ := h
  have hstack : t.stack = [] := hlogged.sound.stack_eq_nil hframes
  have hmem : ∀ v, v ∈ enteredIn log ↔ v < g.size := fun v =>
    ⟨fun hv => (hlogged.mem_entered_iff.mp hv).1, fun hv => hroots v (List.mem_range.mpr hv) hv⟩
  have hfound : ∀ v, v ∈ t.found.flatten ↔ v < g.size := fun v => by
    rw [← hmem, hlogged.mem_entered, hstack]
    simp
  have hentered : (enteredIn log).Perm (List.range g.size) :=
    (List.perm_ext_iff_of_nodup hlogged.nodup_entered List.nodup_range).mpr fun v => by
      rw [hmem, List.mem_range]
  have hclosed := hlogged.entered
  rw [hstack, List.append_nil] at hclosed
  refine ⟨fun v hv w hw => ?_, hentered, hclosed.symm.trans hentered, fun v place => ?_⟩
  · exact (hfound w).mp (hlogged.sound.peeled.target_mem ((hfound v).mpr hv) w hw)
  · rw [hlogged.mem_looked, hmem, hframes, ahead, Nat.add_zero]

theorem Concluded.brokenOff (h : Concluded g roots log none) : ¬ g.Closed ∧ BrokenOff g log := by
  obtain ⟨before, s, v, place, w, hlog, hlogged, hv, -, hw, hlt⟩ := h
  refine ⟨fun hclosed => ?_, before, v, place, w, hlog, hw, hlt, hlogged.looked_lt⟩
  have hnode := hclosed v (hlogged.mem_entered_iff.mp hv).1 w (List.mem_of_getElem? hw)
  exact absurd hnode (Nat.not_lt.mpr hlt)

end Search

end ScriptSuite.EmbedGraph
