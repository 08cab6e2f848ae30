import ScriptSuite.Proofs.EmbedGraph.Nesting

/-!
# Proofs/EmbedGraph/Search — what every step of a search keeps

`Search.Sound` is the invariant of the search for components: the stack holds the open nodes in the
order of their opening and is made of the parts of the frames, and the closed nodes are those of the
components found, which are peeled off the graph.  Opening a node, looking at an edge and leaving a
node each keep it (`Sound.enter`, `Sound.look`, `Sound.leave`); in a closed graph no step is stuck
(`Sound.step`).
-/

namespace ScriptSuite.EmbedGraph.Search

variable {g : EmbedGraph} {s t : Search} {f : Frame} {fs : List Frame} {v w : Nat} {rest : List Nat}

/-- **The invariant of a search.** -/
structure Sound (g : EmbedGraph) (s : Search) : Prop where
  size : s.marks.size = g.size
  nested : Nested g s.marks s.stack s.frames
  later : s.stack.Pairwise (Later s.marks)
  opened : ∀ v : Nat, v ∈ s.stack ↔ ∃ k, s.marks[v]? = some (.opened k)
  lt_count : ∀ v k : Nat, s.marks[v]? = some (.opened k) → k < s.count
  closed : ∀ v : Nat, v ∈ s.found.flatten ↔ s.marks[v]? = some .closed
  nodup : s.found.flatten.Nodup
  peeled : Peeled g s.found

/-- Nodes that were met stay met. -/
def Grows (s t : Search) : Prop :=
  ∀ v : Nat, t.marks[v]? = some .fresh → s.marks[v]? = some .fresh

theorem Grows.refl (s : Search) : s.Grows s := fun _ h => h

theorem Grows.trans {u : Search} (h : s.Grows t) (h' : t.Grows u) : s.Grows u :=
  fun v hv => h v (h' v hv)

/-! ## Before the first step -/

theorem Sound.ofGraph (g : EmbedGraph) : Sound g (ofGraph g) where
  size := by simp [Search.ofGraph]
  nested := .nil
  later := List.Pairwise.nil
  opened v := by simp [Search.ofGraph, Array.getElem?_replicate]
  lt_count v k h := by simp [Search.ofGraph, Array.getElem?_replicate] at h
  closed v := by simp [Search.ofGraph, Array.getElem?_replicate]
  nodup := List.nodup_nil
  peeled := .nil

/-! ## Opening a node -/

theorem getElem?_enter (h : s.marks[v]? = some .fresh) (w : Nat) :
    (s.enter g v).marks[w]? = if w = v then some (.opened s.count) else s.marks[w]? := by
  obtain ⟨hv, _⟩ := Array.getElem?_eq_some_iff.mp h
  simp only [enter, Array.getElem?_setIfInBounds, hv, if_true, eq_comm]

/-- A node of the stack is not one that is being opened. -/
theorem Sound.ne_of_mem (h : Sound g s) (hv : s.marks[v]? = some .fresh) (hw : w ∈ s.stack) :
    w ≠ v := by
  rintro rfl
  obtain ⟨k, hk⟩ := (h.opened w).mp hw
  simp [hv] at hk

theorem grows_enter (h : s.marks[v]? = some .fresh) : s.Grows (s.enter g v) := by
  intro w hw
  rw [getElem?_enter h] at hw
  by_cases hwv : w = v
  · exact hwv ▸ h
  · simpa [hwv] using hw

theorem met_enter (h : s.marks[v]? = some .fresh) {low w : Nat} (hw : Met s.marks low w) :
    Met (s.enter g v).marks low w := by
  have hwv : w ≠ v := by
    rintro rfl
    simp [Met, h] at hw
  simpa [Met, getElem?_enter h, hwv] using hw

theorem later_enter (h : s.marks[v]? = some .fresh) {x y : Nat} (hxy : Later s.marks x y) :
    Later (s.enter g v).marks x y := by
  obtain ⟨i, j, hx, hy, hlt⟩ := hxy
  have hxv : x ≠ v := by
    rintro rfl
    simp [h] at hx
  have hyv : y ≠ v := by
    rintro rfl
    simp [h] at hy
  exact ⟨i, j, by simpa [getElem?_enter h, hxv] using hx, by simpa [getElem?_enter h, hyv] using hy,
    hlt⟩

/-- **Opening a node** inside of some frames, which may have changed on the way there. -/
theorem Sound.enter (h : Sound g s) (hv : s.marks[v]? = some .fresh)
    (hnested : Nested g (s.enter g v).marks s.stack fs)
    (hpath : ∀ f ∈ fs.head?, g.Reaches f.vertex v) :
    Sound g (Search.enter g { s with frames := fs } v) := by
  have hmark : ∀ w : Nat, (Search.enter g { s with frames := fs } v).marks[w]? =
      if w = v then some (.opened s.count) else s.marks[w]? := getElem?_enter hv
  have hself := (hmark v).trans (if_pos rfl)
  have hother : ∀ w : Nat, w ≠ v →
      (Search.enter g { s with frames := fs } v).marks[w]? = s.marks[w]? :=
    fun w hw => (hmark w).trans (if_neg hw)
  refine ⟨by simpa [Search.enter] using h.size, ?_, ?_, fun w => ?_, fun w k hk => ?_, fun w => ?_,
    h.nodup, h.peeled⟩
  · exact hnested.push hself hpath
  · refine List.pairwise_cons.mpr ⟨fun x hx => ?_, h.later.imp (later_enter (g := g) hv)⟩
    obtain ⟨k, hk⟩ := (h.opened x).mp hx
    exact ⟨s.count, k, hself, (hother x (h.ne_of_mem hv hx)).trans hk, h.lt_count x k hk⟩
  · by_cases hwv : w = v
    · subst hwv
      exact ⟨fun _ => ⟨_, hself⟩, fun _ => List.mem_cons_self⟩
    · rw [hother w hwv, ← h.opened w]
      exact List.mem_cons.trans (or_iff_right hwv)
  · by_cases hwv : w = v
    · subst hwv
      obtain rfl : s.count = k := by simpa using hself.symm.trans hk
      exact Nat.lt_succ_self _
    · exact Nat.lt_succ_of_lt (h.lt_count w k ((hother w hwv).symm.trans hk))
  · by_cases hwv : w = v
    · subst hwv
      have hnew : w ∉ s.found.flatten := by
        rw [h.closed w, hv]
        simp
      exact ⟨fun hw => absurd hw hnew, fun hw => by simp [hself] at hw⟩
    · rw [hother w hwv]
      exact h.closed w

/-! ## Looking at an edge -/

/-- The invariant with other frames around the same stack and the same marks. -/
theorem Sound.reframe (h : Sound g s) {frames : List Frame}
    (hnested : Nested g s.marks s.stack frames) : Sound g { s with frames := frames } :=
  { h with nested := hnested }

/-- In a closed graph the edge that is looked at next leads to a node. -/
theorem Sound.target_lt (hg : g.Closed) (h : Sound g s) (hframes : s.frames = f :: fs)
    (hrest : f.rest = w :: rest) : w < g.size := by
  obtain ⟨left, below, -, hf, -, -⟩ := (hframes ▸ h.nested).uncons
  have hv : f.vertex < g.size := by
    rw [← h.size]
    exact (Array.getElem?_eq_some_iff.mp hf.opened).1
  exact hg f.vertex hv w (hf.edge hrest)

/-- **Looking at an edge** to a node succeeds, and keeps the invariant. -/
theorem Sound.look (h : Sound g s) (hframes : s.frames = f :: fs) (hrest : f.rest = w :: rest)
    (hnode : w < g.size) :
    ∃ t, s.look g f fs w rest = some t ∧ Sound g t ∧ s.Grows t := by
  obtain ⟨left, below, hstack, hf, hpath, hbelow⟩ := (hframes ▸ h.nested).uncons
  have hlater := h.later
  rw [hstack] at hlater
  have hw : w < s.marks.size := by
    rw [h.size]
    exact hnode
  obtain ⟨m, hm⟩ : ∃ m, s.marks[w]? = some m := ⟨s.marks[w], Array.getElem?_eq_getElem hw⟩
  unfold Search.look
  rw [hm]
  cases m with
  | fresh =>
    have hsame : ∀ x ∈ s.stack, (s.enter g w).marks[x]? = s.marks[x]? := fun x hx =>
      (getElem?_enter hm x).trans (if_neg (h.ne_of_mem hm hx))
    have hmet : ∀ low u, Met s.marks low u → Met (s.enter g w).marks low u :=
      fun _ _ => met_enter hm
    have hlow : f.low ≤ s.count :=
      Nat.le_trans hf.low_le (Nat.le_of_lt (h.lt_count f.vertex f.order hf.opened))
    have hnew : Met (s.enter g w).marks f.low w :=
      Or.inr ⟨s.count, (getElem?_enter hm w).trans (if_pos rfl), hlow⟩
    rw [hstack] at hsame
    refine ⟨_, rfl, h.enter hm ?_ ?_, grows_enter hm⟩
    · rw [hstack]
      refine .cons (f := { f with rest := rest }) ?_ hpath (hbelow.congr_marks ?_ hmet)
      · exact (hf.congr_marks (fun x hx => hsame x (List.mem_append_right _ hx)) hmet).advance
          hrest hnew
      · exact fun x hx => hsame x (List.mem_append_right _ (List.mem_cons_of_mem _ hx))
    · rintro _ ⟨⟩
      exact Reaches.single (hf.edge hrest)
  | opened k =>
    refine ⟨_, rfl, h.reframe ?_, Grows.refl s⟩
    rw [hstack]
    refine .cons (f := { f with rest := rest, low := min f.low k })
      (hf.look_opened hrest hm ?_) hpath hbelow
    -- A node of the stack with a smaller order is below the frame.
    intro hk
    have hmem : w ∈ left ++ f.vertex :: below := hstack ▸ (h.opened w).mpr ⟨k, hm⟩
    rcases List.mem_append.mp hmem with hw | hw
    · have hlt := (List.pairwise_append.mp hlater).2.2 w hw f.vertex List.mem_cons_self
      have := hlt.lt hm hf.opened
      omega
    · refine (List.mem_cons.mp hw).resolve_left ?_
      rintro rfl
      obtain rfl : k = f.order := by simpa using hm.symm.trans hf.opened
      exact Nat.lt_irrefl _ hk
  | closed =>
    refine ⟨_, rfl, h.reframe ?_, Grows.refl s⟩
    rw [hstack]
    exact .cons (f := { f with rest := rest }) (hf.advance hrest (Or.inl hm)) hpath hbelow

/-! ## Leaving a node -/

/-- A node that is no root passes its part of the stack on to the frame below. -/
theorem Sound.leave_open (h : Sound g s) (hframes : s.frames = f :: fs) (hrest : f.rest = [])
    (hne : f.low ≠ f.order) : Sound g { s with frames := passLow f.low fs } := by
  obtain ⟨left, below, hstack, hf, hpath, hbelow⟩ := (hframes ▸ h.nested).uncons
  have hlater := h.later
  rw [hstack] at hlater
  obtain ⟨y, hy, hylow, _⟩ := hf.low_reached
  have hybelow : y ∈ below := by
    refine (List.mem_cons.mp hy).resolve_left ?_
    rintro rfl
    exact hne (by simpa using hylow.symm.trans hf.opened)
  obtain _ | ⟨f', fs'⟩ := fs
  · rw [hbelow.stack_eq_nil] at hybelow
    exact absurd hybelow List.not_mem_nil
  · obtain ⟨left', below', rfl, hf', hpath', hbelow'⟩ := hbelow.uncons
    have hlater' := (List.pairwise_cons.mp (List.pairwise_append.mp hlater).2.1).2
    have habsorb := hf.absorb hf' hrest hne (hpath f' rfl) fun x hx =>
      (List.pairwise_append.mp hlater').2.2 x hx f'.vertex List.mem_cons_self
    refine h.reframe ?_
    have hsplit : s.stack = (left ++ f.vertex :: left') ++ f'.vertex :: below' := by
      rw [hstack, List.append_assoc, List.cons_append]
    rw [hsplit]
    exact .cons (f := { f' with low := min f'.low f.low }) habsorb hpath' hbelow'

/-- **The innermost node** parts the stack, and the search is inside of it once. -/
theorem Sound.exists_stack_eq (h : Sound g s) (hframes : s.frames = f :: fs) :
    ∃ left below, s.stack = left ++ f.vertex :: below ∧ f.vertex ∉ left ∧
      ∀ f' ∈ fs, f'.vertex ≠ f.vertex := by
  obtain ⟨left, below, hstack, -, -, hbelow⟩ := (hframes ▸ h.nested).uncons
  have hlater := h.later
  rw [hstack] at hlater
  obtain ⟨-, hlower, hacross⟩ := List.pairwise_append.mp hlater
  refine ⟨left, below, hstack, fun hv => ?_, fun f' hf' => ?_⟩
  · exact absurd rfl (hacross f.vertex hv f.vertex List.mem_cons_self).ne
  · exact ((List.pairwise_cons.mp hlower).1 f'.vertex (hbelow.vertex_mem f' hf')).ne.symm

/-- The marks after the nodes of a component have been closed. -/
theorem getElem?_foldl_closed (c : List Nat) (marks : Array Mark) (x : Nat) :
    (c.foldl (fun marks v => marks.setIfInBounds v .closed) marks)[x]? =
      if x ∈ c ∧ x < marks.size then some .closed else marks[x]? := by
  induction c generalizing marks with
  | nil => simp
  | cons v c ih =>
    rw [List.foldl_cons, ih, Array.size_setIfInBounds, Array.getElem?_setIfInBounds]
    by_cases hx : x ∈ c ∧ x < marks.size
    · rw [if_pos hx, if_pos ⟨List.mem_cons_of_mem _ hx.1, hx.2⟩]
    · rw [if_neg hx]
      by_cases hv : v = x
      · subst hv
        by_cases hlt : v < marks.size
        · rw [if_pos rfl, if_pos hlt, if_pos ⟨List.mem_cons_self, hlt⟩]
        · rw [if_pos rfl, if_neg hlt, if_neg (fun h => hlt h.2),
            Array.getElem?_eq_none (Nat.le_of_not_lt hlt)]
      · rw [if_neg hv, if_neg fun h => hx ⟨(List.mem_cons.mp h.1).resolve_left (Ne.symm hv), h.2⟩]

theorem passLow_eq_self {low : Nat} (h : ∀ f ∈ fs.head?, f.low ≤ low) : passLow low fs = fs := by
  obtain _ | ⟨f, fs⟩ := fs
  · rfl
  · simp [passLow, Nat.min_eq_left (h f rfl)]

theorem size_foldl_closed (c : List Nat) (marks : Array Mark) :
    (c.foldl (fun marks v => marks.setIfInBounds v .closed) marks).size = marks.size := by
  induction c generalizing marks with
  | nil => rfl
  | cons v c ih => rw [List.foldl_cons, ih, Array.size_setIfInBounds]

theorem takeWhile_ne_append_cons {left : List Nat} (hv : v ∉ left) (below : List Nat) :
    (left ++ v :: below).takeWhile (· ≠ v) = left := by
  have hne : ∀ x ∈ left, decide (x ≠ v) = true := fun x hx =>
    decide_eq_true (ne_of_mem_of_not_mem hx hv)
  rw [List.takeWhile_append_of_pos hne]
  simp

theorem dropWhile_ne_append_cons {left : List Nat} (hv : v ∉ left) (below : List Nat) :
    (left ++ v :: below).dropWhile (· ≠ v) = v :: below := by
  have hne : ∀ x ∈ left, decide (x ≠ v) = true := fun x hx =>
    decide_eq_true (ne_of_mem_of_not_mem hx hv)
  rw [List.dropWhile_append_of_pos hne]
  simp

/-- Taking a component off the stack cuts the stack at the root. -/
theorem closeComponent_eq {left below : List Nat} (hstack : s.stack = left ++ v :: below)
    (hv : v ∉ left) : s.closeComponent v =
      { s with
        marks := (left ++ [v]).foldl (fun marks v => marks.setIfInBounds v .closed) s.marks
        stack := below
        found := (left ++ [v]) :: s.found } := by
  have htake : s.stack.takeWhile (· ≠ v) = left := hstack ▸ takeWhile_ne_append_cons hv below
  have hdrop : (s.stack.dropWhile (· ≠ v)).drop 1 = below := by
    rw [hstack, dropWhile_ne_append_cons hv, List.drop_one, List.tail_cons]
  rw [closeComponent, htake, hdrop]

/-- **Closing the upper part `c` of the stack**, which is a component. -/
theorem Sound.close {c below : List Nat} {marks : Array Mark} (h : Sound g s)
    (hstack : s.stack = c ++ below) (hsize : marks.size = s.marks.size)
    (hin : ∀ x ∈ c, marks[x]? = some .closed) (hout : ∀ x, x ∉ c → marks[x]? = s.marks[x]?)
    (hnested : Nested g s.marks below fs) (hpeeled : Peeled g (c :: s.found)) :
    Sound g { s with marks := marks, frames := fs, stack := below, found := c :: s.found } := by
  have hlater := h.later
  rw [hstack] at hlater
  obtain ⟨hupper, hlower, hacross⟩ := List.pairwise_append.mp hlater
  have hbelow : ∀ x ∈ below, marks[x]? = s.marks[x]? := fun x hx =>
    hout x fun hxc => absurd rfl (hacross x hxc x hx).ne
  have hmark : ∀ x k, marks[x]? = some (.opened k) → x ∉ c ∧ s.marks[x]? = some (.opened k) := by
    intro x k hk
    have hxc : x ∉ c := fun hxc => by simp [hin x hxc] at hk
    exact ⟨hxc, (hout x hxc).symm.trans hk⟩
  have hopen : ∀ x ∈ c, ∃ k, s.marks[x]? = some (.opened k) := fun x hx =>
    (h.opened x).mp (hstack ▸ List.mem_append_left _ hx)
  refine ⟨hsize.trans h.size, hnested.congr_marks hbelow ?_, ?_, fun x => ⟨fun hx => ?_, ?_⟩,
    fun x k hk => h.lt_count x k (hmark x k hk).2, fun x => ?_, ?_, hpeeled⟩
  · rintro low w (hw | ⟨k, hk, hle⟩)
    · by_cases hwc : w ∈ c
      · exact Or.inl (hin w hwc)
      · exact Or.inl ((hout w hwc).trans hw)
    · by_cases hwc : w ∈ c
      · exact Or.inl (hin w hwc)
      · exact Or.inr ⟨k, (hout w hwc).trans hk, hle⟩
  · refine hlower.imp_of_mem fun hx hy hxy => ?_
    obtain ⟨i, j, hi, hj, hlt⟩ := hxy
    exact ⟨i, j, (hbelow _ hx).trans hi, (hbelow _ hy).trans hj, hlt⟩
  · obtain ⟨k, hk⟩ := (h.opened x).mp (hstack ▸ List.mem_append_right _ hx)
    exact ⟨k, (hbelow x hx).trans hk⟩
  · rintro ⟨k, hk⟩
    obtain ⟨hxc, hk⟩ := hmark x k hk
    have hx : x ∈ c ++ below := hstack ▸ (h.opened x).mpr ⟨k, hk⟩
    exact (List.mem_append.mp hx).resolve_left hxc
  · rw [List.flatten_cons, List.mem_append, h.closed x]
    by_cases hxc : x ∈ c
    · simp [hxc, hin x hxc]
    · simp [hxc, hout x hxc]
  · rw [List.flatten_cons]
    refine List.nodup_append'.mpr ⟨hupper.imp Later.ne, h.nodup, fun x hxc hxf => ?_⟩
    obtain ⟨k, hk⟩ := hopen x hxc
    simp [(h.closed x).mp hxf] at hk

/-- **The part of a root is a component**, which goes off the stack. -/
theorem Sound.leave_root (h : Sound g s) (hframes : s.frames = f :: fs) (hrest : f.rest = [])
    (hlow : f.low = f.order) :
    Sound g (closeComponent { s with frames := passLow f.low fs } f.vertex) ∧
      s.Grows (closeComponent { s with frames := passLow f.low fs } f.vertex) := by
  obtain ⟨left, below, hstack, hf, hpath, hbelow⟩ := (hframes ▸ h.nested).uncons
  have hlater := h.later
  rw [hstack] at hlater
  have hpeeled := hf.component hrest hlow hlater
    (fun v k hk => hstack ▸ (h.opened v).mpr ⟨k, hk⟩) h.peeled h.closed
  have hpass : passLow f.low fs = fs := by
    refine passLow_eq_self fun f' hf' => ?_
    obtain _ | ⟨f'', fs'⟩ := fs
    · simp at hf'
    · obtain rfl : f'' = f' := by simpa using hf'
      obtain ⟨left', below', rfl, hf'', -, -⟩ := hbelow.uncons
      have hlt :=
        (List.pairwise_cons.mp (List.pairwise_append.mp hlater).2.1).1 f''.vertex (by simp)
      have := hlt.lt hf.opened hf''.opened
      have := hf''.low_le
      omega
  have hvleft : f.vertex ∉ left := fun hv =>
    absurd rfl ((List.pairwise_append.mp hlater).2.2 f.vertex hv f.vertex (by simp)).ne
  rw [hpass, closeComponent_eq (s := { s with frames := fs }) hstack hvleft]
  have hin : ∀ x ∈ left ++ [f.vertex], ((left ++ [f.vertex]).foldl
      (fun marks v => marks.setIfInBounds v Mark.closed) s.marks)[x]? = some .closed := by
    intro x hx
    have hx' : x ∈ s.stack := by
      rw [hstack, List.append_cons]
      exact List.mem_append_left _ hx
    obtain ⟨k, hk⟩ := (h.opened x).mp hx'
    rw [getElem?_foldl_closed, if_pos ⟨hx, (Array.getElem?_eq_some_iff.mp hk).1⟩]
  have hout : ∀ x, x ∉ left ++ [f.vertex] → ((left ++ [f.vertex]).foldl
      (fun marks v => marks.setIfInBounds v Mark.closed) s.marks)[x]? = s.marks[x]? :=
    fun x hx => by rw [getElem?_foldl_closed, if_neg fun h => hx h.1]
  refine ⟨h.close (by rw [hstack, List.append_cons]) (size_foldl_closed _ _) hin hout hbelow
    hpeeled, fun x hx => ?_⟩
  by_cases hxc : x ∈ left ++ [f.vertex]
  · exact absurd ((hin x hxc).symm.trans hx) (by simp)
  · exact (hout x hxc).symm.trans hx

/-- **Leaving a node** keeps the invariant. -/
theorem Sound.leave (h : Sound g s) (hframes : s.frames = f :: fs) (hrest : f.rest = []) :
    Sound g (s.leave f fs) ∧ s.Grows (s.leave f fs) := by
  unfold Search.leave
  by_cases hlow : f.low = f.order
  · simpa [hlow] using h.leave_root hframes hrest hlow
  · simpa [hlow] using ⟨h.leave_open hframes hrest hlow, Grows.refl s⟩

/-! ## Steps -/

/-- **In a closed graph a step is never stuck**: the search has ended, or goes on and keeps the
invariant. -/
theorem Sound.step (hg : g.Closed) (h : Sound g s) :
    (s.frames = [] ∧ s.step g = .ended s) ∨
      ∃ t, s.step g = .next t ∧ Sound g t ∧ s.Grows t := by
  unfold Search.step
  obtain hframes | ⟨f, fs, hframes⟩ : s.frames = [] ∨ ∃ f fs, s.frames = f :: fs := by
    cases s.frames <;> simp
  · exact Or.inl ⟨hframes, by rw [hframes]⟩
  · rw [hframes]
    obtain hrest | ⟨w, rest, hrest⟩ : f.rest = [] ∨ ∃ w rest, f.rest = w :: rest := by
      cases f.rest <;> simp
    · simp only [hrest]
      exact Or.inr ⟨_, rfl, h.leave hframes hrest⟩
    · obtain ⟨t, ht, hsound⟩ := h.look hframes hrest (h.target_lt hg hframes hrest)
      simp only [hrest, ht]
      exact Or.inr ⟨t, rfl, hsound⟩

/-! ## Runs -/

theorem run_eq (g : EmbedGraph) (s : Search) :
    s.run g = match s.step g with
      | .ended t => some t
      | .stuck => none
      | .next t => t.run g := by
  rw [Search.run]
  split <;> simp [*]

/-- **A run ends**, inside of no node. -/
theorem Sound.run (hg : g.Closed) (h : Sound g s) :
    ∃ t, s.run g = some t ∧ Sound g t ∧ t.frames = [] ∧ s.Grows t := by
  induction s using Search.run.induct g with
  | case1 s t hended =>
    rcases h.step hg with ⟨hframes, hs⟩ | ⟨t', ht', -, -⟩
    · exact ⟨s, by rw [run_eq, hs], h, hframes, Grows.refl s⟩
    · simp [hended] at ht'
  | case2 s hstuck =>
    rcases h.step hg with ⟨-, hs⟩ | ⟨t', ht', -, -⟩
    · simp [hstuck] at hs
    · simp [hstuck] at ht'
  | case3 s t hnext ih =>
    rcases h.step hg with ⟨-, hs⟩ | ⟨t', ht', hsound, hgrows⟩
    · simp [hnext] at hs
    · obtain rfl : t = t' := by simpa [hnext] using ht'
      obtain ⟨u, hu, husound, huframes, hugrows⟩ := ih hsound
      exact ⟨u, by rw [run_eq, hnext]; exact hu, husound, huframes, hgrows.trans hugrows⟩

/-- Outside of all nodes the stack is empty. -/
theorem Sound.stack_eq_nil (h : Sound g s) (hframes : s.frames = []) : s.stack = [] := by
  have hnested := h.nested
  rw [hframes] at hnested
  exact hnested.stack_eq_nil

/-- **Opening a node** inside of no other. -/
theorem Sound.enter_root (h : Sound g s) (hframes : s.frames = [])
    (hv : s.marks[v]? = some .fresh) : Sound g (s.enter g v) := by
  have houtside : Nested g (s.enter g v).marks s.stack s.frames := by
    rw [hframes, h.stack_eq_nil hframes]
    exact .nil
  exact h.enter hv houtside (by simp [hframes])

/-- **A search from a node** ends inside of no node, and has met the node. -/
theorem Sound.visit (hg : g.Closed) (h : Sound g s) (hframes : s.frames = []) (v : Nat) :
    ∃ t, s.visit g v = some t ∧ Sound g t ∧ t.frames = [] ∧ s.Grows t ∧
      t.marks[v]? ≠ some .fresh := by
  unfold Search.visit
  by_cases hv : s.marks[v]? = some .fresh
  · obtain ⟨t, ht, hsound, htframes, hgrows⟩ := (h.enter_root hframes hv).run hg
    refine ⟨t, by rw [hv]; exact ht, hsound, htframes, (grows_enter hv).trans hgrows, ?_⟩
    intro hfresh
    have hself := (getElem?_enter (g := g) hv v).symm.trans (hgrows v hfresh)
    simp at hself
  · refine ⟨s, ?_, h, hframes, Grows.refl s, hv⟩
    split
    · contradiction
    · rfl

/-- **A search from each of some nodes** meets all of them. -/
theorem Sound.visitAll (hg : g.Closed) (roots : List Nat) (h : Sound g s)
    (hframes : s.frames = []) :
    ∃ t, visitAll g roots s = some t ∧ Sound g t ∧ t.frames = [] ∧ s.Grows t ∧
      ∀ v ∈ roots, t.marks[v]? ≠ some .fresh := by
  induction roots generalizing s with
  | nil => exact ⟨s, rfl, h, hframes, Grows.refl s, by simp⟩
  | cons v roots ih =>
    obtain ⟨t, ht, htsound, htframes, htgrows, htv⟩ := h.visit hg hframes v
    obtain ⟨u, hu, husound, huframes, hugrows, huroots⟩ := ih htsound htframes
    refine ⟨u, by rw [Search.visitAll, ht]; exact hu, husound, huframes, htgrows.trans hugrows, ?_⟩
    intro w hw
    rcases List.mem_cons.mp hw with rfl | hw
    · exact fun hfresh => htv (hugrows w hfresh)
    · exact huroots w hw

/-- Outside of all nodes, everything that was met is closed. -/
theorem Sound.closed_of_met (h : Sound g s) (hframes : s.frames = []) (hv : v < g.size)
    (hmet : s.marks[v]? ≠ some .fresh) : v ∈ s.found.flatten := by
  have hstack := h.stack_eq_nil hframes
  rw [h.closed]
  have hsize : v < s.marks.size := h.size ▸ hv
  obtain ⟨m, hm⟩ : ∃ m, s.marks[v]? = some m := ⟨s.marks[v], by simp⟩
  cases m with
  | fresh => exact absurd hm hmet
  | opened k =>
    have := (h.opened v).mpr ⟨k, hm⟩
    simp [hstack] at this
  | closed => exact hm

end ScriptSuite.EmbedGraph.Search
