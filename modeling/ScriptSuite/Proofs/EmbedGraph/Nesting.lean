import ScriptSuite.Proofs.EmbedGraph.Peeling

/-!
# Proofs/EmbedGraph/Nesting — the stack of a search, cut at its frames

    stack  =  left₀ · v₀ · left₁ · v₁ · … · leftₖ · vₖ          frames  =  f₀ f₁ … fₖ

The stack of a search is cut at the nodes `vᵢ` that the search is inside of.  The nodes `leftᵢ` in
front of `vᵢ` were opened below it and left again.  `Frame.Sound` says what is known about one such
part, and `Nested` that all of the stack is made of them.

What carries the search is that every node of `leftᵢ` has a path to `vᵢ` or to a node below it
(`Frame.Sound.left_sinks`), while no edge that was looked at leads below the frame's low number
(`Met`).  When the low number is the frame's own order the two meet, and the part is a component.
-/

namespace ScriptSuite.EmbedGraph

variable {g : EmbedGraph} {marks marks' : Array Mark}

/-- **The target of an edge that was looked at** is closed, or is on the stack with at least the
low number of the frame. -/
def Met (marks : Array Mark) (low w : Nat) : Prop :=
  marks[w]? = some .closed ∨ ∃ k, marks[w]? = some (.opened k) ∧ low ≤ k

theorem Met.mono {low low' w : Nat} (h : Met marks low w) (hle : low' ≤ low) :
    Met marks low' w := by
  rcases h with hc | ⟨k, hk, hlow⟩
  · exact Or.inl hc
  · exact Or.inr ⟨k, hk, Nat.le_trans hle hlow⟩

/-- Two nodes of the stack, the first of which was opened after the second. -/
def Later (marks : Array Mark) (v w : Nat) : Prop :=
  ∃ i j, marks[v]? = some (.opened i) ∧ marks[w]? = some (.opened j) ∧ j < i

theorem Later.lt {v w i j : Nat} (h : Later marks v w) (hv : marks[v]? = some (.opened i))
    (hw : marks[w]? = some (.opened j)) : j < i := by
  obtain ⟨i', j', hv', hw', hlt⟩ := h
  obtain rfl : i = i' := by simpa using hv.symm.trans hv'
  obtain rfl : j = j' := by simpa using hw.symm.trans hw'
  exact hlt

theorem Later.ne {v w : Nat} (h : Later marks v w) : v ≠ w := by
  rintro rfl
  obtain ⟨i, j, hv, hw, hlt⟩ := h
  obtain rfl : i = j := by simpa using hv.symm.trans hw
  exact Nat.lt_irrefl i hlt

/-- **A sound frame**, with the nodes that were left above it and the part of the stack below. -/
structure Frame.Sound (g : EmbedGraph) (marks : Array Mark) (f : Frame) (left below : List Nat) :
    Prop where
  opened : marks[f.vertex]? = some (.opened f.order)
  low_le : f.low ≤ f.order
  /-- The low number is that of a node at the frame or below, to which a path leads. -/
  low_reached : ∃ y ∈ f.vertex :: below, marks[y]? = some (.opened f.low) ∧ g.Reaches f.vertex y
  looked : ∃ seen, g.targets f.vertex = seen ++ f.rest ∧ ∀ w ∈ seen, Met marks f.low w
  left_reached : ∀ x ∈ left, g.Reaches f.vertex x
  left_sinks : ∀ x ∈ left, ∃ y ∈ f.vertex :: below, g.Reaches x y
  left_looked : ∀ x ∈ left, ∀ w ∈ g.targets x, Met marks f.low w

namespace Frame.Sound

variable {f f' : Frame} {left left' below below' rest : List Nat} {w low : Nat}

/-- Marks may change away from the stack, as long as what was met stays met. -/
theorem congr_marks (h : f.Sound g marks left below)
    (hstack : ∀ x ∈ f.vertex :: below, marks'[x]? = marks[x]?)
    (hmet : ∀ low w, Met marks low w → Met marks' low w) : f.Sound g marks' left below where
  opened := (hstack _ List.mem_cons_self).trans h.opened
  low_le := h.low_le
  low_reached := by
    obtain ⟨y, hy, hlow, hr⟩ := h.low_reached
    exact ⟨y, hy, (hstack y hy).trans hlow, hr⟩
  looked := by
    obtain ⟨seen, hseen, hall⟩ := h.looked
    exact ⟨seen, hseen, fun w hw => hmet _ w (hall w hw)⟩
  left_reached := h.left_reached
  left_sinks := h.left_sinks
  left_looked x hx w hw := hmet _ w (h.left_looked x hx w hw)

/-- A node has just been opened. -/
theorem fresh (hv : marks[w]? = some (.opened low)) :
    (⟨w, low, low, g.targets w⟩ : Frame).Sound g marks [] below where
  opened := hv
  low_le := Nat.le_refl low
  low_reached := ⟨w, List.mem_cons_self, hv, Reaches.refl w⟩
  looked := ⟨[], rfl, by simp⟩
  left_reached := by simp
  left_sinks := by simp
  left_looked := by simp

/-- The next edge has been looked at, and its target is met. -/
theorem advance (h : f.Sound g marks left below) (hrest : f.rest = w :: rest)
    (hw : Met marks f.low w) : Frame.Sound g marks { f with rest := rest } left below :=
  { h with
    looked := by
      obtain ⟨seen, hseen, hall⟩ := h.looked
      refine ⟨seen ++ [w], by simp [hseen, hrest], fun u hu => ?_⟩
      rcases List.mem_append.mp hu with hu | hu
      · exact hall u hu
      · obtain rfl := List.mem_singleton.mp hu
        exact hw }

/-- The low number falls to that of a node below, to which a path leads. -/
theorem lower (h : f.Sound g marks left below) (hle : low ≤ f.low)
    (hlow : ∃ y ∈ f.vertex :: below, marks[y]? = some (.opened low) ∧ g.Reaches f.vertex y) :
    Frame.Sound g marks { f with low := low } left below :=
  { h with
    low_le := Nat.le_trans hle h.low_le
    low_reached := hlow
    looked := by
      obtain ⟨seen, hseen, hall⟩ := h.looked
      exact ⟨seen, hseen, fun u hu => (hall u hu).mono hle⟩
    left_looked := fun x hx u hu => (h.left_looked x hx u hu).mono hle }

theorem edge (h : f.Sound g marks left below) (hrest : f.rest = w :: rest) :
    w ∈ g.targets f.vertex := by
  obtain ⟨seen, hseen, _⟩ := h.looked
  simp [hseen, hrest]

/-- **An edge to a node of the stack** takes the low number down to that node's order. -/
theorem look_opened {k : Nat} (h : f.Sound g marks left below) (hrest : f.rest = w :: rest)
    (hw : marks[w]? = some (.opened k)) (hmem : k < f.order → w ∈ below) :
    Frame.Sound g marks { f with rest := rest, low := min f.low k } left below := by
  by_cases hk : k < f.low
  · have hbelow : w ∈ f.vertex :: below :=
      List.mem_cons_of_mem _ (hmem (Nat.lt_of_lt_of_le hk h.low_le))
    have hlower := h.lower (Nat.le_of_lt hk) ⟨w, hbelow, hw, Reaches.single (h.edge hrest)⟩
    rw [Nat.min_eq_right (Nat.le_of_lt hk)]
    exact hlower.advance hrest (Or.inr ⟨k, hw, Nat.le_refl k⟩)
  · have hle : f.low ≤ k := Nat.le_of_not_lt hk
    rw [Nat.min_eq_left hle]
    exact h.advance hrest (Or.inr ⟨k, hw, hle⟩)

/-- When no edge is left to look at, all of them are met. -/
theorem targets_met (h : f.Sound g marks left below) (hrest : f.rest = []) :
    ∀ x ∈ left ++ [f.vertex], ∀ w ∈ g.targets x, Met marks f.low w := by
  intro x hx w hw
  rcases List.mem_append.mp hx with hx | hx
  · exact h.left_looked x hx w hw
  · obtain rfl := List.mem_singleton.mp hx
    obtain ⟨seen, hseen, hall⟩ := h.looked
    rw [hrest, List.append_nil] at hseen
    exact hall w (hseen ▸ hw)

/-- **A frame takes over the part of a frame above it** that is left without being a component: the
part joins the nodes left above the frame, and its low number is passed down. -/
theorem absorb (h : f.Sound g marks left (left' ++ f'.vertex :: below'))
    (h' : f'.Sound g marks left' below') (hrest : f.rest = []) (hne : f.low ≠ f.order)
    (hpath : g.Reaches f'.vertex f.vertex)
    (hlater : ∀ x ∈ left', Later marks x f'.vertex) :
    Frame.Sound g marks { f' with low := min f'.low f.low } (left ++ f.vertex :: left') below' := by
  have hmin : min f'.low f.low ≤ f'.low := Nat.min_le_left _ _
  have hmin' : min f'.low f.low ≤ f.low := Nat.min_le_right _ _
  obtain ⟨y, hy, hylow, hyr⟩ := h.low_reached
  have hyv : y ≠ f.vertex := by
    rintro rfl
    exact hne (by simpa using hylow.symm.trans h.opened)
  have hybelow : y ∈ left' ++ f'.vertex :: below' := (List.mem_cons.mp hy).resolve_left hyv
  -- Whatever is below the frame has a path to its new frame or below that.
  have hsink : ∀ z ∈ left' ++ f'.vertex :: below', ∃ u ∈ f'.vertex :: below', g.Reaches z u := by
    intro z hz
    rcases List.mem_append.mp hz with hz | hz
    · exact h'.left_sinks z hz
    · exact ⟨z, hz, Reaches.refl z⟩
  have hsinkv : ∃ u ∈ f'.vertex :: below', g.Reaches f.vertex u := by
    obtain ⟨u, hu, hyu⟩ := hsink y hybelow
    exact ⟨u, hu, hyr.trans hyu⟩
  refine ⟨h'.opened, Nat.le_trans hmin h'.low_le, ?_, ?_, ?_, ?_, ?_⟩
  · by_cases hlow : f.low < f'.low
    · -- The low number is smaller than the order of the new frame, so its node is below that.
      have hord : f.low < f'.order := Nat.lt_of_lt_of_le hlow h'.low_le
      have hyl : y ∉ left' := fun hyl => by
        have := (hlater y hyl).lt hylow h'.opened
        omega
      refine ⟨y, (List.mem_append.mp hybelow).resolve_left hyl, ?_, hpath.trans hyr⟩
      simpa [Nat.min_eq_right (Nat.le_of_lt hlow)] using hylow
    · have := h'.low_reached
      simpa [Nat.min_eq_left (Nat.le_of_not_lt hlow)] using this
  · obtain ⟨seen, hseen, hall⟩ := h'.looked
    exact ⟨seen, hseen, fun w hw => (hall w hw).mono hmin⟩
  · intro x hx
    rcases List.mem_append.mp hx with hx | hx
    · exact hpath.trans (h.left_reached x hx)
    · rcases List.mem_cons.mp hx with rfl | hx
      · exact hpath
      · exact h'.left_reached x hx
  · intro x hx
    rcases List.mem_append.mp hx with hx | hx
    · obtain ⟨z, hz, hxz⟩ := h.left_sinks x hx
      rcases List.mem_cons.mp hz with rfl | hz
      · obtain ⟨u, hu, hvu⟩ := hsinkv
        exact ⟨u, hu, hxz.trans hvu⟩
      · obtain ⟨u, hu, hzu⟩ := hsink z hz
        exact ⟨u, hu, hxz.trans hzu⟩
    · rcases List.mem_cons.mp hx with rfl | hx
      · exact hsinkv
      · exact h'.left_sinks x hx
  · intro x hx w hw
    rw [List.append_cons, List.mem_append] at hx
    rcases hx with hx | hx
    · exact (h.targets_met hrest x hx w hw).mono hmin'
    · exact (h'.left_looked x hx w hw).mono hmin

/-- **A frame whose low number is its own order** and whose edges have all been looked at has a
component above it: the nodes left there, and its own. -/
theorem component (h : f.Sound g marks left below) (hrest : f.rest = []) (hlow : f.low = f.order)
    (hlater : (left ++ f.vertex :: below).Pairwise (Later marks))
    (hopened : ∀ v k, marks[v]? = some (.opened k) → v ∈ left ++ f.vertex :: below)
    {found : List (List Nat)} (hpeeled : Peeled g found)
    (hclosed : ∀ v, v ∈ found.flatten ↔ marks[v]? = some .closed) :
    Peeled g ((left ++ [f.vertex]) :: found) := by
  rw [List.append_cons, List.pairwise_append] at hlater
  obtain ⟨_, _, hacross⟩ := hlater
  have hv : f.vertex ∈ left ++ [f.vertex] := by simp
  have hbelow : ∀ w k, marks[w]? = some (.opened k) → w ∈ below → k < f.order :=
    fun w k hk hw => (hacross f.vertex hv w hw).lt h.opened hk
  have hleads : ∀ x ∈ left ++ [f.vertex], ∀ w ∈ g.targets x,
      w ∈ left ++ [f.vertex] ∨ w ∈ found.flatten := by
    intro x hx w hw
    rcases h.targets_met hrest x hx w hw with hc | ⟨k, hk, hle⟩
    · exact Or.inr ((hclosed w).mpr hc)
    · have hmem := hopened w k hk
      rw [List.append_cons, List.mem_append] at hmem
      refine Or.inl (hmem.resolve_right fun hw' => ?_)
      have := hbelow w k hk hw'
      omega
  -- So a path from here ends here or in an earlier component, never below the frame.
  have hstays : ∀ x ∈ left ++ [f.vertex], ∀ y, g.Reaches x y →
      y ∈ left ++ [f.vertex] ∨ y ∈ found.flatten := by
    intro x hx y hr
    refine hr.carry (P := fun y => y ∈ left ++ [f.vertex] ∨ y ∈ found.flatten)
      (fun u hu w hw => ?_) (Or.inl hx)
    rcases hu with hu | hu
    · exact hleads u hu w hw
    · exact Or.inr (hpeeled.target_mem hu w hw)
  have hback : ∀ x ∈ left ++ [f.vertex], g.Reaches x f.vertex := by
    intro x hx
    rcases List.mem_append.mp hx with hx' | hx'
    · obtain ⟨y, hy, hr⟩ := h.left_sinks x hx'
      rcases List.mem_cons.mp hy with rfl | hy
      · exact hr
      · obtain ⟨_, j, _, hyj, _⟩ := hacross f.vertex hv y hy
        rcases hstays x hx y hr with hyc | hyf
        · exact absurd rfl (hacross y hyc y hy).ne
        · simp [(hclosed y).mp hyf] at hyj
    · obtain rfl := List.mem_singleton.mp hx'
      exact Reaches.refl _
  have hforth : ∀ x ∈ left ++ [f.vertex], g.Reaches f.vertex x := by
    intro x hx
    rcases List.mem_append.mp hx with hx | hx
    · exact h.left_reached x hx
    · obtain rfl := List.mem_singleton.mp hx
      exact Reaches.refl _
  exact .cons (by simp) (fun x hx w hw => (hback x hx).trans (hforth w hw)) hleads hpeeled

end Frame.Sound

/-- **The stack is made of the parts of its frames**, and a path leads from each frame to the one
above it. -/
inductive Nested (g : EmbedGraph) (marks : Array Mark) : List Nat → List Frame → Prop
  | nil : Nested g marks [] []
  | cons {f : Frame} {fs : List Frame} {left below : List Nat} (sound : f.Sound g marks left below)
      (path : ∀ f' ∈ fs.head?, g.Reaches f'.vertex f.vertex) (nested : Nested g marks below fs) :
      Nested g marks (left ++ f.vertex :: below) (f :: fs)

namespace Nested

variable {f : Frame} {fs : List Frame} {stack : List Nat}

/-- Marks may change away from the stack, as long as what was met stays met. -/
theorem congr_marks (h : Nested g marks stack fs) (hstack : ∀ x ∈ stack, marks'[x]? = marks[x]?)
    (hmet : ∀ low w, Met marks low w → Met marks' low w) : Nested g marks' stack fs := by
  induction h with
  | nil => exact .nil
  | cons sound path nested ih =>
    refine .cons
      (sound.congr_marks (fun x hx => hstack x (List.mem_append_right _ hx)) hmet) path ?_
    exact ih fun x hx => hstack x (List.mem_append_right _ (List.mem_cons_of_mem _ hx))

/-- A node that has just been opened is on top of the stack, with a frame of its own. -/
theorem push {v k : Nat} (h : Nested g marks stack fs) (hv : marks[v]? = some (.opened k))
    (hpath : ∀ f' ∈ fs.head?, g.Reaches f'.vertex v) :
    Nested g marks (v :: stack) (⟨v, k, k, g.targets v⟩ :: fs) := by
  have hsound : Frame.Sound g marks ⟨v, k, k, g.targets v⟩ [] stack := .fresh hv
  exact .cons hsound hpath h

/-- The part of the innermost frame, and the rest. -/
theorem uncons (h : Nested g marks stack (f :: fs)) :
    ∃ left below, stack = left ++ f.vertex :: below ∧ f.Sound g marks left below ∧
      (∀ f' ∈ fs.head?, g.Reaches f'.vertex f.vertex) ∧ Nested g marks below fs := by
  obtain _ | ⟨sound, path, nested⟩ := h
  exact ⟨_, _, rfl, sound, path, nested⟩

/-- The nodes that the search is inside of are on the stack. -/
theorem vertex_mem (h : Nested g marks stack fs) : ∀ f ∈ fs, f.vertex ∈ stack := by
  induction h with
  | nil => exact List.forall_mem_nil _
  | @cons f fs left below _ _ _ ih =>
    refine List.forall_mem_cons.mpr ⟨by simp, fun f' hf' => ?_⟩
    exact List.mem_append_right left (List.mem_cons_of_mem f.vertex (ih f' hf'))

/-- Outside of all nodes the stack is empty. -/
theorem stack_eq_nil (h : Nested g marks stack []) : stack = [] := by
  obtain _ | _ := h
  rfl

end Nested

end ScriptSuite.EmbedGraph
