import ScriptSuite.Suite.Gathering

/-!
# Suite/Pool — files that are read at the same time

A `Pool` is the reading of some files under way.  Files that wait may begin in any order, each when
there is a slot for it, and a quota without slots is taken as one with a single slot.  A file that
is under way may end at any time and gives its slot up; what it has given is collected later, again
in any order.  The disk stands still meanwhile, so a file gives what it gives on its own.
-/

namespace ScriptSuite

/-- How many files may be under way at a time: one at least. -/
def Quota.slots (q : Quota) : Nat := max 1 q.maxReads

namespace Suite

/-- What the file at a path gives. -/
def Gathering.arrival (disk : Disk) (o : Script.Options) (q : Quota) (path : String) :
    Gathering.Arrival :=
  (path, Script.load disk o q path)

/-- How far the reading of some files has come. -/
structure Pool where
  waiting : List String
  underWay : List String := []
  /-- What files have given that is not collected yet. -/
  ended : List Gathering.Arrival := []
  /-- What was collected, the latest last. -/
  arrivals : List Gathering.Arrival := []

namespace Pool

/-- **What can happen next** in a pool. -/
inductive Step (disk : Disk) (o : Script.Options) (q : Quota) : Pool → Pool → Prop
  | start {p : Pool} {before after : List String} {path : String}
      (h : p.waiting = before ++ path :: after) (hslot : p.underWay.length < q.slots) :
      Step disk o q p { p with waiting := before ++ after, underWay := path :: p.underWay }
  | finish {p : Pool} {before after : List String} {path : String}
      (h : p.underWay = before ++ path :: after) :
      Step disk o q p
        { p with
          underWay := before ++ after
          ended := Gathering.arrival disk o q path :: p.ended }
  | collect {p : Pool} {before after : List Gathering.Arrival} {arrival : Gathering.Arrival}
      (h : p.ended = before ++ arrival :: after) :
      Step disk o q p { p with ended := before ++ after, arrivals := p.arrivals ++ [arrival] }

end Pool

end Suite

end ScriptSuite
