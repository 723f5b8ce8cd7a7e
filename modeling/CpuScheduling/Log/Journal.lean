import CpuScheduling.Log.Notice
/-!
The journal: notices in the order in which they were given, each under the tick stamp of its
moment. The stamp is none outside a run, and every tick of a run sets it anew.
-/
namespace CpuScheduling.Log

structure Journal where
  /-- The stamp of the next entry. -/
  stamp : Option Nat := none
  entries : Array (Option Nat × Notice) := #[]

namespace Journal

def add (j : Journal) (n : Notice) : Journal := { j with entries := j.entries.push (j.stamp, n) }

def addAll (j : Journal) (ns : List Notice) : Journal := ns.foldl add j

def setStamp (j : Journal) (stamp : Option Nat) : Journal := { j with stamp }

/-- The entries of `j`, then those of `k`; the stamp is that of `k`. -/
def append (j k : Journal) : Journal := { stamp := k.stamp, entries := j.entries ++ k.entries }

/-- The lines of the entries that the threshold shows. -/
def render (threshold : Option Level) (ansi : Bool) (j : Journal) : String :=
  String.join ((j.entries.toList.filter fun e => e.2.line.level.isShown threshold).map fun e =>
    e.2.line.render ansi e.1)

end Journal
end CpuScheduling.Log
