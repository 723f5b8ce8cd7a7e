import CpuScheduling.Proofs.Phases
/-!
Rounds over the processors. Two phases visit the processors one after another and change, at each,
the record of its occupant only. Since no two processors hold one process, such a round changes the
table as one map.
-/
namespace CpuScheduling

namespace ProcessRecord

/-- Whether a process runs on one of the first `n` processors. -/
def runsBefore (n : Nat) (p : ProcessRecord) : Bool :=
  match p.status with
  | .running cpu => decide (cpu < n)
  | .waiting | .ready | .completed => false

theorem isRunning_iff {p : ProcessRecord} : p.isRunning = true ↔ ∃ cpu, p.status = .running cpu := by
  unfold isRunning
  cases p.status <;> simp

theorem runsBefore_iff {n : Nat} {p : ProcessRecord} :
    p.runsBefore n = true ↔ ∃ cpu < n, p.status = .running cpu := by
  unfold runsBefore
  cases p.status <;> simp

end ProcessRecord

namespace Machine
variable {m : Machine}

/-- A loop over the processors: what holds before the first and is carried from each processor to
the next holds in the end. -/
theorem atEachCpu_induction {move : Nat → Machine → Machine} {P : Nat → Machine → Prop}
    (start : P 0 m) (step : ∀ cpu x, cpu < m.cpus.size → P cpu x → P (cpu + 1) (move cpu x)) :
    P m.cpus.size (m.atEachCpu move) := by
  have upto : ∀ n ≤ m.cpus.size, P n ((List.range n).foldl (fun x cpu => move cpu x) m) := by
    intro n bound
    induction n with
    | zero => exact start
    | succ n ih =>
      rw [List.range_succ, List.foldl_append]
      exact step n _ bound (ih (Nat.le_of_succ_le bound))
  exact upto _ (Nat.le_refl _)

theorem atEachCpu_keeps {α : Type} {f : Machine → α} {move : Nat → Machine → Machine}
    (keeps : ∀ cpu x, f (move cpu x) = f x) : f (m.atEachCpu move) = f m :=
  atEachCpu_induction (P := fun _ x => f x = f m) rfl fun cpu x _ same =>
    (keeps cpu x).trans same

/-- A visit changes the record of the occupant by `change`, and neither another record nor another
processor's occupant. -/
structure Visits (change : Nat → ProcessRecord → ProcessRecord)
    (move : Nat → Machine → Machine) : Prop where
  now : ∀ cpu x, (move cpu x).now = x.now
  elsewhere : ∀ cpu x c, c ≠ cpu → (move cpu x).held c = x.held c
  idle : ∀ cpu x, x.held cpu = none → (move cpu x).procs = x.procs
  busy : ∀ cpu x slot p, x.held cpu = some slot → x.procs[slot]? = some p →
    (move cpu x).procs = x.procs.set slot (change x.now p)

/-- The machine in the middle of a round: the first `n` processors have been visited. -/
structure HalfVisited (change : Nat → ProcessRecord → ProcessRecord) (m : Machine) (n : Nat)
    (x : Machine) : Prop where
  procs : x.procs = m.procs.map fun p => if p.runsBefore n then change m.now p else p
  held : ∀ cpu, n ≤ cpu → x.held cpu = m.held cpu
  now : x.now = m.now

variable {change : Nat → ProcessRecord → ProcessRecord} {move : Nat → Machine → Machine}

theorem HalfVisited.start (m : Machine) : HalfVisited change m 0 m := by
  refine ⟨?_, fun _ _ => rfl, rfl⟩
  have none_before : ∀ p : ProcessRecord, p.runsBefore 0 = false := by
    intro p
    unfold ProcessRecord.runsBefore
    cases p.status <;> rfl
  simp [none_before]

/-- The only process that runs on a processor is the one that it holds. -/
theorem Consistent.runsBefore_succ (h : Consistent m) {cpu slot : Nat} {p : ProcessRecord}
    (found : m.procs[slot]? = some p) (other : m.held cpu ≠ some slot) :
    p.runsBefore (cpu + 1) = p.runsBefore cpu := by
  apply Bool.eq_iff_iff.2
  rw [ProcessRecord.runsBefore_iff, ProcessRecord.runsBefore_iff]
  constructor
  · rintro ⟨c, bound, running⟩
    refine ⟨c, Nat.lt_of_le_of_ne (Nat.le_of_lt_succ bound) ?_, running⟩
    rintro rfl
    exact other ((h.matching c slot).2 (by rw [status?_of_getElem? found, running]))
  · rintro ⟨c, bound, running⟩
    exact ⟨c, Nat.lt_succ_of_lt bound, running⟩

/-- Whoever runs, runs on one of the processors that there are. -/
theorem Consistent.runsBefore_size (h : Consistent m) {slot : Nat} {p : ProcessRecord}
    (found : m.procs[slot]? = some p) : p.runsBefore m.cpus.size = p.isRunning := by
  apply Bool.eq_iff_iff.2
  rw [ProcessRecord.runsBefore_iff, ProcessRecord.isRunning_iff]
  constructor
  · rintro ⟨c, -, running⟩
    exact ⟨c, running⟩
  · rintro ⟨c, running⟩
    have holds := (h.matching c slot).2 (by rw [status?_of_getElem? found, running])
    exact ⟨c, held_lt holds, running⟩

/-- The occupant of a processor that is still to be visited stands as before the round. -/
theorem HalfVisited.found (h : Consistent m) {x : Machine} {cpu slot : Nat} {p : ProcessRecord}
    (half : HalfVisited change m cpu x) (holds : m.held cpu = some slot)
    (found : m.procs[slot]? = some p) : x.procs[slot]? = some p := by
  have running := h.running_of_held holds found
  have unvisited : p.runsBefore cpu = false := by
    rw [Bool.eq_false_iff, ne_eq, ProcessRecord.runsBefore_iff]
    rintro ⟨c, bound, also⟩
    cases running.symm.trans also
    exact Nat.lt_irrefl _ bound
  rw [half.procs, List.getElem?_map, found, Option.map_some, unvisited]
  rfl

theorem HalfVisited.occupant? (h : Consistent m) {x : Machine} {cpu : Nat}
    (half : HalfVisited change m cpu x) : x.occupant? cpu = m.occupant? cpu := by
  have same_held := half.held cpu (Nat.le_refl cpu)
  cases holds : m.held cpu with
  | none => rw [occupant?_eq_none holds, occupant?_eq_none (same_held.trans holds)]
  | some slot =>
    obtain ⟨p, found, -⟩ := h.slot_lt_of_held holds
    rw [occupant?_eq_some.2 ⟨holds, found⟩,
      occupant?_eq_some.2 ⟨same_held.trans holds, half.found h holds found⟩]

theorem HalfVisited.next (h : Consistent m) (visits : Visits change move) {x : Machine} {cpu : Nat}
    (half : HalfVisited change m cpu x) : HalfVisited change m (cpu + 1) (move cpu x) := by
  have same_held := half.held cpu (Nat.le_refl cpu)
  have later : ∀ c, cpu + 1 ≤ c → (move cpu x).held c = m.held c := by
    intro c bound
    rw [visits.elsewhere cpu x c (Nat.ne_of_gt bound)]
    exact half.held c (Nat.le_of_succ_le bound)
  refine ⟨?_, later, (visits.now cpu x).trans half.now⟩
  cases holds : m.held cpu with
  | none =>
    rw [visits.idle cpu x (same_held.trans holds), half.procs]
    refine List.map_congr_left fun p member => ?_
    obtain ⟨slot, found⟩ := List.mem_iff_getElem?.1 member
    rw [h.runsBefore_succ found (by rw [holds]; exact nofun)]
  | some slot =>
    obtain ⟨p, found, running⟩ := h.slot_lt_of_held holds
    rw [visits.busy cpu x slot p (same_held.trans holds) (half.found h holds found), half.procs,
      half.now]
    -- the record of the occupant is the only one that was not yet changed and is now
    apply List.ext_getElem?
    intro s
    by_cases here : s = slot
    · subst here
      have inside := (List.getElem?_eq_some_iff.1 found).1
      have visited : p.runsBefore (cpu + 1) = true :=
        ProcessRecord.runsBefore_iff.2 ⟨cpu, Nat.lt_succ_self cpu, running⟩
      rw [List.getElem?_set_self (by rwa [List.length_map]), List.getElem?_map, found,
        Option.map_some, visited, if_pos rfl]
    · rw [List.getElem?_set_ne (Ne.symm here), List.getElem?_map, List.getElem?_map]
      cases found_s : m.procs[s]? with
      | none => rfl
      | some q =>
        have other : m.held cpu ≠ some s := by
          rw [holds]
          exact fun same => here (Option.some.inj same).symm
        rw [Option.map_some, Option.map_some, h.runsBefore_succ found_s other]

theorem Visits.round (h : Consistent m) (visits : Visits change move) :
    HalfVisited change m m.cpus.size (m.atEachCpu move) :=
  atEachCpu_induction (HalfVisited.start m) fun _ _ _ half => half.next h visits

theorem Visits.now_round (h : Consistent m) (visits : Visits change move) :
    (m.atEachCpu move).now = m.now := (visits.round h).now

/-- A round changes every record of a running process, and no other. -/
theorem Visits.procs_round (h : Consistent m) (visits : Visits change move) :
    (m.atEachCpu move).procs =
      m.procs.map fun p => if p.isRunning then change m.now p else p := by
  rw [(visits.round h).procs]
  refine List.map_congr_left fun p member => ?_
  obtain ⟨slot, found⟩ := List.mem_iff_getElem?.1 member
  rw [h.runsBefore_size found]

end Machine
end CpuScheduling
