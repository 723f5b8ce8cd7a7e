import CpuScheduling.Proofs.Completion
/-!
Loads. In every tick each processor counts itself busy or idle, as it holds a process at the row of
the tick or not; what policies do with it in between does not count.
-/
namespace CpuScheduling.Machine
variable {m m' : Machine} {cpu : Nat}

/-- The ticks that a processor has been busy, and those that it has been idle. -/
def load (m : Machine) (cpu : Nat) : Option (Nat × Nat) :=
  m.cpus[cpu]?.map fun c => (c.busy, c.idle)

/-- One more tick, busy or idle. -/
def loadAfter (busy : Bool) (load : Nat × Nat) : Nat × Nat :=
  if busy then (load.1 + 1, load.2) else (load.1, load.2 + 1)

theorem load_congr {x y : Machine} (same : y.cpus = x.cpus) : y.load = x.load := by
  funext cpu
  rw [load, same, load]

theorem load_modify {x y : Machine} {c : Nat} {change : Cpu → Cpu}
    (modified : y.cpus = x.cpus.modify c change)
    (keeps : ∀ p : Cpu, (change p).busy = p.busy ∧ (change p).idle = p.idle) :
    y.load = x.load := by
  funext cpu
  rw [load, modified, Array.getElem?_modify, load]
  split
  · cases x.cpus[cpu]? <;> simp [keeps]
  · rfl

/-- A processor is what it holds and what it has counted. -/
theorem cpus_eq {x y : Machine} (held : x.held = y.held) (load : x.load = y.load) :
    x.cpus = y.cpus := by
  refine Array.ext_getElem? fun cpu => ?_
  have held := congrFun held cpu
  have load := congrFun load cpu
  simp only [Machine.held, Machine.load] at held load
  cases at_x : x.cpus[cpu]? with
  | none =>
    cases at_y : y.cpus[cpu]? with
    | none => rfl
    | some c' => simp [at_x, at_y] at load
  | some c =>
    cases at_y : y.cpus[cpu]? with
    | none => simp [at_x, at_y] at load
    | some c' =>
      obtain ⟨current, busy, idle⟩ := c
      obtain ⟨current', busy', idle'⟩ := c'
      simp only [at_x, at_y, Option.bind_some, Option.map_some, Option.some.injEq,
        Prod.mk.injEq] at held load
      rw [held, load.1, load.2]

theorem Move.load_eq (move : Move m m') : m'.load = m.load := by
  cases move with
  | place idle found pending arrived unqueued =>
    rw [dispatch_eq m _ _ found]
    exact load_modify rfl fun _ => ⟨rfl, rfl⟩
  | displace holds found running cause notice => exact load_modify rfl fun _ => ⟨rfl, rfl⟩
  | enqueue ready unqueued => exact load_congr (cpus_sendToQueue ..)
  | dequeue policy => rfl

theorem Moves.load_eq (moves : Moves m m') : m'.load = m.load := moves.keeps Move.load_eq

/-! The work of a tick. -/

theorem load_elapse (m : Machine) (c : Nat) :
    Machine.load { m with cpus := m.cpus.modify c Cpu.elapse } cpu =
      if c = cpu then (m.load cpu).map (loadAfter (m.held cpu).isSome) else m.load cpu := by
  simp only [load, Array.getElem?_modify]
  split
  · cases found : m.cpus[cpu]? with
    | none => rfl
    | some p => cases current : p.current <;>
        simp [held, found, current, Cpu.elapse, Cpu.isIdle, loadAfter]
  · rfl

theorem load_workAt (m : Machine) (c : Nat) : (workAt c m).load cpu =
    if c = cpu then (m.load cpu).map (loadAfter (m.held cpu).isSome) else m.load cpu := by
  rw [← load_elapse]
  refine congrFun ?_ cpu
  unfold workAt
  split
  · rfl
  · dsimp only
    split
    · exact load_modify rfl fun _ => ⟨rfl, rfl⟩
    · exact load_congr rfl

theorem load_work (h : Consistent m) :
    m.work.load cpu = (m.load cpu).map (loadAfter (m.held cpu).isSome) := by
  have round : HalfVisited ProcessRecord.work m m.cpus.size m.work ∧ m.work.load cpu =
      if cpu < m.cpus.size then (m.load cpu).map (loadAfter (m.held cpu).isSome)
      else m.load cpu := by
    refine atEachCpu_induction (P := fun n x => HalfVisited ProcessRecord.work m n x ∧
      x.load cpu = if cpu < n then (m.load cpu).map (loadAfter (m.held cpu).isSome)
        else m.load cpu) ⟨.start m, by simp⟩ ?_
    rintro c x - ⟨half, so_far⟩
    refine ⟨half.next h visits_workAt, ?_⟩
    rw [load_workAt, so_far]
    by_cases here : c = cpu
    · subst here
      rw [half.held c (Nat.le_refl c)]
      simp
    · have same : cpu < c + 1 ↔ cpu < c := by omega
      simp only [here, same, if_false]
  rw [round.2]
  split
  · rfl
  next outside =>
    have absent : m.load cpu = none := by
      rw [load, Array.getElem?_eq_none (Nat.le_of_not_lt outside), Option.map_none]
    rw [absent, Option.map_none]

/-! Whole ticks. -/

theorem AtRest.load_step (rest : AtRest m) (cpu : Nat) :
    m.step.load cpu = (m.load cpu).map (loadAfter (m.occupied.held cpu).isSome) := by
  have before : m.occupied.load = m.load := rest.moves_occupied.load_eq
  rw [← before]
  exact load_work rest.consistent_aged

/-- A processor has been busy or idle in every tick so far. -/
theorem AtRest.load_steps (rest : AtRest m) {start : Nat}
    (begun : ∀ load, m.load cpu = some load → load.1 + load.2 = start) (n : Nat) :
    ∀ load, (m.steps n).load cpu = some load → load.1 + load.2 = start + n := by
  induction n with
  | zero => exact begun
  | succ n ih =>
    intro load after
    rw [steps_succ, (rest.steps n).load_step] at after
    obtain ⟨before, at_rest, rfl⟩ := Option.map_eq_some_iff.1 after
    have so_far := ih before at_rest
    unfold loadAfter
    split <;> dsimp only <;> omega

theorem load_begun (d : Discipline) (s : Scenario) :
    ∀ load, (begun d s).load cpu = some load → load.1 + load.2 = 0 := by
  intro load found
  simp only [Machine.load, begun, say, boot, Array.getElem?_replicate] at found
  split at found
  · cases found
    rfl
  · cases found

end CpuScheduling.Machine
