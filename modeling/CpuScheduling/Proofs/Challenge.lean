import CpuScheduling.Proofs.Ranking
import Mathlib.Order.Bounds.Basic
/-!
Challenges. Of the ready processes the one with the least work left challenges the processors. It
takes the first idle one, and where none is idle it takes, from those that hold a process with
strictly more work left, the one whose process has the least priority. Ranks with the place as last
coordinate say which of several that tie.
-/
namespace CpuScheduling.Selection
variable {procs : List ProcessRecord} {cpus : List Cpu} {now remaining i slot cpu : Nat}
  {p : ProcessRecord}

/-- A process stands at a place of the table, ready, and has arrived. -/
def Challenges (procs : List ProcessRecord) (now i : Nat) (p : ProcessRecord) : Prop :=
  procs[i]? = some p ∧ p.status = .ready ∧ p.arrival ≤ now

/-- By work left, then from the greatest priority down, then by place. -/
def challengeRank (p : ProcessRecord) (i : Nat) : Nat ×ₗ Intᵒᵈ ×ₗ Nat :=
  toLex (p.remaining, toLex (OrderDual.toDual p.priority, i))

/-- A processor of the pool is idle. -/
def Vacant (cpus : List Cpu) (cpu : Nat) : Prop := ∃ c, cpus[cpu]? = some c ∧ c.isIdle = true

/-- A processor of the pool holds a process of the table. -/
def Hosts (cpus : List Cpu) (procs : List ProcessRecord) (cpu : Nat) (v : ProcessRecord) : Prop :=
  ∃ c slot, cpus[cpu]? = some c ∧ c.current = some slot ∧ procs[slot]? = some v

/-- A processor holds a process that has more than `remaining` ticks left. -/
def Yields (cpus : List Cpu) (procs : List ProcessRecord) (remaining cpu : Nat)
    (v : ProcessRecord) : Prop :=
  Hosts cpus procs cpu v ∧ remaining < v.remaining

/-- By priority, then by place. -/
def yieldRank (v : ProcessRecord) (cpu : Nat) : Int ×ₗ Nat := toLex (v.priority, cpu)

/-! The challenger. -/

theorem challengeRank_lt_iff (p q : ProcessRecord) (i j : Nat) :
    challengeRank p i < challengeRank q j ↔ p.remaining < q.remaining ∨
      p.remaining = q.remaining ∧
        (q.priority < p.priority ∨ p.priority = q.priority ∧ i < j) := by
  simp only [challengeRank, Prod.Lex.toLex_lt_toLex, OrderDual.toDual_lt_toDual,
    OrderDual.toDual_inj]

theorem ranksBy_challengeRank : RanksBy challengeRank isShorter := by
  intro p q i j
  rw [challengeRank_lt_iff]
  simp only [isShorter, ← Bool.not_eq_true, Bool.or_eq_true, Bool.and_eq_true, decide_eq_true_eq,
    beq_iff_eq]
  omega

theorem challenges_iff : Challenges procs now i p ↔
    procs[i]? = some p ∧ (decide (p.status = .ready) && p.arrivedBy now) = true := by
  rw [Challenges, ProcessRecord.arrivedBy, Bool.and_eq_true, decide_eq_true_eq, decide_eq_true_eq]

theorem no_challenger_iff :
    challenger? procs now = none ↔ ∀ i p, ¬Challenges procs now i p := by
  rw [challenger?, bestIndex_eq_none_iff]
  simp only [challenges_iff, not_and, Bool.not_eq_true]
  constructor
  · exact fun unfit i p found => unfit p (List.mem_of_getElem? found)
  · intro unfit p member
    obtain ⟨i, found⟩ := List.mem_iff_getElem?.1 member
    exact unfit i p found

theorem challenger?_eq_some_iff :
    challenger? procs now = some i ↔ ∃ p, Challenges procs now i p ∧
      ∀ j q, Challenges procs now j q → j ≠ i → challengeRank p i < challengeRank q j := by
  simp only [challenges_iff, and_imp, and_assoc]
  exact ranksBy_challengeRank.bestIndex_eq_some_iff

/-! Its place. -/

theorem findIdx?_isIdle_eq_some_iff :
    cpus.findIdx? (·.isIdle) = some cpu ↔ IsLeast {cpu | Vacant cpus cpu} cpu := by
  rw [List.findIdx?_eq_some_iff_getElem]
  constructor
  · rintro ⟨inside, idle, busy⟩
    refine ⟨⟨cpus[cpu], List.getElem?_eq_getElem inside, idle⟩, ?_⟩
    rintro j ⟨c, found, idle'⟩
    obtain ⟨inside', rfl⟩ := List.getElem?_eq_some_iff.1 found
    exact Nat.le_of_not_lt fun before => busy j before idle'
  · rintro ⟨⟨c, found, idle⟩, least⟩
    obtain ⟨inside, rfl⟩ := List.getElem?_eq_some_iff.1 found
    refine ⟨inside, idle, fun j before idle' => ?_⟩
    have vacant : Vacant cpus j := ⟨_, List.getElem?_eq_getElem (before.trans inside), idle'⟩
    exact Nat.not_le_of_lt before (least vacant)

theorem findIdx?_isIdle_eq_none_iff :
    cpus.findIdx? (·.isIdle) = none ↔ ∀ cpu, ¬Vacant cpus cpu := by
  rw [List.findIdx?_eq_none_iff]
  constructor
  · rintro busy cpu ⟨c, found, idle⟩
    rw [busy c (List.mem_of_getElem? found)] at idle
    cases idle
  · intro none_vacant c member
    obtain ⟨cpu, found⟩ := List.mem_iff_getElem?.1 member
    exact Bool.eq_false_iff.2 fun idle => none_vacant cpu ⟨c, found, idle⟩

theorem mem_victims_iff_yields {v : ProcessRecord} :
    (v, cpu) ∈ victims cpus procs remaining ↔ Yields cpus procs remaining cpu v := by
  rw [mem_victims]
  constructor
  · rintro ⟨c, found, occupied, longer⟩
    obtain ⟨slot, current, at_slot⟩ := Option.bind_eq_some_iff.1 occupied
    exact ⟨⟨c, slot, found, current, at_slot⟩, longer⟩
  · rintro ⟨⟨c, slot, found, current, at_slot⟩, longer⟩
    exact ⟨c, found, Option.bind_eq_some_iff.2 ⟨slot, current, at_slot⟩, longer⟩

theorem pairwise_victims (cpus : List Cpu) (procs : List ProcessRecord) (remaining : Nat) :
    (victims cpus procs remaining).Pairwise fun x y => x.2 < y.2 := by
  have place : ∀ {x : Cpu × Nat} {e}, ((occupant? procs x.1).bind fun p =>
      if remaining < p.remaining then some (p, x.2) else none) = some e → x.2 = e.2 := by
    intro x e kept
    obtain ⟨p, -, kept⟩ := Option.bind_eq_some_iff.1 kept
    exact congrArg Prod.snd (Option.some.inj (Option.ite_none_right_eq_some.1 kept).2)
  refine List.pairwise_filterMap.2 ((pairwise_zipIdx cpus).imp ?_)
  intro x y before e kept e' kept'
  rwa [← place kept, ← place kept']

theorem ranksBy_yieldRank : RanksBy yieldRank fun a b => decide (a.priority < b.priority) := by
  intro v w cpu cpu'
  simp only [yieldRank, Prod.Lex.toLex_lt_toLex, ← Bool.not_eq_true, decide_eq_true_eq]
  omega

theorem best_victims_eq_some_iff {v : ProcessRecord} :
    best yieldsBefore (victims cpus procs remaining) = some (v, cpu) ↔
      Yields cpus procs remaining cpu v ∧ ∀ j w, Yields cpus procs remaining j w → j ≠ cpu →
        yieldRank v cpu < yieldRank w j := by
  simp only [← mem_victims_iff_yields]
  exact ranksBy_yieldRank.best_eq_some_iff (pairwise_victims cpus procs remaining)

theorem placeFor?_of_vacant (first : IsLeast {cpu | Vacant cpus cpu} cpu) :
    placeFor? cpus procs slot = some cpu := by
  rw [placeFor?, findIdx?_isIdle_eq_some_iff.2 first]

theorem placeFor?_of_full (full : ∀ cpu, ¬Vacant cpus cpu) (found : procs[slot]? = some p) :
    placeFor? cpus procs slot =
      (best yieldsBefore (victims cpus procs p.remaining)).map (·.2) := by
  rw [placeFor?, findIdx?_isIdle_eq_none_iff.2 full, found, Option.map_eq_bind]
  rfl

theorem exists_first_vacant (vacant : ¬∀ cpu, ¬Vacant cpus cpu) :
    ∃ cpu, IsLeast {cpu | Vacant cpus cpu} cpu := by
  rw [← findIdx?_isIdle_eq_none_iff] at vacant
  obtain ⟨cpu, first⟩ := Option.ne_none_iff_exists'.1 vacant
  exact ⟨cpu, findIdx?_isIdle_eq_some_iff.1 first⟩

theorem placeFor?_eq_some_iff (found : procs[slot]? = some p) :
    placeFor? cpus procs slot = some cpu ↔ IsLeast {cpu | Vacant cpus cpu} cpu ∨
      (∀ cpu, ¬Vacant cpus cpu) ∧ ∃ v, Yields cpus procs p.remaining cpu v ∧
        ∀ j w, Yields cpus procs p.remaining j w → j ≠ cpu → yieldRank v cpu < yieldRank w j := by
  by_cases full : ∀ cpu, ¬Vacant cpus cpu
  · have no_first : ¬IsLeast {cpu | Vacant cpus cpu} cpu := fun first => full cpu first.1
    rw [placeFor?_of_full full found, or_iff_right no_first, and_iff_right full]
    simp only [Option.map_eq_some_iff, Prod.exists, exists_eq_right, best_victims_eq_some_iff]
  · obtain ⟨first, least⟩ := exists_first_vacant full
    rw [placeFor?_of_vacant least, Option.some.injEq, or_iff_left fun other => full other.1]
    exact ⟨fun same => same ▸ least, least.unique⟩

theorem Hosts.lt_length {v : ProcessRecord} (hosts : Hosts cpus procs cpu v) :
    cpu < cpus.length := by
  obtain ⟨c, slot, found, -⟩ := hosts
  exact (List.getElem?_eq_some_iff.1 found).1

theorem Hosts.unique {v w : ProcessRecord} (hosts : Hosts cpus procs cpu v)
    (hosts' : Hosts cpus procs cpu w) : v = w := by
  obtain ⟨c, slot, found, current, at_slot⟩ := hosts
  obtain ⟨c', slot', found', current', at_slot'⟩ := hosts'
  obtain rfl : c = c' := Option.some.inj (found.symm.trans found')
  obtain rfl : slot = slot' := Option.some.inj (current.symm.trans current')
  exact Option.some.inj (at_slot.symm.trans at_slot')

theorem Hosts.not_vacant {v : ProcessRecord} (hosts : Hosts cpus procs cpu v) :
    ¬Vacant cpus cpu := by
  rintro ⟨c', found', idle⟩
  obtain ⟨c, slot, found, current, -⟩ := hosts
  obtain rfl : c = c' := Option.some.inj (found.symm.trans found')
  rw [Cpu.isIdle, current] at idle
  cases idle

/-- A processor whose slot is in the table either is idle or holds a process. -/
theorem exists_hosts (known : ∀ c ∈ cpus, ∀ s ∈ c.current, s < procs.length)
    (inside : cpu < cpus.length) (busy : ¬Vacant cpus cpu) : ∃ v, Hosts cpus procs cpu v := by
  have found := List.getElem?_eq_getElem inside
  cases current : cpus[cpu].current with
  | none => exact absurd ⟨cpus[cpu], found, by rw [Cpu.isIdle, current]; rfl⟩ busy
  | some s =>
    have in_table := known cpus[cpu] (List.getElem_mem inside) s current
    exact ⟨procs[s], cpus[cpu], s, found, current, List.getElem?_eq_getElem in_table⟩

theorem full_of_placeFor?_eq_none (no_place : placeFor? cpus procs slot = none) (cpu : Nat) :
    ¬Vacant cpus cpu := by
  rintro ⟨c, at_cpu, idle⟩
  exact placeFor?_ne_none (List.mem_of_getElem? at_cpu) idle no_place

/-- Where there is no place for a process, no processor holds one that has more work left. -/
theorem remaining_le_of_placeFor?_eq_none {v : ProcessRecord} (found : procs[slot]? = some p)
    (no_place : placeFor? cpus procs slot = none) (hosts : Hosts cpus procs cpu v) :
    v.remaining ≤ p.remaining := by
  have full := full_of_placeFor?_eq_none no_place
  rw [placeFor?_of_full full found, Option.map_eq_none_iff, best_eq_none_iff] at no_place
  refine Nat.le_of_not_lt fun longer => ?_
  have victim := mem_victims_iff_yields.2 ⟨hosts, longer⟩
  rw [no_place] at victim
  cases victim

/-- There is no place for a process just if all processors hold processes that have no more work
left than it has. -/
theorem placeFor?_eq_none_iff (known : ∀ c ∈ cpus, ∀ s ∈ c.current, s < procs.length)
    (found : procs[slot]? = some p) : placeFor? cpus procs slot = none ↔
      ∀ cpu < cpus.length, ∃ v, Hosts cpus procs cpu v ∧ v.remaining ≤ p.remaining := by
  constructor
  · intro no_place cpu inside
    obtain ⟨v, hosts⟩ := exists_hosts known inside (full_of_placeFor?_eq_none no_place cpu)
    exact ⟨v, hosts, remaining_le_of_placeFor?_eq_none found no_place hosts⟩
  · intro shorter
    refine Option.eq_none_iff_forall_ne_some.2 fun cpu place => ?_
    rcases (placeFor?_eq_some_iff found).1 place with first | ⟨-, w, ⟨hosts, longer⟩, -⟩
    · obtain ⟨c, at_cpu, -⟩ := first.1
      obtain ⟨v, hosts, -⟩ := shorter cpu (List.getElem?_eq_some_iff.1 at_cpu).1
      exact hosts.not_vacant first.1
    · obtain ⟨v, hosts', upto⟩ := shorter cpu hosts.lt_length
      rw [hosts.unique hosts'] at longer
      exact Nat.not_lt_of_le upto longer

/-- Both scans of a challenge are exact. The challenger is the one arrived ready process of the
least rank, if there is any. Its place is the first idle processor; where none is idle, it is the
one of the least rank among those whose processes have strictly more work left than the challenger;
and it has none just if every processor holds a process without more work left. -/
theorem challenge_by_rank (procs : List ProcessRecord) (now : Nat) :
    ((challenger? procs now = none ↔ ∀ i p, ¬Challenges procs now i p) ∧
      ∀ i, challenger? procs now = some i ↔ ∃ p, Challenges procs now i p ∧
        ∀ j q, Challenges procs now j q → j ≠ i → challengeRank p i < challengeRank q j) ∧
    ∀ (cpus : List Cpu) (slot : Nat) (p : ProcessRecord),
      (∀ c ∈ cpus, ∀ s ∈ c.current, s < procs.length) → procs[slot]? = some p →
      (∀ cpu, placeFor? cpus procs slot = some cpu ↔ IsLeast {cpu | Vacant cpus cpu} cpu ∨
        (∀ cpu, ¬Vacant cpus cpu) ∧ ∃ v, Yields cpus procs p.remaining cpu v ∧
          ∀ j w, Yields cpus procs p.remaining j w → j ≠ cpu → yieldRank v cpu < yieldRank w j) ∧
      (placeFor? cpus procs slot = none ↔
        ∀ cpu < cpus.length, ∃ v, Hosts cpus procs cpu v ∧ v.remaining ≤ p.remaining) := by
  refine ⟨⟨no_challenger_iff, fun i => challenger?_eq_some_iff⟩, ?_⟩
  intro cpus slot p known found
  exact ⟨fun cpu => placeFor?_eq_some_iff found, placeFor?_eq_none_iff known found⟩

/-- Two ready processes tie, and the first of them challenges. No processor is idle, the process of
least priority has too little work left, and of the two next in priority the first yields, though
the other has less work left. -/
theorem challenge_by_rank_tied :
    let challenger := { Job.toRecord ⟨1, 0, 2, 0⟩ with status := .ready }
    let procs := [challenger, { Job.toRecord ⟨2, 0, 2, 0⟩ with status := .ready },
      { Job.toRecord ⟨3, 0, 9, 5⟩ with status := .running 0 },
      { Job.toRecord ⟨4, 0, 2, -1⟩ with status := .running 1 },
      { Job.toRecord ⟨5, 0, 7, 1⟩ with status := .running 2 },
      { Job.toRecord ⟨6, 0, 3, 1⟩ with status := .running 3 }]
    let cpus : List Cpu := [{ current := some 2 }, { current := some 3 }, { current := some 4 },
      { current := some 5 }]
    (∀ c ∈ cpus, ∀ s ∈ c.current, s < procs.length) ∧ procs[0]? = some challenger ∧
      (∃ p, Challenges procs 0 0 p ∧
        ∀ j q, Challenges procs 0 j q → j ≠ 0 → challengeRank p 0 < challengeRank q j) ∧
      ∃ v, Yields cpus procs 2 2 v ∧
        ∀ j w, Yields cpus procs 2 j w → j ≠ 2 → yieldRank v 2 < yieldRank w j := by
  intro challenger procs cpus
  have known : ∀ c ∈ cpus, ∀ s ∈ c.current, s < procs.length := by decide
  obtain ⟨⟨-, first⟩, places⟩ := challenge_by_rank procs 0
  obtain ⟨place, -⟩ := places cpus 0 challenger known rfl
  have vacant_or_yields := (place 2).1 (by decide)
  refine ⟨known, rfl, (first 0).1 (by decide), (vacant_or_yields.resolve_left ?_).2⟩
  rintro ⟨⟨c, found, idle⟩, -⟩
  obtain rfl : { current := some 4 } = c := Option.some.inj found
  cases idle

end CpuScheduling.Selection
