import CpuScheduling.Proofs.Least
import CpuScheduling.Proofs.Phases
import CpuScheduling.Proofs.Table
/-!
Retellings. A run may be told with other slots, with other identifiers and by a clock that is ahead,
and still be the same run. Here is what a retelling makes of each thing that a machine holds, and
that it commutes with what a tick does to that thing.
-/
namespace CpuScheduling

/-- How a run is told anew. -/
structure Retelling where
  /-- Where the process of a slot stands instead. -/
  place : Equiv.Perm Nat
  /-- What an identifier is called instead. -/
  name : Int → Int
  /-- The ticks that the clock is ahead. -/
  delay : Nat

/-- Two jobs that an algorithm may have to tell apart by their slots. Work that is left changes
during a run, so under shortest remaining time first any two jobs may tie. -/
def Algorithm.Ties : Algorithm → Job → Job → Prop
  | .fcfs, a, b => a.arrival = b.arrival ∧ a.priority = b.priority
  | .roundRobin, a, b => a.arrival = b.arrival
  | .srtf, _, _ => True
  | .sjf, a, b => a.burst = b.burst ∧ a.priority = b.priority ∧ a.arrival = b.arrival

namespace Retelling
variable (r : Retelling)

/-- No two jobs that tie change places. -/
def KeepsTies (algorithm : Algorithm) (jobs : List Job) : Prop :=
  ∀ (i j : Nat) (a b : Job), jobs[i]? = some a → jobs[j]? = some b → algorithm.Ties a b →
    r.place i < r.place j → i < j

def job (j : Job) : Job := { j with pid := r.name j.pid, arrival := j.arrival + r.delay }

/-- Arrival, start and finish are told by the clock; all other ticks are counted and stay. -/
def record (p : ProcessRecord) : ProcessRecord :=
  { p with
    toJob := r.job p.toJob
    start := p.start.map (· + r.delay)
    finish := p.finish.map (· + r.delay) }

/-- A processor was idle as long as the clock is ahead. -/
def cpu (c : Cpu) : Cpu := { c with current := c.current.map r.place, idle := c.idle + r.delay }

def event (e : Event) : Event := { e with tick := e.tick + r.delay, pid := r.name e.pid }

def row (cells : List Cell) : List Cell := cells.map (·.map r.name)

/-- The rows of a timeline behind an idle one for each tick that the clock is ahead. -/
def rows (width : Nat) (rows : Array (List Cell)) : Array (List Cell) :=
  Array.replicate r.delay (Timeline.blankRow width) ++ rows.map r.row

def queue (q : ReadyQueue) : ReadyQueue where
  slots := q.slots.map r.place
  capacity := q.capacity
  length_le := by simpa using q.length_le

def policy : Policy → Policy
  | .fcfs => .fcfs
  | .roundRobin quantum queue => .roundRobin quantum (r.queue queue)
  | .srtf => .srtf
  | .sjf => .sjf

/-- A run that is cut off is cut off where the clock shows it. -/
def ending : Ending → Ending
  | .completed => .completed
  | .cutOff limit => .cutOff (limit + r.delay)

/-! Records. -/
section Record
variable (p : ProcessRecord) (now : Nat)

@[simp] theorem status_record : (r.record p).status = p.status := rfl
@[simp] theorem remaining_record : (r.record p).remaining = p.remaining := rfl
@[simp] theorem priority_record : (r.record p).priority = p.priority := rfl
@[simp] theorem pid_record : (r.record p).pid = r.name p.pid := rfl
@[simp] theorem arrival_record : (r.record p).arrival = p.arrival + r.delay := rfl

@[simp] theorem arrivedBy_record : (r.record p).arrivedBy (now + r.delay) = p.arrivedBy now := by
  simp [ProcessRecord.arrivedBy]

theorem record_dispatch (cpu : Nat) :
    r.record (p.dispatch cpu now) = (r.record p).dispatch cpu (now + r.delay) := by
  cases begun : p.start <;>
    simp [record, job, ProcessRecord.dispatch, begun, Nat.add_sub_add_right]

theorem record_enroll (algorithm : Algorithm) :
    r.record (p.enroll algorithm now) = (r.record p).enroll algorithm (now + r.delay) := by
  have arrives : (r.record p).arrival = now + r.delay ∧ (r.record p).status = .waiting ↔
      p.arrival = now ∧ p.status = .waiting := by simp
  simp only [ProcessRecord.enroll, ProcessRecord.becomeReady, arrives]
  split
  · split <;> rfl
  · rfl

theorem record_ageWaiting :
    r.record (p.ageWaiting now) = (r.record p).ageWaiting (now + r.delay) := by
  have running : (r.record p).isRunning = p.isRunning := rfl
  have completed : (r.record p).isCompleted = p.isCompleted := rfl
  unfold ProcessRecord.ageWaiting
  rw [arrivedBy_record, running, completed]
  split <;> rfl

theorem record_work : r.record (p.work now) = (r.record p).work (now + r.delay) := by
  by_cases last : p.remaining - 1 = 0 <;>
    simp [record, job, ProcessRecord.work, last, Nat.add_right_comm]

/-- What is counted from no fixed tick, or from the start of the clock, keeps its order. -/
theorem precedes_record {key : ProcessRecord → Nat} {ahead : Nat}
    (shifted : ∀ p, key (r.record p) = key p + ahead) (p q : ProcessRecord) :
    Selection.precedes key (r.record p) (r.record q) = Selection.precedes key p q := by
  refine Bool.eq_iff_iff.2 ?_
  simp only [Selection.precedes, Selection.breaksTie, Bool.or_eq_true, Bool.and_eq_true,
    decide_eq_true_eq, beq_iff_eq]
  simp only [shifted, r.priority_record, r.arrival_record]
  omega

theorem record_toRecord (j : Job) : r.record j.toRecord = (r.job j).toRecord := rfl

end Record

/-! Processors. -/

theorem cpu_assign (c : Cpu) (slot : Nat) :
    r.cpu (c.assign slot) = (r.cpu c).assign (r.place slot) := rfl

theorem cpu_release (c : Cpu) : r.cpu c.release = (r.cpu c).release := rfl

@[simp] theorem isIdle_cpu (c : Cpu) : (r.cpu c).isIdle = c.isIdle := by
  simp [Cpu.isIdle, cpu]

theorem cpu_elapse (c : Cpu) : r.cpu c.elapse = (r.cpu c).elapse := by
  simp only [Cpu.elapse, isIdle_cpu]
  split
  · simp [cpu, Nat.add_right_comm]
  · rfl

/-- What changes one processor changes its retelling alike. -/
theorem map_cpu_modify {change change' : Cpu → Cpu}
    (alike : ∀ c, change' (r.cpu c) = r.cpu (change c)) (cpus : Array Cpu) (i : Nat) :
    (cpus.map r.cpu).modify i change' = (cpus.modify i change).map r.cpu := by
  ext k
  · simp
  · simp only [Array.getElem_modify, Array.getElem_map]
    split <;> simp [alike]

/-! The queue. -/

theorem enqueue_queue {q longer : ReadyQueue} {slot : Nat} (asked : q.enqueue slot = .ok longer) :
    (r.queue q).enqueue (r.place slot) = .ok (r.queue longer) := by
  unfold ReadyQueue.enqueue at asked ⊢
  split at asked
  next room => cases asked; simp [queue, room]
  next => cases asked

theorem enqueue_queue_error {q : ReadyQueue} {slot : Nat} {e : QueueOverflow}
    (asked : q.enqueue slot = .error e) :
    (r.queue q).enqueue (r.place slot) = .error ⟨r.place slot, q.capacity⟩ := by
  have full := (ReadyQueue.enqueue_eq_error_iff.1 asked).1
  exact ReadyQueue.enqueue_eq_error_iff.2 ⟨by simpa [queue, ReadyQueue.length] using full, rfl⟩

theorem dequeue_queue (q : ReadyQueue) :
    (r.queue q).dequeue = (q.dequeue.1.map r.place, r.queue q.dequeue.2) := by
  rcases q with ⟨_ | _, _, _⟩ <;> rfl

@[simp] theorem algorithm_policy (policy : Policy) :
    (r.policy policy).algorithm = policy.algorithm := by
  cases policy <;> rfl

/-- A policy that has not begun holds no slot. -/
@[simp] theorem policy_start (quantum : Nat) (algorithm : Algorithm) :
    r.policy (.start quantum algorithm) = .start quantum algorithm := by
  cases algorithm <;> rfl

/-! The timeline. -/

theorem row_blankRow (width : Nat) :
    r.row (Timeline.blankRow width) = Timeline.blankRow width := by
  simp [row, Timeline.blankRow]

theorem row_overlay (width : Nat) (cells old : List Cell) :
    r.row (Timeline.overlay width cells old) =
      Timeline.overlay width (r.row cells) (r.row old) := by
  simp [row, Timeline.overlay]

/-- A row told anew is written where the clock shows its tick. -/
theorem rows_writeRows (width : Nat) (written : Array (List Cell)) (tick : Nat)
    (cells : List Cell) : r.rows width (Timeline.writeRows width written tick cells) =
      Timeline.writeRows width (r.rows width written) (tick + r.delay) (r.row cells) := by
  have size : (r.rows width written).size = r.delay + written.size := by simp [rows]
  by_cases inside : tick < written.size
  · have inside' : tick + r.delay < (r.rows width written).size := by omega
    have at_tick : (r.rows width written)[tick + r.delay] = r.row written[tick] := by
      simp [rows]
    simp only [Timeline.writeRows, dif_pos inside, dif_pos inside', at_tick, ← row_overlay]
    simp [rows]
  · have outside : ¬ tick + r.delay < (r.rows width written).size := by omega
    have gap : tick + r.delay - (r.rows width written).size = tick - written.size := by omega
    simp only [Timeline.writeRows, dif_neg inside, dif_neg outside, gap]
    simp [rows, row_overlay, row_blankRow, Array.append_assoc]

end Retelling
end CpuScheduling
