import CpuScheduling.Proofs.Choice
import Mathlib.Logic.Equiv.Defs
/-!
A scan that keeps its element until a strictly better one comes finds the least element, and of
several that tie the first. So each choice among processes is exact.
-/
namespace CpuScheduling.Selection
variable {α : Type} {beats : α → α → Bool}

/-- To beat is a strict weak order: never mutual, and who beats another beats a third or leaves it
to the third to beat the other. -/
structure StrictWeak (beats : α → α → Bool) : Prop where
  asymm : ∀ a b, beats a b = true → beats b a = false
  split : ∀ a b c, beats a c = true → beats a b = true ∨ beats b c = true

theorem StrictWeak.irrefl (order : StrictWeak beats) (a : α) : beats a a = false := by
  cases same : beats a a with
  | false => rfl
  | true => exact same ▸ order.asymm a a same

theorem StrictWeak.trans (order : StrictWeak beats) {a b c : α} (first : beats a b = true)
    (second : beats b c = true) : beats a c = true := by
  rcases order.split a c b first with done | back
  · exact done
  · rw [order.asymm b c second] at back
    cases back

theorem StrictWeak.comap {β : Type} (order : StrictWeak beats) (f : β → α) :
    StrictWeak fun a b => beats (f a) (f b) :=
  ⟨fun a b => order.asymm (f a) (f b), fun a b c => order.split (f a) (f b) (f c)⟩

/-- What a scan keeps from an element on: that element if none beats it, else one that beats it and
all before it, and that none after it beats. -/
theorem StrictWeak.foldl_prefer (order : StrictWeak beats) {entries : List α} {kept a : α}
    (h : entries.foldl (prefer beats) (some kept) = some a) :
    a = kept ∧ (∀ b ∈ entries, beats b kept = false) ∨
      ∃ before after, entries = before ++ a :: after ∧ beats a kept = true ∧
        (∀ b ∈ before, beats a b = true) ∧ ∀ b ∈ after, beats b a = false := by
  induction entries generalizing kept with
  | nil => exact .inl ⟨(Option.some.inj h).symm, nofun⟩
  | cons e entries ih =>
    rw [List.foldl_cons, prefer] at h
    split at h
    next better =>
      right
      rcases ih h with ⟨rfl, none_better⟩ | ⟨before, after, rfl, wins, above, below⟩
      · exact ⟨[], entries, rfl, better, nofun, none_better⟩
      · exact ⟨e :: before, after, rfl, order.trans wins better,
          List.forall_mem_cons.2 ⟨wins, above⟩, below⟩
    next worse =>
      have loses : beats e kept = false := Bool.eq_false_iff.2 worse
      rcases ih h with ⟨rfl, none_better⟩ | ⟨before, after, rfl, wins, above, below⟩
      · exact .inl ⟨rfl, List.forall_mem_cons.2 ⟨loses, none_better⟩⟩
      · have beaten : beats a e = true := by
          rcases order.split a e kept wins with done | back
          · exact done
          · rw [loses] at back
            cases back
        exact .inr ⟨e :: before, after, rfl, wins, List.forall_mem_cons.2 ⟨beaten, above⟩, below⟩

/-- The scan's element beats all before it, and none after it beats it. -/
theorem StrictWeak.best_eq_some (order : StrictWeak beats) {entries : List α} {a : α}
    (h : best beats entries = some a) : ∃ before after, entries = before ++ a :: after ∧
      (∀ b ∈ before, beats a b = true) ∧ ∀ b ∈ after, beats b a = false := by
  cases entries with
  | nil => cases h
  | cons e entries =>
    rcases order.foldl_prefer h with ⟨rfl, none_better⟩ | ⟨before, after, rfl, wins, above, below⟩
    · exact ⟨[], entries, rfl, nofun, none_better⟩
    · exact ⟨e :: before, after, rfl, List.forall_mem_cons.2 ⟨wins, above⟩, below⟩

theorem pairwise_zipIdx (entries : List α) : entries.zipIdx.Pairwise fun x y => x.2 < y.2 := by
  refine List.pairwise_map.1 ?_
  rw [List.zipIdx_map_snd]
  exact List.pairwise_lt_range'

/-- Where entries stand in the order of their places, the scan's element beats all at smaller places
and is beaten by none. -/
theorem StrictWeak.best_of_ascending (order : StrictWeak beats) {entries : List (α × Nat)} {a b : α}
    {i j : Nat} (ascending : entries.Pairwise fun x y => x.2 < y.2)
    (chosen : best (fun x y => beats x.1 y.1) entries = some (a, i)) (member : (b, j) ∈ entries) :
    beats b a = false ∧ (j < i → beats a b = true) := by
  obtain ⟨before, after, rfl, above, below⟩ := (order.comap Prod.fst).best_eq_some chosen
  rcases List.mem_append.1 member with ahead | rest
  · have wins := above (b, j) ahead
    exact ⟨order.asymm a b wins, fun _ => wins⟩
  · rcases List.mem_cons.1 rest with same | later
    · obtain ⟨rfl, rfl⟩ := Prod.mk.inj same
      exact ⟨order.irrefl b, fun lt => absurd lt (Nat.lt_irrefl j)⟩
    · have behind := (List.pairwise_cons.1 (List.pairwise_append.1 ascending).2.1).1 (b, j) later
      exact ⟨below (b, j) later, fun lt => absurd lt (Nat.lt_asymm behind)⟩

/-- The first of the least ones among the entries that qualify. -/
structure IsFirstLeast (qualifies : α → Bool) (beats : α → α → Bool) (entries : List α) (i : Nat)
    (a : α) : Prop where
  found : entries[i]? = some a
  fits : qualifies a = true
  least : ∀ (j : Nat) (b : α), entries[j]? = some b → qualifies b = true → beats b a = false
  earliest : ∀ (j : Nat) (b : α), entries[j]? = some b → qualifies b = true → j < i →
    beats a b = true

variable {qualifies : α → Bool} {entries : List α} {i : Nat}

theorem IsFirstLeast.unique {j : Nat} {a b : α} (h : IsFirstLeast qualifies beats entries i a)
    (h' : IsFirstLeast qualifies beats entries j b) : i = j := by
  rcases Nat.lt_trichotomy i j with lt | same | gt
  · have wins := h'.earliest i a h.found h.fits lt
    rw [h.least j b h'.found h'.fits] at wins
    cases wins
  · exact same
  · have wins := h.earliest j b h'.found h'.fits gt
    rw [h'.least i a h.found h.fits] at wins
    cases wins

theorem StrictWeak.isFirstLeast (order : StrictWeak beats)
    (h : bestIndex qualifies beats entries = some i) :
    ∃ a, IsFirstLeast qualifies beats entries i a := by
  obtain ⟨⟨a, i⟩, chosen, rfl⟩ := Option.map_eq_some_iff.1 h
  obtain ⟨found, fits⟩ := List.mem_filter.1 (mem_of_best_eq_some chosen)
  have compared : ∀ j b, entries[j]? = some b → qualifies b = true →
      beats b a = false ∧ (j < i → beats a b = true) := fun j b found fits =>
    order.best_of_ascending ((pairwise_zipIdx entries).filter _) chosen
      (List.mem_filter.2 ⟨List.mk_mem_zipIdx_iff_getElem?.2 found, fits⟩)
  exact ⟨a, List.mk_mem_zipIdx_iff_getElem?.1 found, fits,
    fun j b found fits => (compared j b found fits).1,
    fun j b found fits => (compared j b found fits).2⟩

/-- The scan for a place finds just the first of the least entries that qualify. -/
theorem StrictWeak.bestIndex_eq_some_iff (order : StrictWeak beats) :
    bestIndex qualifies beats entries = some i ↔
      ∃ a, IsFirstLeast qualifies beats entries i a := by
  refine ⟨order.isFirstLeast, fun ⟨a, h⟩ => ?_⟩
  cases chosen : bestIndex qualifies beats entries with
  | none =>
    have unfit := bestIndex_eq_none_iff.1 chosen a (List.mem_of_getElem? h.found)
    rw [h.fits] at unfit
    cases unfit
  | some j =>
    obtain ⟨b, h'⟩ := order.isFirstLeast chosen
    rw [h.unique h']

/-- Two scans, one over images of the entries of the other at other places, find the same entry if
they let the same entries qualify and order those alike, and if no two that tie change places. -/
theorem StrictWeak.bestIndex_moved {β : Type} {beats' : β → β → Bool} {qualifies' : β → Bool}
    (order : StrictWeak beats) (order' : StrictWeak beats') {entries : List β} {images : List α}
    (place : Equiv.Perm Nat) (f : β → α)
    (moved : ∀ i, images[place i]? = entries[i]?.map f)
    (fits : ∀ b ∈ entries, qualifies (f b) = qualifies' b)
    (ordered : ∀ b ∈ entries, ∀ c ∈ entries, qualifies' b = true → qualifies' c = true →
      beats (f b) (f c) = beats' b c)
    (kept : ∀ (i j : Nat) b c, entries[i]? = some b → entries[j]? = some c →
      beats' b c = false → beats' c b = false → place i < place j → i < j) :
    bestIndex qualifies beats images = (bestIndex qualifies' beats' entries).map place := by
  have source : ∀ (k : Nat) (a : α), images[k]? = some a →
      ∃ i b, k = place i ∧ entries[i]? = some b ∧ b ∈ entries ∧ f b = a := by
    intro k a found
    rw [← place.apply_symm_apply k, moved] at found
    obtain ⟨b, found, image⟩ := Option.map_eq_some_iff.1 found
    exact ⟨place.symm k, b, by simp, found, List.mem_of_getElem? found, image⟩
  cases chosen : bestIndex qualifies' beats' entries with
  | none =>
    refine bestIndex_eq_none_iff.2 fun a member => ?_
    obtain ⟨k, found⟩ := List.mem_iff_getElem?.1 member
    obtain ⟨-, b, -, -, inside, rfl⟩ := source k a found
    rw [fits b inside, bestIndex_eq_none_iff.1 chosen b inside]
  | some i =>
    obtain ⟨b, first⟩ := order'.isFirstLeast chosen
    have inside := List.mem_of_getElem? first.found
    refine order.bestIndex_eq_some_iff.2 ⟨f b, ?_, (fits b inside).trans first.fits, ?_, ?_⟩
    · simp [moved, first.found]
    · intro k a found fit
      obtain ⟨j, c, -, found', member, rfl⟩ := source k a found
      rw [fits c member] at fit
      rw [ordered c member b inside fit first.fits]
      exact first.least j c found' fit
    · intro k a found fit before
      obtain ⟨j, c, rfl, found', member, rfl⟩ := source k a found
      rw [fits c member] at fit
      rw [ordered b inside c member first.fits fit]
      by_contra loses
      have tied := first.least j c found' fit
      have earlier := kept j i c b found' first.found tied (Bool.eq_false_iff.2 loses) before
      exact loses (first.earliest j c found' fit earlier)

/-- Images in the same places are scanned like their entries. -/
theorem StrictWeak.bestIndex_map {β : Type} {beats' : β → β → Bool} {qualifies' : β → Bool}
    (order : StrictWeak beats) (order' : StrictWeak beats') {entries : List β} (f : β → α)
    (fits : ∀ b ∈ entries, qualifies (f b) = qualifies' b)
    (ordered : ∀ b ∈ entries, ∀ c ∈ entries, qualifies' b = true → qualifies' c = true →
      beats (f b) (f c) = beats' b c) :
    bestIndex qualifies beats (entries.map f) = bestIndex qualifies' beats' entries := by
  have same := order.bestIndex_moved order' (Equiv.refl Nat) f (fun i => List.getElem?_map) fits
    ordered fun _ _ _ _ _ _ _ _ earlier => earlier
  simpa using same

/-- Images that are ordered like their entries are scanned like them. -/
theorem best_map {α β : Type} {beats : α → α → Bool} {beats' : β → β → Bool} (f : β → α)
    (ordered : ∀ b c, beats (f b) (f c) = beats' b c) (entries : List β) :
    best beats (entries.map f) = (best beats' entries).map f := by
  suffices ∀ kept, (entries.map f).foldl (prefer beats) (Option.map f kept) =
      (entries.foldl (prefer beats') kept).map f from this none
  induction entries with
  | nil => exact fun _ => rfl
  | cons entry entries ih =>
    intro kept
    have next : prefer beats (Option.map f kept) (f entry) =
        (prefer beats' kept entry).map f := by
      cases kept with
      | none => rfl
      | some b => simp only [prefer, Option.map_some, ordered]; split <;> rfl
    rw [List.map_cons, List.foldl_cons, List.foldl_cons, next, ih]

/-! The orders of the choices. -/

theorem strictWeak_precedes (key : ProcessRecord → Nat) : StrictWeak (precedes key) := by
  constructor
  · intro a b
    simp only [precedes, breaksTie, Bool.or_eq_true, Bool.and_eq_true, decide_eq_true_eq,
      beq_iff_eq, ← Bool.not_eq_true]
    omega
  · intro a b c
    simp only [precedes, breaksTie, Bool.or_eq_true, Bool.and_eq_true, decide_eq_true_eq,
      beq_iff_eq]
    omega

theorem tie_of_precedes {key : ProcessRecord → Nat} {a b : ProcessRecord}
    (loses : precedes key a b = false) (loses' : precedes key b a = false) :
    key a = key b ∧ a.priority = b.priority ∧ a.arrival = b.arrival := by
  simp only [precedes, breaksTie, Bool.or_eq_true, Bool.and_eq_true, decide_eq_true_eq,
    beq_iff_eq, ← Bool.not_eq_true] at loses loses'
  omega

theorem strictWeak_isShorter : StrictWeak isShorter := by
  constructor
  · intro a b
    simp only [isShorter, Bool.or_eq_true, Bool.and_eq_true, decide_eq_true_eq, beq_iff_eq,
      ← Bool.not_eq_true]
    omega
  · intro a b c
    simp only [isShorter, Bool.or_eq_true, Bool.and_eq_true, decide_eq_true_eq, beq_iff_eq]
    omega

variable {procs : List ProcessRecord} {now slot : Nat}

/-- No arrived process in status ready has less work left than the one that would preempt first. -/
theorem remaining_le_of_challenger? {p q : ProcessRecord} (h : challenger? procs now = some slot)
    (found : procs[slot]? = some p) (member : q ∈ procs) (ready : q.status = .ready)
    (arrived : q.arrival ≤ now) : p.remaining ≤ q.remaining := by
  obtain ⟨p', first⟩ := strictWeak_isShorter.isFirstLeast h
  obtain ⟨j, found'⟩ := List.mem_iff_getElem?.1 member
  obtain rfl : p = p' := Option.some.inj (found.symm.trans first.found)
  have least := first.least j q found' (by simp [ready, ProcessRecord.arrivedBy, arrived])
  simp only [isShorter, Bool.or_eq_false_iff, decide_eq_false_iff_not] at least
  exact Nat.le_of_not_lt least.1

end CpuScheduling.Selection
