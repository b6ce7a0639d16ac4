import PplxGarden.Library.Strided

/-! Loops that look up a batch of table entries ahead of the items they are for. The
entries of the next batch are fetched into shared stages while the current batch is worked
off from local copies of the stages. -/

namespace PplxGarden.Library
open List Nat

variable {α : Type}
variable {limit bound : Nat} {body : Nat → (Nat → α) → Nat → Nat × List (Nat × α)}

/-- Registers of a block: the next item, the stages of the next batch and of the current
one, and the items handled so far with the entries they were handled with. -/
structure Pipeline (α : Type) where
  item : Nat
  shared : Nat → α
  stages : Nat → α
  handled : List (Nat × α)

section
variable (size numStages stride : Nat) (table : Nat → α)

/-- Stage `s` gets the entry of the item `ahead + s` steps away, if it is below the limit. -/
def fetch (limit item ahead : Nat) (shared : Nat → α) : Nat → α := fun s =>
  let next := (item + (ahead + s) * stride) % size
  if s < numStages ∧ next < limit then table next else shared s

/-- A pipeline whose first batch is fetched and taken over. -/
def primed (limit item : Nat) (shared : Nat → α) : Pipeline α :=
  let stages := fetch size numStages stride table limit item 0 shared
  { item, shared := stages, stages, handled := [] }

/-- `for (; s < numStages && item < limit; s++) { handle item; item += stride; }` -/
def drain (limit : Nat) (stages : Nat → α) : Nat → Nat → Nat → Nat × List (Nat × α)
  | 0, _, item => (item, [])
  | left + 1, s, item =>
    if item < limit then
      let rest := drain limit stages left (s + 1) ((item + stride) % size)
      (rest.1, (item, stages s) :: rest.2)
    else (item, [])

/-- `for (; s < numStages && item + s * stride < limit; s++) handle item + s * stride;` -/
def drainAhead (limit : Nat) (stages : Nat → α) (item : Nat) : Nat → Nat → List (Nat × α)
  | 0, _ => []
  | left + 1, s =>
    let next := (item + s * stride) % size
    if next < limit then (next, stages s) :: drainAhead limit stages item left (s + 1) else []

/-- `for (; s < numStages && item < limit; s++) item += stride;` -/
def advance (limit : Nat) : Nat → Nat → Nat
  | 0, item => item
  | left + 1, item => if item < limit then advance limit left ((item + stride) % size) else item

/-- `while (item < limit)`: fetch the next batch, work off the current one, take over. -/
def pipelineLoop (body : Nat → (Nat → α) → Nat → Nat × List (Nat × α)) (limit : Nat) : Nat → Pipeline α → Option (Pipeline α)
  | 0, _ => none
  | fuel + 1, pipeline =>
    if pipeline.item < limit then
      let shared := fetch size numStages stride table limit pipeline.item numStages pipeline.shared
      let batch := body limit pipeline.stages pipeline.item
      pipelineLoop body limit fuel { item := batch.1, shared, stages := shared, handled := pipeline.handled ++ batch.2 }
    else some pipeline

def batchSize (limit item : Nat) : Nat := min numStages (places limit stride item).length

/-- A body that handles one batch, each item with the stage of its own number. -/
def Drains (body : Nat → (Nat → α) → Nat → Nat × List (Nat × α)) : Prop :=
  ∀ limit stages item, limit + stride ≤ size → item < limit →
    body limit stages item = (item + stride * batchSize numStages stride limit item,
      (List.range (batchSize numStages stride limit item)).map fun s => (item + stride * s, stages s))

end

variable {size numStages stride : Nat} {table : Nat → α}

section
variable (positive : 0 < stride)
include positive

theorem places_length_step {start : Nat} (inside : start < bound) :
    (places bound stride start).length = (places bound stride (start + stride)).length + 1 := by
  rw [places_step positive inside, length_cons]

theorem places_end (bound start : Nat) :
    bound ≤ start + stride * (places bound stride start).length ∧
      ((places bound stride start).length = 0 ∨ start + stride * (places bound stride start).length < bound + stride) := by
  rw [places, length_range']
  have lower := lt_mul_div_succ (bound - start + (stride - 1)) positive
  have upper := mul_div_le (bound - start + (stride - 1)) stride
  rw [Nat.mul_add] at lower
  refine ⟨by omega, ?_⟩
  rcases Nat.lt_or_ge start bound with inside | past
  · exact Or.inr (by omega)
  · left
    rw [Nat.sub_eq_zero_of_le past, Nat.zero_add]
    exact div_eq_of_lt (by omega)

theorem place_lt_iff {start turn : Nat} :
    turn < (places bound stride start).length ↔ start + stride * turn < bound := by
  rw [places, length_range']
  constructor
  · intro listed
    have room := (Nat.le_div_iff_mul_le positive).mp (succ_le_of_lt listed)
    rw [succ_mul, Nat.mul_comm] at room
    omega
  · intro inside
    apply (Nat.le_div_iff_mul_le positive).mpr
    rw [succ_mul, Nat.mul_comm]
    omega

theorem places_split (bound : Nat) (count start : Nat) : places bound stride start =
    (List.range (min count (places bound stride start).length)).map (fun turn => start + stride * turn) ++
      places bound stride (start + stride * min count (places bound stride start).length) := by
  induction count generalizing start with
  | zero => rw [Nat.zero_min, range_zero, map_nil, nil_append, mul_zero, Nat.add_zero]
  | succ count ih =>
    rcases Nat.lt_or_ge start bound with inside | past
    · have next : start + stride * (min count (places bound stride (start + stride)).length + 1) =
          start + stride + stride * min count (places bound stride (start + stride)).length := by
        rw [mul_succ]
        omega
      have turns : (fun turn => start + stride + stride * turn) = (fun turn => start + stride * (turn + 1)) := by
        funext turn
        rw [mul_succ]
        omega
      rw [places_length_step positive inside, succ_min_succ, range_succ_eq_map, map_cons, map_map, next, mul_zero, Nat.add_zero,
        cons_append, places_step positive inside]
      have rest := ih (start + stride)
      rw [turns] at rest
      exact congrArg (start :: ·) rest
    · rw [places_past positive past, length_nil, Nat.min_zero, range_zero, map_nil, nil_append, mul_zero, Nat.add_zero,
        places_past positive past]

theorem drain_eq (room : limit + stride ≤ size) (stages : Nat → α) (left s item : Nat) :
    drain size stride limit stages left s item = (item + stride * batchSize left stride limit item,
      (List.range (batchSize left stride limit item)).map fun turn => (item + stride * turn, stages (s + turn))) := by
  induction left generalizing s item with
  | zero => simp [drain, batchSize]
  | succ left ih =>
    rw [drain]
    split
    next inside =>
      have turns : (fun turn => (item + stride + stride * turn, stages (s + 1 + turn))) =
          (fun turn => (item + stride * (turn + 1), stages (s + (turn + 1)))) := by
        funext turn
        rw [mul_succ, Nat.add_right_comm s 1 turn]
        congr 1
        omega
      rw [mod_eq_of_lt (by omega), ih, batchSize, batchSize, places_length_step positive inside, succ_min_succ, range_succ_eq_map,
        map_cons, map_map, turns, mul_succ]
      refine Prod.ext ?_ rfl
      simp only
      omega
    next past => simp [batchSize, places_past positive (Nat.le_of_not_lt past)]

theorem drain_drains :
    Drains size numStages stride fun limit (stages : Nat → α) item => drain size stride limit stages numStages 0 item := by
  intro limit stages item room _
  have drained := drain_eq positive room stages numStages 0 item
  simp only [Nat.zero_add] at drained
  exact drained

theorem advance_eq (room : limit + stride ≤ size) (left item : Nat) :
    advance size stride limit left item = item + stride * batchSize left stride limit item := by
  induction left generalizing item with
  | zero => simp [advance, batchSize]
  | succ left ih =>
    rw [advance]
    split
    next inside =>
      rw [mod_eq_of_lt (by omega), ih, batchSize, batchSize, places_length_step positive inside, succ_min_succ, mul_succ]
      omega
    next past => simp [batchSize, places_past positive (Nat.le_of_not_lt past)]

theorem drainAhead_eq (room : limit + stride ≤ size) (stages : Nat → α) (item left s : Nat)
    (reached : item + stride * s < limit + stride) :
    drainAhead size stride limit stages item left s =
      (List.range (batchSize left stride limit (item + stride * s))).map fun turn => (item + stride * (s + turn), stages (s + turn)) := by
  induction left generalizing s with
  | zero => simp [drainAhead, batchSize]
  | succ left ih =>
    have exact : (item + s * stride) % size = item + stride * s := by
      rw [Nat.mul_comm]
      exact mod_eq_of_lt (by omega)
    simp only [drainAhead, exact]
    split
    next inside =>
      have next : item + stride * (s + 1) = item + stride * s + stride := by
        rw [mul_succ]
        omega
      have turns : (fun turn => (item + stride * (s + 1 + turn), stages (s + 1 + turn))) =
          (fun turn => (item + stride * (s + (turn + 1)), stages (s + (turn + 1)))) := by
        funext turn
        rw [Nat.add_right_comm s 1 turn, Nat.add_assoc]
      rw [ih (s + 1) (by omega), next, turns, batchSize, batchSize, places_length_step positive inside, succ_min_succ, range_succ_eq_map,
        map_cons, map_map]
      rfl
    next past => simp [batchSize, places_past positive (Nat.le_of_not_lt past)]

theorem ahead_drains : Drains size numStages stride fun limit (stages : Nat → α) item =>
    (advance size stride limit numStages item, drainAhead size stride limit stages item numStages 0) := by
  intro limit stages item room inside
  have ahead := drainAhead_eq positive room stages item numStages 0 (by omega)
  simp only [Nat.zero_add, mul_zero, Nat.add_zero] at ahead
  simp only [advance_eq positive room, ahead]

end

/-- The stages hold the entries of the next items below the limit. -/
def Loaded (numStages stride : Nat) (table : Nat → α) (limit : Nat) (pipeline : Pipeline α) : Prop :=
  ∀ s, s < numStages → pipeline.item + stride * s < limit → pipeline.stages s = table (pipeline.item + stride * s)

theorem primed_loaded (below : limit ≤ bound) (room : limit ≤ size) (item : Nat) (shared : Nat → α) :
    Loaded numStages stride table limit (primed size numStages stride table bound item shared) := by
  intro s known inside
  have exact : (item + (0 + s) * stride) % size = item + stride * s := by
    rw [Nat.zero_add, Nat.mul_comm]
    exact mod_eq_of_lt (inside.trans_le room)
  simp only [primed, fetch, exact]
  exact if_pos ⟨known, inside.trans_le below⟩

variable {pipeline : Pipeline α}

theorem batch_own (positive : 0 < stride) (loaded : Loaded numStages stride table limit pipeline) :
    ((List.range (batchSize numStages stride limit pipeline.item)).map fun s => (pipeline.item + stride * s, pipeline.stages s)) =
      ((List.range (batchSize numStages stride limit pipeline.item)).map fun s => pipeline.item + stride * s).map fun item => (item, table item) := by
  rw [map_map]
  apply map_congr_left
  intro s member
  obtain ⟨known, listed⟩ := Nat.lt_min.mp (mem_range.mp member)
  rw [Function.comp_apply, loaded s known ((place_lt_iff positive).mp listed)]

/-- The stages fetched while a batch is worked off are those of the next one. -/
theorem next_loaded (positive : 0 < stride) (room : limit + stride ≤ size) (item : Nat) (shared other : Nat → α) (handled : List (Nat × α)) :
    Loaded numStages stride table limit ⟨item + stride * batchSize numStages stride limit item, other,
      fetch size numStages stride table limit item numStages shared, handled⟩ := by
  intro s known inside
  have whole : batchSize numStages stride limit item = numStages := by
    by_contra short
    have last : batchSize numStages stride limit item = (places limit stride item).length := by
      rw [batchSize] at short ⊢
      omega
    have ended := (places_end positive limit item).1
    simp only [last] at inside
    omega
  simp only [whole] at inside ⊢
  have exact : (item + (numStages + s) * stride) % size = item + stride * numStages + stride * s := by
    rw [Nat.mul_comm, Nat.mul_add, ← Nat.add_assoc]
    exact mod_eq_of_lt (by omega)
  simp only [fetch, exact]
  exact if_pos ⟨known, inside⟩

/-- A loaded pipeline handles every place from its item on, each with its own entry. -/
theorem pipeline_eq (drains : Drains size numStages stride body) (positive : 0 < stride)
    (staged : 0 < numStages) (room : limit + stride ≤ size) {fuel : Nat}
    (loaded : Loaded numStages stride table limit pipeline) (enough : limit - pipeline.item < fuel) :
    ∃ final, pipelineLoop size numStages stride table body limit fuel pipeline = some final ∧
      final.handled = pipeline.handled ++ (places limit stride pipeline.item).map (fun item => (item, table item)) ∧
      final.item = pipeline.item + stride * (places limit stride pipeline.item).length := by
  induction fuel generalizing pipeline with
  | zero => exact absurd enough (Nat.not_lt_zero _)
  | succ fuel ih =>
    rw [pipelineLoop]
    split
    next inside =>
      have some : 0 < batchSize numStages stride limit pipeline.item := by
        rw [batchSize, places_length_step positive inside]
        omega
      have moved : stride ≤ stride * batchSize numStages stride limit pipeline.item := Nat.le_mul_of_pos_right _ some
      simp only [drains limit pipeline.stages pipeline.item room inside, batch_own positive loaded]
      obtain ⟨final, ended, handled, item⟩ := ih (next_loaded positive room pipeline.item pipeline.shared _ _) (by simp only; omega)
      have split := places_split positive limit numStages pipeline.item
      refine ⟨final, ended, ?_, ?_⟩
      · rw [handled, append_assoc, ← map_append]
        exact congrArg (fun items => pipeline.handled ++ items.map fun item => (item, table item)) split.symm
      · have lengths := congrArg List.length split
        rw [length_append, length_map, length_range] at lengths
        rw [item, lengths, Nat.mul_add, ← Nat.add_assoc]
        rfl
    next past =>
      have none := places_past positive (Nat.le_of_not_lt past)
      exact ⟨pipeline, rfl, by simp [none], by simp [none]⟩

theorem primed_eq (drains : Drains size numStages stride body) (positive : 0 < stride)
    (staged : 0 < numStages) (below : limit ≤ bound) (room : limit + stride ≤ size) (table : Nat → α) (item : Nat) (shared : Nat → α)
    {fuel : Nat} (enough : limit < fuel) :
    ∃ final, pipelineLoop size numStages stride table body limit fuel (primed size numStages stride table bound item shared) = some final ∧
      final.handled = (places limit stride item).map (fun item => (item, table item)) ∧
      final.item = item + stride * (places limit stride item).length := by
  obtain ⟨final, ended, handled, moved⟩ := pipeline_eq drains positive staged room (primed_loaded below (show limit ≤ size by omega) item shared)
    (show limit - item < fuel by omega)
  exact ⟨final, ended, handled, moved⟩

theorem drain_stays (aligned : stride ∣ size) (stages : Nat → α) (left s : Nat) {item : Nat} (inside : item < size) :
    (drain size stride limit stages left s item).1 < size ∧ (drain size stride limit stages left s item).1 % stride = item % stride := by
  induction left generalizing s item with
  | zero => exact ⟨inside, rfl⟩
  | succ left ih =>
    rw [drain]
    split
    next =>
      obtain ⟨below, same⟩ := ih (s + 1) (mod_lt (item + stride) (zero_lt_of_lt inside))
      exact ⟨below, same.trans (value_step aligned item)⟩
    next => exact ⟨inside, rfl⟩

/-- Counters that wrap onto their own values never leave the loop either. -/
theorem pipeline_stuck (aligned : stride ∣ size)
    (stays : ∀ stages item, item < size → (body limit stages item).1 < size ∧
      (body limit stages item).1 % stride = item % stride) (fuel : Nat)
    (inside : pipeline.item < size) (above : size - stride + pipeline.item % stride < limit) :
    pipelineLoop size numStages stride table body limit fuel pipeline = none := by
  induction fuel generalizing pipeline with
  | zero => rfl
  | succ fuel ih =>
    obtain ⟨below, same⟩ := stays pipeline.stages pipeline.item inside
    rw [pipelineLoop, if_pos (value_lt aligned inside above)]
    apply ih below
    rw [same]
    exact above

end PplxGarden.Library
