/-!
# Work in batches

A list is cut into runs of a fixed size; one batch follows another, and no batch begins after a
failure. Inside a batch the work of every item starts before the work of any item is resumed. A
small batch is resumed in the order of its items, up to the first failure; a large one is resumed
from its last item back to the first, all of it. The result does not depend on that: it is the
result of working through the list item by item.

The two accounts here are one for work that never waits (`batched`) and one for work that waits
once between its start and its end (`runBatched`).
-/

namespace StakeOracle

/-- A list cut into consecutive runs of `size` items, the last run possibly shorter. A size of
zero counts as one. -/
def chunksOf (size : Nat) (items : List α) : List (List α) :=
  cut items.length items
where
  /-- Cuts with as many runs left as there are items. -/
  cut : Nat → List α → List (List α)
    | 0, _ => []
    | _ + 1, [] => []
    | runs + 1, item :: rest =>
      (item :: rest).take (max 1 size) :: cut runs ((item :: rest).drop (max 1 size))

/-- Nothing is lost or moved by cutting. -/
theorem flatten_chunksOf (size : Nat) (items : List α) : (chunksOf size items).flatten = items := by
  suffices h : ∀ (runs : Nat) (rest : List α), rest.length ≤ runs →
      (chunksOf.cut size runs rest).flatten = rest from h _ _ (Nat.le_refl _)
  intro runs
  induction runs with
  | zero =>
    intro rest hlen
    simp [List.length_eq_zero_iff.1 (Nat.le_zero.1 hlen), chunksOf.cut]
  | succ runs ih =>
    intro rest hlen
    cases rest with
    | nil => rfl
    | cons item rest =>
      rw [chunksOf.cut, List.flatten_cons, ih, List.take_append_drop]
      simp only [List.length_drop, List.length_cons] at hlen ⊢
      omega

/-- No run is longer than the stated size, where zero counts as one. -/
theorem length_le_of_mem_chunksOf {size : Nat} {items run : List α}
    (h : run ∈ chunksOf size items) : run.length ≤ max 1 size := by
  suffices hcut : ∀ (runs : Nat) (rest : List α), run ∈ chunksOf.cut size runs rest →
      run.length ≤ max 1 size from hcut _ _ h
  intro runs
  induction runs with
  | zero => intro rest hmem; simp [chunksOf.cut] at hmem
  | succ runs ih =>
    intro rest hmem
    cases rest with
    | nil => simp [chunksOf.cut] at hmem
    | cons item rest =>
      rw [chunksOf.cut, List.mem_cons] at hmem
      rcases hmem with rfl | hmem
      · exact List.length_take_le _ _
      · exact ih _ hmem

/-- Works through a list batch by batch, keeping the results in the order of the items. -/
def batched [Monad m] (size : Nat) (work : α → m β) (items : List α) : m (List β) := do
  let results ← (chunksOf size items).mapM fun batch => batch.mapM work
  return results.flatten

/-- Batches of any size come to working through the list item by item. -/
theorem batched_eq_mapM [Monad m] [LawfulMonad m] (size : Nat) (work : α → m β) (items : List α) :
    batched size work items = items.mapM work := by
  suffices h : ∀ batches : List (List α),
      List.flatten <$> (batches.mapM fun batch => batch.mapM work) = batches.flatten.mapM work by
    rw [batched, bind_pure_comp, h, flatten_chunksOf]
  intro batches
  induction batches with
  | nil => simp
  | cons batch later ih =>
    rw [List.flatten_cons, List.mapM_append, ← ih]
    simp

/-- One moment of a batched run: the work on an item starts, ends or fails. -/
inductive Moment (α : Type) where
  | started (item : α)
  | ended (item : α)
  | failed (item : α)
  deriving DecidableEq, Repr

/-- What becomes of the work on an item when it is resumed. -/
def Moment.outcome (work : α → Except ε β) (item : α) : Moment α :=
  match work item with
  | .ok _ => .ended item
  | .error _ => .failed item

/-- Work resumed in the order of the items, up to the first failure. -/
def resumeInOrder (work : α → Except ε β) : List α → List (Moment α)
  | [] => []
  | item :: rest =>
    match work item with
    | .ok _ => .ended item :: resumeInOrder work rest
    | .error _ => [.failed item]

/-- Work resumed from the last item back to the first, whatever fails on the way. -/
def resumeFromLast (work : α → Except ε β) (batch : List α) : List (Moment α) :=
  batch.reverse.map (Moment.outcome work)

/-- The length up to which a batch is small. -/
def smallBatch : Nat := 30

/-- The started work of a batch resumed: in order if the batch is small, else from the last. -/
def resume (work : α → Except ε β) (batch : List α) : List (Moment α) :=
  if batch.length ≤ smallBatch then resumeInOrder work batch else resumeFromLast work batch

/-- Runs the batches one after another: a batch starts all its work, then resumes it. Of several
failures in a batch the first in the order of its items counts. -/
def runBatches (work : α → Except ε β) : List (List α) → List (Moment α) × Except ε (List β)
  | [] => ([], .ok [])
  | batch :: later =>
    let moments := batch.map .started ++ resume work batch
    match batch.mapM work with
    | .error e => (moments, .error e)
    | .ok results =>
      let (laterMoments, laterResults) := runBatches work later
      (moments ++ laterMoments, laterResults.map (results ++ ·))

/-- The result of running batches is that of working through all their items. -/
theorem result_runBatches (work : α → Except ε β) (batches : List (List α)) :
    (runBatches work batches).2 = batches.flatten.mapM work := by
  induction batches with
  | nil => rfl
  | cons batch later ih =>
    rw [List.flatten_cons, List.mapM_append, ← ih, runBatches]
    cases batch.mapM work with
    | error e => rfl
    | ok results =>
      cases h : (runBatches work later).2 <;> simp [h, Except.map] <;> rfl

/-- Runs work that waits once between its start and its end, in batches of `size`. -/
def runBatched (size : Nat) (work : α → Except ε β) (items : List α) :
    List (Moment α) × Except ε (List β) :=
  runBatches work (chunksOf size items)

/-- The size of the batches does not change the result. -/
theorem result_runBatched (size : Nat) (work : α → Except ε β) (items : List α) :
    (runBatched size work items).2 = items.mapM work := by
  rw [runBatched, result_runBatches, flatten_chunksOf]

end StakeOracle
