import Mathlib.Data.List.Perm.Subperm
import StakeOracle.Proofs.Batch.Batches

/-!
# The moments of a run in batches

From outside, a run in batches is a list of moments. The work starts in the order of the items, no
more of it is open at once than a batch holds, and where the work on an item starts, the work of
all batches before its own has ended, and no other. A failure is met in the last batch that runs,
so nothing starts after it. A small batch is left at its failure. A large one is not: it is resumed
back to its first item.
-/

namespace StakeOracle

/-- The item whose work starts at a moment. -/
def Moment.started? : Moment α → Option α
  | .started item => some item
  | .ended _ | .failed _ => none

/-- The item whose work ends at a moment. -/
def Moment.ended? : Moment α → Option α
  | .ended item => some item
  | .started _ | .failed _ => none

/-- The item whose work is over from a moment on, ended or failed. -/
def Moment.settled? : Moment α → Option α
  | .ended item | .failed item => some item
  | .started _ => none

/-- The items that start, moment by moment. -/
def startedIn (moments : List (Moment α)) : List α :=
  moments.filterMap Moment.started?

/-- The items that end, moment by moment. -/
def endedIn (moments : List (Moment α)) : List α :=
  moments.filterMap Moment.ended?

/-- The items that end or fail, moment by moment. -/
def settledIn (moments : List (Moment α)) : List α :=
  moments.filterMap Moment.settled?

section Moments

variable (items : List α) (first more : List (Moment α))

/-- What starts in two stretches of moments starts in one of them. -/
@[simp] theorem startedIn_append : startedIn (first ++ more) = startedIn first ++ startedIn more :=
  List.filterMap_append

/-- What ends in two stretches of moments ends in one of them. -/
@[simp] theorem endedIn_append : endedIn (first ++ more) = endedIn first ++ endedIn more :=
  List.filterMap_append

/-- What is over in two stretches of moments is over in one of them. -/
@[simp] theorem settledIn_append : settledIn (first ++ more) = settledIn first ++ settledIn more :=
  List.filterMap_append

/-- Where all moments are starts, all their items start. -/
@[simp] theorem startedIn_starts : startedIn (items.map .started) = items := by
  simp [startedIn, List.filterMap_map, Function.comp_def, Moment.started?]

/-- An item that starts first is the first one to start. -/
@[simp] theorem startedIn_cons_started (item : α) :
    startedIn (.started item :: more) = item :: startedIn more :=
  List.filterMap_cons_some rfl

/-- Nothing ends where items only start. -/
@[simp] theorem endedIn_starts : endedIn (items.map .started) = [] := by
  simp [endedIn, List.filterMap_map, Function.comp_def, Moment.ended?]

/-- Nothing is over where items only start. -/
@[simp] theorem settledIn_starts : settledIn (items.map .started) = [] := by
  simp [settledIn, List.filterMap_map, Function.comp_def, Moment.settled?]

/-- Where all moments are ends, all their items end. -/
@[simp] theorem endedIn_ends : endedIn (items.map .ended) = items := by
  simp [endedIn, List.filterMap_map, Function.comp_def, Moment.ended?]

/-- No outcome starts anything. -/
@[simp] theorem startedIn_outcomes (work : α → Except ε β) :
    startedIn (items.map (Moment.outcome work)) = [] := by
  refine List.filterMap_eq_nil_iff.mpr (List.forall_mem_map.mpr fun item _ => ?_)
  cases h : work item <;> simp [Moment.outcome, h, Moment.started?]

/-- With its outcome an item is over. -/
@[simp] theorem settledIn_outcomes (work : α → Except ε β) :
    settledIn (items.map (Moment.outcome work)) = items := by
  have hself : Moment.settled? ∘ Moment.outcome work = some := by
    funext item
    cases h : work item <;> simp [Moment.outcome, h, Moment.settled?]
  rw [settledIn, List.filterMap_map, hself, List.filterMap_some]

end Moments

/-- The moments of one batch: all its work starts, and is then resumed. -/
def batchMoments (work : α → Except ε β) (batch : List α) : List (Moment α) :=
  batch.map .started ++ resume work batch

variable {work : α → Except ε β} {batch : List α}

/-- If the work on some items is not done, it fails on one of them. -/
theorem exists_error_of_not_done (h : ¬ Done work batch) :
    ∃ item ∈ batch, ∃ e, work item = .error e := by
  simp only [Done, not_forall] at h
  obtain ⟨item, hitem, hnot⟩ := h
  cases hwork : work item with
  | ok b => exact absurd ⟨b, hwork⟩ hnot
  | error e => exact ⟨item, hitem, e, hwork⟩

/-- Work that is done has only ends for its outcomes. -/
theorem Done.outcomes (h : Done work batch) : batch.map (Moment.outcome work) = batch.map .ended := by
  refine List.map_congr_left fun item hitem => ?_
  obtain ⟨b, hb⟩ := h item hitem
  rw [Moment.outcome, hb]

/-! ### One batch -/

/-- Resumed in order, the work of a batch is over item by item, up to some point. -/
theorem resumeInOrder_isPrefix (work : α → Except ε β) (batch : List α) :
    resumeInOrder work batch <+: batch.map (Moment.outcome work) := by
  induction batch with
  | nil => exact List.prefix_rfl
  | cons item rest ih =>
    rw [resumeInOrder, List.map_cons, Moment.outcome]
    cases work item with
    | ok b => exact List.cons_prefix_cons.mpr ⟨rfl, ih⟩
    | error e => exact List.cons_prefix_cons.mpr ⟨rfl, List.nil_prefix⟩

/-- Resumed in order, work that is done ends item by item. -/
theorem Done.resumeInOrder_eq (h : Done work batch) :
    resumeInOrder work batch = batch.map .ended := by
  induction batch with
  | nil => rfl
  | cons item rest ih =>
    obtain ⟨⟨b, hb⟩, hrest⟩ := List.forall_mem_cons.mp h
    simp only [resumeInOrder, hb, List.map_cons, ih hrest]

/-- Resumed in order, work that is not done fails somewhere. -/
theorem failed_mem_resumeInOrder (h : ¬ Done work batch) :
    ∃ item, .failed item ∈ resumeInOrder work batch := by
  induction batch with
  | nil => exact absurd (List.forall_mem_nil _) h
  | cons first rest ih =>
    rw [resumeInOrder]
    cases hfirst : work first with
    | error e => exact ⟨first, List.mem_singleton_self _⟩
    | ok b =>
      obtain ⟨item, hitem⟩ := ih fun hrest => h (List.forall_mem_cons.mpr ⟨⟨b, hfirst⟩, hrest⟩)
      exact ⟨item, List.mem_cons_of_mem _ hitem⟩

/-- Resumed in order, a batch is left at its first failure. -/
theorem resumeInOrder_stops {before after : List (Moment α)} {item : α}
    (h : resumeInOrder work batch = before ++ .failed item :: after) : after = [] := by
  induction batch generalizing before with
  | nil => simp [resumeInOrder] at h
  | cons first rest ih =>
    rw [resumeInOrder] at h
    cases before with
    | nil => cases hfirst : work first <;> simp_all
    | cons m before =>
      cases hfirst : work first with
      | ok b =>
        simp only [hfirst, List.cons_append, List.cons.injEq] at h
        exact ih h.2
      | error e => simp [hfirst] at h

/-- Whatever the size of a batch, what is resumed of it are items of its own, each once, and each
with its own outcome. -/
theorem resume_eq_outcomes (work : α → Except ε β) (batch : List α) :
    ∃ resumed, List.Subperm resumed batch ∧
      resume work batch = resumed.map (Moment.outcome work) := by
  rw [resume]
  split
  · obtain ⟨resumed, hresumed, h⟩ := List.prefix_map_iff.mp (resumeInOrder_isPrefix work batch)
    exact ⟨resumed, hresumed.sublist.subperm, h⟩
  · exact ⟨batch.reverse, (List.reverse_perm batch).subperm, rfl⟩

/-- Nothing starts while a batch is resumed. -/
theorem startedIn_resume (work : α → Except ε β) (batch : List α) :
    startedIn (resume work batch) = [] := by
  obtain ⟨resumed, -, h⟩ := resume_eq_outcomes work batch
  rw [h, startedIn_outcomes]

/-- The items of a batch start in their order. -/
@[simp] theorem startedIn_batchMoments (work : α → Except ε β) (batch : List α) :
    startedIn (batchMoments work batch) = batch := by
  rw [batchMoments, startedIn_append, startedIn_starts, startedIn_resume, List.append_nil]

/-- Only items of the batch are over in it, each at most once. -/
theorem settledIn_resume (work : α → Except ε β) (batch : List α) :
    List.Subperm (settledIn (resume work batch)) batch := by
  obtain ⟨resumed, hresumed, h⟩ := resume_eq_outcomes work batch
  rwa [h, settledIn_outcomes]

/-- Nothing starts in any part of what is resumed. -/
theorem startedIn_of_resume_eq {resumed rest : List (Moment α)}
    (h : resume work batch = resumed ++ rest) : startedIn resumed = [] ∧ startedIn rest = [] := by
  have hnone := startedIn_resume work batch
  rwa [h, startedIn_append, List.append_eq_nil_iff] at hnone

/-- A batch is resumed for no more moments than it has items. -/
theorem length_resume_le (work : α → Except ε β) (batch : List α) :
    (resume work batch).length ≤ batch.length := by
  obtain ⟨resumed, hresumed, h⟩ := resume_eq_outcomes work batch
  rw [h, List.length_map]
  exact hresumed.length_le

/-- A batch fails while it is resumed exactly when it is not done. -/
theorem failed_mem_resume_iff : (∃ item, .failed item ∈ resume work batch) ↔ ¬ Done work batch := by
  constructor
  · rintro ⟨item, hitem⟩ hdone
    obtain ⟨resumed, hresumed, hresume⟩ := resume_eq_outcomes work batch
    obtain ⟨own, hown, houtcome⟩ := List.mem_map.mp (hresume ▸ hitem)
    obtain ⟨b, hb⟩ := hdone own (hresumed.subset hown)
    simp [Moment.outcome, hb] at houtcome
  · intro hnot
    rw [resume]
    split
    · exact failed_mem_resumeInOrder hnot
    · obtain ⟨item, hitem, e, he⟩ := exists_error_of_not_done hnot
      refine ⟨item, List.mem_map.mpr ⟨item, List.mem_reverse.mpr hitem, ?_⟩⟩
      rw [Moment.outcome, he]

/-- A batch that is done ends each of its items once, in some order. -/
theorem Done.resume_eq (h : Done work batch) :
    ∃ resumed, List.Perm resumed batch ∧ resume work batch = resumed.map .ended := by
  rw [resume]
  split
  · exact ⟨batch, .rfl, h.resumeInOrder_eq⟩
  · refine ⟨batch.reverse, List.reverse_perm batch, ?_⟩
    rw [resumeFromLast, List.map_reverse, h.outcomes, List.map_reverse]

/-- All items of a batch that is done have ended in it. -/
theorem Done.endedIn_batchMoments (h : Done work batch) :
    (endedIn (batchMoments work batch)).Perm batch := by
  obtain ⟨resumed, hresumed, hresume⟩ := h.resume_eq
  rwa [batchMoments, endedIn_append, endedIn_starts, List.nil_append, hresume, endedIn_ends]

/-- All items of a batch that is done are over in it. -/
theorem Done.settledIn_batchMoments (h : Done work batch) :
    (settledIn (batchMoments work batch)).Perm batch := by
  obtain ⟨resumed, hresumed, hresume⟩ := h.resume_eq
  rw [batchMoments, settledIn_append, settledIn_starts, List.nil_append, hresume]
  rwa [← Done.outcomes (fun item hitem => h item (hresumed.subset hitem)), settledIn_outcomes]

/-- A batch that has run in part is either still starting its work, or has started all of it. -/
theorem batchMoments_eq_append {part rest : List (Moment α)}
    (h : batchMoments work batch = part ++ rest) :
    (∃ begun waiting, batch = begun ++ waiting ∧ part = begun.map .started ∧
      rest = waiting.map .started ++ resume work batch) ∨
    ∃ resumed, part = batch.map .started ++ resumed ∧ resume work batch = resumed ++ rest := by
  rcases List.append_eq_append_iff.mp h with ⟨resumed, hpart, hresume⟩ | ⟨waiting, hstarts, hrest⟩
  · exact .inr ⟨resumed, hpart, hresume⟩
  · obtain ⟨begun, left, rfl, rfl, rfl⟩ := List.map_eq_append_iff.mp hstarts
    exact .inl ⟨begun, left, rfl, rfl, hrest⟩

/-- No more than the batch has started in any part of it. -/
theorem length_startedIn_le {part rest : List (Moment α)}
    (h : batchMoments work batch = part ++ rest) : (startedIn part).length ≤ batch.length := by
  rw [← startedIn_batchMoments work batch, h, startedIn_append, List.length_append]
  exact Nat.le_add_right _ _

/-- In any part of a batch, what is over has started. -/
theorem settled_subperm_started {part rest : List (Moment α)}
    (h : batchMoments work batch = part ++ rest) :
    List.Subperm (settledIn part) (startedIn part) := by
  rcases batchMoments_eq_append h with ⟨begun, waiting, -, rfl, -⟩ | ⟨resumed, rfl, hresume⟩
  · rw [settledIn_starts]
    exact List.nil_subperm
  · have hall := settledIn_resume work batch
    rw [hresume, settledIn_append] at hall
    rw [settledIn_append, settledIn_starts, List.nil_append, startedIn_append, startedIn_starts,
      (startedIn_of_resume_eq hresume).1, List.append_nil]
    exact (List.sublist_append_left _ _).subperm.trans hall

/-- What precedes a start in its batch is the starts of the items before. -/
theorem begun_of_starting {part rest : List (Moment α)} {item : α}
    (h : batchMoments work batch = part ++ .started item :: rest) :
    ∃ begun : List α, part = begun.map .started ∧ begun.length < batch.length := by
  have hbatch : batch = startedIn part ++ item :: startedIn rest := by
    have hstarts := startedIn_batchMoments work batch
    rwa [h, startedIn_append, startedIn_cons_started, eq_comm] at hstarts
  rcases batchMoments_eq_append h with ⟨begun, waiting, -, rfl, -⟩ | ⟨resumed, -, hresume⟩
  · refine ⟨begun, rfl, ?_⟩
    rw [hbatch, startedIn_starts, List.length_append, List.length_cons]
    omega
  · cases (startedIn_of_resume_eq hresume).2

/-- Where an item of a batch fails, all of the batch has started before. -/
theorem resume_of_failing {part rest : List (Moment α)} {item : α}
    (h : batchMoments work batch = part ++ .failed item :: rest) :
    ∃ resumed, part = batch.map .started ++ resumed ∧
      resume work batch = resumed ++ .failed item :: rest := by
  rcases batchMoments_eq_append h with ⟨begun, waiting, rfl, rfl, hrest⟩ | hresume
  · cases waiting with
    | nil => exact ⟨[], by simp, by simpa using hrest.symm⟩
    | cons next waiting => simp at hrest
  · exact hresume

/-! ### Batch after batch -/

/-- The place of a moment in a run: the batches before its own, which are done, and the part of its
own batch that precedes it. -/
structure Place (work : α → Except ε β) (moment : Moment α) where
  earlier : List (List α)
  batch : List α
  part : List (Moment α)
  rest : List (Moment α)
  done : ∀ run ∈ earlier, Done work run
  batch_eq : batchMoments work batch = part ++ moment :: rest

variable {batches : List (List α)} {before after : List (Moment α)} {moment : Moment α}

/-- All that precedes a moment in a run. -/
def Place.past (place : Place work moment) : List (Moment α) :=
  place.earlier.flatMap (batchMoments work) ++ place.part

/-- The same place in a run that has one more batch at its head. -/
def Place.behind (place : Place work moment) (h : Done work batch) : Place work moment :=
  { place with
    earlier := batch :: place.earlier
    done := List.forall_mem_cons.mpr ⟨h, place.done⟩ }

/-- With one more batch at the head of a run, what precedes a place begins with its moments. -/
theorem Place.past_behind (place : Place work moment) (h : Done work batch) :
    (place.behind h).past = batchMoments work batch ++ place.past := by
  rw [past, behind, List.flatMap_cons, List.append_assoc, past]

/-- Every moment of a run has its place. Nothing follows its batch if that is not done. -/
theorem exists_place (h : (runBatches work batches).1 = before ++ moment :: after) :
    ∃ (place : Place work moment) (later : List (List α)),
      batches = place.earlier ++ place.batch :: later ∧ before = place.past ∧
        (¬ Done work place.batch → after = place.rest) := by
  induction batches generalizing before with
  | nil => simp [runBatches] at h
  | cons batch later ih =>
    rw [runBatches, ← batchMoments] at h
    cases hbatch : batch.mapM work with
    | error e =>
      rw [hbatch] at h
      exact ⟨⟨[], batch, before, after, by simp, h⟩, later, rfl, rfl, fun _ => rfl⟩
    | ok results =>
      have hdone : Done work batch := exists_mapM_eq_ok_iff.mp ⟨results, hbatch⟩
      -- The moment belongs to the first batch, or has its place in the run of those that follow.
      have hlater : ∀ inner, before = batchMoments work batch ++ inner →
          (runBatches work later).1 = inner ++ moment :: after →
          ∃ (place : Place work moment) (rest : List (List α)),
            batch :: later = place.earlier ++ place.batch :: rest ∧ before = place.past ∧
              (¬ Done work place.batch → after = place.rest) := by
        rintro inner rfl hinner
        obtain ⟨place, rest, rfl, rfl, hafter⟩ := ih hinner
        exact ⟨place.behind hdone, rest, rfl, (place.past_behind hdone).symm, hafter⟩
      rw [hbatch] at h
      rcases List.append_eq_append_iff.mp h with ⟨inner, hbefore, hinner⟩ | ⟨own, hown, hafter⟩
      · exact hlater inner hbefore hinner
      · cases own with
        | nil => exact hlater [] (by rw [hown, List.append_nil, List.append_nil]) hafter.symm
        | cons first own =>
          obtain ⟨rfl, rfl⟩ := List.cons.inj hafter
          exact ⟨⟨[], batch, before, own, by simp, hown⟩, later, rfl, rfl, fun h => absurd hdone h⟩

variable (work) in
/-- Items start in the order of the batches, up to some point. -/
theorem startedIn_runBatches (batches : List (List α)) :
    startedIn (runBatches work batches).1 <+: batches.flatten := by
  induction batches with
  | nil => exact List.nil_prefix
  | cons batch later ih =>
    rw [runBatches, ← batchMoments, List.flatten_cons]
    cases batch.mapM work with
    | error e =>
      rw [startedIn_batchMoments]
      exact List.prefix_append _ _
    | ok results =>
      rw [startedIn_append, startedIn_batchMoments]
      exact (List.prefix_append_right_inj _).mpr ih

/-- Batches that are run whole start all of their items. -/
theorem startedIn_flatMap (work : α → Except ε β) (earlier : List (List α)) :
    startedIn (earlier.flatMap (batchMoments work)) = earlier.flatten := by
  induction earlier with
  | nil => rfl
  | cons run earlier ih =>
    rw [List.flatMap_cons, startedIn_append, startedIn_batchMoments, ih, List.flatten_cons]

/-- What each batch makes of its own items, all of them together make of all items. -/
theorem filterMap_flatMap_perm {make : List α → List γ} {pick : γ → Option α}
    {earlier : List (List α)} (h : ∀ run ∈ earlier, List.Perm ((make run).filterMap pick) run) :
    List.Perm ((earlier.flatMap make).filterMap pick) earlier.flatten := by
  rw [List.filterMap_flatMap, ← List.flatMap_id]
  exact List.Perm.flatMap_left _ h

section Earlier

variable {earlier : List (List α)} (part : List (Moment α))

/-- By a later moment all earlier batches have started, and the part of its own. -/
theorem startedIn_later : startedIn (earlier.flatMap (batchMoments work) ++ part) =
    earlier.flatten ++ startedIn part := by
  rw [startedIn_append, startedIn_flatMap]

/-- By then the items of the earlier batches have ended, if these are done. -/
theorem endedIn_later (h : ∀ run ∈ earlier, Done work run) :
    List.Perm (endedIn (earlier.flatMap (batchMoments work) ++ part))
      (earlier.flatten ++ endedIn part) := by
  rw [endedIn_append]
  exact (filterMap_flatMap_perm fun run hrun => (h run hrun).endedIn_batchMoments).append_right _

/-- By then the items of the earlier batches are over, if these are done. -/
theorem settledIn_later (h : ∀ run ∈ earlier, Done work run) :
    List.Perm (settledIn (earlier.flatMap (batchMoments work) ++ part))
      (earlier.flatten ++ settledIn part) := by
  rw [settledIn_append]
  exact (filterMap_flatMap_perm fun run hrun => (h run hrun).settledIn_batchMoments).append_right _

end Earlier

/-- A run over some items in batches of a stated width, as it is seen from outside. -/
structure Orderly (width : Nat) (items : List α) (moments : List (Moment α)) : Prop where
  /-- Items start in their order, each at most once. -/
  starts : startedIn moments <+: items
  /-- At any moment, what is over has started, and no more than a batch is open. -/
  opened : ∀ before after, moments = before ++ after →
    List.Subperm (settledIn before) (startedIn before) ∧
      (startedIn before).length ≤ (settledIn before).length + width
  /-- Where an item starts, the items of all batches before its own have ended, and no others. -/
  batches : ∀ before item after, moments = before ++ .started item :: after →
    (endedIn before).Perm (items.take ((startedIn before).length / width * width))

/-- Every run in batches is orderly, and its width is the size of a batch. -/
theorem orderly_runBatched (size : Nat) (work : α → Except ε β) (items : List α) :
    Orderly (max 1 size) items (runBatched size work items).1 where
  starts := by
    have h := startedIn_runBatches work (chunksOf size items)
    rwa [flatten_chunksOf] at h
  opened := by
    intro before after h
    rcases List.eq_nil_or_concat before with rfl | ⟨past, moment, rfl⟩
    · exact ⟨.refl _, Nat.zero_le _⟩
    rw [List.concat_eq_append] at h ⊢
    rw [List.append_assoc] at h
    obtain ⟨place, later, hchunks, rfl, -⟩ := exists_place h
    have hbatch : batchMoments work place.batch = (place.part ++ [moment]) ++ place.rest := by
      rw [place.batch_eq, List.append_assoc, List.singleton_append]
    have hsettled := settledIn_later (place.part ++ [moment]) place.done
    rw [Place.past, List.append_assoc, startedIn_later]
    constructor
    · exact hsettled.subperm.trans
        ((List.subperm_append_left _).mpr (settled_subperm_started hbatch))
    · have hopen := length_startedIn_le hbatch
      have hwidth : place.batch.length ≤ max 1 size :=
        length_le_of_mem_chunksOf (hchunks ▸ List.mem_append_right _ List.mem_cons_self)
      rw [hsettled.length_eq, List.length_append, List.length_append]
      omega
  batches := by
    intro before item after h
    obtain ⟨place, later, hchunks, rfl, -⟩ := exists_place h
    obtain ⟨begun, hpart, hbegun⟩ := begun_of_starting place.batch_eq
    have hwidth : place.batch.length ≤ max 1 size :=
      length_le_of_mem_chunksOf (hchunks ▸ List.mem_append_right _ List.mem_cons_self)
    have hcount : (startedIn place.past).length / max 1 size * max 1 size =
        place.earlier.flatten.length := by
      rw [Place.past, startedIn_later, hpart, startedIn_starts, List.length_append,
        length_flatten_before_chunk hchunks, Nat.add_comm,
        Nat.add_mul_div_right _ _ (by omega), Nat.div_eq_of_lt (by omega), Nat.zero_add]
    have hended := endedIn_later place.part place.done
    rw [hpart, endedIn_starts, List.append_nil] at hended
    rw [hcount, ← flatten_chunksOf size items, hchunks, List.flatten_append, List.take_left,
      Place.past, hpart]
    exact hended

/-- A failure is seen in a run exactly when some work in it fails. -/
theorem failed_mem_runBatches_iff {batches : List (List α)} :
    (∃ item, .failed item ∈ (runBatches work batches).1) ↔ ¬ Done work batches.flatten := by
  induction batches with
  | nil => simp [runBatches, Done]
  | cons batch later ih =>
    have hown : (∃ item, .failed item ∈ batchMoments work batch) ↔ ¬ Done work batch := by
      rw [← failed_mem_resume_iff]
      simp [batchMoments]
    have hsplit : Done work (batch ++ later.flatten) ↔ Done work batch ∧ Done work later.flatten :=
      List.forall_mem_append
    rw [List.flatten_cons, hsplit, not_and_or, ← hown, ← ih, runBatches, ← batchMoments]
    cases hbatch : batch.mapM work with
    | error e =>
      have hfailed : ∃ item, .failed item ∈ batchMoments work batch := by
        rw [hown, ← exists_mapM_eq_ok_iff, hbatch]
        simp
      exact iff_of_true hfailed (.inl hfailed)
    | ok results => simp only [List.mem_append, exists_or]

/-- A run that has met a failure in one of its batches: the whole batch has started by then, and
nothing starts any more. A small batch is left at once. A large one is resumed to its end, the
failure notwithstanding. -/
structure Failing (work : α → Except ε β) (earlier : List (List α)) (batch : List α)
    (before : List (Moment α)) (item : α) (after : List (Moment α)) : Prop where
  begun : startedIn before = earlier.flatten ++ batch
  none_starts : startedIn after = []
  few_follow : after.length < batch.length
  small_left : batch.length ≤ smallBatch → after = []
  large_resumed : smallBatch < batch.length →
    resumeFromLast work batch <:+ before ++ .failed item :: after

/-- Where a run meets a failure, its last batch has begun. -/
theorem failing_runBatches {item : α}
    (h : (runBatches work batches).1 = before ++ .failed item :: after) :
    ∃ earlier batch later, batches = earlier ++ batch :: later ∧
      Failing work earlier batch before item after := by
  obtain ⟨place, later, hbatches, rfl, hafter⟩ := exists_place h
  obtain ⟨resumed, hpart, hresume⟩ := resume_of_failing place.batch_eq
  have hnot : ¬ Done work place.batch :=
    failed_mem_resume_iff.mp ⟨item, hresume ▸ List.mem_append_right _ List.mem_cons_self⟩
  obtain rfl := hafter hnot
  obtain ⟨hresumed, hrest⟩ := startedIn_of_resume_eq hresume
  have hlength := length_resume_le work place.batch
  rw [hresume, List.length_append, List.length_cons] at hlength
  exact ⟨place.earlier, place.batch, later, hbatches, {
    begun := by
      rw [Place.past, startedIn_later, hpart, startedIn_append, startedIn_starts, hresumed,
        List.append_nil]
    none_starts := hrest
    few_follow := by omega
    small_left := by
      intro hsmall
      rw [resume, if_pos hsmall] at hresume
      exact resumeInOrder_stops hresume
    large_resumed := by
      intro hlarge
      rw [resume, if_neg (by omega)] at hresume
      rw [Place.past, hpart, hresume]
      exact ⟨place.earlier.flatMap (batchMoments work) ++ place.batch.map .started, by
        simp only [List.append_assoc]⟩ }⟩

/-- A run in batches does what working through the list item by item does: it is done when the work
on every item is, with the results in the order of the items, and else it fails with the failure of
the first item that fails. Its moments are in order, and it goes on after a failure only to resume
the rest of a large batch. -/
theorem runBatched_refines_mapM (size : Nat) (work : α → Except ε β) (items : List α) :
    (runBatched size work items).2 = items.mapM work ∧
    ((∃ results, (runBatched size work items).2 = .ok results) ↔ Done work items) ∧
    (∀ results, (runBatched size work items).2 = .ok results ↔
      List.Forall₂ (fun item b => work item = .ok b) items results) ∧
    (∀ e, (runBatched size work items).2 = .error e ↔ ∃ earlier item later,
      items = earlier ++ item :: later ∧ Done work earlier ∧ work item = .error e) ∧
    Orderly (max 1 size) items (runBatched size work items).1 ∧
    ((∃ item, .failed item ∈ (runBatched size work items).1) ↔ ¬ Done work items) ∧
    ∀ before item after, (runBatched size work items).1 = before ++ .failed item :: after →
      ∃ earlier batch later, chunksOf size items = earlier ++ batch :: later ∧
        Failing work earlier batch before item after := by
  rw [result_runBatched]
  refine ⟨rfl, exists_mapM_eq_ok_iff, fun _ => mapM_eq_ok_iff, fun _ => mapM_eq_error_iff,
    orderly_runBatched size work items, ?_, fun _ _ _ => failing_runBatches⟩
  rw [runBatched, failed_mem_runBatches_iff, flatten_chunksOf]

/-- Work that fails for one number only. -/
def failingAt (bad n : Nat) : Except Unit Nat :=
  if n = bad then .error () else .ok n

/-- The last of 31 items fails first, and all the others still end after it, in reverse. -/
theorem largeBatch_runs_past_failure :
    runBatched 31 (failingAt 30) (List.range 31) =
      ((List.range 31).map .started ++ .failed 30 :: (List.range 30).reverse.map .ended,
        .error ()) := by
  rfl

/-- A batch of 30 items is left where the last of them fails. -/
example : (runBatched 30 (failingAt 29) (List.range 30)).1 =
    (List.range 30).map .started ++ (List.range 29).map .ended ++ [.failed 29] := by
  rfl

end StakeOracle
