import Mathlib.Data.List.Forall2
import StakeOracle.Batch

/-!
# Batches, and work that stops at its first failure

A list is cut into no more batches than it takes. Work on the items of a list, one after another, is
done when the work on every item is done. It fails exactly when some item fails and the work on all
items before it is done, and then with the failure of that item.
-/

namespace StakeOracle

/-- A list is cut into as many batches as it takes when all but the last are full. -/
theorem length_chunksOf {size : Nat} (hsize : 0 < size) (items : List α) :
    (chunksOf size items).length = (items.length + size - 1) / size := by
  suffices h : ∀ (runs : Nat) (rest : List α), rest.length ≤ runs →
      (chunksOf.cut size runs rest).length = (rest.length + size - 1) / size from
    h _ _ (Nat.le_refl _)
  intro runs
  induction runs with
  | zero =>
    intro rest hlen
    rw [chunksOf.cut, List.length_nil, Nat.div_eq_of_lt (by omega)]
  | succ runs ih =>
    intro rest hlen
    cases rest with
    | nil =>
      have hnone : 0 + size - 1 < size := by omega
      exact (Nat.div_eq_of_lt hnone).symm
    | cons item rest =>
      have hmax : max 1 size = size := by omega
      have hrest : ((item :: rest).drop size).length = rest.length + 1 - size := List.length_drop
      rw [List.length_cons] at hlen
      rw [chunksOf.cut, List.length_cons, hmax, ih _ (by omega), hrest, List.length_cons,
        show rest.length + 1 + size - 1 = rest.length + size by omega, Nat.add_div_right _ hsize]
      -- The rest of a batch that is not full is empty, and counts for none.
      rcases Nat.lt_or_ge rest.length size with hlast | hfull
      · rw [Nat.div_eq_of_lt (by omega), Nat.div_eq_of_lt hlast]
      · rw [show rest.length + 1 - size + size - 1 = rest.length by omega]

/-- Every batch before another one is full. -/
theorem length_of_before_chunk {size : Nat} {items batch : List α} {earlier later : List (List α)}
    (h : chunksOf size items = earlier ++ batch :: later) :
    ∀ full ∈ earlier, full.length = max 1 size := by
  suffices hcut : ∀ (runs : Nat) (rest : List α),
      chunksOf.cut size runs rest = earlier ++ batch :: later →
        ∀ full ∈ earlier, full.length = max 1 size from hcut _ _ h
  clear h
  induction earlier with
  | nil => intro runs rest _ full hfull; cases hfull
  | cons first earlier ih =>
    intro runs rest h
    match runs, rest, h with
    | runs + 1, item :: rest, h =>
      rw [chunksOf.cut, List.cons_append] at h
      obtain ⟨rfl, hrest⟩ := List.cons.inj h
      refine List.forall_mem_cons.mpr ⟨?_, ih _ _ hrest⟩
      -- Another batch follows, so the first has left something over.
      have hleft : max 1 size < (item :: rest).length := by
        by_contra hshort
        rw [List.drop_eq_nil_iff.mpr (Nat.not_lt.mp hshort)] at hrest
        cases runs <;> simp [chunksOf.cut] at hrest
      exact List.length_take_of_le (Nat.le_of_lt hleft)

/-- Every batch before another one is full. -/
theorem length_flatten_before_chunk {size : Nat} {items batch : List α} {earlier later : List (List α)}
    (h : chunksOf size items = earlier ++ batch :: later) :
    earlier.flatten.length = earlier.length * max 1 size := by
  rw [List.length_flatten, List.map_eq_replicate_iff.mpr (length_of_before_chunk h),
    List.sum_replicate_nat]

/-- Work in two parts is done exactly when both parts are. -/
theorem bind_eq_ok {x : Except ε α} {f : α → Except ε β} {b : β} :
    x >>= f = .ok b ↔ ∃ a, x = .ok a ∧ f a = .ok b := by
  cases x <;> simp [bind, Except.bind]

/-- Work in two parts fails when its first part fails, or the second once the first is done. -/
theorem bind_eq_error {x : Except ε α} {f : α → Except ε β} {e : ε} :
    x >>= f = .error e ↔ x = .error e ∨ ∃ a, x = .ok a ∧ f a = .error e := by
  cases x <;> simp [bind, Except.bind]

variable {work : α → Except ε β}

/-- A list is worked through when its first item is and the others are. -/
theorem mapM_cons_eq_ok {item : α} {rest : List α} {results : List β} :
    (item :: rest).mapM work = .ok results ↔
      ∃ b later, work item = .ok b ∧ rest.mapM work = .ok later ∧ results = b :: later := by
  rw [List.mapM_cons, bind_eq_ok]
  constructor
  · rintro ⟨b, hb, h⟩
    obtain ⟨later, hlater, h⟩ := bind_eq_ok.mp h
    exact ⟨b, later, hb, hlater, (Except.ok.inj h).symm⟩
  · rintro ⟨b, later, hb, hlater, rfl⟩
    exact ⟨b, hb, bind_eq_ok.mpr ⟨later, hlater, rfl⟩⟩

/-- The work on a list fails on its first item, or on one of the others after that. -/
theorem mapM_cons_eq_error {item : α} {rest : List α} {e : ε} :
    (item :: rest).mapM work = .error e ↔
      work item = .error e ∨ ∃ b, work item = .ok b ∧ rest.mapM work = .error e := by
  rw [List.mapM_cons, bind_eq_error]
  refine or_congr_right (exists_congr fun b => and_congr_right fun _ => ?_)
  rw [bind_eq_error]
  refine or_iff_left ?_
  rintro ⟨later, -, h⟩
  cases h

/-- The work on a list is done when the work on every item is. -/
theorem mapM_eq_ok_iff {items : List α} {results : List β} :
    items.mapM work = .ok results ↔ List.Forall₂ (fun item b => work item = .ok b) items results := by
  induction items generalizing results with
  | nil =>
    rw [List.mapM_nil, List.forall₂_nil_left_iff]
    exact ⟨fun h => (Except.ok.inj h).symm, fun h => h ▸ rfl⟩
  | cons item rest ih =>
    rw [mapM_cons_eq_ok, List.forall₂_cons_left_iff]
    simp only [ih, exists_and_left]

/-- The work on every item of a list is done. -/
def Done (work : α → Except ε β) (items : List α) : Prop :=
  ∀ item ∈ items, ∃ b, work item = .ok b

/-- A list is worked through exactly when the work on every item is done. -/
theorem exists_mapM_eq_ok_iff {items : List α} :
    (∃ results, items.mapM work = .ok results) ↔ Done work items := by
  constructor
  · rintro ⟨results, h⟩
    induction mapM_eq_ok_iff.mp h with
    | nil => exact List.forall_mem_nil _
    | cons hb hrest ih => exact List.forall_mem_cons.mpr ⟨⟨_, hb⟩, ih (mapM_eq_ok_iff.mpr hrest)⟩
  · intro h
    induction items with
    | nil => exact ⟨[], rfl⟩
    | cons item rest ih =>
      obtain ⟨⟨b, hb⟩, hrest⟩ := List.forall_mem_cons.mp h
      obtain ⟨later, hlater⟩ := ih hrest
      exact ⟨b :: later, mapM_cons_eq_ok.mpr ⟨b, later, hb, hlater, rfl⟩⟩

/-- The work on a list fails with the failure of the first item that fails. -/
theorem mapM_eq_error_iff {items : List α} {e : ε} :
    items.mapM work = .error e ↔ ∃ earlier item later, items = earlier ++ item :: later ∧
      (∀ done ∈ earlier, ∃ b, work done = .ok b) ∧ work item = .error e := by
  induction items with
  | nil =>
    rw [List.mapM_nil]
    constructor
    · intro h
      cases h
    · rintro ⟨earlier, item, later, h, -⟩
      simp at h
  | cons first rest ih =>
    rw [mapM_cons_eq_error, ih]
    constructor
    · rintro (h | ⟨b, hb, earlier, item, later, rfl, hearlier, h⟩)
      · exact ⟨[], first, rest, rfl, by simp, h⟩
      · exact ⟨first :: earlier, item, later, rfl, List.forall_mem_cons.mpr ⟨⟨b, hb⟩, hearlier⟩, h⟩
    · rintro ⟨earlier, item, later, hsplit, hearlier, h⟩
      cases earlier with
      | nil =>
        obtain ⟨rfl, rfl⟩ := List.cons.inj hsplit
        exact .inl h
      | cons done earlier =>
        obtain ⟨rfl, rfl⟩ := List.cons.inj hsplit
        obtain ⟨⟨b, hb⟩, hearlier⟩ := List.forall_mem_cons.mp hearlier
        exact .inr ⟨b, hb, earlier, item, later, rfl, hearlier, h⟩

/-- Work that comes to the same on every item of a list comes to the same on the list. -/
theorem mapM_congr {other : α → Except ε β} {items : List α}
    (h : ∀ item ∈ items, work item = other item) : items.mapM work = items.mapM other := by
  induction items with
  | nil => rfl
  | cons item rest ih =>
    obtain ⟨hitem, hrest⟩ := List.forall_mem_cons.mp h
    rw [List.mapM_cons, List.mapM_cons, hitem, ih hrest]

end StakeOracle
