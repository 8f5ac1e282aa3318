import Mathlib.Logic.Relation
import StakeOracle.Flight

/-!
# One guard in every group of flights

Flights that were copied from one another form a group. Whatever a script does with any number of
flights and guards, each group has at most one live guard, and a flight of the group can be taken
exactly while it has none. That a guard frees the lock without looking is safe for this reason: a lock
that is taken has one guard, so the one that frees it is the one that took it.
-/

namespace StakeOracle

/-! ## Entries of a list after one change -/

/-- An entry of a list with one more at its end is an old entry or the new one. -/
theorem getElem?_concat_eq_some_iff {α : Type} {items : List α} {last a : α} {i : Nat} :
    (items ++ [last])[i]? = some a ↔ items[i]? = some a ∨ i = items.length ∧ last = a := by
  obtain hi | rfl | hi := Nat.lt_trichotomy i items.length
  · have hne : i ≠ items.length := by omega
    simp [List.getElem?_append_left hi, hne]
  · simp
  · have hne : i ≠ items.length := by omega
    have hpast : (items ++ [last]).length ≤ i := by simpa using Nat.succ_le_of_lt hi
    simp [List.getElem?_eq_none hpast, List.getElem?_eq_none (Nat.le_of_lt hi), hne]

/-- What is left after an entry was emptied are the other entries. -/
theorem getElem?_set_none_eq_some_iff {α : Type} {items : List (Option α)} {a : α} {i j : Nat} :
    (items.set j none)[i]? = some (some a) ↔ i ≠ j ∧ items[i]? = some (some a) := by
  by_cases hsame : j = i
  · subst hsame
    simp [List.getElem?_set]
  · simp [List.getElem?_set_ne hsame, Ne.symm hsame]

/-! ## What a script made -/

/-- What a script made, told from its steps and their answers alone. -/
structure FlightRecord where
  /-- The flight that each flight was copied from, if it was copied. -/
  origins : List (Option Nat)
  /-- The flight that each guard was taken on; nothing once it was dropped, or when it got none. -/
  holders : List (Option Nat)

namespace FlightRecord

/-- One flight, which was not copied, and no guard. -/
def single : FlightRecord := ⟨[none], []⟩

/-- The record with one more flight. -/
def addFlight (record : FlightRecord) (origin : Option Nat) : FlightRecord :=
  { record with origins := record.origins ++ [origin] }

/-- The record after a step with its answer. -/
def note (record : FlightRecord) : FlightStep × Option Bool → FlightRecord
  | (.copy flight, _) =>
    if flight < record.origins.length then record.addFlight (some flight) else record
  | (.create, _) => record.addFlight none
  | (.acquire flight, answer) =>
    { record with
      holders := record.holders ++ [if answer = some true then some flight else none] }
  | (.drop guard, _) => { record with holders := record.holders.set guard none }
  | (.isRunning _, _) => record

/-- The record of a script that starts with one flight. -/
def ofScript (steps : List FlightStep) : FlightRecord :=
  (steps.zip (FlightBoard.single.run steps).2).foldl note single

/-- Two flights of one group: one comes from the other by copying, or both from a third. -/
def Kin (record : FlightRecord) : Nat → Nat → Prop :=
  Relation.EqvGen fun origin copied => record.origins[copied]? = some (some origin)

/-- A guard that was taken on a flight of the group and not dropped yet. -/
def Live (record : FlightRecord) (flight guard : Nat) : Prop :=
  ∃ holder, record.holders[guard]? = some (some holder) ∧ record.Kin holder flight

variable {record : FlightRecord}

/-- Flights of one group stay so when a flight is added. -/
theorem Kin.addFlight {a b : Nat} (h : record.Kin a b) (origin : Option Nat) :
    (record.addFlight origin).Kin a b :=
  Relation.EqvGen.mono (fun _ _ hcopied => getElem?_concat_eq_some_iff.mpr (.inl hcopied)) _ _ h

/-- A flight that was copied is in the group of the one that it was copied from. -/
theorem kin_addFlight (record : FlightRecord) (source : Nat) :
    (record.addFlight (some source)).Kin source record.origins.length :=
  .rel _ _ List.getElem?_concat_length

/-- Once a guard was dropped, the live guards are the others. -/
theorem live_note_drop {flight guard dropped : Nat} {answer : Option Bool} :
    (record.note (.drop dropped, answer)).Live flight guard ↔
      guard ≠ dropped ∧ record.Live flight guard := by
  simp [Live, note, getElem?_set_none_eq_some_iff, and_assoc, Kin]

end FlightRecord

namespace FlightBoard

variable {board : FlightBoard} {record : FlightRecord} {flight guard lock : Nat}

/-! ## What one step does -/

/-- A copy shares the lock of its flight, and a flight that does not exist has none. -/
theorem copy_cases (board : FlightBoard) (flight : Nat) :
    (∃ lock, board.flights[flight]? = some lock ∧
      board.copy flight = { board with flights := board.flights ++ [lock] }) ∨
    (board.flights[flight]? = none ∧ board.copy flight = board) := by
  cases hflight : board.flights[flight]? with
  | none => exact .inr ⟨rfl, by simp [copy, hflight]⟩
  | some lock => exact .inl ⟨lock, rfl, by simp [copy, hflight]⟩

/-- Either the lock of the flight is free, and then it is taken for the next guard, or the next
guard gets no lock and nothing else changes. -/
theorem acquire_cases (board : FlightBoard) (flight : Nat) :
    (∃ lock, board.flights[flight]? = some lock ∧ board.locks[lock]? = some ⟨false⟩ ∧
      board.acquire flight =
        ({ board with
          locks := board.locks.set lock ⟨true⟩
          guards := board.guards ++ [some lock] }, true)) ∨
    ((∀ lock, board.flights[flight]? = some lock → board.locks[lock]? ≠ some ⟨false⟩) ∧
      board.acquire flight = ({ board with guards := board.guards ++ [none] }, false)) := by
  cases hflight : board.flights[flight]? with
  | none => exact .inr ⟨by simp, by simp [acquire, hflight]⟩
  | some lock =>
    cases hlock : board.locks[lock]? with
    | none => exact .inr ⟨by simp [hlock], by simp [acquire, hflight, hlock]⟩
    | some state =>
      obtain ⟨busy⟩ := state
      cases busy with
      | true => exact .inr ⟨by simp [hlock], by simp [acquire, hflight, hlock, Flight.acquire?]⟩
      | false =>
        exact .inl ⟨lock, rfl, hlock, by simp [acquire, hflight, hlock, Flight.acquire?]⟩

/-- Either the guard holds a lock, which it frees and no longer holds, or nothing changes. -/
theorem drop_cases (board : FlightBoard) (guard : Nat) :
    (∃ lock, board.guards[guard]? = some (some lock) ∧
      board.drop guard =
        ({ board with
          locks := board.locks.modify lock Flight.release
          guards := board.guards.set guard none }, true)) ∨
    ((∀ lock, board.guards[guard]? ≠ some (some lock)) ∧ board.drop guard = (board, false)) := by
  rcases hguard : board.guards[guard]? with _ | _ | lock
  · exact .inr ⟨by simp, by simp [drop, hguard]⟩
  · exact .inr ⟨by simp, by simp [drop, hguard]⟩
  · exact .inl ⟨lock, rfl, by simp [drop, hguard]⟩

/-! ## Locks and the guards that hold them -/

/-- A lock that somebody has. -/
def Taken (board : FlightBoard) (lock : Nat) : Prop := board.locks[lock]? = some ⟨true⟩

/-- A guard that has a lock and was not dropped yet. -/
def Holds (board : FlightBoard) (guard lock : Nat) : Prop := board.guards[guard]? = some (some lock)

/-- An attempt to take a flight leaves the flights as they are. -/
@[simp] theorem flights_acquire : (board.acquire flight).1.flights = board.flights := by
  obtain ⟨lock, -, -, heq⟩ | ⟨-, heq⟩ := acquire_cases board flight <;> rw [heq]

/-- An attempt to take a flight adds no lock. -/
@[simp] theorem length_locks_acquire :
    (board.acquire flight).1.locks.length = board.locks.length := by
  obtain ⟨lock, -, -, heq⟩ | ⟨-, heq⟩ := acquire_cases board flight <;> simp [heq]

/-- An attempt adds one guard, whether or not it got the lock. -/
@[simp] theorem length_guards_acquire :
    (board.acquire flight).1.guards.length = board.guards.length + 1 := by
  obtain ⟨lock, -, -, heq⟩ | ⟨-, heq⟩ := acquire_cases board flight <;> simp [heq]

/-- Dropping a guard leaves the flights as they are. -/
@[simp] theorem flights_drop : (board.drop guard).1.flights = board.flights := by
  obtain ⟨lock, -, heq⟩ | ⟨-, heq⟩ := drop_cases board guard <;> rw [heq]

/-- Dropping a guard takes no lock away. -/
@[simp] theorem length_locks_drop : (board.drop guard).1.locks.length = board.locks.length := by
  obtain ⟨lock, -, heq⟩ | ⟨-, heq⟩ := drop_cases board guard <;> simp [heq]

/-- A guard that was dropped keeps its number. -/
@[simp] theorem length_guards_drop : (board.drop guard).1.guards.length = board.guards.length := by
  obtain ⟨lock, -, heq⟩ | ⟨-, heq⟩ := drop_cases board guard <;> simp [heq]

/-- A flight runs while somebody has its lock. -/
theorem isRunning_eq_true_iff : board.isRunning flight = true ↔
    ∃ lock, board.flights[flight]? = some lock ∧ board.Taken lock := by
  cases hflight : board.flights[flight]? with
  | none => simp [isRunning, hflight]
  | some lock =>
    cases hlock : board.locks[lock]? with
    | none => simp [isRunning, hflight, hlock, Taken]
    | some state => cases state; simp [isRunning, hflight, hlock, Taken]

/-- A flight is taken exactly when its lock is free. -/
theorem acquire_eq_true_iff : (board.acquire flight).2 = true ↔
    ∃ lock, board.flights[flight]? = some lock ∧ board.locks[lock]? = some ⟨false⟩ := by
  obtain ⟨lock, hflight, hfree, heq⟩ | ⟨hnone, heq⟩ := acquire_cases board flight
  · simp [heq, hflight, hfree]
  · simpa [heq] using hnone

/-- A guard is dropped exactly when it holds a lock. -/
theorem drop_eq_true_iff : (board.drop guard).2 = true ↔ ∃ lock, board.Holds guard lock := by
  obtain ⟨lock, hguard, heq⟩ | ⟨hnone, heq⟩ := drop_cases board guard
  · simp [heq, hguard, Holds]
  · simpa [heq, Holds] using hnone

/-- The guard of an attempt holds the lock of its flight, if the attempt got it. -/
theorem holds_acquire : (board.acquire flight).1.Holds guard lock ↔ board.Holds guard lock ∨
    guard = board.guards.length ∧ (board.acquire flight).2 = true ∧
      board.flights[flight]? = some lock := by
  obtain ⟨other, hflight, -, heq⟩ | ⟨-, heq⟩ := acquire_cases board flight
  · simp [heq, Holds, getElem?_concat_eq_some_iff, hflight]
  · simp [heq, Holds, getElem?_concat_eq_some_iff]

/-- The lock of a flight that was taken is the only one that somebody has anew. -/
theorem taken_acquire : (board.acquire flight).1.Taken lock ↔ board.Taken lock ∨
    (board.acquire flight).2 = true ∧ board.flights[flight]? = some lock := by
  obtain ⟨other, hflight, hfree, heq⟩ | ⟨-, heq⟩ := acquire_cases board flight
  · by_cases hsame : other = lock
    · subst hsame
      have hlt : other < board.locks.length := (List.getElem?_eq_some_iff.mp hfree).1
      simp [heq, Taken, List.getElem?_set_self hlt, hflight]
    · simp [heq, Taken, List.getElem?_set_ne hsame, hflight, hsame]
  · simp [heq, Taken]

/-- Every guard but the dropped one holds what it held. -/
theorem holds_drop {dropped : Nat} : (board.drop dropped).1.Holds guard lock ↔
    guard ≠ dropped ∧ board.Holds guard lock := by
  obtain ⟨other, hguard, heq⟩ | ⟨hnone, heq⟩ := drop_cases board dropped
  · rw [heq]
    exact getElem?_set_none_eq_some_iff
  · rw [heq]
    exact ⟨fun h => ⟨fun hsame => hnone lock (hsame ▸ h), h⟩, And.right⟩

/-- Dropping a guard frees the lock that it held and no other. -/
theorem taken_drop : (board.drop guard).1.Taken lock ↔
    board.Taken lock ∧ ¬ board.Holds guard lock := by
  obtain ⟨other, hguard, heq⟩ | ⟨hnone, heq⟩ := drop_cases board guard
  · by_cases hsame : other = lock
    · subst hsame
      simp [heq, Taken, Holds, hguard, Flight.release, Flight.free]
    · simp [heq, Taken, Holds, hguard, hsame]
  · rw [heq]
    exact (and_iff_left (hnone lock)).symm

/-- A lock is taken exactly when a guard holds it, and then one guard does. -/
structure GuardsHold (board : FlightBoard) : Prop where
  lock_lt : ∀ {flight lock : Nat}, board.flights[flight]? = some lock → lock < board.locks.length
  taken_iff : ∀ {lock : Nat}, board.Taken lock ↔ ∃ guard, board.Holds guard lock
  unique : ∀ {g h lock : Nat}, board.Holds g lock → board.Holds h lock → g = h

/-- In the beginning there is one flight with one lock. -/
theorem eq_zero_of_flights_single (h : single.flights[flight]? = some lock) :
    flight = 0 ∧ lock = 0 := by
  cases flight <;> simp_all [single]

/-- In the beginning no lock is taken and no guard holds one. -/
theorem guardsHold_single : single.GuardsHold where
  lock_lt h := by
    rw [(eq_zero_of_flights_single h).2]
    decide
  taken_iff {lock} := by cases lock <;> simp [single, Flight.free, Holds, Taken]
  unique hg := by simp [single, Holds] at hg

namespace GuardsHold

/-- A flight is taken exactly when it exists and nobody has its lock. -/
theorem acquire_eq_true_iff (h : board.GuardsHold) : (board.acquire flight).2 = true ↔
    ∃ lock, board.flights[flight]? = some lock ∧ ¬ board.Taken lock := by
  rw [FlightBoard.acquire_eq_true_iff]
  refine exists_congr fun lock => and_congr_right fun hflight => ?_
  obtain ⟨busy, hlock⟩ : ∃ busy, board.locks[lock]? = some ⟨busy⟩ :=
    ⟨_, List.getElem?_eq_getElem (h.lock_lt hflight)⟩
  cases busy <;> simp [Taken, hlock]

/-- A copy brings no lock of its own. -/
theorem copy (h : board.GuardsHold) (flight : Nat) : (board.copy flight).GuardsHold := by
  obtain ⟨lock, hflight, heq⟩ | ⟨-, heq⟩ := copy_cases board flight
  · rw [heq]
    refine ⟨fun hother => ?_, h.taken_iff, h.unique⟩
    obtain hold | ⟨-, rfl⟩ := getElem?_concat_eq_some_iff.mp hother
    · exact h.lock_lt hold
    · exact h.lock_lt hflight
  · rwa [heq]

/-- A flight that is made anew has a lock that nobody has. -/
theorem create (h : board.GuardsHold) : board.create.GuardsHold where
  lock_lt {_ lock} hflight := by
    have hlength : board.create.locks.length = board.locks.length + 1 := by
      simp [FlightBoard.create]
    obtain hold | ⟨-, rfl⟩ := getElem?_concat_eq_some_iff.mp hflight
    · have hlt := h.lock_lt hold
      omega
    · omega
  taken_iff {lock} := by
    refine (getElem?_concat_eq_some_iff.trans (or_iff_left ?_)).trans h.taken_iff
    simp [Flight.free]
  unique := h.unique

/-- A lock that is taken is held by the new guard alone. -/
theorem acquire (h : board.GuardsHold) (flight : Nat) : (board.acquire flight).1.GuardsHold where
  lock_lt hother := by simpa using h.lock_lt (flights_acquire ▸ hother)
  taken_iff {lock} := by
    simp only [taken_acquire, holds_acquire, exists_or, exists_eq_left, h.taken_iff]
  unique {g g' lock} hg hg' := by
    -- no guard holds a lock that is free, so the new guard is alone
    have halone : ∀ old, (board.acquire flight).2 = true → board.flights[flight]? = some lock →
        ¬ board.Holds old lock := by
      intro old htaken hflight hold
      obtain ⟨free, hfree, huntaken⟩ := h.acquire_eq_true_iff.mp htaken
      obtain rfl : lock = free := Option.some.inj (hflight.symm.trans hfree)
      exact huntaken (h.taken_iff.mpr ⟨old, hold⟩)
    obtain hold | ⟨rfl, hnew⟩ := holds_acquire.mp hg <;>
      obtain hold' | ⟨rfl, hnew'⟩ := holds_acquire.mp hg'
    · exact h.unique hold hold'
    · exact absurd hold (halone g hnew'.1 hnew'.2)
    · exact absurd hold' (halone g' hnew.1 hnew.2)
    · rfl

/-- A lock that is freed is held by no guard. -/
theorem drop (h : board.GuardsHold) (guard : Nat) : (board.drop guard).1.GuardsHold where
  lock_lt hother := by simpa using h.lock_lt (flights_drop ▸ hother)
  taken_iff {lock} := by
    -- the guard that is dropped was alone on its lock, so the lock is free afterwards
    simp only [taken_drop, holds_drop, h.taken_iff]
    constructor
    · rintro ⟨⟨g, hg⟩, hother⟩
      exact ⟨g, fun hsame => hother (hsame ▸ hg), hg⟩
    · rintro ⟨g, hne, hg⟩
      exact ⟨⟨g, hg⟩, fun hother => hne (h.unique hg hother)⟩
  unique hg hg' := h.unique (holds_drop.mp hg).2 (holds_drop.mp hg').2

/-- Every step keeps each taken lock with its one guard. -/
theorem step (h : board.GuardsHold) (step : FlightStep) : (board.step step).1.GuardsHold := by
  cases step with
  | copy flight => exact h.copy flight
  | create => exact h.create
  | acquire flight => exact h.acquire flight
  | drop guard => exact h.drop guard
  | isRunning _ => exact h

/-- Every script keeps each taken lock with its one guard. -/
theorem run (h : board.GuardsHold) (steps : List FlightStep) : (board.run steps).1.GuardsHold := by
  induction steps generalizing board with
  | nil => exact h
  | cons step rest ih => exact ih (h.step step)

end GuardsHold

/-! ## The record of a board -/

/-- A record that is true of a board: its groups are the flights with one lock, and its guards hold the
locks of the flights that they were taken on. -/
structure Recorded (board : FlightBoard) (record : FlightRecord) : Prop where
  length_flights : board.flights.length = record.origins.length
  length_guards : board.guards.length = record.holders.length
  lock_of_origin : ∀ {origin copied : Nat}, record.origins[copied]? = some (some origin) →
    board.flights[origin]? = board.flights[copied]?
  kin_of_lock : ∀ {a b lock : Nat}, board.flights[a]? = some lock → board.flights[b]? = some lock →
    record.Kin a b
  holds_iff : ∀ {guard lock : Nat}, board.Holds guard lock ↔
    ∃ holder, record.holders[guard]? = some (some holder) ∧ board.flights[holder]? = some lock
  holder_lt : ∀ {guard holder : Nat}, record.holders[guard]? = some (some holder) →
    holder < board.flights.length

/-- The first record is true of a board with one flight. -/
theorem recorded_single : single.Recorded .single where
  length_flights := rfl
  length_guards := rfl
  lock_of_origin {_ copied} h := by cases copied <;> simp [FlightRecord.single] at h
  kin_of_lock ha hb := by
    rw [(eq_zero_of_flights_single ha).1, (eq_zero_of_flights_single hb).1]
    exact .refl 0
  holds_iff := by simp [single, FlightRecord.single, Holds]
  holder_lt h := by simp [FlightRecord.single] at h

namespace Recorded

/-- The flights of one group share their lock. -/
theorem lock_of_kin (h : board.Recorded record) {a b : Nat} (hkin : record.Kin a b) :
    board.flights[a]? = board.flights[b]? := by
  induction hkin with
  | rel origin copied hcopied => exact h.lock_of_origin hcopied
  | refl => rfl
  | symm _ _ _ ih => exact ih.symm
  | trans _ _ _ _ _ ih ih' => exact ih.trans ih'

/-- The live guards of a group are those that hold its lock. -/
theorem live_iff (h : board.Recorded record) : record.Live flight guard ↔
    ∃ lock, board.flights[flight]? = some lock ∧ board.Holds guard lock := by
  constructor
  · rintro ⟨holder, hholder, hkin⟩
    have hlock := List.getElem?_eq_getElem (h.holder_lt hholder)
    exact ⟨_, (h.lock_of_kin hkin).symm.trans hlock, h.holds_iff.mpr ⟨holder, hholder, hlock⟩⟩
  · rintro ⟨lock, hflight, hguard⟩
    obtain ⟨holder, hholder, hlock⟩ := h.holds_iff.mp hguard
    exact ⟨holder, hholder, h.kin_of_lock hlock hflight⟩

/-- A flight that is added belongs to the group of the flight that it was copied from, which has its
lock, or else to a group of its own. -/
theorem addFlight {locks : List Flight} {origin : Option Nat} (h : board.Recorded record)
    (hcopied : ∀ source, origin = some source → board.flights[source]? = some lock)
    (hnew : origin = none → ∀ source : Nat, board.flights[source]? ≠ some lock) :
    Recorded { board with locks := locks, flights := board.flights ++ [lock] }
      (record.addFlight origin) := by
  have hkeep : ∀ {old l : Nat}, board.flights[old]? = some l →
      (board.flights ++ [lock])[old]? = some l :=
    fun hold => getElem?_concat_eq_some_iff.mpr (.inl hold)
  -- whoever has the lock of the new flight is of the group of its origin
  have hkin : ∀ old, board.flights[old]? = some lock →
      (record.addFlight origin).Kin old board.flights.length := by
    intro old hold
    cases origin with
    | none => exact absurd hold (hnew rfl old)
    | some source =>
      have hsource := (h.kin_of_lock hold (hcopied source rfl)).addFlight (some source)
      exact .trans _ _ _ hsource (h.length_flights ▸ FlightRecord.kin_addFlight record source)
  refine ⟨by simp [FlightRecord.addFlight, h.length_flights], h.length_guards,
    fun {source copied} hedge => ?_, fun ha hb => ?_,
    h.holds_iff.trans <| exists_congr fun holder => and_congr_right fun hholder => ?_,
    fun hholder => by simpa using Nat.lt_succ_of_lt (h.holder_lt hholder)⟩
  · obtain hold | ⟨rfl, horigin⟩ := getElem?_concat_eq_some_iff.mp hedge
    · have hlt : copied < board.flights.length :=
        h.length_flights ▸ (List.getElem?_eq_some_iff.mp hold).1
      have hlock := List.getElem?_eq_getElem hlt
      exact (hkeep ((h.lock_of_origin hold).trans hlock)).trans (hkeep hlock).symm
    · rw [hkeep (hcopied source horigin), ← h.length_flights, List.getElem?_concat_length]
  · obtain ha | ⟨rfl, rfl⟩ := getElem?_concat_eq_some_iff.mp ha <;>
      obtain hb | ⟨rfl, hlock⟩ := getElem?_concat_eq_some_iff.mp hb
    · exact (h.kin_of_lock ha hb).addFlight origin
    · exact hkin _ (hlock ▸ ha)
    · exact .symm _ _ (hkin _ hb)
    · exact .refl _
  · rw [List.getElem?_append_left (h.holder_lt hholder)]

/-- The record of a copy is true of the board after it. -/
theorem copy (h : board.Recorded record) (flight : Nat) (answer : Option Bool) :
    (board.copy flight).Recorded (record.note (.copy flight, answer)) := by
  obtain ⟨lock, hflight, heq⟩ | ⟨hnone, heq⟩ := copy_cases board flight
  · have hlt := (List.getElem?_eq_some_iff.mp hflight).1
    rw [heq, FlightRecord.note, if_pos (h.length_flights ▸ hlt)]
    exact h.addFlight (fun source hsource => Option.some.inj hsource ▸ hflight) (by simp)
  · have hge := List.getElem?_eq_none_iff.mp hnone
    rwa [heq, FlightRecord.note, if_neg (h.length_flights ▸ Nat.not_lt.mpr hge)]

/-- The record of a new flight is true of the board after it. -/
theorem create (h : board.Recorded record) (hguards : board.GuardsHold) (answer : Option Bool) :
    board.create.Recorded (record.note (.create, answer)) :=
  h.addFlight (by simp) fun _ _ hsource => Nat.lt_irrefl _ (hguards.lock_lt hsource)

/-- The record of an attempt and its answer is true of the board after it. -/
theorem acquire (h : board.Recorded record) (flight : Nat) :
    (board.acquire flight).1.Recorded
      (record.note (.acquire flight, some (board.acquire flight).2)) where
  length_flights := flights_acquire.symm ▸ h.length_flights
  length_guards := by simpa [FlightRecord.note] using h.length_guards
  lock_of_origin hedge := flights_acquire.symm ▸ h.lock_of_origin hedge
  kin_of_lock ha hb := h.kin_of_lock (flights_acquire ▸ ha) (flights_acquire ▸ hb)
  holds_iff {guard lock} := by
    rw [holds_acquire, h.holds_iff, h.length_guards, flights_acquire]
    simp [FlightRecord.note, getElem?_concat_eq_some_iff, or_and_right, exists_or, and_assoc]
  holder_lt {guard holder} hholder := by
    rw [flights_acquire]
    obtain hkept | ⟨-, hnew⟩ := getElem?_concat_eq_some_iff.mp hholder
    · exact h.holder_lt hkept
    · obtain ⟨htaken, rfl⟩ : (board.acquire flight).2 = true ∧ flight = holder := by simpa using hnew
      obtain ⟨lock, hflight, -⟩ := acquire_eq_true_iff.mp htaken
      exact (List.getElem?_eq_some_iff.mp hflight).1

/-- The record of a dropped guard is true of the board after it. -/
theorem drop (h : board.Recorded record) (guard : Nat) (answer : Option Bool) :
    (board.drop guard).1.Recorded (record.note (.drop guard, answer)) where
  length_flights := flights_drop.symm ▸ h.length_flights
  length_guards := by simpa [FlightRecord.note] using h.length_guards
  lock_of_origin hedge := flights_drop.symm ▸ h.lock_of_origin hedge
  kin_of_lock ha hb := h.kin_of_lock (flights_drop ▸ ha) (flights_drop ▸ hb)
  holds_iff {g lock} := by
    rw [holds_drop, h.holds_iff, flights_drop]
    simp [FlightRecord.note, getElem?_set_none_eq_some_iff, and_assoc]
  holder_lt hholder :=
    flights_drop.symm ▸ h.holder_lt (getElem?_set_none_eq_some_iff.mp hholder).2

/-- The record of a step and its answer is true of the board after it. -/
theorem step (h : board.Recorded record) (hguards : board.GuardsHold) (step : FlightStep) :
    (board.step step).1.Recorded (record.note (step, (board.step step).2)) := by
  cases step with
  | copy flight => exact h.copy flight none
  | create => exact h.create hguards none
  | acquire flight => exact h.acquire flight
  | drop guard => exact h.drop guard _
  | isRunning _ => exact h

/-- The record of a script is true of the board at its end. -/
theorem run (h : board.Recorded record) (hguards : board.GuardsHold) (steps : List FlightStep) :
    (board.run steps).1.Recorded ((steps.zip (board.run steps).2).foldl FlightRecord.note record) := by
  induction steps generalizing board record with
  | nil => exact h
  | cons step rest ih => exact ih (h.step hguards step) (hguards.step step)

/-! ### What the record tells about the board -/

/-- A group has at most one live guard. -/
theorem eq_of_live (h : board.Recorded record) (hguards : board.GuardsHold) {other : Nat}
    (hlive : record.Live flight guard) (hother : record.Live flight other) : guard = other := by
  obtain ⟨lock, hflight, hguard⟩ := h.live_iff.mp hlive
  obtain ⟨lock', hflight', hguard'⟩ := h.live_iff.mp hother
  obtain rfl : lock = lock' := Option.some.inj (hflight.symm.trans hflight')
  exact hguards.unique hguard hguard'

/-- A flight runs exactly while its group has a live guard. -/
theorem isRunning_iff (h : board.Recorded record) (hguards : board.GuardsHold) :
    board.isRunning flight = true ↔ ∃ guard, record.Live flight guard := by
  simp only [isRunning_eq_true_iff, hguards.taken_iff, h.live_iff]
  exact ⟨fun ⟨lock, hflight, guard, hguard⟩ => ⟨guard, lock, hflight, hguard⟩,
    fun ⟨guard, lock, hflight, hguard⟩ => ⟨lock, hflight, guard, hguard⟩⟩

/-- A flight can be taken exactly while its group has no live guard. -/
theorem acquire_iff (h : board.Recorded record) (hguards : board.GuardsHold) :
    (board.acquire flight).2 = true ↔
      flight < record.origins.length ∧ ∀ guard, ¬ record.Live flight guard := by
  rw [hguards.acquire_eq_true_iff, ← h.length_flights, ← not_exists, ← h.isRunning_iff hguards,
    isRunning_eq_true_iff]
  constructor
  · rintro ⟨lock, hflight, hfree⟩
    refine ⟨(List.getElem?_eq_some_iff.mp hflight).1, fun ⟨lock', hflight', htaken⟩ => hfree ?_⟩
    rwa [Option.some.inj (hflight.symm.trans hflight')]
  · rintro ⟨hlt, hfree⟩
    have hlock := List.getElem?_eq_getElem hlt
    exact ⟨_, hlock, fun htaken => hfree ⟨_, hlock, htaken⟩⟩

/-- Dropping a guard ends the flights of its group and no others. -/
theorem isRunning_drop_iff (h : board.Recorded record) (hguards : board.GuardsHold) :
    (board.drop guard).1.isRunning flight = true ↔
      board.isRunning flight = true ∧ ¬ record.Live flight guard := by
  rw [(h.drop guard none).isRunning_iff (hguards.drop guard), h.isRunning_iff hguards]
  simp only [FlightRecord.live_note_drop]
  constructor
  · rintro ⟨other, hne, hother⟩
    exact ⟨⟨other, hother⟩, fun hlive => hne (h.eq_of_live hguards hother hlive)⟩
  · rintro ⟨⟨other, hother⟩, hlive⟩
    exact ⟨other, fun hsame => hlive (hsame ▸ hother), hother⟩

/-- A guard can be dropped exactly while it is live. -/
theorem drop_iff (h : board.Recorded record) :
    (board.drop guard).2 = true ↔ ∃ flight, record.Live flight guard := by
  simp only [drop_eq_true_iff, h.live_iff]
  constructor
  · rintro ⟨lock, hguard⟩
    obtain ⟨holder, -, hlock⟩ := h.holds_iff.mp hguard
    exact ⟨holder, lock, hlock, hguard⟩
  · rintro ⟨flight, lock, -, hguard⟩
    exact ⟨lock, hguard⟩

end Recorded

/-! ## Guards that were dropped -/

/-- A script in two parts runs the second one on the board that the first one left. -/
theorem run_append (board : FlightBoard) (steps rest : List FlightStep) :
    (board.run (steps ++ rest)).1 = ((board.run steps).1.run rest).1 := by
  induction steps generalizing board with
  | nil => rfl
  | cons step steps ih => exact ih (board.step step).1

/-- A guard that was dropped stays so. -/
theorem getElem?_guards_step (h : board.guards[guard]? = some none) (step : FlightStep) :
    (board.step step).1.guards[guard]? = some none := by
  cases step with
  | copy flight =>
    obtain ⟨lock, -, heq⟩ | ⟨-, heq⟩ := copy_cases board flight <;> rwa [FlightBoard.step, heq]
  | create => exact h
  | acquire flight =>
    obtain ⟨lock, -, -, heq⟩ | ⟨-, heq⟩ := acquire_cases board flight <;>
      simpa only [FlightBoard.step, heq] using getElem?_concat_eq_some_iff.mpr (.inl h)
  | drop dropped =>
    obtain ⟨lock, hguard, heq⟩ | ⟨-, heq⟩ := drop_cases board dropped
    · have hne : dropped ≠ guard := by
        rintro rfl
        simp [h] at hguard
      simpa only [FlightBoard.step, heq] using (List.getElem?_set_ne hne).trans h
    · rwa [FlightBoard.step, heq]
  | isRunning flight => exact h

/-- A guard that was dropped stays so through every script. -/
theorem getElem?_guards_run (h : board.guards[guard]? = some none) (steps : List FlightStep) :
    (board.run steps).1.guards[guard]? = some none := by
  induction steps generalizing board with
  | nil => exact h
  | cons step rest ih => exact ih (getElem?_guards_step h step)

/-- Dropping a guard a second time does nothing, whatever was done in between. -/
theorem drop_run_drop (h : board.Holds guard lock) (rest : List FlightStep) :
    ((board.drop guard).1.run rest).1.drop guard = (((board.drop guard).1.run rest).1, false) := by
  have hdropped : (board.drop guard).1.guards[guard]? = some none := by
    obtain ⟨other, -, heq⟩ | ⟨hnone, -⟩ := drop_cases board guard
    · rw [heq]
      exact List.getElem?_set_self (List.getElem?_eq_some_iff.mp h).1
    · exact absurd h (hnone lock)
  have hlater := getElem?_guards_run hdropped rest
  obtain ⟨other, hguard, -⟩ | ⟨-, heq⟩ := drop_cases ((board.drop guard).1.run rest).1 guard
  · simp [hlater] at hguard
  · exact heq

/-- After every script, each group of flights has at most one live guard, one of its flights can be
taken exactly when it has none, and runs exactly when it has one. A guard can be dropped exactly while it
is live. That ends the flight of its group and no other, and dropping it again later changes nothing. -/
theorem one_guard_in_every_group (steps : List FlightStep) :
    let board := (single.run steps).1
    let record := FlightRecord.ofScript steps
    (∀ flight g h, record.Live flight g → record.Live flight h → g = h) ∧
    (∀ flight, (board.step (.acquire flight)).2 = some true ↔
      flight < record.origins.length ∧ ∀ guard, ¬ record.Live flight guard) ∧
    (∀ flight, (board.step (.isRunning flight)).2 = some true ↔
      ∃ guard, record.Live flight guard) ∧
    (∀ guard, (board.step (.drop guard)).2 = some true ↔ ∃ flight, record.Live flight guard) ∧
    (∀ guard flight, ((board.step (.drop guard)).1.step (.isRunning flight)).2 = some true ↔
      (board.step (.isRunning flight)).2 = some true ∧ ¬ record.Live flight guard) ∧
    ∀ flight guard rest, record.Live flight guard →
      let later := (single.run (steps ++ .drop guard :: rest)).1
      later.step (.drop guard) = (later, some false) := by
  intro board record
  have hguards : board.GuardsHold := guardsHold_single.run steps
  have hrecord : board.Recorded record := recorded_single.run guardsHold_single steps
  simp only [step, Option.some.injEq]
  refine ⟨fun _ _ _ => hrecord.eq_of_live hguards, fun _ => hrecord.acquire_iff hguards,
    fun _ => hrecord.isRunning_iff hguards, fun _ => hrecord.drop_iff,
    fun _ _ => hrecord.isRunning_drop_iff hguards, fun flight guard rest hlive => ?_⟩
  obtain ⟨lock, -, hguard⟩ := hrecord.live_iff.mp hlive
  have hlater : (single.run (steps ++ .drop guard :: rest)).1 = ((board.drop guard).1.run rest).1 :=
    run_append single steps _
  rw [hlater, drop_run_drop hguard rest]

/-- A guard that was taken on a copy is the only one of its original. After it was dropped, dropping it
again spares the guard that was taken in between. -/
theorem second_drop_spares_next_guard :
    let record := FlightRecord.ofScript [.copy 0, .acquire 1]
    let later := (single.run [.copy 0, .acquire 1, .drop 0, .acquire 0]).1
    record.Live 0 0 ∧ (∀ guard, record.Live 0 guard → guard = 0) ∧
      later.step (.drop 0) = (later, some false) ∧ later.isRunning 1 = true := by
  intro record later
  have hlive : record.Live 0 0 := ⟨1, rfl, .symm _ _ (.rel _ _ rfl)⟩
  obtain ⟨honly, -, -, -, -, hagain⟩ := one_guard_in_every_group [.copy 0, .acquire 1]
  have htwice : later.step (.drop 0) = (later, some false) := hagain 0 0 [.acquire 0] hlive
  exact ⟨hlive, fun guard hguard => honly 0 guard 0 hguard hlive, htwice, rfl⟩

end FlightBoard

end StakeOracle
