import StakeOracle.Journal.Noted

/-!
# What a computation does to its state

What counts of a computation is the state after it, its answer, and the notes and calls on the way. They
follow the parts of the computation. What every item of a list keeps, going through the list keeps.
-/

namespace StakeOracle

/-- The state after a computation. -/
def after (act : StateT σ Noted α) (s : σ) : σ := (act s).result.2

/-- The answer of a computation. -/
def answer (act : StateT σ Noted α) (s : σ) : α := (act s).result.1

/-- A value that is given leaves the state as it is. -/
@[simp] theorem after_pure (a : α) (s : σ) : after (pure a : StateT σ Noted α) s = s := rfl

/-- A value that is given is the answer. -/
@[simp] theorem answer_pure (a : α) (s : σ) : answer (pure a : StateT σ Noted α) s = a := rfl

/-- The second part of a computation starts from the state that the first one left. -/
@[simp] theorem after_bind (act : StateT σ Noted α) (f : α → StateT σ Noted β) (s : σ) :
    after (act >>= f) s = after (f (answer act s)) (after act s) := rfl

/-- The answer of a computation in two parts is that of the second one, started from there. -/
@[simp] theorem answer_bind (act : StateT σ Noted α) (f : α → StateT σ Noted β) (s : σ) :
    answer (act >>= f) s = answer (f (answer act s)) (after act s) := rfl

/-- The notes of a computation in two parts. -/
theorem notes_run_bind (act : StateT σ Noted α) (f : α → StateT σ Noted β) (s : σ) :
    ((act >>= f) s).notes = (act s).notes ++ (f (answer act s) (after act s)).notes := rfl

/-- The calls of a computation in two parts. -/
theorem calls_bind (act : StateT σ Noted α) (f : α → StateT σ Noted β) (s : σ) :
    ((act >>= f) s).calls = (act s).calls ++ (f (answer act s) (after act s)).calls :=
  List.filterMap_append

/-- Looking at the state leaves it as it is. -/
@[simp] theorem after_get (s : σ) : after (get : StateT σ Noted σ) s = s := rfl

/-- What is seen there is the state. -/
@[simp] theorem answer_get (s : σ) : answer (get : StateT σ Noted σ) s = s := rfl

/-- A state that is set is the one that is left. -/
@[simp] theorem after_set (s next : σ) : after (set next : StateT σ Noted PUnit) s = next := rfl

/-- A state that is changed is left changed. -/
@[simp] theorem after_modify (f : σ → σ) (s : σ) :
    after (modify f : StateT σ Noted PUnit) s = f s := rfl

/-- Leaving notes leaves the state as it is. -/
@[simp] theorem after_lift (noted : Noted α) (s : σ) :
    after (StateT.lift noted : StateT σ Noted α) s = s := rfl

/-- Going through no items leaves the state as it is. -/
@[simp] theorem after_forM_nil (f : ι → StateT σ Noted PUnit) (s : σ) :
    after (([] : List ι).forM f) s = s := rfl

/-- Going through a list goes through the rest of it from where the first item ends. -/
@[simp] theorem after_forM_cons (f : ι → StateT σ Noted PUnit) (item : ι) (items : List ι) (s : σ) :
    after ((item :: items).forM f) s = after (items.forM f) (after (f item) s) := rfl

/-- Going through two lists in a row goes through the second from where the first one ends. -/
theorem after_forM_append (f : ι → StateT σ Noted PUnit) (first second : List ι) (s : σ) :
    after ((first ++ second).forM f) s = after (second.forM f) (after (first.forM f) s) := by
  induction first generalizing s with
  | nil => rfl
  | cons item first ih => exact ih (after (f item) s)

/-- What every item keeps, going through all items keeps. -/
theorem after_forM_induction {P : σ → Prop} {f : ι → StateT σ Noted PUnit} {s : σ} (items : List ι)
    (hstart : P s) (hstep : ∀ item s, P s → P (after (f item) s)) : P (after (items.forM f) s) := by
  induction items generalizing s with
  | nil =>
    rw [after_forM_nil]
    exact hstart
  | cons item items ih =>
    rw [after_forM_cons]
    exact ih (hstep item s hstart)

end StakeOracle
