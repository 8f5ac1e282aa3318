import StakeOracle.Text.Reader

/-!
# What readers read

A reader reads a language: whatever it takes off the front of a text is in the language, and a text
of the language is taken whole as long as what follows does not carry it on. Readers are put together
from smaller ones, and so are their languages.
-/

namespace StakeOracle.Reader

variable {α β : Type} {reader : Reader α} {text rest : List Char}

/-! ## Steps of a reader -/

/-- A reader has an answer on a text, and this is left of the text. -/
def Takes (reader : Reader α) (text : List Char) (a : α) (rest : List Char) : Prop :=
  StateT.run reader text = some (a, rest)

/-- A reader refuses a text. -/
def Refuses (reader : Reader α) (text : List Char) : Prop := StateT.run reader text = none

/-- A reader refuses a text when it has no answer on it. -/
theorem refuses_iff : Refuses reader text ↔ ∀ a rest, ¬ Takes reader text a rest := by
  rw [Refuses, Option.eq_none_iff_forall_ne_some]
  exact Prod.forall

/-- A reader in two parts goes on where the first part stopped. -/
theorem takes_bind_iff {next : α → Reader β} {b : β} : Takes (reader >>= next) text b rest ↔
    ∃ a middle, Takes reader text a middle ∧ Takes (next a) middle b rest := by
  rw [Takes, StateT.run_bind]
  exact Option.bind_eq_some_iff.trans Prod.exists

/-- So it has an answer when both of its parts have. -/
theorem Takes.bind {next : α → Reader β} {a : α} {b : β} {middle : List Char}
    (h : Takes reader text a middle) (hnext : Takes (next a) middle b rest) :
    Takes (reader >>= next) text b rest := takes_bind_iff.mpr ⟨a, middle, h, hnext⟩

/-- Nothing is taken for a value that is given. -/
theorem takes_pure_iff {a b : α} : Takes (pure a : Reader α) text b rest ↔ a = b ∧ text = rest := by
  simp only [Takes, StateT.run_pure, Option.pure_def, Option.some.injEq, Prod.mk.injEq]

/-- A value that is given is the answer on any text. -/
theorem takes_pure {a : α} : Takes (pure a : Reader α) text a text := rfl

/-- The second of two readers is tried on the same text when the first one refuses. -/
theorem takes_orElse_iff {first second : Reader α} {a : α} :
    Takes (first <|> second) text a rest ↔
      Takes first text a rest ∨ Refuses first text ∧ Takes second text a rest := by
  have key : StateT.run (first <|> second) text =
      (StateT.run first text <|> StateT.run second text) := rfl
  rw [Takes, Takes, Takes, Refuses, key]
  cases StateT.run first text <;> simp

/-- What may be there is left out only where it is not. -/
theorem takes_optional_iff {found : Option α} : Takes (optional reader) text found rest ↔
    (∃ a, found = some a ∧ Takes reader text a rest) ∨
      Refuses reader text ∧ found = none ∧ text = rest := by
  have key : StateT.run (optional reader) text =
      (StateT.run (some <$> reader) text <|> some (none, text)) := rfl
  simp only [Takes, Refuses, key, StateT.run_map]
  cases StateT.run reader text with
  | none => simp [eq_comm]
  | some taken =>
    obtain ⟨a, left⟩ := taken
    simp [eq_comm, and_left_comm]

/-! ## Characters -/

/-- A character that passes a test is taken. -/
theorem takes_one_iff {test : Char → Bool} {c : Char} :
    Takes (one test) text c rest ↔ text = c :: rest ∧ test c = true := by
  cases text with
  | nil =>
    have key : StateT.run (one test) [] = none := rfl
    simp [Takes, key]
  | cons d text =>
    have key : StateT.run (one test) (d :: text) = if test d then some (d, text) else none := rfl
    simp only [Takes, key, List.cons.injEq]
    constructor
    · intro h
      split at h
      · cases h
        exact ⟨⟨rfl, rfl⟩, ‹_›⟩
      · cases h
    · rintro ⟨⟨rfl, rfl⟩, htest⟩
      rw [if_pos htest]

/-- A character is taken where it stands. -/
theorem takes_char_iff {c : Char} {u : Unit} : Takes (char c) text u rest ↔ text = c :: rest := by
  simp only [char, takes_bind_iff, takes_one_iff, takes_pure_iff, beq_iff_eq]
  constructor
  · rintro ⟨d, middle, ⟨rfl, rfl⟩, -, rfl⟩
    rfl
  · rintro rfl
    exact ⟨c, rest, ⟨rfl, rfl⟩, trivial, rfl⟩

/-- So it is taken off the text behind it. -/
theorem takes_char (c : Char) (rest : List Char) : Takes (char c) (c :: rest) () rest :=
  takes_char_iff.mpr rfl

/-- A word is taken where it stands. -/
theorem takes_word_iff {t : String} {u : Unit} :
    Takes (word t) text u rest ↔ text = t.toList ++ rest := by
  have hchars (cs : List Char) (text : List Char) :
      Takes (cs.forM char) text u rest ↔ text = cs ++ rest := by
    induction cs generalizing text with
    | nil => exact takes_pure_iff.trans (by simp)
    | cons c cs ih =>
      have key : Takes ((c :: cs).forM char) text u rest ↔
          Takes (char c >>= fun _ => cs.forM char) text u rest := Iff.rfl
      simp only [key, takes_bind_iff, takes_char_iff, ih]
      simp
  exact hchars _ _

/-- A text does not begin with a character that passes a test. -/
def Halts (test : Char → Bool) (rest : List Char) : Prop := ∀ c ∈ rest.head?, test c = false

/-- The end of a text halts every run. -/
@[simp] theorem halts_nil (test : Char → Bool) : Halts test [] := by simp [Halts]

/-- A character that does not pass the test halts a run, whatever is behind it. -/
@[simp] theorem halts_cons {test : Char → Bool} {c : Char} :
    Halts test (c :: rest) ↔ test c = false := by simp [Halts]

/-- What ends a run of many characters ends a run of fewer. -/
theorem Halts.mono {test other : Char → Bool} (h : Halts test rest)
    (hother : ∀ c, test c = false → other c = false) : Halts other rest :=
  fun c hc => hother c (h c hc)

/-- A run of characters ends before the first one that does not pass the test. -/
theorem takes_run_iff {test : Char → Bool} {taken : List Char} : Takes (run test) text taken rest ↔
    text = taken ++ rest ∧ (∀ c ∈ taken, test c = true) ∧ Halts test rest := by
  have key : StateT.run (run test) text = some (text.takeWhile test, text.dropWhile test) := rfl
  simp only [Takes, key, Option.some.injEq, Prod.mk.injEq]
  constructor
  · rintro ⟨rfl, rfl⟩
    refine ⟨List.takeWhile_append_dropWhile.symm, fun c hc => ?_, fun c hc => ?_⟩
    · exact List.all_eq_true.mp (List.all_takeWhile) c hc
    · have hhead := List.head?_dropWhile_not test text
      rw [Option.mem_def.mp hc] at hhead
      exact hhead
  · rintro ⟨rfl, htaken, hrest⟩
    rw [List.takeWhile_append_of_pos htaken, List.dropWhile_append_of_pos htaken]
    cases rest with
    | nil => simp
    | cons c rest => simp [halts_cons.mp hrest]

/-- A run of at least one character. -/
theorem takes_run1_iff {test : Char → Bool} {taken : List Char} :
    Takes (run1 test) text taken rest ↔
      text = taken ++ rest ∧ taken ≠ [] ∧ (∀ c ∈ taken, test c = true) ∧ Halts test rest := by
  simp only [run1, takes_bind_iff, takes_one_iff, takes_run_iff, takes_pure_iff]
  constructor
  · rintro ⟨c, _, ⟨rfl, hc⟩, cs, _, ⟨rfl, hcs, hrest⟩, rfl, rfl⟩
    exact ⟨rfl, by simp, List.forall_mem_cons.mpr ⟨hc, hcs⟩, hrest⟩
  · rintro ⟨rfl, hne, htaken, hrest⟩
    obtain ⟨c, cs, rfl⟩ := List.exists_cons_of_ne_nil hne
    obtain ⟨hc, hcs⟩ := List.forall_mem_cons.mp htaken
    exact ⟨c, _, ⟨rfl, hc⟩, cs, _, ⟨rfl, hcs, hrest⟩, rfl, rfl⟩

/-- A fixed number of characters that pass a test. -/
theorem takes_times_iff {count : Nat} {test : Char → Bool} {taken : List Char} :
    Takes (times count test) text taken rest ↔
      text = taken ++ rest ∧ taken.length = count ∧ ∀ c ∈ taken, test c = true := by
  have hitems (items : List Nat) (text taken rest : List Char) :
      Takes (items.mapM fun _ => one test) text taken rest ↔
        text = taken ++ rest ∧ taken.length = items.length ∧ ∀ c ∈ taken, test c = true := by
    induction items generalizing text taken rest with
    | nil =>
      rw [List.mapM_nil, takes_pure_iff, List.length_nil, List.length_eq_zero_iff]
      constructor
      · rintro ⟨rfl, rfl⟩
        simp
      · rintro ⟨rfl, rfl, -⟩
        exact ⟨rfl, rfl⟩
    | cons item items ih =>
      simp only [List.mapM_cons, takes_bind_iff, takes_one_iff, takes_pure_iff, ih]
      constructor
      · rintro ⟨c, _, ⟨rfl, hc⟩, cs, _, ⟨rfl, hlength, hcs⟩, rfl, rfl⟩
        exact ⟨rfl, congrArg (· + 1) hlength, List.forall_mem_cons.mpr ⟨hc, hcs⟩⟩
      · rintro ⟨rfl, hlength, htaken⟩
        obtain ⟨c, cs, rfl⟩ := List.exists_cons_of_length_eq_add_one hlength
        obtain ⟨hc, hcs⟩ := List.forall_mem_cons.mp htaken
        exact ⟨c, _, ⟨rfl, hc⟩, cs, _, ⟨rfl, Nat.succ_inj.mp hlength, hcs⟩, rfl, rfl⟩
  rw [times, hitems, List.length_range]

/-- A text begins with a character that passes a test. -/
def Begins (test : Char → Bool) (taken : List Char) : Prop :=
  ∃ c behind, taken = c :: behind ∧ test c = true

/-- It begins with any kind of character that the first one is of. -/
theorem Begins.mono {test other : Char → Bool} {taken : List Char} (h : Begins test taken)
    (hother : ∀ c, test c = true → other c = true) : Begins other taken := by
  obtain ⟨c, behind, htaken, hc⟩ := h
  exact ⟨c, behind, htaken, hother c hc⟩

/-- A text that begins so halts other runs, whatever is behind it. -/
theorem Begins.halts {test other : Char → Bool} {taken : List Char} (h : Begins test taken)
    (hother : ∀ c, test c = true → other c = false) (rest : List Char) :
    Halts other (taken ++ rest) := by
  obtain ⟨c, behind, rfl, hc⟩ := h
  exact halts_cons.mpr (hother c hc)

/-- A character that it does not begin with is not the first one. -/
theorem Begins.halts_char {test : Char → Bool} {taken : List Char} (h : Begins test taken) {c : Char}
    (hc : test c = false) (rest : List Char) : Halts (· == c) (taken ++ rest) := by
  refine h.halts (fun d hd => ?_) rest
  rw [beq_eq_false_iff_ne]
  rintro rfl
  rw [hc] at hd
  cases hd

/-- What a reader reads: it takes the texts of a language only, and takes each of them as long as the
text behind it ends it. -/
structure Reads (reader : Reader α) (Written : List Char → α → Prop) (Ends : List Char → Prop) :
    Prop where
  sound {text a rest} (h : Takes reader text a rest) :
    ∃ taken, text = taken ++ rest ∧ Written taken a
  complete {taken a rest} (h : Written taken a) (hrest : Ends rest) :
    Takes reader (taken ++ rest) a rest

/-- A text that may be left out. -/
inductive Perhaps (Written : List Char → α → Prop) : List Char → Option α → Prop
  | absent : Perhaps Written [] none
  | present {taken : List Char} {a : α} (h : Written taken a) : Perhaps Written taken (some a)

/-- What neither such a text nor the text behind it carries on halts in front of both. -/
theorem Perhaps.halts {Written : List Char → α → Prop} {taken : List Char} {found : Option α}
    {test : Char → Bool} (h : Perhaps Written taken found)
    (hwritten : ∀ taken a, Written taken a → Halts test (taken ++ rest)) (hrest : Halts test rest) :
    Halts test (taken ++ rest) := by
  cases h with
  | absent => exact hrest
  | present h => exact hwritten _ _ h

/-- Either it is left out or it is there. -/
theorem exists_perhaps_iff {Written : List Char → α → Prop} {taken : List Char} :
    (∃ found, Perhaps Written taken found) ↔ taken = [] ∨ ∃ a, Written taken a := by
  constructor
  · rintro ⟨_, h⟩
    cases h with
    | absent => exact .inl rfl
    | present h => exact .inr ⟨_, h⟩
  · rintro (rfl | ⟨a, h⟩)
    · exact ⟨none, .absent⟩
    · exact ⟨some a, .present h⟩

namespace Reads

variable {Written : List Char → α → Prop} {Ends : List Char → Prop}

/-- The language of a reader may be told otherwise, and the texts behind it cut down. -/
theorem of {Written' : List Char → α → Prop} {Ends' : List Char → Prop}
    (h : Reads reader Written Ends) (hwritten : ∀ {taken a}, Written taken a ↔ Written' taken a)
    (hends : ∀ {rest}, Ends' rest → Ends rest) : Reads reader Written' Ends' := by
  constructor
  · intro text a rest htaken
    obtain ⟨taken, htext, ha⟩ := h.sound htaken
    exact ⟨taken, htext, hwritten.mp ha⟩
  · exact fun ha hrest => h.complete (hwritten.mpr ha) (hends hrest)

/-- One text and then another, of which only the second one's answer is kept. -/
theorem seq {second : Reader β} {Written' : List Char → β → Prop} {Ends' : List Char → Prop}
    (h : Reads reader Written Ends) (hsecond : Reads second Written' Ends')
    (hmeet : ∀ taken b rest, Written' taken b → Ends' rest → Ends (taken ++ rest)) :
    Reads (do let _ ← reader; second)
      (fun taken b => ∃ front behind, taken = front ++ behind ∧ (∃ a, Written front a) ∧
        Written' behind b) Ends' := by
  constructor
  · intro text b rest htaken
    obtain ⟨a, middle, hfront, hbehind⟩ := takes_bind_iff.mp htaken
    obtain ⟨front, rfl, ha⟩ := h.sound hfront
    obtain ⟨behind, rfl, hb⟩ := hsecond.sound hbehind
    exact ⟨front ++ behind, (List.append_assoc ..).symm, front, behind, rfl, ⟨a, ha⟩, hb⟩
  · rintro _ b rest ⟨front, behind, rfl, ⟨a, ha⟩, hb⟩ hrest
    rw [List.append_assoc]
    exact .bind (h.complete ha (hmeet _ _ _ hb hrest)) (hsecond.complete hb hrest)

/-- A text for another answer than the reader's own. -/
theorem map (h : Reads reader Written Ends) (f : α → β) :
    Reads (do return f (← reader)) (fun taken b => ∃ a, Written taken a ∧ f a = b) Ends := by
  constructor
  · intro text b rest htaken
    obtain ⟨a, _, hfound, hpure⟩ := takes_bind_iff.mp htaken
    obtain ⟨rfl, rfl⟩ := takes_pure_iff.mp hpure
    obtain ⟨taken, htext, ha⟩ := h.sound hfound
    exact ⟨taken, htext, a, ha, rfl⟩
  · rintro taken _ rest ⟨a, ha, rfl⟩ hrest
    exact .bind (h.complete ha hrest) takes_pure

/-- A text that does not begin like one of the language is refused. -/
theorem refuses (h : Reads reader Written Ends)
    (hnone : ∀ taken a rest, Written taken a → text ≠ taken ++ rest) : Refuses reader text := by
  refine refuses_iff.mpr fun a rest htaken => ?_
  obtain ⟨taken, htext, hwritten⟩ := h.sound htaken
  exact hnone taken a rest hwritten htext

/-- So is a text whose first character begins none of the language. -/
theorem refuses_of_halts (h : Reads reader Written Ends) {test : Char → Bool}
    (hbegins : ∀ taken a, Written taken a → Begins test taken) (htext : Halts test text) :
    Refuses reader text := by
  refine h.refuses fun taken a rest hwritten htaken => ?_
  obtain ⟨c, behind, rfl, hc⟩ := hbegins taken a hwritten
  rw [htaken, List.cons_append, halts_cons, hc] at htext
  cases htext

/-- One of two languages, of which no text begins with one of the other. -/
theorem orElse {second : Reader α} {Written' : List Char → α → Prop} {Ends' : List Char → Prop}
    (h : Reads reader Written Ends) (hsecond : Reads second Written' Ends')
    (hapart : ∀ taken a rest, Written' taken a → Refuses reader (taken ++ rest)) :
    Reads (reader <|> second) (fun taken a => Written taken a ∨ Written' taken a)
      fun rest => Ends rest ∧ Ends' rest := by
  constructor
  · intro text a rest htaken
    rcases takes_orElse_iff.mp htaken with htaken | ⟨-, htaken⟩
    · obtain ⟨taken, htext, hwritten⟩ := h.sound htaken
      exact ⟨taken, htext, .inl hwritten⟩
    · obtain ⟨taken, htext, hwritten⟩ := hsecond.sound htaken
      exact ⟨taken, htext, .inr hwritten⟩
  · rintro taken a rest (hwritten | hwritten) ⟨hrest, hrest'⟩
    · exact takes_orElse_iff.mpr (.inl (h.complete hwritten hrest))
    · exact takes_orElse_iff.mpr
        (.inr ⟨hapart taken a rest hwritten, hsecond.complete hwritten hrest'⟩)

/-- A text that may be left out is taken where it stands. -/
theorem perhaps (h : Reads reader Written Ends) : Reads (optional reader) (Perhaps Written)
    fun rest => Ends rest ∧ Refuses reader rest := by
  constructor
  · intro text found rest htaken
    rcases takes_optional_iff.mp htaken with ⟨a, rfl, hfound⟩ | ⟨-, rfl, rfl⟩
    · obtain ⟨taken, htext, hwritten⟩ := h.sound hfound
      exact ⟨taken, htext, .present hwritten⟩
    · exact ⟨[], rfl, .absent⟩
  · intro taken found rest hwritten hrest
    refine takes_optional_iff.mpr ?_
    cases hwritten with
    | absent => exact .inr ⟨hrest.2, rfl, rfl⟩
    | present hwritten => exact .inl ⟨_, rfl, h.complete hwritten hrest.1⟩

/-- It suffices that the text behind does not begin as the optional one does. -/
theorem perhaps_of_begins (h : Reads reader Written Ends) {test : Char → Bool}
    (hends : ∀ rest, Halts test rest → Ends rest)
    (hbegins : ∀ taken a, Written taken a → Begins test taken) :
    Reads (optional reader) (Perhaps Written) (Halts test) :=
  h.perhaps.of Iff.rfl fun hrest => ⟨hends _ hrest, h.refuses_of_halts hbegins hrest⟩

end Reads

/-- One character of a kind. -/
theorem reads_one (test : Char → Bool) : Reads (one test)
    (fun taken c => taken = [c] ∧ test c = true) fun _ => True := by
  constructor
  · intro text c rest htaken
    obtain ⟨rfl, hc⟩ := takes_one_iff.mp htaken
    exact ⟨[c], rfl, rfl, hc⟩
  · rintro _ c rest ⟨rfl, hc⟩ -
    exact takes_one_iff.mpr ⟨rfl, hc⟩

/-- One character. -/
theorem reads_char (c : Char) : Reads (char c) (fun taken _ => taken = [c]) fun _ => True := by
  constructor
  · intro text _ rest htaken
    obtain rfl := takes_char_iff.mp htaken
    exact ⟨[c], rfl, rfl⟩
  · rintro _ _ rest rfl -
    exact takes_char c rest

/-- One word, for a value that it stands for. -/
theorem reads_word (t : String) (a : α) :
    Reads (do word t; return a) (fun taken b => taken = t.toList ∧ a = b) fun _ => True := by
  constructor
  · intro text b rest htaken
    obtain ⟨_, _, hword, hpure⟩ := takes_bind_iff.mp htaken
    obtain ⟨rfl, rfl⟩ := takes_pure_iff.mp hpure
    exact ⟨t.toList, takes_word_iff.mp hword, rfl, rfl⟩
  · rintro _ b rest ⟨rfl, rfl⟩ -
    exact takes_bind_iff.mpr ⟨⟨⟩, rest, takes_word_iff.mpr rfl, takes_pure⟩

/-- A word is refused where another character stands than its first. -/
theorem refuses_word {t : String} {a : α} {c : Char} {behind : List Char}
    (ht : t.toList = c :: behind) (htext : Halts (· == c) text) :
    Refuses (do word t; return a) text := by
  refine (reads_word t a).refuses fun taken b rest hword htaken => ?_
  rw [htaken, hword.1, ht, List.cons_append, halts_cons, beq_self_eq_true] at htext
  cases htext

/-! ## Repetition -/

/-- Texts of a language, one after another. -/
inductive Repeated (Written : List Char → α → Prop) : List Char → List α → Prop
  | nil : Repeated Written [] []
  | cons {taken more : List Char} {a : α} {values : List α} (h : Written taken a)
    (hmore : Repeated Written more values) : Repeated Written (taken ++ more) (a :: values)

/-- Texts that are no longer than the whole may be told to be of another language. -/
theorem Repeated.mono {Written Written' : List Char → α → Prop} {taken : List Char}
    {values : List α} (h : Repeated Written taken values)
    (hwritten : ∀ part a, part.length ≤ taken.length → Written part a → Written' part a) :
    Repeated Written' taken values := by
  induction h with
  | nil => exact .nil
  | cons hfirst _ ih =>
    refine .cons (hwritten _ _ ?_ hfirst) (ih fun part a hpart => hwritten part a ?_)
    · simp
    · rw [List.length_append]
      exact Nat.le_add_left_of_le hpart

/-- Something is written for every value, so a text is at least as long as its values are many. -/
theorem Repeated.length_le {Written : List Char → α → Prop} {taken : List Char} {values : List α}
    (hne : ∀ taken a, Written taken a → taken ≠ []) (h : Repeated Written taken values) :
    values.length ≤ taken.length := by
  induction h with
  | nil => simp
  | cons hfirst _ ih =>
    have := List.length_pos_iff.mpr (hne _ _ hfirst)
    simp only [List.length_cons, List.length_append]
    omega

/-- Nothing is taken when nothing may be. -/
theorem takes_atMost_zero_iff {values : List α} :
    Takes (atMost 0 reader) text values rest ↔ values = [] ∧ text = rest :=
  takes_pure_iff.trans (and_congr_left' eq_comm)

/-- A further item is taken where there is one. -/
theorem takes_atMost_succ_iff {count : Nat} {values : List α} :
    Takes (atMost (count + 1) reader) text values rest ↔
      (∃ a middle values', values = a :: values' ∧ Takes reader text a middle ∧
        Takes (atMost count reader) middle values' rest) ∨
      Refuses reader text ∧ values = [] ∧ text = rest := by
  cases h : StateT.run reader text with
  | none =>
    have key : StateT.run (atMost (count + 1) reader) text = some ([], text) := by
      change atMost (count + 1) reader text = _
      simp only [atMost, show reader text = none from h]
    simp [Takes, Refuses, key, h, eq_comm]
  | some taken =>
    obtain ⟨a, middle⟩ := taken
    have key : StateT.run (atMost (count + 1) reader) text =
        (StateT.run (atMost count reader) middle).map fun found => (a :: found.1, found.2) := by
      change atMost (count + 1) reader text = _
      simp only [atMost, show reader text = some (a, middle) from h]
      rfl
    simp only [Takes, Refuses, key, h, Option.map_eq_some_iff, Prod.exists, Option.some.injEq,
      Prod.mk.injEq, reduceCtorEq, false_and, or_false]
    constructor
    · rintro ⟨values', _, hrest, rfl, rfl⟩
      exact ⟨a, middle, values', rfl, ⟨rfl, rfl⟩, hrest⟩
    · rintro ⟨_, _, values', rfl, ⟨rfl, rfl⟩, hrest⟩
      exact ⟨values', rest, hrest, rfl, rfl⟩

/-- Items are taken up to the number of characters that there are. -/
theorem takes_many_iff {values : List α} :
    Takes (many reader) text values rest ↔ Takes (atMost text.length reader) text values rest :=
  Iff.rfl

namespace Reads

variable {Written : List Char → α → Prop} {Ends : List Char → Prop}

/-- As many texts as there are, up to the first that is refused. -/
theorem many (h : Reads reader Written Ends) (hne : ∀ taken a, Written taken a → taken ≠ [])
    (hends : ∀ taken a rest, Written taken a → Ends (taken ++ rest)) :
    Reads (Reader.many reader) (Repeated Written) fun rest => Ends rest ∧ Refuses reader rest := by
  have hsound (count : Nat) {text rest : List Char} {values : List α}
      (htaken : Takes (atMost count reader) text values rest) :
      ∃ taken, text = taken ++ rest ∧ Repeated Written taken values := by
    induction count generalizing text values with
    | zero =>
      obtain ⟨rfl, rfl⟩ := takes_atMost_zero_iff.mp htaken
      exact ⟨[], rfl, .nil⟩
    | succ count ih =>
      obtain ⟨a, middle, values', rfl, hfirst, hmore⟩ | ⟨-, rfl, rfl⟩ :=
        takes_atMost_succ_iff.mp htaken
      · obtain ⟨taken, rfl, hwritten⟩ := h.sound hfirst
        obtain ⟨more, rfl, hrepeated⟩ := ih hmore
        exact ⟨taken ++ more, (List.append_assoc ..).symm, .cons hwritten hrepeated⟩
      · exact ⟨[], rfl, .nil⟩
  have hcomplete {taken rest : List Char} {values : List α}
      (hrepeated : Repeated Written taken values) (hrest : Ends rest ∧ Refuses reader rest) :
      ∀ count, values.length ≤ count →
        Takes (atMost count reader) (taken ++ rest) values rest ∧ Ends (taken ++ rest) := by
    induction hrepeated with
    | nil =>
      intro count _
      refine ⟨?_, hrest.1⟩
      cases count with
      | zero => exact takes_atMost_zero_iff.mpr ⟨rfl, rfl⟩
      | succ count => exact takes_atMost_succ_iff.mpr (.inr ⟨hrest.2, rfl, rfl⟩)
    | @cons taken more a values hfirst _ ih =>
      intro count hcount
      cases count with
      | zero => exact absurd hcount (Nat.not_succ_le_zero _)
      | succ count =>
        obtain ⟨hmore, hnext⟩ := ih count (Nat.le_of_succ_le_succ hcount)
        rw [List.append_assoc]
        exact ⟨takes_atMost_succ_iff.mpr (.inl ⟨a, _, values, rfl, h.complete hfirst hnext, hmore⟩),
          hends _ _ _ hfirst⟩
  constructor
  · exact fun htaken => hsound _ (takes_many_iff.mp htaken)
  · intro taken values rest hrepeated hrest
    have hlength : values.length ≤ (taken ++ rest).length := by
      rw [List.length_append]
      exact Nat.le_add_right_of_le (hrepeated.length_le hne)
    exact takes_many_iff.mpr (hcomplete hrepeated hrest _ hlength).1

end Reads

/-! ## Items with a mark between them -/

/-- A text behind a mark. -/
def After (mark : Char) (Written : List Char → α → Prop) (taken : List Char) (a : α) : Prop :=
  ∃ behind, taken = mark :: behind ∧ Written behind a

/-- Texts with a mark between them, at least one. -/
inductive Joined (mark : Char) (Written : List Char → α → Prop) : List Char → List α → Prop
  | intro {first more : List Char} {a : α} {values : List α} (h : Written first a)
    (hmore : Repeated (After mark Written) more values) :
    Joined mark Written (first ++ more) (a :: values)

/-- Such texts, too, may be told to be of another language. -/
theorem Joined.mono {mark : Char} {Written Written' : List Char → α → Prop} {taken : List Char}
    {values : List α} (h : Joined mark Written taken values)
    (hwritten : ∀ part a, part.length ≤ taken.length → Written part a → Written' part a) :
    Joined mark Written' taken values := by
  obtain @⟨first, more, a, values, hfirst, hmore⟩ := h
  refine .intro (hwritten _ _ (by simp) hfirst) (hmore.mono ?_)
  rintro _ a hlength ⟨behind, rfl, hbehind⟩
  refine ⟨behind, rfl, hwritten _ _ ?_ hbehind⟩
  rw [List.length_cons] at hlength
  rw [List.length_append]
  omega

namespace Reads

variable {Written : List Char → α → Prop} {Ends : List Char → Prop}

/-- A mark is taken, and then what is behind it. -/
theorem after (h : Reads reader Written Ends) (mark : Char) :
    Reads (do char mark; reader) (After mark Written) Ends := by
  constructor
  · intro text a rest htaken
    obtain ⟨_, middle, hmark, hbehind⟩ := takes_bind_iff.mp htaken
    obtain rfl := takes_char_iff.mp hmark
    obtain ⟨taken, rfl, hwritten⟩ := h.sound hbehind
    exact ⟨mark :: taken, rfl, taken, rfl, hwritten⟩
  · rintro _ a rest ⟨behind, rfl, hwritten⟩ hrest
    exact .bind (takes_char mark _) (h.complete hwritten hrest)

/-- As many texts as there are marks between them, and one more. -/
theorem separated (h : Reads reader Written Ends) (mark : Char)
    (hends : ∀ rest, Ends (mark :: rest)) :
    Reads (Reader.separated reader (char mark)) (Joined mark Written)
      fun rest => Ends rest ∧ Halts (· == mark) rest := by
  have hmany := (h.after mark).many (by rintro _ a ⟨behind, rfl, -⟩; simp)
    (by rintro _ a rest ⟨behind, rfl, -⟩; exact hends _)
  constructor
  · intro text values rest htaken
    obtain ⟨a, middle, hfirst, hrest⟩ := takes_bind_iff.mp htaken
    obtain ⟨values', left, hmore, hpure⟩ := takes_bind_iff.mp hrest
    obtain ⟨rfl, rfl⟩ := takes_pure_iff.mp hpure
    obtain ⟨first, rfl, hwritten⟩ := h.sound hfirst
    obtain ⟨more, rfl, hrepeated⟩ := hmany.sound hmore
    exact ⟨first ++ more, (List.append_assoc ..).symm, .intro hwritten hrepeated⟩
  · rintro _ _ rest (@⟨first, more, a, values, hwritten, hrepeated⟩) ⟨hrest, hmark⟩
    have hrefuses : Refuses (do char mark; reader) rest := by
      refine (h.after mark).refuses ?_
      rintro _ a left ⟨behind, rfl, -⟩ rfl
      simp at hmark
    have hnext : Ends (more ++ rest) := by
      cases hrepeated with
      | nil => exact hrest
      | cons hfirst _ =>
        obtain ⟨behind, rfl, -⟩ := hfirst
        exact hends _
    rw [List.append_assoc]
    exact .bind (h.complete hwritten hnext)
      (.bind (hmany.complete hrepeated ⟨hrest, hrefuses⟩) takes_pure)

end Reads

/-! ## Whole texts -/

/-- A whole text is read when all of it is taken. -/
theorem readAll?_eq_some_iff {text : String} {a : α} :
    readAll? reader text = some a ↔ Takes reader text.toList a [] := by
  rw [readAll?, Takes]
  split
  · rename_i value hvalue
    simp [hvalue]
  · rename_i hnone
    simp only [reduceCtorEq, false_iff]
    exact fun htaken => hnone a htaken

end StakeOracle.Reader
