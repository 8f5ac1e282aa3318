import StakeOracle.Proofs.Json.Scalars

/-!
# How JSON documents are written

Values in brackets are written with commas between them and blanks around each, and a member has a
colon between its name and its value. A document is read exactly as it is written: whatever is read is
written so, and whatever is written so is read, however deep its brackets go.
-/

namespace StakeOracle.Json

open Reader

variable {α : Type} {Written : List Char → α → Prop} {text rest taken : List Char}

/-! ## Blanks around a text -/

/-- A text with blanks around it. -/
def Padded (Written : List Char → α → Prop) (taken : List Char) (a : α) : Prop :=
  ∃ before core after, taken = before ++ (core ++ after) ∧ Blank before ∧ Written core a ∧ Blank after

/-- No number is carried on by a blank. -/
theorem carriesOn_of_isBlank {c : Char} (h : isBlank c = true) : carriesOn c = false := by
  simp only [isBlank, Bool.or_eq_true, decide_eq_true_eq] at h
  rcases h with ((rfl | rfl) | rfl) | rfl <;> rfl

/-- Blanks carry no number on. -/
theorem Blank.halts (h : Blank taken) (hrest : Halts carriesOn rest) :
    Halts carriesOn (taken ++ rest) := by
  cases taken with
  | nil => exact hrest
  | cons c taken => exact halts_cons.mpr (carriesOn_of_isBlank (h c List.mem_cons_self))

/-- A text is read with all the blanks around it. -/
theorem reads_padded {item : Reader α} (h : Reads item Written (Halts carriesOn))
    (hbegins : ∀ taken a, Written taken a → Begins (fun c => !isBlank c) taken) :
    Reads (padded item) (Padded Written) (Halts fun c => isBlank c || carriesOn c) := by
  constructor
  · intro text a rest htaken
    obtain ⟨_, _, hfirst, hbehind⟩ := takes_bind_iff.mp htaken
    obtain ⟨a, _, hitem, hbehind⟩ := takes_bind_iff.mp hbehind
    obtain ⟨_, _, hlast, hpure⟩ := takes_bind_iff.mp hbehind
    obtain ⟨rfl, rfl⟩ := takes_pure_iff.mp hpure
    obtain ⟨before, rfl, hbefore⟩ := reads_blanks.sound hfirst
    obtain ⟨core, rfl, hcore⟩ := h.sound hitem
    obtain ⟨after, rfl, hafter⟩ := reads_blanks.sound hlast
    exact ⟨before ++ (core ++ after), by simp, before, core, after, rfl, hbefore, hcore, hafter⟩
  · rintro _ a rest ⟨before, core, after, rfl, hbefore, hcore, hafter⟩ hrest
    have hblank : Halts isBlank rest := hrest.mono (by simp +contextual)
    have hnumber : Halts carriesOn rest := hrest.mono (by simp +contextual)
    have hfront : Halts isBlank (core ++ (after ++ rest)) :=
      (hbegins core a hcore).halts (by simp) _
    rw [List.append_assoc, List.append_assoc]
    exact takes_bind_iff.mpr ⟨⟨⟩, _, reads_blanks.complete hbefore hfront,
      .bind (h.complete hcore (hafter.halts hnumber)) (takes_bind_iff.mpr
        ⟨⟨⟩, _, reads_blanks.complete hafter hblank, takes_pure⟩)⟩

/-! ## Brackets -/

/-- Texts with commas between them, or none, in brackets. -/
inductive Bracketed (opening closing : Char) (Written : List Char → α → Prop) :
    List Char → List α → Prop
  | none {blank : List Char} (h : Blank blank) :
    Bracketed opening closing Written (opening :: (blank ++ [closing])) []
  | some {inner : List Char} {items : List α} (h : Joined ',' (Padded Written) inner items) :
    Bracketed opening closing Written (opening :: (inner ++ [closing])) items

/-- Blanks in front of the first text make no difference. -/
theorem joined_pad {before inner : List Char} {items : List α} (hbefore : Blank before)
    (h : Joined ',' (Padded Written) inner items) :
    Joined ',' (Padded Written) (before ++ inner) items := by
  obtain ⟨⟨blank, core, after, rfl, hblank, hcore, hafter⟩, hmore⟩ := h
  rw [← List.append_assoc]
  refine .intro ⟨before ++ blank, core, after, by simp, ?_, hcore, hafter⟩ hmore
  exact List.forall_mem_append.mpr ⟨hbefore, hblank⟩

/-- Neither a blank nor an item begins with the closing bracket, so none is found there. -/
theorem refuses_closing {items : Reader (List α)} {Ends : List Char → Prop} {closing : Char}
    (h : Reads items (Joined ',' (Padded Written)) Ends)
    (hbegins : ∀ taken a, Written taken a → Begins (fun c => !isBlank c && c != closing) taken)
    (hblank : isBlank closing = false) (rest : List Char) : Refuses items (closing :: rest) := by
  refine h.refuses fun inner values left hinner htext => ?_
  obtain ⟨⟨before, core, after, rfl, hbefore, hcore, -⟩, -⟩ := hinner
  cases before with
  | nil =>
    obtain ⟨c, behind, rfl, hc⟩ := hbegins core _ hcore
    simp only [List.nil_append, List.cons_append, List.cons.injEq] at htext
    simp [← htext.1] at hc
  | cons c before =>
    simp only [List.cons_append, List.cons.injEq] at htext
    have hc := hbefore c List.mem_cons_self
    rw [← htext.1, hblank] at hc
    cases hc

/-- What is in brackets is read up to the closing one. -/
theorem reads_bracketed {item : Reader α} (opening : Char) {closing : Char}
    (h : Reads item Written (Halts carriesOn))
    (hbegins : ∀ taken a, Written taken a → Begins (fun c => !isBlank c && c != closing) taken)
    (hclosing : (isBlank closing || carriesOn closing || closing == ',') = false) :
    Reads (bracketed opening closing item) (Bracketed opening closing Written) fun _ => True := by
  obtain ⟨⟨hblank, hnumber⟩, hcomma⟩ :
      (isBlank closing = false ∧ carriesOn closing = false) ∧ (closing == ',') = false := by
    simpa only [Bool.or_eq_false_iff] using hclosing
  have hitem := reads_padded h fun taken a ha => by
    obtain ⟨c, behind, htaken, hc⟩ := hbegins taken a ha
    exact ⟨c, behind, htaken, (Bool.and_eq_true_iff.mp hc).1⟩
  have hitems := hitem.separated ',' fun _ => halts_cons.mpr rfl
  constructor
  · intro text items rest htaken
    obtain ⟨_, _, hopening, hbehind⟩ := takes_bind_iff.mp htaken
    obtain ⟨_, _, hblanks, hbehind⟩ := takes_bind_iff.mp hbehind
    obtain ⟨found, _, hfound, hbehind⟩ := takes_bind_iff.mp hbehind
    obtain ⟨_, _, hend, hpure⟩ := takes_bind_iff.mp hbehind
    obtain ⟨rfl, rfl⟩ := takes_pure_iff.mp hpure
    obtain rfl := takes_char_iff.mp hopening
    obtain ⟨blank, rfl, hblank⟩ := reads_blanks.sound hblanks
    obtain ⟨inner, rfl, hinner⟩ := hitems.perhaps.sound hfound
    obtain rfl := takes_char_iff.mp hend
    cases hinner with
    | absent => exact ⟨opening :: (blank ++ [closing]), by simp, .none hblank⟩
    | present hinner =>
      exact ⟨opening :: ((blank ++ inner) ++ [closing]), by simp, .some (joined_pad hblank hinner)⟩
  · intro taken items rest hwritten _
    have hnone := refuses_closing hitems hbegins hblank rest
    have hfound {inner : List Char} {found : Option (List α)}
        (hinner : Perhaps (Joined ',' (Padded Written)) inner found) :
        Takes (optional (separated (padded item) (char ','))) (inner ++ closing :: rest) found
          (closing :: rest) := by
      refine hitems.perhaps.complete hinner ⟨⟨halts_cons.mpr ?_, halts_cons.mpr hcomma⟩, hnone⟩
      rw [hblank, hnumber]
      rfl
    cases hwritten with
    | @none blank hblanks =>
      simp only [List.cons_append, List.append_assoc, List.nil_append]
      exact .bind (takes_char _ _) (takes_bind_iff.mpr ⟨⟨⟩, _,
        reads_blanks.complete hblanks (halts_cons.mpr hblank),
        .bind (hfound .absent) (.bind (takes_char _ _) takes_pure)⟩)
    | some hinner =>
      -- The blanks in front of the first item are taken before any item is looked for.
      obtain @⟨_, more, a, values, ⟨before, core, after, rfl, hbefore, hcore, hafter⟩, hmore⟩ := hinner
      have hitems : Joined ',' (Padded Written) ((core ++ after) ++ more) (a :: values) :=
        .intro ⟨[], core, after, rfl, List.forall_mem_nil _, hcore, hafter⟩ hmore
      have hfront (behind : List Char) : Halts isBlank (core ++ behind) :=
        (hbegins core a hcore).halts (by simp +contextual) _
      have htaken := hfound (.present hitems)
      simp only [List.cons_append, List.append_assoc, List.nil_append] at htaken ⊢
      exact .bind (takes_char _ _) (takes_bind_iff.mpr ⟨⟨⟩, _,
        reads_blanks.complete hbefore (hfront _),
        .bind htaken (.bind (takes_char _ _) takes_pure)⟩)

/-- A member: its name, a colon, and its value. -/
def MemberText (Written : List Char → Value → Prop) (taken : List Char) (m : Text × Value) : Prop :=
  ∃ name before after v, taken = name ++ (before ++ ':' :: (after ++ v)) ∧ StringText name m.1 ∧
    Blank before ∧ Blank after ∧ Written v m.2

/-- A member is read as it is written. -/
theorem reads_member {value : Reader Value} {Written : List Char → Value → Prop}
    (h : Reads value Written (Halts carriesOn))
    (hbegins : ∀ taken a, Written taken a → Begins (fun c => !isBlank c) taken) :
    Reads (member value) (MemberText Written) (Halts carriesOn) := by
  constructor
  · intro text m rest htaken
    obtain ⟨name, _, hname, hbehind⟩ := takes_bind_iff.mp htaken
    obtain ⟨_, _, hbefore, hbehind⟩ := takes_bind_iff.mp hbehind
    obtain ⟨_, _, hcolon, hbehind⟩ := takes_bind_iff.mp hbehind
    obtain ⟨_, _, hafter, hbehind⟩ := takes_bind_iff.mp hbehind
    obtain ⟨v, _, hvalue, hpure⟩ := takes_bind_iff.mp hbehind
    obtain ⟨rfl, rfl⟩ := takes_pure_iff.mp hpure
    obtain ⟨quoted, rfl, hquoted⟩ := reads_string.sound hname
    obtain ⟨before, rfl, hfirst⟩ := reads_blanks.sound hbefore
    obtain rfl := takes_char_iff.mp hcolon
    obtain ⟨after, rfl, hlast⟩ := reads_blanks.sound hafter
    obtain ⟨core, rfl, hcore⟩ := h.sound hvalue
    exact ⟨quoted ++ (before ++ ':' :: (after ++ core)), by simp, quoted, before, after, core, rfl,
      hquoted, hfirst, hlast, hcore⟩
  · rintro _ m rest ⟨quoted, before, after, core, rfl, hquoted, hfirst, hlast, hcore⟩ hrest
    have hcolon : Halts isBlank (':' :: (after ++ (core ++ rest))) := halts_cons.mpr rfl
    have hfront : Halts isBlank (core ++ rest) := (hbegins core _ hcore).halts (by simp) _
    simp only [List.append_assoc, List.cons_append]
    exact .bind (reads_string.complete hquoted trivial)
      (takes_bind_iff.mpr ⟨⟨⟩, _, reads_blanks.complete hfirst hcolon, .bind (takes_char _ _)
        (takes_bind_iff.mpr ⟨⟨⟩, _, reads_blanks.complete hlast hfront,
          .bind (h.complete hcore hrest) takes_pure⟩)⟩)

/-! ## Values -/

/-- How a value is written within which brackets go at most this many levels deep. -/
def ValueText : Nat → List Char → Value → Prop
  | 0, taken, v => ScalarText taken v
  | depth + 1, taken, v => ScalarText taken v ∨
    (∃ items, Bracketed '[' ']' (ValueText depth) taken items ∧ .array items = v) ∨
    ∃ members, Bracketed '\x7b' '\x7d' (MemberText (ValueText depth)) taken members ∧
      .object members = v

/-- A blank, or a mark around or between values. -/
def isPunctuation (c : Char) : Bool := isBlank c || c ∈ ['[', ']', '\x7b', '\x7d', ',', ':']

/-- No digit is punctuation. -/
theorem isDigit_of_isPunctuation {c : Char} (h : isPunctuation c = true) : c.isDigit = false := by
  simp only [isPunctuation, isBlank, Bool.or_eq_true, decide_eq_true_eq, List.mem_cons,
    List.not_mem_nil, or_false] at h
  rcases h with (((rfl | rfl) | rfl) | rfl) | rfl | rfl | rfl | rfl | rfl | rfl <;> rfl

/-- A value without brackets begins with no punctuation. -/
theorem ScalarText.begins {v : Value} (h : ScalarText taken v) :
    Begins (fun c => !isPunctuation c) taken := by
  cases h with
  | null => exact ⟨'n', _, rfl, rfl⟩
  | true => exact ⟨'t', _, rfl, rfl⟩
  | false => exact ⟨'f', _, rfl, rfl⟩
  | number h =>
    refine h.begins.mono fun c hc => ?_
    rcases Bool.or_eq_true_iff.mp hc with hdigit | hminus
    · rw [test_eq_false_of_isDigit (fun _ => isDigit_of_isPunctuation) c hdigit]
      rfl
    · rw [beq_iff_eq.mp hminus]
      rfl
  | text h =>
    refine h.begins.mono fun c hc => ?_
    rw [beq_iff_eq.mp hc]
    rfl

/-- What is in brackets begins with the opening one. -/
theorem Bracketed.begins {opening closing : Char} {items : List α}
    (h : Bracketed opening closing Written taken items) : Begins (· == opening) taken := by
  cases h with
  | none _ => exact ⟨opening, _, rfl, beq_self_eq_true opening⟩
  | some _ => exact ⟨opening, _, rfl, beq_self_eq_true opening⟩

/-- A value begins with neither a blank nor a closing bracket. -/
theorem ValueText.begins {depth : Nat} {v : Value} (h : ValueText depth taken v) :
    Begins (fun c => !isBlank c && c != ']') taken := by
  have hscalar {taken : List Char} (h : ScalarText taken v) :
      Begins (fun c => !isBlank c && c != ']') taken := by
    refine h.begins.mono fun c hc => ?_
    simp only [isPunctuation, Bool.not_or, Bool.and_eq_true, Bool.not_eq_true', decide_eq_false_iff_not,
      List.mem_cons, not_or] at hc
    rw [hc.1, Bool.not_false, Bool.true_and, bne_iff_ne]
    exact hc.2.2.1
  cases depth with
  | zero => exact hscalar h
  | succ depth =>
    rcases h with h | ⟨items, h, -⟩ | ⟨members, h, -⟩
    · exact hscalar h
    · refine h.begins.mono fun c hc => ?_
      rw [beq_iff_eq.mp hc]
      rfl
    · refine h.begins.mono fun c hc => ?_
      rw [beq_iff_eq.mp hc]
      rfl

/-- A member begins with the quote of its name. -/
theorem MemberText.begins {Written : List Char → Value → Prop} {m : Text × Value}
    (h : MemberText Written taken m) : Begins (fun c => !isBlank c && c != '\x7d') taken := by
  obtain ⟨_, before, after, v, rfl, ⟨inner, units, rfl, -⟩, -⟩ := h
  exact ⟨'"', _, rfl, rfl⟩

/-- A value is read as it is written. -/
theorem reads_value (depth : Nat) : Reads (value depth) (ValueText depth) (Halts carriesOn) := by
  induction depth with
  | zero => exact reads_scalar
  | succ depth ih =>
    have hmember := reads_member ih fun taken v h => h.begins.mono (by simp +contextual)
    have harray := (reads_bracketed '[' ih (fun _ _ h => h.begins) rfl).map Value.array
    have hobject := (reads_bracketed '\x7b' hmember (fun _ _ h => h.begins) rfl).map Value.object
    refine (reads_scalar.orElse (harray.orElse hobject ?_) ?_).of Iff.rfl ?_
    · rintro taken _ rest ⟨members, h, -⟩
      exact harray.refuses_of_halts (fun _ _ ⟨_, h, _⟩ => h.begins) (h.begins.halts_char rfl rest)
    · have hscalar {opening : Char} (hopening : isPunctuation opening = true) {taken : List Char}
          (h : Begins (· == opening) taken) (rest : List Char) : Refuses scalar (taken ++ rest) := by
        refine reads_scalar.refuses_of_halts (fun _ _ h => h.begins) (h.halts (fun c hc => ?_) rest)
        rw [beq_iff_eq.mp hc, hopening]
        rfl
      rintro taken _ rest (⟨items, h, -⟩ | ⟨members, h, -⟩)
      · exact hscalar rfl h.begins rest
      · exact hscalar rfl h.begins rest
    · exact fun hrest => ⟨hrest, trivial, trivial⟩

/-- Texts of one language are of another one if the parts that they are made of are. -/
theorem Bracketed.mono {opening closing : Char} {Written' : List Char → α → Prop} {items : List α}
    (h : Bracketed opening closing Written taken items)
    (hwritten : ∀ core a, core.length < taken.length → Written core a → Written' core a) :
    Bracketed opening closing Written' taken items := by
  cases h with
  | none hblank => exact .none hblank
  | some hinner =>
    refine .some (hinner.mono ?_)
    rintro _ a hlength ⟨before, core, after, rfl, hbefore, hcore, hafter⟩
    refine ⟨before, core, after, rfl, hbefore, hwritten core a ?_ hcore, hafter⟩
    simp only [List.length_append, List.length_cons] at hlength ⊢
    omega

/-- Brackets go no deeper than a text is long. -/
theorem ValueText.of_length_le {depth limit : Nat} {v : Value} (h : ValueText depth taken v)
    (hlimit : taken.length ≤ limit) : ValueText limit taken v := by
  induction depth generalizing taken v limit with
  | zero =>
    cases limit with
    | zero => exact h
    | succ limit => exact .inl h
  | succ depth ih =>
    cases limit with
    | zero =>
      obtain ⟨c, behind, rfl, -⟩ := h.begins
      exact absurd hlimit (Nat.not_succ_le_zero _)
    | succ limit =>
      have hcore (core : List Char) (v : Value) (hlength : core.length < taken.length)
          (h : ValueText depth core v) : ValueText limit core v := ih h (by omega)
      rcases h with h | ⟨items, h, rfl⟩ | ⟨members, h, rfl⟩
      · exact .inl h
      · exact .inr (.inl ⟨items, h.mono hcore, rfl⟩)
      · refine .inr (.inr ⟨members, h.mono ?_, rfl⟩)
        rintro core m hlength ⟨name, before, after, text, rfl, hname, hbefore, hafter, hvalue⟩
        refine ⟨name, before, after, text, rfl, hname, hbefore, hafter, hcore _ _ ?_ hvalue⟩
        simp only [List.length_append, List.length_cons] at hlength
        omega

/-- How a document is written. -/
def DocumentText (text : List Char) (v : Value) : Prop := ∃ depth, Padded (ValueText depth) text v

/-- A document is read exactly as it is written. -/
theorem read?_eq_some_iff {text : String} {v : Value} :
    read? text = some v ↔ DocumentText text.toList v := by
  have hvalue : Reads (do value (← get).length) (fun taken v => ∃ depth, ValueText depth taken v)
      (Halts carriesOn) := by
    have hget {text rest : List Char} {v : Value} :
        Takes (do value (← get).length) text v rest ↔ Takes (value text.length) text v rest := Iff.rfl
    constructor
    · intro text v rest htaken
      obtain ⟨taken, htext, hv⟩ := (reads_value _).sound (hget.mp htaken)
      exact ⟨taken, htext, _, hv⟩
    · rintro taken v rest ⟨depth, hv⟩ hrest
      refine hget.mpr ((reads_value _).complete (hv.of_length_le ?_) hrest)
      rw [List.length_append]
      exact Nat.le_add_right _ _
  have hdocument := reads_padded hvalue fun taken v ⟨_, hv⟩ => hv.begins.mono (by simp +contextual)
  rw [read?, readAll?_eq_some_iff]
  constructor
  · intro htaken
    obtain ⟨taken, htext, before, core, after, rfl, hbefore, ⟨depth, hcore⟩, hafter⟩ :=
      hdocument.sound htaken
    rw [List.append_nil] at htext
    exact ⟨depth, before, core, after, htext, hbefore, hcore, hafter⟩
  · rintro ⟨depth, before, core, after, htext, hbefore, hcore, hafter⟩
    have htaken := hdocument.complete
      ⟨before, core, after, htext, hbefore, ⟨depth, hcore⟩, hafter⟩ (halts_nil _)
    rwa [List.append_nil] at htaken

end StakeOracle.Json
