import Mathlib.Data.List.Nodup
import StakeOracle.Proofs.Chain.Traffic

/-!
# Who is let through

Waits for inclusion stand in line before the gate that was there when they began. Holding inclusion
once more puts a new gate in the place of the old one. Permits are given to the new gate alone, so
that the waits before an old gate are stranded, whatever is done later. Of the waits before the
present gate, the earliest are let through, as many as there are permits.
-/

namespace StakeOracle

/-- The waits in line before the gate of a chain. -/
def Chain.line (chain : Chain) : List Nat := chain.gate.elim [] Gate.line

/-- Permits are for the first waits in line. -/
theorem Chain.admitted_eq_take (chain : Chain) (count : Nat) :
    chain.admitted count = chain.line.take count := by
  unfold admitted line
  cases chain.gate with
  | none => exact List.take_nil.symm
  | some gate => rfl

/-- The waits that got permits leave the line. -/
theorem Chain.line_release (chain : Chain) (count : Nat) :
    (chain.release count).line = chain.line.drop count := by
  unfold release line
  cases chain.gate with
  | none => exact List.drop_nil.symm
  | some gate => rfl

namespace Gate

/-- Nobody stands in line before a gate that has permits left. -/
def Fair (gate : Gate) : Prop := gate.permits = 0 ∨ gate.line = []

/-- A closed gate has no permits. -/
theorem fair_closed : closed.Fair := .inl rfl

/-- Whoever arrives at a gate with permits takes one, and else stands in line. -/
theorem Fair.arrive {gate : Gate} (h : gate.Fair) (wait : Nat) : (gate.arrive wait).Fair := by
  unfold Gate.arrive
  cases hpasses : gate.passes with
  | false =>
    have hnone : gate.permits = 0 := by simpa [passes] using hpasses
    exact .inl hnone
  | true =>
    have hpermits : gate.permits ≠ 0 := by
      have hpositive : 0 < gate.permits := by simpa [passes] using hpasses
      exact Nat.ne_of_gt hpositive
    exact .inr (h.resolve_left hpermits)

/-- Permits are left only when the line is gone. -/
theorem Fair.release {gate : Gate} (h : gate.Fair) (count : Nat) : (gate.release count).Fair := by
  by_cases hcount : gate.line.length ≤ count
  · exact .inr (List.drop_eq_nil_of_le hcount)
  · have hline : gate.line ≠ [] := List.ne_nil_of_length_pos (by omega)
    refine .inl ?_
    rw [Gate.release, h.resolve_right hline]
    change 0 + (count - gate.line.length) = 0
    omega

end Gate

/-- Where keys are distinct, an item is found under its key. -/
theorem find?_key [DecidableEq κ] {key : α → κ} {items : List α} (hnodup : (items.map key).Nodup)
    {item : α} (hmem : item ∈ items) :
    items.find? (fun other => key other = key item) = some item := by
  induction items with
  | nil => cases hmem
  | cons first rest ih =>
    rw [List.map_cons, List.nodup_cons] at hnodup
    obtain rfl | hrest := List.mem_cons.mp hmem
    · simp
    · have hne : key first ≠ key item := fun heq => hnodup.1 (heq ▸ List.mem_map_of_mem hrest)
      rw [List.find?_cons_of_neg (by simpa using hne)]
      exact ih hnodup.2 hrest

/-- Of items in order, those below the greatest value come first. -/
theorem filter_lt_append_filter_eq {f : α → Nat} {greatest : Nat} {items : List α}
    (hle : ∀ a ∈ items, f a ≤ greatest) (hsorted : items.Pairwise fun a b => f a ≤ f b) :
    (items.filter fun a => f a < greatest) ++ (items.filter fun a => f a = greatest) = items := by
  induction items with
  | nil => rfl
  | cons first rest ih =>
    obtain ⟨hfirst, hrest⟩ := List.pairwise_cons.mp hsorted
    by_cases hlt : f first < greatest
    · rw [List.filter_cons_of_pos (by simpa using hlt),
        List.filter_cons_of_neg (by simpa using Nat.ne_of_lt hlt), List.cons_append,
        ih (fun a ha => hle a (List.mem_cons_of_mem _ ha)) hrest]
    · have heq : ∀ a ∈ first :: rest, f a = greatest := by
        intro a ha
        have hbound := hle a ha
        obtain rfl | hmem := List.mem_cons.mp ha
        · omega
        · have hsucc := hfirst a hmem
          omega
      rw [List.filter_eq_nil_iff.mpr (by simpa using fun a ha => Nat.le_of_eq (heq a ha).symm),
        List.filter_eq_self.mpr (by simpa using heq), List.nil_append]

namespace Traffic

/-- The waits that stand before the present gate. -/
def current (t : Traffic) : List Wait := t.pending.filter fun wait => wait.hold = t.holds

/-- The waits that stand before a gate that was replaced. -/
def stranded (t : Traffic) : List Wait := t.pending.filter fun wait => wait.hold < t.holds

/-- The line before the gate is the one that the waits know of. -/
structure InLine (t : Traffic) : Prop where
  line : t.chain.line = t.current.map Wait.number
  hold_le : ∀ wait ∈ t.pending, wait.hold ≤ t.holds
  ordered : t.pending.Pairwise fun first second =>
    first.number < second.number ∧ first.hold ≤ second.hold
  number_lt : ∀ wait ∈ t.passed ++ t.pending, wait.number < t.queued
  nodup : ((t.passed ++ t.pending).map Wait.number).Nodup
  fair : ∀ gate, t.chain.gate = some gate → gate.Fair
  held : ∀ gate, t.chain.gate = some gate → 0 < t.holds
  hold_pos : ∀ wait ∈ t.pending, 0 < wait.hold

variable {t : Traffic}

/-- The current waits are those of the present hold. -/
theorem mem_current_iff {wait : Wait} :
    wait ∈ t.current ↔ wait ∈ t.pending ∧ wait.hold = t.holds := by simp [current]

/-- The stranded waits are those of a former hold. -/
theorem mem_stranded_iff {wait : Wait} :
    wait ∈ t.stranded ↔ wait ∈ t.pending ∧ wait.hold < t.holds := by simp [stranded]

/-- Waits before old gates, followed by waits before the present one, are told apart by their holds. -/
theorem stranded_current_of_split {first second : List Wait} (h : t.pending = first ++ second)
    (hfirst : ∀ wait ∈ first, wait.hold < t.holds) (hsecond : ∀ wait ∈ second, wait.hold = t.holds) :
    t.stranded = first ∧ t.current = second := by
  have hself : first.filter (fun wait => wait.hold < t.holds) = first :=
    List.filter_eq_self.mpr (by simpa using hfirst)
  have hnone : first.filter (fun wait => wait.hold = t.holds) = [] :=
    List.filter_eq_nil_iff.mpr (by simpa using fun wait hmem => Nat.ne_of_lt (hfirst wait hmem))
  have hother : second.filter (fun wait => wait.hold = t.holds) = second :=
    List.filter_eq_self.mpr (by simpa using hsecond)
  have hothernone : second.filter (fun wait => wait.hold < t.holds) = [] :=
    List.filter_eq_nil_iff.mpr
      (by simpa using fun wait hmem => Nat.le_of_eq (hsecond wait hmem).symm)
  constructor
  · rw [stranded, h, List.filter_append, hself, hothernone, List.append_nil]
  · rw [current, h, List.filter_append, hnone, hother, List.nil_append]

namespace InLine

/-- The stranded waits are the earlier ones. -/
theorem pending_eq (h : InLine t) : t.pending = t.stranded ++ t.current :=
  (filter_lt_append_filter_eq h.hold_le (h.ordered.imp fun hpair => hpair.2)).symm

/-- The numbers of the waits in line are distinct. -/
theorem nodup_pending (h : InLine t) : (t.pending.map Wait.number).Nodup := by
  have hnodup := h.nodup
  rw [List.map_append] at hnodup
  exact (List.nodup_append.mp hnodup).2.1

/-- The numbers of the waits that were let through are distinct. -/
theorem nodup_passed (h : InLine t) : (t.passed.map Wait.number).Nodup := by
  have hnodup := h.nodup
  rw [List.map_append] at hnodup
  exact (List.nodup_append.mp hnodup).1

/-- Permits let the first waits before the present gate through. -/
theorem admitted_eq_take (h : InLine t) (count : Nat) : t.admitted count = t.current.take count := by
  have hfind : ∀ wait ∈ t.current.take count,
      t.pending.find? (fun other => other.number = wait.number) = some wait := by
    intro wait hmem
    exact find?_key h.nodup_pending (mem_current_iff.mp (List.mem_of_mem_take hmem)).1
  rw [admitted, Chain.admitted_eq_take, h.line, ← List.map_take, List.filterMap_map]
  calc (t.current.take count).filterMap
        ((fun number => t.pending.find? fun wait => wait.number = number) ∘ Wait.number)
      = (t.current.take count).filterMap some := List.filterMap_congr hfind
    _ = t.current.take count := List.filterMap_some

/-- What is left in line after new permits: the stranded waits, and those behind the admitted ones. -/
theorem pending_release (h : InLine t) (count : Nat) :
    (after (release count) t).pending = t.stranded ++ t.current.drop count := by
  have hstranded : ∀ wait ∈ t.stranded, wait ∉ t.current.take count := by
    intro wait hmem htake
    have hlt := (mem_stranded_iff.mp hmem).2
    have heq := (mem_current_iff.mp (List.mem_of_mem_take htake)).2
    omega
  have hnodup : t.current.Nodup := (List.Nodup.of_map _ h.nodup_pending).filter _
  have hdrop : ∀ wait ∈ t.current.drop count, wait ∉ t.current.take count := by
    intro wait hmem htake
    exact List.disjoint_take_drop hnodup (Nat.le_refl count) htake hmem
  change t.pending.filter (· ∉ t.admitted count) = _
  calc t.pending.filter (· ∉ t.admitted count)
      = (t.stranded ++ (t.current.take count ++ t.current.drop count)).filter
          (· ∉ t.current.take count) := by
        rw [List.take_append_drop, ← h.pending_eq, h.admitted_eq_take]
    _ = t.stranded ++ t.current.drop count := by
        rw [List.filter_append, List.filter_append, List.filter_eq_self.mpr (by simpa using hstranded),
          List.filter_eq_nil_iff.mpr (by simp), List.filter_eq_self.mpr (by simpa using hdrop),
          List.nil_append]

/-- New permits let the first waits before the present gate through. -/
theorem passed_release (h : InLine t) (count : Nat) :
    (after (release count) t).passed = t.passed ++ t.current.take count :=
  congrArg (t.passed ++ ·) (h.admitted_eq_take count)

/-- Permits strand nobody. -/
theorem stranded_current_release (h : InLine t) (count : Nat) :
    (after (release count) t).stranded = t.stranded ∧
      (after (release count) t).current = t.current.drop count :=
  stranded_current_of_split (h.pending_release count)
    (fun _ hmem => (mem_stranded_iff.mp hmem).2)
    (fun _ hmem => (mem_current_iff.mp (List.mem_of_mem_drop hmem)).2)

/-- No wait is lost by permits. -/
theorem waits_release (h : InLine t) (count : Nat) :
    ((after (release count) t).passed ++ (after (release count) t).pending).Perm
      (t.passed ++ t.pending) := by
  rw [h.passed_release, h.pending_release, List.append_assoc]
  refine List.Perm.append_left _ ?_
  calc (t.current.take count ++ (t.stranded ++ t.current.drop count)).Perm
        (t.stranded ++ (t.current.take count ++ t.current.drop count)) :=
        List.perm_append_comm_assoc _ _ _
    _ = t.pending := by rw [List.take_append_drop, ← h.pending_eq]

/-- A wait that was let through is answered when it is resumed. -/
theorem answer_resume (h : InLine t) {wait : Wait} (hmem : wait ∈ t.passed) :
    answer (resume wait.number) t = some (t.chain.receipt wait.hash) := by
  have hfind : t.passed.find? (fun other => other.number = wait.number) = some wait :=
    find?_key h.nodup_passed hmem
  simp [answer, resume, hfind, pure]

end InLine

/-! ## What is done keeps the line -/

/-- Before a fresh chain nobody stands in line. -/
theorem inLine_fresh : InLine fresh where
  line := rfl
  hold_le _ hmem := by cases hmem
  ordered := .nil
  number_lt _ hmem := by cases hmem
  nodup := .nil
  fair _ hgate := by cases hgate
  held _ hgate := by cases hgate
  hold_pos _ hmem := by cases hmem

/-- Permits keep the rest of the line in order. -/
theorem inLine_release (h : InLine t) (count : Nat) : InLine (after (release count) t) where
  line := by
    rw [(h.stranded_current_release count).2, List.map_drop, ← h.line]
    exact t.chain.line_release count
  hold_le wait hmem := h.hold_le wait (List.mem_of_mem_filter hmem)
  ordered := h.ordered.filter _
  number_lt wait hmem := h.number_lt wait ((h.waits_release count).mem_iff.mp hmem)
  nodup := ((h.waits_release count).map _).nodup_iff.mpr h.nodup
  fair gate hgate := by
    obtain ⟨former, hformer, rfl⟩ := Option.map_eq_some_iff.mp hgate
    exact (h.fair former hformer).release count
  held gate hgate := by
    obtain ⟨former, hformer, -⟩ := Option.map_eq_some_iff.mp hgate
    exact h.held former hformer
  hold_pos wait hmem := h.hold_pos wait (List.mem_of_mem_filter hmem)

/-- A change of the chain that leaves its gate alone. -/
theorem InLine.of_gate_eq (h : InLine t) {chain : Chain} (hgate : chain.gate = t.chain.gate) :
    InLine { t with chain } where
  line := by
    rw [Chain.line, hgate]
    exact h.line
  hold_le := h.hold_le
  ordered := h.ordered
  number_lt := h.number_lt
  nodup := h.nodup
  fair gate hsome := h.fair gate (hgate.symm.trans hsome)
  held gate hsome := h.held gate (hgate.symm.trans hsome)
  hold_pos := h.hold_pos

/-- A new gate strands all waits that stand in line. -/
theorem InLine.stranded_closeGate (h : InLine t) :
    (after (change .closeGate) t).stranded = t.pending ∧ (after (change .closeGate) t).current = [] :=
  stranded_current_of_split (List.append_nil t.pending).symm
    (fun wait hmem => Nat.lt_succ_of_le (h.hold_le wait hmem)) (fun _ hmem => by cases hmem)

/-- Changes of the chain keep the line, but that a new gate has none before it. -/
theorem inLine_change (h : InLine t) (c : Change) : InLine (after (change c) t) := by
  by_cases hclose : c = .closeGate
  · subst hclose
    exact {
      line := by
        rw [h.stranded_closeGate.2]
        rfl
      hold_le := fun wait hmem => Nat.le_succ_of_le (h.hold_le wait hmem)
      ordered := h.ordered
      number_lt := h.number_lt
      nodup := h.nodup
      fair := fun gate hgate => Option.some.inj hgate ▸ Gate.fair_closed
      held := fun _ _ => Nat.succ_pos t.holds
      hold_pos := h.hold_pos }
  · rw [after_change t hclose]
    exact h.of_gate_eq (Chain.gate_apply hclose t.chain)

/-- A wait that arrives joins the line unless it passes. -/
theorem line_arrive : t.arrive.chain.line = t.chain.line ++ if t.passes then [] else [t.queued] := by
  unfold arrive Chain.line passes
  cases hgate : t.chain.gate with
  | none => simp
  | some gate => cases hpasses : gate.passes <;> simp [Gate.arrive, hpasses]

/-- The gate is fair behind one more arrival. -/
theorem InLine.fair_arrive (h : InLine t) (gate : Gate) (hgate : t.arrive.chain.gate = some gate) :
    gate.Fair := by
  obtain ⟨former, hformer, rfl⟩ := Option.map_eq_some_iff.mp hgate
  exact (h.fair former hformer).arrive t.queued

/-- There is a gate behind an arrival only if inclusion was held. -/
theorem InLine.held_arrive (h : InLine t) (gate : Gate) (hgate : t.arrive.chain.gate = some gate) :
    0 < t.holds := by
  obtain ⟨former, hformer, -⟩ := Option.map_eq_some_iff.mp hgate
  exact h.held former hformer

/-- A wait that does not pass stands before a gate, which was put there by holding inclusion. -/
theorem InLine.holds_pos (h : InLine t) (hpasses : t.passes = false) : 0 < t.holds := by
  cases hgate : t.chain.gate with
  | none => simp [passes, hgate] at hpasses
  | some gate => exact h.held gate hgate

/-- A wait that passes leaves the line as it is. -/
theorem inLine_arrive (h : InLine t) (hpasses : t.passes = true) : InLine t.arrive where
  line := by
    rw [line_arrive, if_pos hpasses, List.append_nil]
    exact h.line
  hold_le := h.hold_le
  ordered := h.ordered
  number_lt := h.number_lt
  nodup := h.nodup
  fair := h.fair_arrive
  held := h.held_arrive
  hold_pos := h.hold_pos

/-- A wait that does not pass joins the line at its end. -/
theorem inLine_queue (h : InLine t) (hpasses : t.passes = false) (hash : Digest) :
    InLine (t.arrive.queue hash) := by
  -- The wait that joins has the greatest number and the greatest hold.
  have hbehind : ∀ wait ∈ t.passed ++ t.pending, wait.number < t.queued := h.number_lt
  have hcurrent : (t.arrive.queue hash).current = t.current ++ [⟨t.queued, hash, t.holds⟩] := by
    have hsplit : (t.arrive.queue hash).pending =
        t.stranded ++ (t.current ++ [⟨t.queued, hash, t.holds⟩]) := by
      rw [← List.append_assoc, ← h.pending_eq]
      rfl
    refine (stranded_current_of_split hsplit ?_ ?_).2
    · exact fun wait hmem => (mem_stranded_iff.mp hmem).2
    · intro wait hmem
      obtain hmem | hmem := List.mem_append.mp hmem
      · exact (mem_current_iff.mp hmem).2
      · rw [List.mem_singleton.mp hmem]
        rfl
  exact {
    line := by
      change t.arrive.chain.line = _
      rw [hcurrent, line_arrive, if_neg (by simp [hpasses]), List.map_append, h.line]
      rfl
    hold_le := by
      intro wait hmem
      obtain hmem | hmem := List.mem_append.mp hmem
      · exact h.hold_le wait hmem
      · rw [List.mem_singleton.mp hmem]
        exact Nat.le_refl _
    ordered := by
      refine List.pairwise_append.mpr ⟨h.ordered, List.pairwise_singleton _ _, ?_⟩
      intro wait hmem last hlast
      rw [List.mem_singleton.mp hlast]
      exact ⟨hbehind wait (List.mem_append_right _ hmem), h.hold_le wait hmem⟩
    number_lt := by
      intro wait hmem
      rw [queue, ← List.append_assoc] at hmem
      obtain hmem | hmem := List.mem_append.mp hmem
      · exact Nat.lt_succ_of_lt (hbehind wait hmem)
      · rw [List.mem_singleton.mp hmem]
        exact Nat.lt_succ_self _
    nodup := by
      rw [queue, ← List.append_assoc, List.map_append]
      refine List.Nodup.append h.nodup (List.nodup_singleton _) ?_
      intro number hmem hlast
      obtain ⟨wait, hwait, rfl⟩ := List.mem_map.mp hmem
      have hlt := hbehind wait hwait
      rw [List.mem_singleton.mp hlast] at hlt
      exact Nat.lt_irrefl _ hlt
    fair := h.fair_arrive
    held := h.held_arrive
    hold_pos := by
      intro wait hmem
      obtain hmem | hmem := List.mem_append.mp hmem
      · exact h.hold_pos wait hmem
      · rw [List.mem_singleton.mp hmem]
        exact h.holds_pos hpasses }

/-- A wait keeps the line in order, whether it passes, joins it or fails. -/
theorem inLine_await (h : InLine t) (hash : Digest) : InLine (after (await hash) t) := by
  by_cases hfailing : .awaitInclusion ∈ t.chain.failing
  · rw [after_await_of_failing t hfailing]
    exact h
  · rw [after_await t hfailing]
    cases hpasses : t.passes with
    | true => exact inLine_arrive h hpasses
    | false => exact inLine_queue h hpasses hash

/-- A wait that is resumed was out of the line already. -/
theorem inLine_resume (h : InLine t) (number : Nat) : InLine (after (resume number) t) := by
  unfold after resume
  cases t.passed.find? fun wait => wait.number = number with
  | none => exact h
  | some wait =>
    have hsublist : (t.passed.erase wait ++ t.pending).Sublist (t.passed ++ t.pending) :=
      List.erase_sublist.append (.refl _)
    exact {
      line := h.line
      hold_le := h.hold_le
      ordered := h.ordered
      number_lt := fun other hmem => h.number_lt other (hsublist.subset hmem)
      nodup := (hsublist.map _).nodup h.nodup
      fair := h.fair
      held := h.held
      hold_pos := h.hold_pos }

/-- Whatever is done, the waits know of the line before the gate. -/
theorem inLine_handle (h : InLine t) (deed : Deed) : InLine (after (handle deed) t) := by
  cases deed with
  | change c => exact inLine_change h c
  | read request => exact h
  | node => exact h
  | send call options =>
    exact h.of_gate_eq (Chain.gate_send call options t.chain)
  | await hash => exact inLine_await h hash
  | release count => exact inLine_release h count
  | resume number => exact inLine_resume h number

/-- Whatever was done with a fresh chain, the line before its gate is the one that the waits know of. -/
theorem inLine_behind (deeds : List Deed) : InLine (behind deeds) :=
  behind_induction deeds inLine_fresh fun deed _ h => inLine_handle h deed

/-! ## Who is let through -/

/-- Whether new permits let the earliest waits in line through, as many as there are permits. -/
def LetsEarliestThrough (t : Traffic) (count : Nat) : Prop :=
  (after (release count) t).passed = t.passed ++ t.pending.take count

instance (t : Traffic) (count : Nat) : Decidable (t.LetsEarliestThrough count) :=
  inferInstanceAs (Decidable (_ = _))

/-- Stranded waits come before all others, so they are in the way of permits. -/
theorem InLine.letsEarliestThrough_iff (h : InLine t) (count : Nat) :
    t.LetsEarliestThrough count ↔ count = 0 ∨ t.stranded = [] := by
  rw [LetsEarliestThrough, h.passed_release, List.append_cancel_left_eq, h.pending_eq]
  constructor
  · intro hsame
    by_contra hboth
    obtain ⟨hcount, hsome⟩ := not_or.mp hboth
    obtain ⟨first, rest, hfirst⟩ := List.exists_cons_of_ne_nil hsome
    obtain ⟨fewer, rfl⟩ := Nat.exists_eq_succ_of_ne_zero hcount
    have hstranded : first ∈ t.stranded := hfirst ▸ List.mem_cons_self
    have hcurrent : first ∈ t.current.take (fewer + 1) := by
      rw [hsame, hfirst]
      exact List.mem_cons_self
    have hlt := (mem_stranded_iff.mp hstranded).2
    have heq := (mem_current_iff.mp (List.mem_of_mem_take hcurrent)).2
    omega
  · rintro (rfl | hnone)
    · rfl
    · rw [hnone, List.nil_append]

/-- Whatever is done, a stranded wait stays stranded. -/
theorem InLine.mem_stranded_handle (h : InLine t) {wait : Wait} (hmem : wait ∈ t.stranded)
    (deed : Deed) : wait ∈ (after (handle deed) t).stranded := by
  cases deed with
  | change c =>
    change wait ∈ (after (change c) t).stranded
    by_cases hclose : c = .closeGate
    · subst hclose
      rw [h.stranded_closeGate.1]
      exact (mem_stranded_iff.mp hmem).1
    · rw [after_change t hclose]
      exact hmem
  | read request => exact hmem
  | node => exact hmem
  | send call options => exact hmem
  | await hash =>
    change wait ∈ (after (await hash) t).stranded
    by_cases hfailing : .awaitInclusion ∈ t.chain.failing
    · rw [after_await_of_failing t hfailing]
      exact hmem
    · rw [after_await t hfailing]
      cases t.passes with
      | true => exact hmem
      | false =>
        obtain ⟨hpending, hlt⟩ := mem_stranded_iff.mp hmem
        exact mem_stranded_iff.mpr ⟨List.mem_append_left _ hpending, hlt⟩
  | release count =>
    change wait ∈ (after (release count) t).stranded
    rw [(h.stranded_current_release count).1]
    exact hmem
  | resume number =>
    change wait ∈ (after (resume number) t).stranded
    unfold after resume
    cases t.passed.find? fun wait => wait.number = number with
    | none => exact hmem
    | some found => exact hmem

/-- Inclusion that is held once strands nobody. -/
theorem InLine.stranded_eq_nil (h : InLine t) (hholds : t.holds ≤ 1) : t.stranded = [] := by
  rw [stranded, List.filter_eq_nil_iff]
  intro wait hmem
  have hpos := h.hold_pos wait hmem
  have hpresent : t.holds ≤ wait.hold := by omega
  simpa using hpresent

/-- New permits let the earliest waits before the present gate through, as many as there are permits,
and each of these is answered when it is resumed. Waits before former gates are not let through: they
are stranded, and stay so whatever is done later. They began before all others, so that new permits
let the earliest of all waits through exactly where none is stranded. None is where inclusion was held
once, and all that stand in line are when it is held again. -/
theorem permits_reach_present_gate (deeds : List Deed) (count : Nat) :
    let t := behind deeds
    let next := behind (deeds ++ [.release count])
    t.pending = t.stranded ++ t.current ∧
    t.pending.Pairwise (fun first second => first.number < second.number) ∧
    (∀ gate, t.chain.gate = some gate → gate.permits = 0 ∨ gate.line = []) ∧
    next.passed = t.passed ++ t.current.take count ∧
    next.pending = t.stranded ++ t.current.drop count ∧
    (∀ wait ∈ next.passed, answer (resume wait.number) next = some (next.chain.receipt wait.hash)) ∧
    (t.LetsEarliestThrough count ↔ count = 0 ∨ t.stranded = []) ∧
    (t.holds ≤ 1 → t.stranded = []) ∧
    (behind (deeds ++ [.change .closeGate])).stranded = t.pending ∧
    ∀ later : List Deed, ∀ wait ∈ t.stranded, wait ∈ (behind (deeds ++ later)).stranded := by
  intro t next
  have h : InLine t := inLine_behind deeds
  have hnext : next = after (release count) t := behind_concat deeds (.release count)
  have hinline : InLine next := inLine_behind (deeds ++ [.release count])
  have hclose : behind (deeds ++ [.change .closeGate]) = after (change .closeGate) t :=
    behind_concat deeds (.change .closeGate)
  refine ⟨h.pending_eq, h.ordered.imp fun hpair => hpair.1, h.fair, ?_, ?_,
    fun wait hmem => hinline.answer_resume hmem, h.letsEarliestThrough_iff count, h.stranded_eq_nil,
    ?_, fun later wait hmem => ?_⟩
  · rw [hnext, h.passed_release]
  · rw [hnext, h.pending_release]
  · rw [hclose, h.stranded_closeGate.1]
  · rw [behind_append]
    have hkept := after_forM_induction (P := fun t => InLine t ∧ wait ∈ t.stranded) later ⟨h, hmem⟩
      fun deed t hstart => ⟨inLine_handle hstart.1 deed, hstart.1.mem_stranded_handle hstart.2 deed⟩
    exact hkept.2

/-- Two waits before the same gate. -/
def twoWaits : List Deed :=
  [.change .closeGate, .await (Octets.ofNat 32 1), .await (Octets.ofNat 32 2)]

/-- Of two waits before the same gate, one permit lets the earlier one through. -/
theorem twoWaits_pass_in_turn :
    (behind twoWaits).holds ≤ 1 ∧ (behind twoWaits).LetsEarliestThrough 1 ∧
      (behind (twoWaits ++ [.release 1])).passed = [⟨0, Octets.ofNat 32 1, 1⟩] := by
  have hholds : (behind twoWaits).holds ≤ 1 := by decide
  obtain ⟨-, -, -, hpassed, -, -, hearliest, hnone, -⟩ := permits_reach_present_gate twoWaits 1
  refine ⟨hholds, hearliest.mpr (.inr (hnone hholds)), ?_⟩
  rw [hpassed]
  decide

/-- A wait that stands in line while inclusion is held once more. -/
def heldTwice : List Deed :=
  [.change .closeGate, .send (.prices 100 1) ⟨2, 1, 200000⟩,
    .await (Octets.ofNat 32 1), .change .closeGate]

/-- Inclusion is held, a transaction is sent and waited for, and inclusion is held again. A permit lets
nobody through then, though one wait is in line. -/
theorem heldTwice_lets_nobody_through :
    (behind heldTwice).pending.length = 1 ∧ ¬ (behind heldTwice).LetsEarliestThrough 1 ∧
      (behind (heldTwice ++ [.release 1])).passed.length ≠
        min 1 (behind heldTwice).pending.length := by
  decide

end Traffic

end StakeOracle
