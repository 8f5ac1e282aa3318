import StakeOracle.Proofs.Engine.Reports

/-!
# Where transactions come from

Over a run of turns every transaction is traced back to the tick that started its report. The tick is
unique because a report is numbered when it is started, and it leads to one transaction at most because
a report that was begun is never queued again. What the gates of that tick saw is what the transaction
stands on.
-/

namespace StakeOracle.Engine

variable {turns : List Turn}

/-- The engine before a turn of a run, with turns counted from zero. -/
def before (turns : List Turn) (k : Nat) : Engine := after (play (turns.take k)) fresh

/-- Behind all turns of a run is where it ends. -/
theorem before_length (turns : List Turn) :
    before turns turns.length = after (play turns) fresh := by
  rw [before, List.take_length]

/-- The engine before the next turn is what the turn leaves. -/
theorem before_succ {k : Nat} {t : Turn} (h : turns[k]? = some t) :
    before turns (k + 1) = after (turn t) (before turns k) := by
  rw [before, List.take_add_one, h]
  exact after_forM_append turn (turns.take k) [t] fresh

/-- Behind the last turn nothing changes. -/
theorem before_succ_of_none {k : Nat} (h : turns[k]? = none) :
    before turns (k + 1) = before turns k := by
  rw [before, List.take_add_one, h, Option.toList_none, List.append_nil]
  rfl

/-- A turn of a run started a report of a task on a checkpoint. -/
def StartedAt (turns : List Turn) (k task report : Nat) (checkpoint : Checkpoint) : Prop :=
  ∃ t, turns[k]? = some t ∧ Starts (before turns k) t task report checkpoint

/-- A turn of a run sent the transaction with a number for a report of a task. -/
def SentAt (turns : List Turn) (k task report number : Nat) (transaction : SentTransaction) :
    Prop :=
  ∃ t, turns[k]? = some t ∧ (before turns k).chain.sent.length = number ∧
    Sends (before turns k) t task report transaction

/-- The transaction with a number belongs to the tick of a turn: the tick started a report of the task
on the checkpoint, and a later turn sent the transaction for that report. -/
def BelongsTo (turns : List Turn) (number k task : Nat) (checkpoint : Checkpoint) : Prop :=
  ∃ report j transaction, StartedAt turns k task report checkpoint ∧ k < j ∧
    SentAt turns j task report number transaction

/-! ## Runs -/

/-- A run continues the engine from every earlier turn to every later one. -/
theorem continues_before {k j : Nat} (h : k ≤ j) :
    Continues (before turns k) (before turns j) := by
  induction h with
  | refl => exact .refl _
  | @step j _ ih =>
    refine ih.trans ?_
    cases ht : turns[j]? with
    | none => exact before_succ_of_none ht ▸ .refl _
    | some t => exact before_succ ht ▸ (continues_turn _ t).1

/-- No turn of a run takes back what was sent. -/
theorem sent_before {k j : Nat} (h : k ≤ j) :
    (before turns k).chain.sent <+: (before turns j).chain.sent := by
  induction h with
  | refl => exact List.prefix_refl _
  | @step j _ ih =>
    refine ih.trans ?_
    cases ht : turns[j]? with
    | none => exact before_succ_of_none ht ▸ List.prefix_refl _
    | some t =>
      rw [before_succ ht]
      rcases sent_turn (before turns j) t with hsame | ⟨task, report, transaction, hsends⟩
      · exact hsame ▸ List.prefix_refl _
      · rw [hsends.sent]
        exact List.prefix_append _ _

/-- An engine that continues another one has no fewer reports. -/
theorem Continues.length_le {engine next : Engine} (h : Continues engine next) :
    engine.reports.length ≤ next.reports.length := by
  refine Nat.le_of_not_lt fun hlt => ?_
  obtain ⟨r', hr', -⟩ := h.report (List.getElem?_eq_getElem hlt)
  exact absurd (List.getElem?_eq_some_iff.mp hr').1 (Nat.lt_irrefl _)

/-- Every report was started by an earlier turn, on its task and checkpoint. -/
theorem exists_startedAt (turns : List Turn) (n : Nat) {i : Nat} {r : Report}
    (h : (before turns n).reports[i]? = some r) :
    ∃ k < n, StartedAt turns k r.task i r.checkpoint := by
  induction n generalizing r with
  | zero => cases h
  | succ n ih =>
    cases ht : turns[n]? with
    | none =>
      rw [before_succ_of_none ht] at h
      obtain ⟨k, hk, hstarted⟩ := ih h
      exact ⟨k, Nat.lt_succ_of_lt hk, hstarted⟩
    | some t =>
      rw [before_succ ht] at h
      obtain ⟨hcontinues, hlength⟩ := continues_turn (before turns n) t
      by_cases hold : i < (before turns n).reports.length
      · obtain ⟨r', hr', htask, hcheckpoint, -⟩ :=
          hcontinues.report (List.getElem?_eq_getElem hold)
        obtain rfl : r' = r := Option.some.inj (hr'.symm.trans h)
        obtain ⟨k, hk, hstarted⟩ := ih (List.getElem?_eq_getElem hold)
        rw [htask, hcheckpoint]
        exact ⟨k, Nat.lt_succ_of_lt hk, hstarted⟩
      · have hi := (List.getElem?_eq_some_iff.mp h).1
        rcases hlength with hsame | ⟨task, checkpoint, hstarts⟩
        · omega
        · rw [hstarts.launched.2] at h hi
          rw [List.length_append, List.length_singleton] at hi
          obtain rfl : i = (before turns n).reports.length := by omega
          rw [List.getElem?_concat_length] at h
          cases h
          exact ⟨n, Nat.lt_succ_self n, t, ht, hstarts⟩

/-- Every transaction was sent by an earlier turn, for a report. -/
theorem exists_sentAt (turns : List Turn) (n : Nat) {number : Nat} {transaction : SentTransaction}
    (h : (before turns n).chain.sent[number]? = some transaction) :
    ∃ k < n, ∃ task report, SentAt turns k task report number transaction := by
  induction n with
  | zero => cases h
  | succ n ih =>
    cases ht : turns[n]? with
    | none =>
      rw [before_succ_of_none ht] at h
      obtain ⟨k, hk, hsent⟩ := ih h
      exact ⟨k, Nat.lt_succ_of_lt hk, hsent⟩
    | some t =>
      rw [before_succ ht] at h
      rcases sent_turn (before turns n) t with hsame | ⟨task, report, last, hsends⟩
      · rw [hsame] at h
        obtain ⟨k, hk, hsent⟩ := ih h
        exact ⟨k, Nat.lt_succ_of_lt hk, hsent⟩
      · rw [hsends.sent] at h
        by_cases hold : number < (before turns n).chain.sent.length
        · rw [List.getElem?_append_left hold] at h
          obtain ⟨k, hk, hsent⟩ := ih h
          exact ⟨k, Nat.lt_succ_of_lt hk, hsent⟩
        · have hnumber := (List.getElem?_eq_some_iff.mp h).1
          rw [List.length_append, List.length_singleton] at hnumber
          obtain rfl : number = (before turns n).chain.sent.length := by omega
          rw [List.getElem?_concat_length] at h
          cases h
          exact ⟨n, Nat.lt_succ_self n, task, report, t, ht, rfl, hsends⟩

/-! ## One tick for a transaction, and one transaction for a tick -/

variable {j k report task task' number number' : Nat} {checkpoint checkpoint' : Checkpoint}
  {transaction transaction' : SentTransaction}

/-- A report has one number, so it is started once. -/
theorem StartedAt.turn_le (h : StartedAt turns k task report checkpoint)
    (h' : StartedAt turns j task' report checkpoint') : j ≤ k := by
  obtain ⟨t, ht, hstarts⟩ := h
  obtain ⟨t', ht', hstarts'⟩ := h'
  refine Nat.le_of_not_lt fun hlt => ?_
  have hlater : Continues (before turns (k + 1)) (before turns j) := continues_before hlt
  have hlength := hlater.length_le
  rw [before_succ ht, hstarts.launched.2, List.length_append, List.length_singleton] at hlength
  have hreport := hstarts.launched.1
  have hreport' := hstarts'.launched.1
  omega

/-- A number is given to one transaction only. -/
theorem SentAt.turn_le {report' : Nat} (h : SentAt turns k task report number transaction)
    (h' : SentAt turns j task' report' number transaction') : j ≤ k := by
  obtain ⟨t, ht, hnumber, hsends⟩ := h
  obtain ⟨t', ht', hnumber', hsends'⟩ := h'
  refine Nat.le_of_not_lt fun hlt => ?_
  have hlater : (before turns (k + 1)).chain.sent <+: (before turns j).chain.sent :=
    sent_before hlt
  have hlength := hlater.length_le
  rw [before_succ ht, hsends.sent, List.length_append, List.length_singleton] at hlength
  omega

/-- A report that has sent a transaction sends no other one: it is not queued any more. -/
theorem SentAt.turn_le_of_report (h : SentAt turns k task report number transaction)
    (h' : SentAt turns j task' report number' transaction') : j ≤ k := by
  obtain ⟨t, ht, hnumber, hsends⟩ := h
  obtain ⟨t', ht', hnumber', hsends'⟩ := h'
  refine Nat.le_of_not_lt fun hlt => ?_
  obtain ⟨r, slot, -, hbegun⟩ := hsends.begunWith
  obtain ⟨r', slot', -, hbegun'⟩ := hsends'.begunWith
  have hnext := (continues_turn (before turns k) t).1
  obtain ⟨later, hlater, -⟩ := hnext.report hbegun.listed
  have hrest : Continues (before turns (k + 1)) (before turns j) := continues_before hlt
  rw [before_succ ht] at hrest
  obtain ⟨last, hlast, -, -, hqueued⟩ := hrest.report hlater
  obtain rfl : last = r' := Option.some.inj (hlast.symm.trans hbegun'.listed)
  exact hbegun.begun hlater (hqueued hbegun'.queued)

/-- Every transaction of a run belongs to exactly one earlier tick of the task that sent it, and no
other transaction belongs to that tick. When the tick read the chain, both clients were synced, the
node was trusted, the category was enabled, and the checkpoint was above the recorded block, up to the
head, and final; the call has the category of the task and the block of that checkpoint. -/
theorem sent_belongs_to_one_tick (turns : List Turn) (number : Nat) (transaction : SentTransaction)
    (h : (after (play turns) fresh).chain.sent[number]? = some transaction) :
    ∃ k task checkpoint slot,
      BelongsTo turns number k task checkpoint ∧
      (before turns k).tasks[task]? = some slot ∧
      Authorised (before turns k).chain slot.task checkpoint ∧
      transaction.call.category = slot.task.category ∧
      transaction.call.block = checkpoint.block ∧
      (∀ k' task' checkpoint', BelongsTo turns number k' task' checkpoint' → k' = k) ∧
      ∀ number' task' checkpoint', BelongsTo turns number' k task' checkpoint' →
        number' = number := by
  rw [← before_length] at h
  obtain ⟨j, -, task, report, hsent⟩ := exists_sentAt turns turns.length h
  obtain ⟨t, ht, hnumber, hsends⟩ := id hsent
  obtain ⟨r, slot, rfl, hbegun⟩ := hsends.begunWith
  obtain ⟨k, hk, hstarted⟩ := exists_startedAt turns j hbegun.listed
  obtain ⟨t', ht', hstarts⟩ := id hstarted
  obtain ⟨slot', hslot', hauthorised⟩ := hstarts.authorised
  have hearlier : Continues (before turns k) (before turns j) :=
    continues_before (Nat.le_of_lt hk)
  obtain ⟨slot'', hslot'', htask⟩ := hearlier.slot hslot'
  obtain rfl : slot'' = slot := Option.some.inj (hslot''.symm.trans hbegun.assigned)
  refine ⟨k, r.task, r.checkpoint, slot', ⟨report, j, transaction, hstarted, hk, hsent⟩, hslot',
    hauthorised, htask ▸ hbegun.category, hbegun.block, ?_, ?_⟩
  · rintro k' task' checkpoint' ⟨report', j', transaction', hstarted', -, hsent'⟩
    -- The number is given once, so both reports are the one that the turn carries out.
    obtain rfl : j' = j := Nat.le_antisymm (hsent.turn_le hsent') (hsent'.turn_le hsent)
    obtain ⟨t'', ht'', -, hsends'⟩ := hsent'
    obtain rfl : t'' = t := Option.some.inj (ht''.symm.trans ht)
    obtain rfl : report' = report := Option.some.inj (hsends'.carries.symm.trans hsends.carries)
    exact Nat.le_antisymm (hstarted.turn_le hstarted') (hstarted'.turn_le hstarted)
  · rintro number' task' checkpoint' ⟨report', j', transaction', hstarted', -, hsent'⟩
    -- The tick started one report, and that was carried out at one turn only.
    obtain ⟨t'', ht'', hstarts'⟩ := hstarted'
    obtain rfl : report' = report := hstarts'.launched.1.trans hstarts.launched.1.symm
    obtain rfl : j' = j :=
      Nat.le_antisymm (hsent.turn_le_of_report hsent') (hsent'.turn_le_of_report hsent)
    obtain ⟨-, -, hnumber', -⟩ := hsent'
    exact hnumber'.symm.trans hnumber

/-- A run that reports a fixed price. -/
def priceTurns : List Turn :=
  [.step (.change (.latestBlock 120)), .step (.change (.reportable .prices 100)),
   .step (.addTask ⟨.price (.fixed 42), .onChain, ⟨100000000000, 1000000000⟩⟩),
   .step (.tick 0), .step (.begin 0)]

/-- The transaction of that run belongs to the tick in it, and the tick was authorised. -/
theorem price_belongs_to_its_tick :
    let transaction : SentTransaction := ⟨.prices 100 42, ⟨100000000000, 1000000000, 150000⟩,
      Octets.ofNat 32 1, Chain.firstNode, true⟩
    let checkpoint : Checkpoint := ⟨.prices, 100, 0, 1600001200, 100, 3⟩
    (after (play priceTurns) fresh).chain.sent[0]? = some transaction ∧
      BelongsTo priceTurns 0 3 0 checkpoint ∧
      (∃ slot, (before priceTurns 3).tasks[0]? = some slot ∧
        Authorised (before priceTurns 3).chain slot.task checkpoint) ∧
      ∀ k task other, BelongsTo priceTurns 0 k task other → k = 3 := by
  intro transaction checkpoint
  have hsent : (after (play priceTurns) fresh).chain.sent[0]? = some transaction := rfl
  have hbelongs : BelongsTo priceTurns 0 3 0 checkpoint :=
    ⟨0, 4, transaction, ⟨_, rfl, rfl, rfl⟩, by decide, ⟨_, rfl, rfl, rfl, rfl, rfl⟩⟩
  obtain ⟨k, -, -, -, -, -, -, -, -, hunique, -⟩ :=
    sent_belongs_to_one_tick priceTurns 0 transaction hsent
  obtain rfl : 3 = k := hunique 3 0 checkpoint hbelongs
  obtain ⟨t, ht, hstarts⟩ : StartedAt priceTurns 3 0 0 checkpoint := ⟨_, rfl, rfl, rfl⟩
  exact ⟨hsent, hbelongs, hstarts.authorised, hunique⟩

end StakeOracle.Engine
