import StakeOracle.Proofs.Engine.Moves

/-!
# The two tasks do not disturb each other

What a category sees of its ticks and reports, and what it sends, does not depend on the moves of the
other category, nor on faults of calls that it does not make. Two runs that differ in nothing else are
followed side by side: their chains are not told apart, as long as no key of the one category's records
is a key of the other's.
-/

namespace StakeOracle

open Chain.Operation (keysOf)
open SubmissionRecord (keyMessages octets_mem_keyMessages coarse_octets_mem_keyMessages
  category_eq_of_octets_eq)

/-- Two different messages behind keys of records, one of each category, have one digest. -/
def CrossCollision (records : List SubmissionRecord) : Prop :=
  ∃ record ∈ records, ∃ other ∈ records, record.category ≠ other.category ∧
    ∃ a ∈ keyMessages [record], ∃ b ∈ keyMessages [other], a ≠ b ∧
      Keccak.digest a = Keccak.digest b

/-- A key of a record is the digest of a message in which the category of the record is written. -/
theorem exists_message_of_mem_keysOf {record : SubmissionRecord} {key : Digest}
    (h : key ∈ keysOf record) : ∃ written : SubmissionRecord, written.category = record.category ∧
      written.octets ∈ keyMessages [record] ∧ Keccak.digest written.octets = key := by
  rcases List.mem_pair.mp h with rfl | rfl
  · exact ⟨record.coarse, rfl, coarse_octets_mem_keyMessages List.mem_cons_self, rfl⟩
  · exact ⟨record, rfl, octets_mem_keyMessages List.mem_cons_self, rfl⟩

/-- A key that records of both categories have is a collision, since the messages behind their keys
differ. -/
theorem crossCollision_of_key {records : List SubmissionRecord} {record other : SubmissionRecord}
    (hrecord : record ∈ records) (hother : other ∈ records)
    (hcategory : record.category ≠ other.category) {key : Digest} (hkey : key ∈ keysOf record)
    (hshared : key ∈ keysOf other) : CrossCollision records := by
  obtain ⟨a, ha, hmem, hdigest⟩ := exists_message_of_mem_keysOf hkey
  obtain ⟨b, hb, hmem', hdigest'⟩ := exists_message_of_mem_keysOf hshared
  refine ⟨record, hrecord, other, hother, hcategory, _, hmem, _, hmem', fun hsame => ?_,
    hdigest.trans hdigest'.symm⟩
  exact hcategory (ha.symm.trans ((category_eq_of_octets_eq hsame).trans hb))

/-- The keys of the other category's records. -/
def ForeignKey (category : Category) (records : List SubmissionRecord) (key : Digest) : Prop :=
  ∃ record ∈ records, record.category ≠ category ∧ key ∈ keysOf record

namespace Engine

/-- Whether a move matters to a category: a move of the other one does not, nor does a fault of a call
that the category does not make. -/
def Move.concerns (category : Category) (called : List Method) : Move → Bool
  | .change (.fail method) => method ∈ called
  | .change _ => true
  | .tick other => other = category
  | .report other => other = category

/-- Two engines that a category does not tell apart: besides the chain it sees its own task and its own
queue. -/
structure Agrees (category : Category) (called : List Method) (foreign : Digest → Prop)
    (engine other : Engine) : Prop where
  chain : Chain.Agrees category called foreign engine.chain other.chain
  slot : other.tasks[category.taskNumber]? = engine.tasks[category.taskNumber]?
  queue : other.queueOf category.taskNumber = engine.queueOf category.taskNumber

namespace Agrees

variable {category : Category} {called : List Method} {foreign : Digest → Prop}
  {engine other : Engine}

/-- No category tells an engine from itself. -/
protected theorem refl (engine : Engine) : Agrees category called foreign engine engine :=
  ⟨.refl _, rfl, rfl⟩

/-- A category that does not tell one engine from another does not tell the other from the one. -/
protected theorem symm (h : Agrees category called foreign engine other) :
    Agrees category called foreign other engine :=
  ⟨h.chain.symm, h.slot.symm, h.queue.symm⟩

/-- The same tick on both sides is not told apart. -/
theorem ticked (h : Agrees category called foreign engine other) (flight : Flight)
    (result : Except ReportError TickOutcome) :
    Agrees category called foreign (engine.ticked category.taskNumber flight result)
      (other.ticked category.taskNumber flight result) := by
  unfold Engine.ticked
  split
  · refine ⟨h.chain, ?_, ?_⟩
    · simp only [launch, List.getElem?_modify_eq, h.slot]
    · rw [queueOf_launch, queueOf_launch, h.queue]
  · exact h

/-- A tick of another task is not noticed. -/
theorem ticked_of_ne (h : Agrees category called foreign engine other) {task : Nat}
    (hne : task ≠ category.taskNumber) (flight : Flight)
    (result : Except ReportError TickOutcome) :
    Agrees category called foreign (engine.ticked task flight result) other := by
  unfold Engine.ticked
  split
  · refine ⟨h.chain, ?_, ?_⟩
    · exact h.slot.trans (List.getElem?_modify_ne _ _ hne).symm
    · rw [queueOf_launch, if_neg hne, List.append_nil, h.queue]
  · exact h

/-- Reports that end on both sides are not told apart, if the chains behind them are not. -/
theorem retire (h : Agrees category called foreign engine other) {report report' : Nat}
    {delivery delivery' : Chain.Delivery}
    (hchain : Chain.Agrees category called foreign delivery.chain delivery'.chain)
    (hqueue : (other.retire report' category.taskNumber delivery').queueOf category.taskNumber =
      (engine.retire report category.taskNumber delivery).queueOf category.taskNumber) :
    Agrees category called foreign (engine.retire report category.taskNumber delivery)
      (other.retire report' category.taskNumber delivery') := by
  refine ⟨hchain, ?_, hqueue⟩
  simp only [Engine.retire, setPhase, freeFlight, List.getElem?_modify_eq, h.slot]

/-- A report of another task that ends is not noticed, if the chain behind it is not. -/
theorem retire_of_ne (h : Agrees category called foreign engine other) {report task : Nat}
    {delivery : Chain.Delivery} (hqueued : engine.queued? task = some report)
    (hne : task ≠ category.taskNumber)
    (hchain : Chain.Agrees category called foreign delivery.chain other.chain) :
    Agrees category called foreign (engine.retire report task delivery) other := by
  refine ⟨hchain, ?_, ?_⟩
  · exact h.slot.trans (List.getElem?_modify_ne _ _ hne).symm
  · rw [queueOf_retire_of_ne hqueued hne, h.queue]

end Agrees

/-! ## What a move asks the ledger about -/

/-- A report asks the ledger about a record of its category. -/
theorem Move.record?_report {tasks : TaskPair} {engine : Engine} (h : Steady tasks engine)
    {category : Category} {checkpoint : Checkpoint} {rest : List Checkpoint}
    (hqueue : engine.queueOf category.taskNumber = checkpoint :: rest) :
    (Move.report category).record? engine =
      (tasks.task category).asksAbout? checkpoint engine.chain := by
  obtain ⟨flight, hslot⟩ := h.slots category
  rw [Move.record?, hqueue, hslot]
  rfl

/-- A task asks the ledger about records of its own category. -/
theorem category_asksAbout? {task : ReportTask} {checkpoint : Checkpoint} {chain : Chain}
    {record : SubmissionRecord} (h : task.asksAbout? checkpoint chain = some record) :
    record.category = task.category := by
  unfold ReportTask.asksAbout? at h
  split at h
  · cases h
  · split at h
    · cases h
      rfl
    · cases h

/-! ## One move -/

/-- A run of an engine that can be followed: the engine is steady, its transactions can be numbered, the
gate is never closed, and the records that the ledger is asked about are known. -/
structure Followed (tasks : TaskPair) (records : List SubmissionRecord) (engine : Engine)
    (moves : List Move) : Prop where
  steady : Steady tasks engine
  count : (performAll engine moves).chain.sent.length < 2 ^ 64
  undelayed : ∀ move ∈ moves, move ≠ .change .closeGate
  known : ∀ record ∈ recordsOf engine moves, record ∈ records

variable {tasks : TaskPair} {records : List SubmissionRecord} {category : Category}
  {called : List Method} {foreign : Digest → Prop} {engine other : Engine} {move : Move}
  {moves others : List Move}

namespace Followed

/-- At the start of a run the transactions can be numbered too. -/
theorem count_lt (h : Followed tasks records engine (move :: moves)) :
    engine.chain.sent.length < 2 ^ 64 :=
  Nat.lt_of_le_of_lt (length_sent_performAll engine (move :: moves)).1 h.count

/-- What is left of a run can be followed after its first move. -/
theorem tail (h : Followed tasks records engine (move :: moves)) :
    Followed tasks records (move.perform engine) moves where
  steady := h.steady.perform h.count_lt (h.undelayed move List.mem_cons_self)
  count := h.count
  undelayed next hnext := h.undelayed next (List.mem_cons_of_mem _ hnext)
  known record hrecord := h.known record (List.mem_append_right _ hrecord)

/-- The record of the first move is known. -/
theorem known_head (h : Followed tasks records engine (move :: moves)) {record : SubmissionRecord}
    (hrecord : move.record? engine = some record) : record ∈ records := by
  refine h.known record (List.mem_append_left _ ?_)
  exact Option.mem_toList.mpr hrecord

/-- A report asks about a known record of its category. -/
theorem known_report {reporting : Category} {checkpoint : Checkpoint} {rest : List Checkpoint}
    (h : Followed tasks records engine (.report reporting :: moves))
    (hqueue : engine.queueOf reporting.taskNumber = checkpoint :: rest) {record : SubmissionRecord}
    (hrecord : (tasks.task reporting).asksAbout? checkpoint engine.chain = some record) :
    record ∈ records ∧ record.category = reporting :=
  ⟨h.known_head ((Move.record?_report h.steady hqueue).trans hrecord),
    (category_asksAbout? hrecord).trans (tasks.category_task reporting)⟩

end Followed

namespace Agrees

/-- A move that does not matter to the category is not noticed. -/
theorem hidden (h : Agrees category called (ForeignKey category records) engine other)
    (hrun : Followed tasks records engine (move :: moves))
    (hhidden : move.concerns category called = false) :
    Agrees category called (ForeignKey category records) (move.perform engine) other := by
  cases move with
  | change change =>
    cases change with
    | fail failed =>
      exact ⟨h.chain.fail (of_decide_eq_false hhidden), h.slot, h.queue⟩
    | _ => cases hhidden
  | tick ticking =>
    have hne : ticking.taskNumber ≠ category.taskNumber := fun hsame =>
      of_decide_eq_false hhidden (Category.taskNumber_inj hsame)
    obtain ⟨flight, -, hperform, -⟩ := hrun.steady.perform_tick ticking
    rw [hperform]
    exact h.ticked_of_ne hne flight _
  | report reporting =>
    have hother : reporting ≠ category := of_decide_eq_false hhidden
    cases hqueue : engine.queueOf reporting.taskNumber with
    | nil =>
      rw [(perform_report_of_nil hqueue).1]
      exact h
    | cons checkpoint rest =>
      obtain ⟨report, hqueued, -, hperform, -⟩ := hrun.steady.perform_report hrun.count_lt hqueue
      have hcategory : (tasks.task reporting).category ≠ category := by
        rw [tasks.category_task]
        exact hother
      rw [hperform]
      refine h.retire_of_ne hqueued (fun hsame => hother (Category.taskNumber_inj hsame)) ?_
      refine h.chain.fulfil_foreign hcategory fun record hrecord key hkey => ?_
      obtain ⟨hknown, hown⟩ := hrun.known_report hqueue hrecord
      exact ⟨record, hknown, hown ▸ hother, hkey⟩

/-- A tick of the category has the same outcome on both sides, and is not told apart afterwards. -/
theorem shared_tick (h : Agrees category called foreign engine other) (hsteady : Steady tasks engine)
    (hother : Steady tasks other)
    (hcalls : ∀ method ∈ (Move.tick category).calls engine, method ∈ called) :
    Agrees category called foreign ((Move.tick category).perform engine)
        ((Move.tick category).perform other) ∧
      (Move.tick category).observation? other = (Move.tick category).observation? engine := by
  obtain ⟨flight, hslot, hperform, hmade, hseen⟩ := hsteady.perform_tick category
  obtain ⟨flight', hslot', hperform', -, hseen'⟩ := hother.perform_tick category
  obtain rfl : flight' = flight := by
    have hsame := hslot'.symm.trans (h.slot.trans hslot)
    cases hsame
    rfl
  have hasked := (shares_tick h.chain.world (tasks.task category) flight'.busy).alike
    fun method hmethod => h.chain.failing method (hcalls method (hmade ▸ hmethod))
  rw [hperform, hperform', hseen, hseen', hasked]
  exact ⟨h.ticked flight' _, rfl⟩

/-- A report of the category has the same ending on both sides, and is not told apart afterwards. -/
theorem shared_report (hfree : ¬ CrossCollision records)
    (h : Agrees category called (ForeignKey category records) engine other)
    (hrun : Followed tasks records engine (.report category :: moves))
    (hother : Followed tasks records other (.report category :: others))
    (hcalls : ∀ method ∈ (Move.report category).calls engine, method ∈ called) :
    Agrees category called (ForeignKey category records) ((Move.report category).perform engine)
        ((Move.report category).perform other) ∧
      (Move.report category).observation? other = (Move.report category).observation? engine := by
  cases hqueue : engine.queueOf category.taskNumber with
  | nil =>
    obtain ⟨hperform, -, hseen⟩ := perform_report_of_nil hqueue
    obtain ⟨hperform', -, hseen'⟩ := perform_report_of_nil (h.queue.trans hqueue)
    rw [hperform, hperform', hseen, hseen']
    exact ⟨h, rfl⟩
  | cons checkpoint rest =>
    obtain ⟨report, -, hrest, hperform, hmade, hseen⟩ :=
      hrun.steady.perform_report hrun.count_lt hqueue
    obtain ⟨report', -, hrest', hperform', -, hseen'⟩ :=
      hother.steady.perform_report hother.count_lt (h.queue.trans hqueue)
    -- The keys that the report looks at are no keys of the other category's records.
    have hkeys : ∀ record, (tasks.task category).asksAbout? checkpoint engine.chain = some record →
        ∀ key ∈ keysOf record, ¬ ForeignKey category records key := by
      rintro record hrecord key hkey ⟨foreign, hforeign, hcategory, hshared⟩
      obtain ⟨hknown, hown⟩ := hrun.known_report hqueue hrecord
      exact hfree (crossCollision_of_key hknown hforeign (hown ▸ hcategory.symm) hkey hshared)
    obtain ⟨hchain, hending⟩ := h.chain.fulfil (tasks.task category) checkpoint
      (fun method hmethod => hcalls method (hmade ▸ hmethod)) hkeys
    rw [hperform, hperform', hseen, hseen', hending]
    exact ⟨h.retire hchain (hrest'.trans hrest.symm), rfl⟩

/-- A move that matters is seen alike on both sides, and is not told apart afterwards. -/
theorem shared (hfree : ¬ CrossCollision records)
    (h : Agrees category called (ForeignKey category records) engine other)
    (hrun : Followed tasks records engine (move :: moves))
    (hother : Followed tasks records other (move :: others))
    (hconcerns : move.concerns category called = true)
    (hcalls : move.category? = some category → ∀ method ∈ move.calls engine, method ∈ called) :
    Agrees category called (ForeignKey category records) (move.perform engine)
        (move.perform other) ∧
      (move.category? = some category → move.observation? other = move.observation? engine) := by
  cases move with
  | change change =>
    exact ⟨⟨h.chain.apply change, h.slot, h.queue⟩, fun hcategory => by cases hcategory⟩
  | tick ticking =>
    obtain rfl : ticking = category := of_decide_eq_true hconcerns
    obtain ⟨hnext, hseen⟩ := h.shared_tick hrun.steady hother.steady (hcalls rfl)
    exact ⟨hnext, fun _ => hseen⟩
  | report reporting =>
    obtain rfl : reporting = category := of_decide_eq_true hconcerns
    obtain ⟨hnext, hseen⟩ := h.shared_report hfree hrun hother (hcalls rfl)
    exact ⟨hnext, fun _ => hseen⟩

end Agrees

/-! ## Whole runs -/

/-- Two lists that differ only in items that do not count. -/
inductive SameBut (counts : α → Bool) : List α → List α → Prop where
  | nil : SameBut counts [] []
  | both {item : α} {left right : List α} (h : counts item = true)
      (rest : SameBut counts left right) : SameBut counts (item :: left) (item :: right)
  | left {item : α} {left right : List α} (h : counts item = false)
      (rest : SameBut counts left right) : SameBut counts (item :: left) right
  | right {item : α} {left right : List α} (h : counts item = false)
      (rest : SameBut counts left right) : SameBut counts left (item :: right)

namespace SameBut

variable {counts : α → Bool} {left right : List α}

/-- Items that do not count may stand in front. -/
theorem right_append {front : List α} (h : ∀ item ∈ front, counts item = false)
    (rest : SameBut counts left right) : SameBut counts left (front ++ right) := by
  induction front with
  | nil => exact rest
  | cons item front ih =>
    rw [List.forall_mem_cons] at h
    exact .right h.1 (ih h.2)

/-- Lists whose items that count are the same differ only in the others. -/
theorem of_filter_eq (h : right.filter counts = left.filter counts) :
    SameBut counts left right := by
  induction left generalizing right with
  | nil =>
    rw [List.filter_nil, List.filter_eq_nil_iff] at h
    have hright : ∀ item ∈ right, counts item = false := fun item hmem =>
      Bool.eq_false_iff.mpr (h item hmem)
    simpa using SameBut.right_append hright .nil
  | cons item left ih =>
    cases hcounts : counts item with
    | false =>
      rw [List.filter_cons_of_neg (by simp [hcounts])] at h
      exact .left hcounts (ih h)
    | true =>
      rw [List.filter_cons_of_pos hcounts, List.filter_eq_cons_iff] at h
      obtain ⟨front, back, rfl, hfront, -, hback⟩ := h
      refine .right_append (fun other hmem => Bool.eq_false_iff.mpr (hfront other hmem)) ?_
      exact .both hcounts (ih hback)

end SameBut

/-- A move that does not matter to a category is not its own. -/
theorem Move.category?_ne_of_hidden (h : move.concerns category called = false) :
    move.category? ≠ some category := by
  cases move with
  | change change => simp [Move.category?]
  | tick ticking => simpa [Move.category?] using of_decide_eq_false h
  | report reporting => simpa [Move.category?] using of_decide_eq_false h

/-- A category sees nothing of a move that does not matter to it. -/
theorem observations_hidden (h : move.concerns category called = false) (engine : Engine)
    (moves : List Move) : observations category engine (move :: moves) =
      observations category (move.perform engine) moves := by
  rw [observations, along, if_neg (Move.category?_ne_of_hidden h), List.nil_append]

/-- Runs that differ only in moves that do not matter to a category are seen alike by it. -/
theorem Agrees.run (hfree : ¬ CrossCollision records)
    (hsame : SameBut (Move.concerns category called) moves others)
    (h : Agrees category called (ForeignKey category records) engine other)
    (hrun : Followed tasks records engine moves) (hother : Followed tasks records other others)
    (hcalls : ∀ method ∈ callsOf category engine moves, method ∈ called) :
    observations category other others = observations category engine moves ∧
      (performAll other others).chain.sentOf category =
        (performAll engine moves).chain.sentOf category := by
  induction hsame generalizing engine other with
  | nil => exact ⟨rfl, h.chain.sent⟩
  | @both move moves others hconcerns _ ih =>
    rw [callsOf, along, List.forall_mem_append] at hcalls
    obtain ⟨hnext, hseen⟩ := h.shared hfree hrun hother hconcerns
      fun hown => by simpa only [hown, ↓reduceIte] using hcalls.1
    obtain ⟨hobserved, hsent⟩ := ih hnext hrun.tail hother.tail hcalls.2
    refine ⟨?_, hsent⟩
    change (if _ then _ else _) ++ observations category (move.perform other) others =
      (if _ then _ else _) ++ observations category (move.perform engine) moves
    rw [hobserved]
    by_cases hown : move.category? = some category
    · rw [if_pos hown, if_pos hown, hseen hown]
    · rw [if_neg hown, if_neg hown]
  | @left move moves others hhidden _ ih =>
    rw [callsOf, along, List.forall_mem_append] at hcalls
    obtain ⟨hobserved, hsent⟩ := ih (h.hidden hrun hhidden) hrun.tail hother hcalls.2
    exact ⟨by rw [observations_hidden hhidden, hobserved], hsent⟩
  | @right move moves others hhidden _ ih =>
    obtain ⟨hobserved, hsent⟩ := ih (h.symm.hidden hother hhidden).symm hrun hother.tail hcalls
    exact ⟨by rw [observations_hidden hhidden, hobserved], hsent⟩

/-- The categories are independent. Let two runs of a balances task and a prices task on a chain whose
inclusions are not held back differ only in moves of the one category and in faults of calls that the
other category does not make. Unless digests collide across the categories, that other category sees
the same outcomes of its ticks and the same endings of its reports, up to the hashes of transactions,
and sends the same calls with the same fees and gas limits. A chain counts its transactions in
64 bits. -/
theorem categories_independent (tasks : TaskPair) (category : Category) (moves others : List Move)
    (hundelayed : ∀ move ∈ moves, move ≠ .change .closeGate)
    (hmoves : (performAll tasks.engine moves).chain.sent.length < 2 ^ 64)
    (hothers : (performAll tasks.engine others).chain.sent.length < 2 ^ 64)
    (hsame : others.filter (Move.concerns category (callsOf category tasks.engine moves)) =
      moves.filter (Move.concerns category (callsOf category tasks.engine moves))) :
    CrossCollision (recordsOf tasks.engine moves ++ recordsOf tasks.engine others) ∨
      (observations category tasks.engine others = observations category tasks.engine moves ∧
        (performAll tasks.engine others).chain.sentOf category =
          (performAll tasks.engine moves).chain.sentOf category) := by
  by_cases hfree : CrossCollision (recordsOf tasks.engine moves ++ recordsOf tasks.engine others)
  · exact .inl hfree
  · right
    have hundelayed' : ∀ move ∈ others, move ≠ .change .closeGate := by
      rintro move hmem rfl
      have hkept : .change .closeGate ∈
          others.filter (Move.concerns category (callsOf category tasks.engine moves)) :=
        List.mem_filter.mpr ⟨hmem, rfl⟩
      rw [hsame] at hkept
      exact hundelayed _ (List.mem_filter.mp hkept).1 rfl
    exact Agrees.run hfree (.of_filter_eq hsame) (.refl tasks.engine)
      ⟨tasks.steady, hmoves, hundelayed, fun _ => List.mem_append_left _⟩
      ⟨tasks.steady, hothers, hundelayed', fun _ => List.mem_append_right _⟩ fun _ => id

/-- A task for the price of a fixed figure and one for balances without minipools. -/
def fixedPair : TaskPair where
  task
    | .balances =>
      ⟨.balances ⟨none, ⟨ethToWei 32, ethToWei 16⟩, 30⟩, .onChain, ⟨100000000000, 1000000000⟩⟩
    | .prices => ⟨.price (.fixed 42), .onChain, ⟨100000000000, 1000000000⟩⟩
  category_task category := by cases category <;> rfl

/-- A run in which both tasks tick, and the report of prices is carried out before that of balances. -/
def mixedMoves : List Move :=
  [.change (.latestBlock 120), .change (.reportable .prices 100),
   .change (.reportable .balances 90), .tick .balances, .tick .prices, .report .prices,
   .report .balances]

/-- The moves of prices alone, while nodes cannot be listed. -/
def priceMoves : List Move :=
  [.change (.latestBlock 120), .change (.reportable .prices 100), .change (.fail .nodeAddresses),
   .change (.reportable .balances 90), .tick .prices, .report .prices]

/-- The report of prices is the same beside the other task and alone. -/
theorem prices_unmoved_by_balances :
    CrossCollision (recordsOf fixedPair.engine mixedMoves ++ recordsOf fixedPair.engine priceMoves) ∨
      (observations .prices fixedPair.engine priceMoves =
          observations .prices fixedPair.engine mixedMoves ∧
        (performAll fixedPair.engine priceMoves).chain.sentOf .prices =
          (performAll fixedPair.engine mixedMoves).chain.sentOf .prices) :=
  categories_independent fixedPair .prices mixedMoves priceMoves (by simp [mixedMoves])
    (Nat.lt_of_le_of_lt (length_sent_performAll _ mixedMoves).2 (by decide))
    (Nat.lt_of_le_of_lt (length_sent_performAll _ priceMoves).2 (by decide)) (by decide +kernel)

example : (performAll fixedPair.engine priceMoves).chain.sentOf .prices =
    [(.prices 100 42, ⟨100000000000, 1000000000, 150000⟩)] := by rfl

end Engine

end StakeOracle
