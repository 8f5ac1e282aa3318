import StakeOracle.Proofs.Engine.Delivery
import StakeOracle.Proofs.Report.Locality

/-!
# Chains that a category does not tell apart

Two chains may hold the same apart from transactions of the other category, flags under foreign keys,
and faults of calls that a category does not make. A report of the category comes to the same on both,
up to the hash of its transaction, and leaves chains that are again not told apart. A report of the
other category on one of them is not noticed.
-/

namespace StakeOracle

/-- What stands for the hash of a transaction where hashes are left out. -/
def blankHash : Digest := Octets.replicate 32 0

/-- A failure up to the hash of its transaction. -/
def ReportError.unhashed : ReportError → ReportError
  | .reverted call _ => .reverted call blankHash
  | e => e

/-- An outcome up to the hash of its transaction. -/
def ReportOutcome.unhashed : ReportOutcome → ReportOutcome
  | .submitted receipt => .submitted { receipt with hash := blankHash }
  | outcome => outcome

/-- How a report ended, up to the hash of its transaction. -/
def Ending.unhashed : Ending → Ending
  | .finished (.ok outcome) => .finished (.ok outcome.unhashed)
  | .finished (.error e) => .finished (.error e.unhashed)
  | ending => ending

/-- The calls that were sent for a category, with their fees and gas limits. -/
def Chain.sentOf (chain : Chain) (category : Category) : List (SubmissionCall × SendOptions) :=
  (chain.sent.filter fun transaction => transaction.call.category = category).map
    fun transaction => (transaction.call, transaction.options)

/-- Two chains that a category does not tell apart, as long as it makes no other calls than these and
looks at no foreign keys. -/
structure Chain.Agrees (category : Category) (called : List Method) (foreign : Digest → Prop)
    (chain other : Chain) : Prop where
  world : other.world = chain.world
  failing : ∀ method ∈ called, method ∈ other.failing ↔ method ∈ chain.failing
  flags : ∀ key, ¬ foreign key → (key ∈ other.flags ↔ key ∈ chain.flags)
  sent : other.sentOf category = chain.sentOf category

namespace Chain.Agrees

variable {category : Category} {called : List Method} {foreign : Digest → Prop}
  {chain other : Chain}

/-- No category tells a chain from itself. -/
protected theorem refl (chain : Chain) : Agrees category called foreign chain chain :=
  ⟨rfl, fun _ _ => .rfl, fun _ _ => .rfl, rfl⟩

/-- A category that does not tell one chain from another does not tell the other from the one. -/
protected theorem symm (h : Agrees category called foreign chain other) :
    Agrees category called foreign other chain :=
  ⟨h.world.symm, fun method hmethod => (h.failing method hmethod).symm,
    fun key hkey => (h.flags key hkey).symm, h.sent.symm⟩

/-- The same change on both sides is not told apart. -/
theorem apply (h : Agrees category called foreign chain other) (change : Change) :
    Agrees category called foreign (chain.apply change) (other.apply change) := by
  refine ⟨?_, ?_, ?_, ?_⟩
  · rw [Chain.world_apply other, Chain.world_apply chain, h.world]
  · intro method hmethod
    cases change with
    | fail failed =>
      change method ∈ failed :: other.failing ↔ method ∈ failed :: chain.failing
      rw [List.mem_cons, List.mem_cons, h.failing method hmethod]
    | clearFailures => exact .rfl
    | _ => exact h.failing method hmethod
  · intro key hkey
    cases change with
    | flag set =>
      change key ∈ set :: other.flags ↔ key ∈ set :: chain.flags
      rw [List.mem_cons, List.mem_cons, h.flags key hkey]
    | _ => exact h.flags key hkey
  · cases change with
    | _ => exact h.sent

/-- A fault of a call that is not made is not noticed. -/
theorem fail (h : Agrees category called foreign chain other) {failed : Method}
    (hfailed : failed ∉ called) :
    Agrees category called foreign (chain.apply (.fail failed)) other := by
  refine ⟨h.world, fun method hmethod => ?_, h.flags, h.sent⟩
  have hne : method ≠ failed := fun hsame => hfailed (hsame ▸ hmethod)
  change method ∈ other.failing ↔ method ∈ failed :: chain.failing
  rw [List.mem_cons, h.failing method hmethod]
  simp [hne]

/-- What an accepted call adds for a category. -/
theorem sentOf_accept (chain : Chain) (call : SubmissionCall) (options : SendOptions)
    (category : Category) : (chain.accept call options).sentOf category =
      chain.sentOf category ++ if call.category = category then [(call, options)] else [] := by
  rw [sentOf, sent_accept, List.filter_append, List.map_append]
  by_cases h : call.category = category
  · simp [sentOf, transaction, h]
  · simp [sentOf, transaction, h]

/-- The same call accepted on both sides is not told apart. -/
theorem accept (h : Agrees category called foreign chain other) (call : SubmissionCall)
    (options : SendOptions) :
    Agrees category called foreign (chain.accept call options) (other.accept call options) := by
  refine ⟨h.world, h.failing, fun key hkey => ?_, ?_⟩
  · have hflags : other.flagsOf call = chain.flagsOf call := by
      change other.world.flagsOf call = chain.world.flagsOf call
      rw [h.world]
    change key ∈ other.flagsOf call ++ other.flags ↔ key ∈ chain.flagsOf call ++ chain.flags
    rw [List.mem_append, List.mem_append, hflags, h.flags key hkey]
  · rw [sentOf_accept, sentOf_accept, h.sent]

/-- A call of the other category that sets foreign flags only is not noticed. -/
theorem accept_foreign (h : Agrees category called foreign chain other) {call : SubmissionCall}
    (hcategory : call.category ≠ category) (hkeys : ∀ key ∈ chain.flagsOf call, foreign key)
    (options : SendOptions) :
    Agrees category called foreign (chain.accept call options) other := by
  refine ⟨h.world, h.failing, fun key hkey => ?_, ?_⟩
  · change key ∈ other.flags ↔ key ∈ chain.flagsOf call ++ chain.flags
    have hnew : key ∉ chain.flagsOf call := fun hmem => hkey (hkeys key hmem)
    rw [List.mem_append, h.flags key hkey]
    simp [hnew]
  · rw [sentOf_accept, if_neg hcategory, List.append_nil, h.sent]

/-- Inclusion comes to the same up to the hash of the transaction. -/
theorem inclusion (h : Agrees category called foreign chain other)
    (hcalled : .awaitInclusion ∈ called) (call : SubmissionCall) (options : SendOptions)
    (hash hash' : Digest) :
    (Ending.finished ((other.inclusion call options hash').map .submitted)).unhashed =
      (Ending.finished ((chain.inclusion call options hash).map .submitted)).unhashed := by
  have hreceived : other.received call options hash' = chain.received call options hash' := by
    change other.world.received call options hash' = chain.world.received call options hash'
    rw [h.world]
  have hfails := h.failing _ hcalled
  unfold Chain.inclusion
  by_cases hfailing : .awaitInclusion ∈ chain.failing
  · rw [if_pos (hfails.mpr hfailing), if_pos hfailing]
  · rw [if_neg (mt hfails.mp hfailing), if_neg hfailing, hreceived]
    unfold received
    cases chain.reverting with
    | true => rfl
    | false => rfl

/-- A decision carried out on both sides has the same end, up to the hash of its transaction. -/
theorem deliver (h : Agrees category called foreign chain other)
    (decision : Except ReportError Verdict)
    (hcalls : ∀ method ∈ (chain.deliver decision).calls, method ∈ called) :
    Agrees category called foreign (chain.deliver decision).chain (other.deliver decision).chain ∧
      (other.deliver decision).ending.unhashed = (chain.deliver decision).ending.unhashed := by
  cases decision with
  | error e => exact ⟨h, rfl⟩
  | ok verdict =>
    cases verdict with
    | alreadySubmitted => exact ⟨h, rfl⟩
    | feeCeilingExceeded => exact ⟨h, rfl⟩
    | send call options =>
      by_cases hsend : .send ∈ chain.failing
      · rw [deliver_of_refused hsend] at hcalls ⊢
        have hsend' : .send ∈ other.failing :=
          (h.failing _ (hcalls _ List.mem_cons_self)).mpr hsend
        rw [deliver_of_refused hsend']
        exact ⟨h, rfl⟩
      · rw [deliver_of_accepted hsend] at hcalls ⊢
        have hsend' : .send ∉ other.failing :=
          mt (h.failing _ (hcalls _ List.mem_cons_self)).mp hsend
        rw [deliver_of_accepted hsend']
        exact ⟨h.accept call options,
          h.inclusion (hcalls _ (List.mem_cons_of_mem _ List.mem_cons_self)) call options _ _⟩

/-- A report carried out on both sides has the same end, up to the hash of its transaction, if the keys
that it looks at are its category's own. -/
theorem fulfil (h : Agrees category called foreign chain other) (task : ReportTask)
    (checkpoint : Checkpoint)
    (hcalls : ∀ method ∈ (chain.fulfil task checkpoint).calls, method ∈ called)
    (hkeys : ∀ record, task.asksAbout? checkpoint chain = some record →
      ∀ key ∈ Operation.keysOf record, ¬ foreign key) :
    Agrees category called foreign (chain.fulfil task checkpoint).chain
        (other.fulfil task checkpoint).chain ∧
      (other.fulfil task checkpoint).ending.unhashed =
        (chain.fulfil task checkpoint).ending.unhashed := by
  unfold Chain.fulfil at hcalls ⊢
  cases hsource : task.source.compute? with
  | none => exact ⟨h, rfl⟩
  | some compute =>
    rw [hsource] at hcalls
    simp only [List.forall_mem_append] at hcalls
    have hprepare : (task.prepare checkpoint compute).ask other =
        (task.prepare checkpoint compute).ask chain :=
      (shares_prepare h.world hsource fun record hrecord key hkey =>
        h.flags key (hkeys record hrecord key hkey)).alike
        fun method hmethod => h.failing method (hcalls.1 method hmethod)
    simp only [hprepare]
    exact h.deliver _ hcalls.2

/-- A report of the other category is not noticed, if the keys that it looks at are foreign. -/
theorem fulfil_foreign (h : Agrees category called foreign chain other) {task : ReportTask}
    (hcategory : task.category ≠ category) {checkpoint : Checkpoint}
    (hkeys : ∀ record, task.asksAbout? checkpoint chain = some record →
      ∀ key ∈ Operation.keysOf record, foreign key) :
    Agrees category called foreign (chain.fulfil task checkpoint).chain other := by
  rcases chain.fulfil_cases task checkpoint with
    hchain | ⟨compute, call, options, hsource, hdecision, hchain⟩
  · rw [hchain]
    exact h
  · obtain ⟨hasked, hsame⟩ := ReportTask.asksAbout?_of_send hsource hdecision
    rw [hchain]
    refine h.accept_foreign (hsame ▸ hcategory) (fun key hkey => ?_) options
    unfold flagsOf at hkey
    split at hkey
    · exact hkeys _ hasked key hkey
    · cases hkey

end Chain.Agrees

end StakeOracle
