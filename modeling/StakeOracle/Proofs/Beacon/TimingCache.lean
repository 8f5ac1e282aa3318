import StakeOracle.Beacon.Exchange
import StakeOracle.Proofs.Beacon.Statuses

/-!
# The timing is learned once

Every question to a client but that of the sync state needs the timing of the beacon chain. While it
is not known, each of them attempts to learn it, from genesis on; the first attempt with two replies
of use and no zero ends that. From then on the timing is the one that was learned, whatever the server
says later, and neither of its two requests is made again.
-/

namespace StakeOracle.Beacon

open Session

/-! ## Requests and their replies -/

/-- The request for the time of genesis. -/
def genesisRequest (base : String) : String := base ++ "/eth/v1/beacon/genesis"

/-- The request for the slot timing. -/
def specRequest (base : String) : String := base ++ "/eth/v1/config/spec"

/-- The request for the sync state. -/
def syncingRequest (base : String) : String := base ++ "/eth/v1/node/syncing"

/-- The request for the latest finalized epoch. -/
def finalityRequest (base : String) : String :=
  base ++ "/eth/v1/beacon/states/head/finality_checkpoints"

/-- A request that is made to learn the timing. -/
def AsksTiming (base request : String) : Prop :=
  request = genesisRequest base ∨ request = specRequest base

/-- The requests that reach a server of one that is replied to so. -/
def arriving (target : String) (reply : Reply) : List String :=
  if reply = .refused then [] else [target]

namespace Session

/-- After a reply the client has sent the requests that arrive. -/
theorem afterReply_eq (client : Client) (target : String) (reply : Reply) :
    afterReply client target reply =
      { client with requests := client.requests ++ arriving target reply } := by
  unfold afterReply arriving
  split
  · rw [List.append_nil]
  · rfl

/-- A request whose reply carries content has arrived. -/
theorem arriving_of_carries {Means : Json.Value → α → Prop} {reply : Reply} {content : α}
    (h : Carries Means reply content) (target : String) : arriving target reply = [target] := by
  obtain ⟨status, body, rfl, -⟩ := h
  exact if_neg (by simp)

/-- What arrives of a request is the request, or nothing. -/
theorem arriving_isPrefix (target : String) (reply : Reply) (later : List String) :
    arriving target reply <+: target :: later := by
  unfold arriving
  split
  · exact List.nil_prefix
  · exact ⟨later, rfl⟩

/-- A request with the reply to it, and the requests that reach the server. -/
theorem result_fetch_arriving (path : String) (decode : Json.Value → Option α) (server : Server)
    (client : Client) : ((fetch path decode).runWith server client).result =
      let target := client.base ++ path
      let reply := server client.requests target
      (contentOf decode reply,
        { client with requests := client.requests ++ arriving target reply }) := by
  rw [result_fetch]
  exact Prod.ext rfl (afterReply_eq ..)

end Session

/-! ## Attempts to learn the timing -/

/-- An attempt to learn the timing from a server that requests have reached before: how it ends, and
which of its requests reach the server. -/
inductive Attempt (server : Server) (base : String) (before : List String) :
    Except Fault BeaconTiming → List String → Prop
  | noGenesis {fault : Fault}
    (hgenesis : Faulty IsGenesis (server before (genesisRequest base)) fault) :
    Attempt server base before (.error fault)
      (arriving (genesisRequest base) (server before (genesisRequest base)))
  | noSpec {genesis : UInt64} {fault : Fault}
    (hgenesis : Carries IsGenesis (server before (genesisRequest base)) genesis)
    (hspec : Faulty IsSlotTiming (server (before ++ [genesisRequest base]) (specRequest base))
      fault) :
    Attempt server base before (.error fault)
      (genesisRequest base :: arriving (specRequest base)
        (server (before ++ [genesisRequest base]) (specRequest base)))
  | zero {genesis secondsPerSlot slotsPerEpoch : UInt64}
    (hgenesis : Carries IsGenesis (server before (genesisRequest base)) genesis)
    (hspec : Carries IsSlotTiming (server (before ++ [genesisRequest base]) (specRequest base))
      (secondsPerSlot, slotsPerEpoch))
    (hzero : slotsPerEpoch = 0 ∨ secondsPerSlot = 0) :
    Attempt server base before (.error .zeroTiming) [genesisRequest base, specRequest base]
  | learned {genesis secondsPerSlot slotsPerEpoch : UInt64}
    (hgenesis : Carries IsGenesis (server before (genesisRequest base)) genesis)
    (hspec : Carries IsSlotTiming (server (before ++ [genesisRequest base]) (specRequest base))
      (secondsPerSlot, slotsPerEpoch))
    (hseconds : secondsPerSlot ≠ 0) (hslots : slotsPerEpoch ≠ 0) :
    Attempt server base before (.ok ⟨genesis, secondsPerSlot, slotsPerEpoch⟩)
      [genesisRequest base, specRequest base]

namespace Attempt

variable {server : Server} {base : String} {before requests : List String} {known : BeaconTiming}

/-- A timing is learned with two requests. -/
theorem requests_of_ok (h : Attempt server base before (.ok known) requests) :
    requests = [genesisRequest base, specRequest base] := by
  cases h
  rfl

/-- No parameter of a timing that is learned is zero. -/
theorem ne_zero (h : Attempt server base before (.ok known) requests) :
    known.secondsPerSlot ≠ 0 ∧ known.slotsPerEpoch ≠ 0 := by
  cases h with
  | learned hgenesis hspec hseconds hslots => exact ⟨hseconds, hslots⟩

end Attempt

namespace Session

/-- Fetching the timing is such an attempt. -/
theorem exists_attempt (server : Server) (client : Client) : ∃ outcome requests,
    Attempt server client.base client.requests outcome requests ∧
      (fetchTiming.runWith server client).result =
        (outcome, { client with requests := client.requests ++ requests }) := by
  unfold fetchTiming
  rw [result_runWith_bind, result_fetch_arriving]
  dsimp only
  cases hgenesis : contentOf genesisTime?
      (server client.requests (client.base ++ "/eth/v1/beacon/genesis")) with
  | error fault =>
    exact ⟨_, _, .noGenesis ((contentOf_eq_error_iff genesisTime?_eq_some_iff).mp hgenesis), rfl⟩
  | ok genesis =>
    have hcarries := (contentOf_eq_ok_iff genesisTime?_eq_some_iff).mp hgenesis
    rw [arriving_of_carries hcarries]
    dsimp only
    rw [result_runWith_bind, result_fetch_arriving]
    dsimp only
    cases hspec : contentOf slotTiming?
        (server (client.requests ++ [client.base ++ "/eth/v1/beacon/genesis"])
          (client.base ++ "/eth/v1/config/spec")) with
    | error fault =>
      have hfaulty := (contentOf_eq_error_iff slotTiming?_eq_some_iff).mp hspec
      refine ⟨_, _, .noSpec hcarries hfaulty, ?_⟩
      simp [genesisRequest, specRequest]
    | ok found =>
      obtain ⟨secondsPerSlot, slotsPerEpoch⟩ := found
      have hcarries' := (contentOf_eq_ok_iff slotTiming?_eq_some_iff).mp hspec
      rw [arriving_of_carries hcarries']
      dsimp only
      by_cases hzero : slotsPerEpoch = 0 ∨ secondsPerSlot = 0
      · refine ⟨_, _, .zero hcarries hcarries' hzero, ?_⟩
        simp [hzero, genesisRequest, specRequest]
      · have hnonzero := not_or.mp hzero
        refine ⟨_, _, .learned hcarries hcarries' hnonzero.2 hnonzero.1, ?_⟩
        simp [hzero, genesisRequest, specRequest]

/-- A timing that is known is not asked for. -/
theorem result_timing_of_known (server : Server) {client : Client} {known : BeaconTiming}
    (h : client.timing = some known) :
    (timing.runWith server client).result = (.ok known, client) := by
  unfold timing
  rw [result_runWith_bind, result_get]
  simp only [h]
  rfl

/-- A timing that is not known is attempted to be learned, and kept when it is. -/
theorem result_timing_of_unknown (server : Server) {client : Client} (h : client.timing = none) :
    ∃ outcome requests, Attempt server client.base client.requests outcome requests ∧
      (timing.runWith server client).result = (outcome,
        ⟨client.base, client.requests ++ requests, outcome.toOption⟩) := by
  obtain ⟨outcome, requests, hattempt, hfetch⟩ := exists_attempt server client
  refine ⟨outcome, requests, hattempt, ?_⟩
  unfold timing
  rw [result_runWith_bind, result_get]
  simp only [h, result_runWith_bind, hfetch]
  cases outcome with
  | error fault => rfl
  | ok found => rfl

/-- An answer that is only wrapped. -/
theorem result_map (f : α → β) (session : Session α) (server : Server) (client : Client) :
    ((f <$> session).runWith server client).result =
      ((session.runWith server client).result.1.map f,
        (session.runWith server client).result.2) := by
  rw [map_eq_pure_bind, result_runWith_bind]
  obtain ⟨result, after⟩ := (session.runWith server client).result
  cases result <;> rfl

end Session

/-- All questions but that of the sync state begin with the timing. -/
theorem Question.exists_session_eq_bind {question : Question} (h : question ≠ .synced) :
    ∃ rest : BeaconTiming → Session Answer, question.session = Session.timing >>= rest := by
  cases question with
  | synced => exact absurd rfl h
  | timing => exact ⟨_, map_eq_pure_bind ..⟩
  | head => exact ⟨_, map_bind ..⟩
  | validators keys epoch => exact ⟨_, map_bind ..⟩

/-! ## Questions while the timing is known -/

/-- The requests of a question that is asked while the timing is known. -/
def followUps (base : String) (known : BeaconTiming) : Question → List String
  | .synced => [syncingRequest base]
  | .timing => []
  | .head => [syncingRequest base, finalityRequest base]
  | .validators keys epoch =>
    (chunksOf chunkSize keys).map
      (groupRequest base (min (epoch.toNat * known.slotsPerEpoch.toNat) (2 ^ 64 - 1)))

/-- A result that is what it has to be if the timing is the known one. -/
def Reflects (server : Server) (base : String) (known : BeaconTiming) (before : List String)
    (result : Except Fault Answer) : Question → Prop
  | .synced => True
  | .timing => result = .ok (.timing known)
  | .head => ∀ answer, result = .ok answer → ∃ sync finalized,
    Carries IsSyncState (server before (syncingRequest base)) sync ∧
      Carries IsFinalizedEpoch
        (server (before ++ [syncingRequest base]) (finalityRequest base)) finalized ∧
      answer = .head ⟨sync.headSlot / known.slotsPerEpoch, finalized⟩
  | .validators _ _ => True

/-- What comes of a question while the timing is known: the requests of its own are made one after
another, the timing is not asked for, and what is answered is worked out with the known one. -/
structure Served (server : Server) (base : String) (known : BeaconTiming) (before : List String)
    (question : Question) (result : Except Fault Answer) (requests : List String) : Prop where
  inOrder : requests <+: followUps base known question
  untimed : ∀ request ∈ requests, ¬ AsksTiming base request
  reflects : Reflects server base known before result question

/-- Paths of different text make different requests. -/
theorem not_asksTiming {base path : String} (hgenesis : path ≠ "/eth/v1/beacon/genesis")
    (hspec : path ≠ "/eth/v1/config/spec") : ¬ AsksTiming base (base ++ path) := by
  rintro (h | h)
  · exact hgenesis ((String.append_right_inj base).mp h)
  · exact hspec ((String.append_right_inj base).mp h)

/-- No question has a follow-up that asks for the timing. -/
theorem not_asksTiming_of_mem_followUps {base : String} {known : BeaconTiming} {question : Question}
    {request : String} (h : request ∈ followUps base known question) :
    ¬ AsksTiming base request := by
  have hsyncing : ¬ AsksTiming base (syncingRequest base) :=
    not_asksTiming (by decide) (by decide)
  have hfinality : ¬ AsksTiming base (finalityRequest base) :=
    not_asksTiming (by decide) (by decide)
  cases question with
  | synced =>
    cases List.mem_singleton.mp h
    exact hsyncing
  | timing => cases h
  | head =>
    rcases List.mem_cons.mp h with rfl | h
    · exact hsyncing
    · cases List.mem_singleton.mp h
      exact hfinality
  | validators keys epoch =>
    obtain ⟨group, -, rfl⟩ := List.mem_map.mp h
    refine not_asksTiming (fun hpath => ?_) fun hpath => ?_
    · simpa using congrArg String.toList hpath
    · simpa using congrArg String.toList hpath

/-- The requests of a question that are made while the timing is known do not ask for it. -/
theorem Served.of_inOrder {server : Server} {base : String} {known : BeaconTiming}
    {before requests : List String} {question : Question} {result : Except Fault Answer}
    (hinOrder : requests <+: followUps base known question)
    (hreflects : Reflects server base known before result question) :
    Served server base known before question result requests :=
  ⟨hinOrder, fun _ h => not_asksTiming_of_mem_followUps (hinOrder.subset h), hreflects⟩

/-- What comes of a question whose timing is known, run as a session. -/
def ServedBy (server : Server) (client : Client) (known : BeaconTiming) (question : Question) :
    Prop :=
  ∃ result requests, (question.session.runWith server client).result =
      (result, { client with requests := client.requests ++ requests }) ∧
    Served server client.base known client.requests question result requests

/-- The sync state comes from the reply to one request. -/
theorem servedBy_synced (server : Server) (client : Client) (known : BeaconTiming) :
    ServedBy server client known .synced := by
  rw [ServedBy, Question.session, result_map, isSynced, result_runWith_bind, fetchSyncState,
    result_fetch_arriving]
  dsimp only
  cases contentOf SyncState.ofValue?
      (server client.requests (client.base ++ "/eth/v1/node/syncing")) with
  | error fault => exact ⟨_, _, rfl, .of_inOrder (arriving_isPrefix ..) trivial⟩
  | ok sync => exact ⟨_, _, rfl, .of_inOrder (arriving_isPrefix ..) trivial⟩

/-- The head is worked out from the replies to two requests. -/
theorem servedBy_head (server : Server) {client : Client} {known : BeaconTiming}
    (h : client.timing = some known) : ServedBy server client known .head := by
  rw [ServedBy, Question.session, result_map, head, result_runWith_bind, result_timing_of_known server h]
  dsimp only
  rw [result_runWith_bind, fetchSyncState, result_fetch_arriving]
  dsimp only
  cases hsync : contentOf SyncState.ofValue?
      (server client.requests (client.base ++ "/eth/v1/node/syncing")) with
  | error fault => exact ⟨_, _, rfl, .of_inOrder (arriving_isPrefix ..) nofun⟩
  | ok sync =>
    have hcarries := (contentOf_eq_ok_iff syncState_eq_some_iff).mp hsync
    rw [arriving_of_carries hcarries]
    dsimp only
    rw [result_runWith_bind, result_fetch_arriving]
    dsimp only
    cases hfinality : contentOf finalizedEpoch?
        (server (client.requests ++ [client.base ++ "/eth/v1/node/syncing"])
          (client.base ++ "/eth/v1/beacon/states/head/finality_checkpoints")) with
    | error fault =>
      rw [List.append_assoc]
      exact ⟨_, _, rfl, .of_inOrder ((List.prefix_cons_inj _).mpr (arriving_isPrefix ..)) nofun⟩
    | ok finalized =>
      have hcarries' := (contentOf_eq_ok_iff finalizedEpoch?_eq_some_iff).mp hfinality
      rw [arriving_of_carries hcarries', List.append_assoc]
      refine ⟨_, [syncingRequest client.base, finalityRequest client.base], rfl,
        .of_inOrder (List.prefix_refl _) fun answer hanswer => ?_⟩
      exact ⟨sync, finalized, hcarries, hcarries', (Except.ok.inj hanswer).symm⟩

/-- A question is answered with the timing that is known. -/
theorem servedBy_of_known (server : Server) {client : Client} {known : BeaconTiming}
    (h : client.timing = some known) (question : Question) :
    ServedBy server client known question := by
  cases question with
  | synced => exact servedBy_synced server client known
  | timing =>
    refine ⟨.ok (.timing known), [], ?_, .of_inOrder List.nil_prefix rfl⟩
    rw [Question.session, result_map, result_timing_of_known server h, List.append_nil]
    rfl
  | head => exact servedBy_head server h
  | validators keys epoch =>
    rw [ServedBy, Question.session, result_map,
      result_validatorStatuses (result_timing_of_known server h) keys epoch]
    exact ⟨_, _, rfl, .of_inOrder (List.take_prefix ..) trivial⟩

/-! ## One question after another -/

/-- What comes of a question while the timing is not known and is not learned: the sync state is
answered without the timing, and any other question fails as its attempt to learn the timing does. -/
def Unlearned (server : Server) (base : String) (before : List String) (question : Question)
    (exchange : Exchange) : Prop :=
  (question = .synced ∧ ∀ request ∈ exchange.requests, ¬ AsksTiming base request) ∨
    question ≠ .synced ∧ ∃ fault, Attempt server base before (.error fault) exchange.requests ∧
      exchange.result = .error fault

/-- What comes of a question that learns the timing: its attempt succeeds, and it is then answered with
what was learned. -/
def Learns (server : Server) (base : String) (before : List String) (known : BeaconTiming)
    (question : Question) (exchange : Exchange) : Prop :=
  question ≠ .synced ∧
    Attempt server base before (.ok known) [genesisRequest base, specRequest base] ∧
    ∃ requests, exchange.requests = [genesisRequest base, specRequest base] ++ requests ∧
      Served server base known (before ++ [genesisRequest base, specRequest base]) question
        exchange.result requests

/-- What comes of a question that is answered with a known timing. -/
def Serves (server : Server) (base : String) (known : BeaconTiming) (before : List String)
    (question : Question) (exchange : Exchange) : Prop :=
  Served server base known before question exchange.result exchange.requests

/-- A stretch of exchanges, each of which is as the requests before it allow. -/
inductive Stretch (P : List String → Question → Exchange → Prop) :
    List String → List (Question × Exchange) → Prop
  | nil {before : List String} : Stretch P before []
  | cons {before : List String} {question : Question} {exchange : Exchange}
    {later : List (Question × Exchange)} (first : P before question exchange)
    (rest : Stretch P (before ++ exchange.requests) later) :
    Stretch P before ((question, exchange) :: later)

/-- The requests of exchanges that reached the server. -/
def requestsOf (exchanges : List (Question × Exchange)) : List String :=
  exchanges.flatMap fun exchange => exchange.2.requests

namespace Client

variable {client : Client}

/-- An exchange tells the result of its session and the requests that were made in it. -/
theorem ask_of_result {server : Server} {question : Question} {result : Except Fault Answer}
    {after : Client} {requests : List String}
    (h : (question.session.runWith server client).result = (result, after))
    (hrequests : after.requests = client.requests ++ requests) :
    ∃ notes, client.ask server question = (⟨result, requests, notes⟩, after) := by
  refine ⟨(question.session.runWith server client).notes, ?_⟩
  unfold ask
  simp only [h, hrequests, List.drop_left]

/-- While the timing is known, a question is answered with it. -/
theorem ask_of_known (server : Server) (question : Question) {known : BeaconTiming}
    (h : client.timing = some known) : ∃ exchange, client.ask server question =
        (exchange, { client with requests := client.requests ++ exchange.requests }) ∧
      Served server client.base known client.requests question exchange.result
        exchange.requests := by
  obtain ⟨result, requests, hresult, hserved⟩ := servedBy_of_known server h question
  obtain ⟨notes, hask⟩ := ask_of_result hresult rfl
  exact ⟨⟨result, requests, notes⟩, hask, hserved⟩

/-- While it is not known, a question leaves it unlearned, or learns it. -/
theorem ask_of_unknown (server : Server) (question : Question) (h : client.timing = none) :
    ∃ exchange timing, client.ask server question =
        (exchange, ⟨client.base, client.requests ++ exchange.requests, timing⟩) ∧
      match timing with
      | none => Unlearned server client.base client.requests question exchange
      | some known => Learns server client.base client.requests known question exchange := by
  by_cases hsynced : question = .synced
  · subst hsynced
    obtain ⟨result, requests, hresult, hserved⟩ := servedBy_synced server client ⟨0, 0, 0⟩
    obtain ⟨notes, hask⟩ := ask_of_result hresult rfl
    exact ⟨⟨result, requests, notes⟩, none, by rw [hask, h], .inl ⟨rfl, hserved.untimed⟩⟩
  · obtain ⟨rest, hsession⟩ := Question.exists_session_eq_bind hsynced
    obtain ⟨outcome, attempted, hattempt, htiming⟩ := result_timing_of_unknown server h
    have hresult : (question.session.runWith server client).result = _ :=
      hsession ▸ result_runWith_bind Session.timing rest server client
    rw [htiming] at hresult
    cases outcome with
    | error fault =>
      obtain ⟨notes, hask⟩ := ask_of_result hresult rfl
      exact ⟨⟨.error fault, attempted, notes⟩, none, hask, .inr ⟨hsynced, fault, hattempt, rfl⟩⟩
    | ok known =>
      -- The rest of the session goes on as it would for a client that knew the timing before.
      let ready : Client := ⟨client.base, client.requests ++ attempted, some known⟩
      have hready : ready.timing = some known := rfl
      obtain ⟨result, requests, hserved, hreflects⟩ := servedBy_of_known server hready question
      rw [hsession, result_runWith_bind, result_timing_of_known server hready] at hserved
      obtain ⟨notes, hask⟩ := ask_of_result (hresult.trans hserved) (List.append_assoc ..)
      obtain rfl := hattempt.requests_of_ok
      refine ⟨⟨result, _, notes⟩, some known, hask.trans ?_, hsynced, hattempt, requests, rfl,
        hreflects⟩
      rw [List.append_assoc]

/-- Answering questions goes through the first one and then through the rest. -/
theorem askAll_cons (client : Client) (server : Server) (question : Question)
    (questions : List Question) : client.askAll server (question :: questions) =
      ((client.ask server question).1 ::
          ((client.ask server question).2.askAll server questions).1,
        ((client.ask server question).2.askAll server questions).2) := rfl

/-- Each question has one exchange. -/
theorem length_askAll (client : Client) (server : Server) (questions : List Question) :
    (client.askAll server questions).1.length = questions.length := by
  induction questions generalizing client with
  | nil => rfl
  | cons question questions ih => rw [askAll_cons, List.length_cons, ih, List.length_cons]

/-- While the timing is known, every question is answered with it. -/
theorem askAll_of_known (server : Server) {known : BeaconTiming} (questions : List Question)
    (h : client.timing = some known) :
    Stretch (Serves server client.base known) client.requests
        (questions.zip (client.askAll server questions).1) ∧
      (client.askAll server questions).2.timing = some known := by
  induction questions generalizing client with
  | nil => exact ⟨.nil, h⟩
  | cons question questions ih =>
    obtain ⟨exchange, hask, hserved⟩ := ask_of_known server question h
    rw [askAll_cons, hask]
    have hnext : ({ client with requests := client.requests ++ exchange.requests } :
      Client).timing = some known := h
    exact ⟨.cons hserved (ih hnext).1, (ih hnext).2⟩

/-- While it is not known, questions leave it unlearned up to the one that learns it. -/
theorem askAll_of_unknown (server : Server) (questions : List Question)
    (h : client.timing = none) : ∃ failed rest,
    questions.zip (client.askAll server questions).1 = failed ++ rest ∧
      Stretch (Unlearned server client.base) client.requests failed ∧
      match rest with
      | [] => (client.askAll server questions).2.timing = none
      | (question, exchange) :: later => ∃ known,
          Learns server client.base (client.requests ++ requestsOf failed) known question
            exchange ∧
          Stretch (Serves server client.base known)
            (client.requests ++ requestsOf failed ++ exchange.requests) later ∧
          (client.askAll server questions).2.timing = some known := by
  induction questions generalizing client with
  | nil => exact ⟨[], [], rfl, .nil, h⟩
  | cons question questions ih =>
    obtain ⟨exchange, timing, hask, hfirst⟩ := ask_of_unknown server question h
    rw [askAll_cons, hask]
    cases timing with
    | some known =>
      have hnext : (⟨client.base, client.requests ++ exchange.requests, some known⟩ :
        Client).timing = some known := rfl
      obtain ⟨hrest, htiming⟩ := askAll_of_known server questions hnext
      refine ⟨[], _, rfl, .nil, known, ?_, ?_, htiming⟩
      · rw [requestsOf, List.flatMap_nil, List.append_nil]
        exact hfirst
      · rw [requestsOf, List.flatMap_nil, List.append_nil]
        exact hrest
    | none =>
      have hnext : (⟨client.base, client.requests ++ exchange.requests, none⟩ :
        Client).timing = none := rfl
      obtain ⟨failed, rest, hsplit, hfailed, hrest⟩ := ih hnext
      refine ⟨(question, exchange) :: failed, rest, congrArg (_ :: ·) hsplit,
        .cons hfirst hfailed, ?_⟩
      rw [requestsOf, List.flatMap_cons, ← List.append_assoc]
      exact hrest

end Client

/-- The timing is learned once. Up to a point every question but those of the sync state fails, each with
an attempt to learn the timing that begins with genesis and leaves nothing behind. If a question is
reached whose attempt succeeds, then no parameter of what it learns is zero, both requests for the
timing are made there for the last time, and from there on every question is answered with what was
learned, whatever the server says. -/
theorem timing_learned_once (server : Server) (url : String) (questions : List Question) :
    let client := Client.new url
    let (exchanges, last) := client.askAll server questions
    exchanges.length = questions.length ∧ ∃ failed rest,
      questions.zip exchanges = failed ++ rest ∧
      Stretch (Unlearned server client.base) [] failed ∧
      match rest with
      | [] => last.timing = none
      | (question, exchange) :: later => ∃ known : BeaconTiming,
          known.secondsPerSlot ≠ 0 ∧ known.slotsPerEpoch ≠ 0 ∧
          Learns server client.base (requestsOf failed) known question exchange ∧
          Stretch (Serves server client.base known) (requestsOf failed ++ exchange.requests) later ∧
          last.timing = some known := by
  intro client
  have hnew : client.timing = none := rfl
  obtain ⟨failed, rest, hsplit, hfailed, hrest⟩ := client.askAll_of_unknown server questions hnew
  refine ⟨client.length_askAll server questions, failed, rest, hsplit, hfailed, ?_⟩
  cases rest with
  | nil => exact hrest
  | cons first later =>
    obtain ⟨known, hlearns, hlater, htiming⟩ := hrest
    exact ⟨known, hlearns.2.1.ne_zero.1, hlearns.2.1.ne_zero.2, hlearns, hlater, htiming⟩

/-- A server at a base that answers four requests, the first one for the slot timing with a zero. -/
def zeroFirst (base : String) : Server := fun before request =>
  if 4 ≤ before.length then .closed
  else if request = genesisRequest base then
    .answered 200 "\x7b\"data\":\x7b\"genesis_time\":\"5\"\x7d\x7d"
  else if before.length < 2 then
    .answered 200 "\x7b\"data\":\x7b\"SECONDS_PER_SLOT\":\"0\",\"SLOTS_PER_EPOCH\":\"32\"\x7d\x7d"
  else
    .answered 200 "\x7b\"data\":\x7b\"SECONDS_PER_SLOT\":\"12\",\"SLOTS_PER_EPOCH\":\"32\"\x7d\x7d"

-- A timing with a zero is not learned, and the one that is learned outlives the server.
example : ((Client.new "http://node").askAll (zeroFirst "http://node")
      [.timing, .timing, .head, .timing]).1.map (·.result) =
    [.error .zeroTiming, .ok (.timing ⟨5, 12, 32⟩), .error .noConnection,
      .ok (.timing ⟨5, 12, 32⟩)] := by
  decide +kernel

end StakeOracle.Beacon
