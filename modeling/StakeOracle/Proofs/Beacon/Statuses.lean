import StakeOracle.Proofs.Beacon.Replies

/-!
# Statuses from replies

Statuses are asked for in groups of keys, one request a group, and each reply is read before the
next request is sent. What comes of it is settled by the replies alone: the first that is of no use
ends the asking with its fault, and when there is none, every key is told by the last entry that
spells it.
-/

namespace StakeOracle.Beacon.Session

/-! ## Replies that are read -/

/-- What a reply to a request for statuses comes to. -/
def reading (reply : Reply) : Except Fault (List (Pubkey × ValidatorStatus)) := do
  (← contentOf validatorEntries? reply).mapM keyed

/-- A group is asked for in one request, and the reply to it is read. -/
theorem result_fetchChunk (slot : UInt64) (group : List Pubkey) (server : Server)
    (client : Client) :
    ((fetchChunk slot group).runWith server client).result =
      let target := client.base ++ validatorsPath slot group
      let reply := server client.requests target
      (reading reply, afterReply client target reply) := by
  simp only [fetchChunk, result_runWith_bind, result_fetch, reading]
  cases contentOf validatorEntries?
      (server client.requests (client.base ++ validatorsPath slot group)) with
  | error fault => rfl
  | ok entries => rfl

/-! ## Replies of use -/

/-- An entry mentions a key that its text spells, with the status that it lists. -/
def Mentions (entry : ValidatorEntry) (mention : Pubkey × ValidatorStatus) : Prop :=
  Spells entry.key mention.1 ∧
    mention.2 = ⟨true, entry.activationEpoch, entry.exitEpoch, entry.balanceGwei⟩

/-- A reply of use: it lists entries, every one of which mentions a key. -/
def Lists (reply : Reply) (mentions : List (Pubkey × ValidatorStatus)) : Prop :=
  ∃ entries, Carries IsListing reply entries ∧ List.Forall₂ Mentions entries mentions

/-- A reply of no use, and what is wrong with it. -/
inductive Unusable : Reply → Fault → Prop
  /-- No entries are listed. -/
  | faulty {reply : Reply} {fault : Fault} (h : Faulty IsListing reply fault) : Unusable reply fault
  /-- The first entry whose text spells no key. -/
  | badKey {reply : Reply} {earlier later : List ValidatorEntry} {entry : ValidatorEntry}
    {fault : PubkeyFault} (h : Carries IsListing reply (earlier ++ entry :: later))
    (hearlier : ∀ mentioned ∈ earlier, ∃ key, Spells mentioned.key key)
    (hkey : parsePubkey entry.key = .error fault) : Unusable reply (.badKey fault)

/-- An entry is read as what it mentions. -/
theorem keyed_eq_ok_iff {entry : ValidatorEntry} {mention : Pubkey × ValidatorStatus} :
    keyed entry = .ok mention ↔ Mentions entry mention := by
  obtain ⟨key, status⟩ := mention
  rw [Mentions, ← parsePubkey_eq_ok_iff, keyed]
  cases parsePubkey entry.key with
  | error reason => simp
  | ok spelled => simp [ValidatorEntry.status, eq_comm]

/-- An entry that is not read has a key that is not spelled, and that is its fault. -/
theorem keyed_eq_error_iff {entry : ValidatorEntry} {fault : Fault} :
    keyed entry = .error fault ↔
      ∃ reason, parsePubkey entry.key = .error reason ∧ fault = .badKey reason := by
  rw [keyed]
  cases parsePubkey entry.key with
  | error reason => simp [eq_comm]
  | ok spelled => simp

/-- An entry is read when its text spells a key. -/
theorem exists_keyed_eq_ok_iff {entry : ValidatorEntry} :
    (∃ mention, keyed entry = .ok mention) ↔ ∃ key, Spells entry.key key := by
  simp only [keyed_eq_ok_iff, Mentions, Prod.exists, exists_and_left, exists_eq, and_true]

/-- A reply is of use exactly when it lists mentions. -/
theorem reading_eq_ok_iff {reply : Reply} {mentions : List (Pubkey × ValidatorStatus)} :
    reading reply = .ok mentions ↔ Lists reply mentions := by
  simp only [reading, bind_eq_ok, contentOf_eq_ok_iff validatorEntries?_eq_some_iff, mapM_eq_ok_iff,
    keyed_eq_ok_iff, Lists]

/-- A reply that cannot be read is of no use, and the other way around. -/
theorem reading_eq_error_iff {reply : Reply} {fault : Fault} :
    reading reply = .error fault ↔ Unusable reply fault := by
  simp only [reading, bind_eq_error, contentOf_eq_ok_iff validatorEntries?_eq_some_iff,
    contentOf_eq_error_iff validatorEntries?_eq_some_iff, mapM_eq_error_iff, keyed_eq_error_iff,
    exists_keyed_eq_ok_iff]
  constructor
  · rintro (h | ⟨entries, hanswers, earlier, entry, later, rfl, hearlier, reason, hkey, rfl⟩)
    · exact .faulty h
    · exact .badKey hanswers hearlier hkey
  · intro h
    cases h with
    | faulty h => exact .inl h
    | badKey hanswers hearlier hkey =>
      exact .inr ⟨_, hanswers, _, _, _, rfl, hearlier, _, hkey, rfl⟩

/-! ## One reply after another -/

/-- The replies of a server to requests that reach it one after another. -/
def repliesTo (server : Server) : List String → List String → List Reply
  | _, [] => []
  | before, target :: later => server before target :: repliesTo server (before ++ [target]) later

/-- How many requests reach a server that replies so: none is sent after a reply of no use. -/
def reaching : List Reply → Nat
  | [] => 0
  | reply :: later =>
    match reading reply with
    | .ok _ => reaching later + 1
    | .error _ => if reply = .refused then 0 else 1

/-- A reply that lists mentions came over a connection. -/
theorem ne_refused_of_lists {reply : Reply} {mentions : List (Pubkey × ValidatorStatus)}
    (h : Lists reply mentions) : reply ≠ .refused := by
  obtain ⟨entries, ⟨status, body, rfl, -⟩, -⟩ := h
  simp

/-- The groups are asked for one after another, up to the first reply of no use. -/
theorem result_mapM_fetchChunk (slot : UInt64) (groups : List (List Pubkey)) (server : Server)
    (client : Client) :
    ((groups.mapM (fetchChunk slot)).runWith server client).result =
      let requests := groups.map fun group => client.base ++ validatorsPath slot group
      let replies := repliesTo server client.requests requests
      (replies.mapM reading,
        { client with requests := client.requests ++ requests.take (reaching replies) }) := by
  induction groups generalizing client with
  | nil =>
    simp only [List.mapM_nil, List.map_nil, List.take_nil, List.append_nil]
    rfl
  | cons group later ih =>
    rw [List.mapM_cons, result_runWith_bind, result_fetchChunk]
    simp only [List.map_cons, repliesTo, List.mapM_cons, reaching]
    generalize client.base ++ validatorsPath slot group = target
    cases hreply : reading (server client.requests target) with
    | error fault =>
      -- Nothing is sent after this reply, and its own request counts if it has arrived.
      refine Prod.ext rfl ?_
      by_cases hrefused : server client.requests target = .refused
      · simp [afterReply, hrefused]
      · simp [afterReply, hrefused]
    | ok mentions =>
      -- The rest of the groups are asked for by a client that has sent one request more.
      have hreached : afterReply client target (server client.requests target) =
          { client with requests := client.requests ++ [target] } :=
        if_neg (ne_refused_of_lists (reading_eq_ok_iff.mp hreply))
      simp only [result_runWith_bind, hreached, ih]
      generalize repliesTo server _ _ = replies
      cases replies.mapM reading with
      | error fault => simp [bind, Except.bind]
      | ok found =>
        simp only [runWith_pure, List.take_succ_cons, List.append_assoc, List.singleton_append]
        rfl

/-! ## What the mentions tell -/

/-- What mentions tell of validators: of those that were asked for or mentioned, each once, and by
the last mention. -/
structure Tells (asked : List Pubkey) (mentions statuses : List (Pubkey × ValidatorStatus)) :
    Prop where
  nodup_keys : (statuses.map (·.1)).Nodup
  mem_keys : ∀ key, key ∈ statuses.map (·.1) ↔ key ∈ asked ∨ key ∈ mentions.map (·.1)
  unmentioned : ∀ key status, (key, status) ∈ statuses → key ∉ mentions.map (·.1) →
    status = .missing
  mentioned : ∀ key status, (key, status) ∈ statuses → ∀ earlier last later,
    mentions = earlier ++ (key, last) :: later → key ∉ later.map (·.1) → status = last

/-- A list without repetitions has each of its items once. -/
theorem nodup_eraseDups [DecidableEq α] (items : List α) : items.eraseDups.Nodup := by
  induction h : items.length using Nat.strongRecOn generalizing items with
  | ind n ih =>
    cases items with
    | nil => simp
    | cons item rest =>
      rw [List.eraseDups_cons, List.nodup_cons]
      have hshorter : (rest.filter fun b => !b == item).length < n :=
        Nat.lt_of_le_of_lt (List.length_filter_le _ _) (h ▸ Nat.lt_succ_self _)
      exact ⟨by simp [List.mem_eraseDups], ih _ hshorter _ rfl⟩

/-- Nothing is found for a key that is not mentioned. -/
theorem lookup_eq_none_of_notMem {mentions : List (Pubkey × ValidatorStatus)} {key : Pubkey}
    (h : key ∉ mentions.map (·.1)) : mentions.reverse.lookup key = none := by
  rw [List.lookup_eq_none_iff]
  intro mention hmention
  have hne : key ≠ mention.1 := fun heq =>
    h (heq ▸ List.mem_map_of_mem (List.mem_reverse.mp hmention))
  exact bne_iff_ne.mpr hne

/-- Later mentions of other keys do not count. -/
theorem lastMention_append {earlier later : List (Pubkey × ValidatorStatus)} {key : Pubkey}
    {last : ValidatorStatus} (h : key ∉ later.map (·.1)) :
    lastMention (earlier ++ (key, last) :: later) key = last := by
  rw [lastMention, List.reverse_append, List.reverse_cons, List.append_assoc, List.lookup_append,
    lookup_eq_none_of_notMem h, List.singleton_append, List.lookup_cons_self]
  rfl

/-- A key that is not mentioned is missing. -/
theorem lastMention_of_notMem {mentions : List (Pubkey × ValidatorStatus)} {key : Pubkey}
    (h : key ∉ mentions.map (·.1)) : lastMention mentions key = .missing := by
  rw [lastMention, lookup_eq_none_of_notMem h]
  rfl

/-- The tally is what the mentions tell. -/
theorem tells_tally (asked : List Pubkey) (mentions : List (Pubkey × ValidatorStatus)) :
    Tells asked mentions (tally asked mentions) := by
  have hstatus {key status} (h : (key, status) ∈ tally asked mentions) :
      status = lastMention mentions key := by
    obtain ⟨other, -, hother⟩ := List.mem_map.mp h
    cases hother
    rfl
  refine ⟨?_, fun key => mem_keys_tally, ?_, ?_⟩
  · rw [keys_tally]
    exact nodup_eraseDups _
  · intro key status h hkey
    rw [hstatus h, lastMention_of_notMem hkey]
  · rintro key status h earlier last later rfl hlater
    rw [hstatus h, lastMention_append hlater]

/-- When one key is asked for and mentioned alone, its last mention is all there is to tell. -/
theorem Tells.eq_singleton {key : Pubkey} {asked : List Pubkey} {last : ValidatorStatus}
    {earlier statuses : List (Pubkey × ValidatorStatus)}
    (h : Tells asked (earlier ++ [(key, last)]) statuses) (hasked : ∀ other ∈ asked, other = key)
    (hearlier : ∀ mention ∈ earlier, mention.1 = key) : statuses = [(key, last)] := by
  have hkeys : statuses.map (·.1) = [key] := by
    have hsingle : [key].Nodup := by simp
    refine List.perm_singleton.mp ((List.perm_ext_iff_of_nodup h.nodup_keys hsingle).mpr
      fun other => ?_)
    rw [h.mem_keys, List.mem_singleton, List.map_append, List.mem_append]
    constructor
    · rintro (hmem | hmem | hmem)
      · exact hasked other hmem
      · obtain ⟨mention, hmention, rfl⟩ := List.mem_map.mp hmem
        exact hearlier mention hmention
      · exact List.mem_singleton.mp hmem
    · rintro rfl
      exact .inr (.inr (List.mem_singleton_self _))
  obtain ⟨⟨told, status⟩, rfl, rfl⟩ := List.map_eq_singleton_iff.mp hkeys
  have hlast := h.mentioned told status (List.mem_singleton_self _) earlier last [] rfl
    List.not_mem_nil
  rw [hlast]

/-! ## A whole call -/

/-- There is one reply to each request. -/
theorem length_repliesTo (server : Server) (before targets : List String) :
    (repliesTo server before targets).length = targets.length := by
  induction targets generalizing before with
  | nil => rfl
  | cons target later ih => rw [repliesTo, List.length_cons, ih, List.length_cons]

/-- Requests whose replies are of use reach the server. -/
theorem reaching_append {replies : List Reply}
    (h : ∀ reply ∈ replies, ∃ mentions, Lists reply mentions) (later : List Reply) :
    reaching (replies ++ later) = replies.length + reaching later := by
  induction replies with
  | nil => simp
  | cons reply rest ih =>
    obtain ⟨⟨mentions, hmentions⟩, hrest⟩ := List.forall_mem_cons.mp h
    simp only [List.cons_append, reaching, reading_eq_ok_iff.mpr hmentions, ih hrest,
      List.length_cons]
    omega

/-- When every reply is of use, every request reaches the server. -/
theorem reaching_of_forall₂ {replies : List Reply}
    {listings : List (List (Pubkey × ValidatorStatus))} (h : List.Forall₂ Lists replies listings) :
    reaching replies = replies.length := by
  induction h with
  | nil => rfl
  | cons hreply _ ih => rw [reaching, reading_eq_ok_iff.mpr hreply, List.length_cons, ← ih]

/-- The first reply of no use among replies, the replies before it, and what is wrong with it. -/
structure FirstUnusable (replies earlier : List Reply) (reply : Reply) (fault : Fault) : Prop where
  split : ∃ later, replies = earlier ++ reply :: later
  earlier : ∀ usable ∈ earlier, ∃ mentions, Lists usable mentions
  unusable : Unusable reply fault

/-- Replies are all read exactly when each of them lists mentions. -/
theorem mapM_reading_eq_ok_iff {replies : List Reply}
    {listings : List (List (Pubkey × ValidatorStatus))} :
    replies.mapM reading = .ok listings ↔ List.Forall₂ Lists replies listings := by
  simp only [mapM_eq_ok_iff, reading_eq_ok_iff]

/-- Reading replies fails exactly with the first one of no use. -/
theorem mapM_reading_eq_error_iff {replies : List Reply} {fault : Fault} :
    replies.mapM reading = .error fault ↔
      ∃ earlier reply, FirstUnusable replies earlier reply fault := by
  simp only [mapM_eq_error_iff, reading_eq_ok_iff, reading_eq_error_iff]
  constructor
  · rintro ⟨earlier, reply, later, hsplit, hearlier, hreply⟩
    exact ⟨earlier, reply, ⟨later, hsplit⟩, hearlier, hreply⟩
  · rintro ⟨earlier, reply, ⟨later, hsplit⟩, hearlier, hreply⟩
    exact ⟨earlier, reply, later, hsplit, hearlier, hreply⟩

/-- Replies that list mentions list these only. -/
theorem eq_of_forall₂_lists {replies : List Reply}
    {listings others : List (List (Pubkey × ValidatorStatus))} (h : List.Forall₂ Lists replies listings)
    (hothers : List.Forall₂ Lists replies others) : others = listings := by
  have hread := mapM_reading_eq_ok_iff.mpr h
  rw [mapM_reading_eq_ok_iff.mpr hothers] at hread
  exact Except.ok.inj hread

/-- Where all replies list mentions, none is of no use. -/
theorem not_firstUnusable_of_forall₂ {replies earlier : List Reply} {reply : Reply} {fault : Fault}
    {listings : List (List (Pubkey × ValidatorStatus))} (h : List.Forall₂ Lists replies listings) :
    ¬ FirstUnusable replies earlier reply fault := by
  intro hunusable
  have hread := mapM_reading_eq_ok_iff.mpr h
  rw [mapM_reading_eq_error_iff.mpr ⟨_, _, hunusable⟩] at hread
  cases hread

/-- Requests reach the server up to the first one whose reply is of no use, and that one too unless
there is no connection. -/
theorem reaching_of_firstUnusable {replies earlier : List Reply} {reply : Reply} {fault : Fault}
    (h : FirstUnusable replies earlier reply fault) :
    reaching replies = earlier.length + if reply = .refused then 0 else 1 := by
  obtain ⟨⟨later, rfl⟩, hearlier, hreply⟩ := h
  rw [reaching_append hearlier, reaching, reading_eq_error_iff.mpr hreply]

/-- The request for the statuses of a group of keys at a slot. -/
def groupRequest (base : String) (slot : Nat) (group : List Pubkey) : String :=
  base ++ ("/eth/v1/beacon/states/" ++ toString slot ++ "/validators?id=" ++
    ",".intercalate (group.map Octets.toHex))

/-- The path of a group is that of its request. -/
theorem validatorsPath_eq_groupRequest (base : String) (slot : UInt64) :
    (fun group => base ++ validatorsPath slot group) = groupRequest base slot.toNat := rfl

/-- Once the timing is there, the result is that of reading the replies, and the requests are those
that reach the server. -/
theorem result_validatorStatuses {server : Server} {client ready : Client} {known : BeaconTiming}
    (hready : (timing.runWith server client).result = (.ok known, ready)) (keys : List Pubkey)
    (epoch : UInt64) :
    ((validatorStatuses keys epoch).runWith server client).result =
      let slot := min (epoch.toNat * known.slotsPerEpoch.toNat) (2 ^ 64 - 1)
      let requests := (chunksOf chunkSize keys).map (groupRequest ready.base slot)
      let replies := repliesTo server ready.requests requests
      ((fun found => tally keys found.flatten) <$> replies.mapM reading,
        { ready with requests := ready.requests ++ requests.take (reaching replies) }) := by
  simp only [validatorStatuses, result_runWith_bind, hready, result_mapM_fetchChunk,
    validatorsPath_eq_groupRequest, toNat_mulSat]
  generalize repliesTo server _ _ = replies
  cases replies.mapM reading with
  | error fault => rfl
  | ok found => rfl

/-- The groups are the keys in order, at most 64 in each, and no more groups than that takes. -/
theorem groups_of_keys (keys : List Pubkey) :
    (chunksOf chunkSize keys).flatten = keys ∧
      (chunksOf chunkSize keys).length = (keys.length + 63) / 64 ∧
      ∀ group ∈ chunksOf chunkSize keys, group.length ≤ 64 := by
  refine ⟨flatten_chunksOf _ _, ?_, fun group hgroup => length_le_of_mem_chunksOf hgroup⟩
  rw [length_chunksOf (by decide), chunkSize]
  rfl

/-- Asking for statuses, once the timing is there. The keys are asked for in groups of at most 64,
one request a group, at the first slot of the epoch. The call fails exactly when there is a first
reply of no use, with its fault, and asks for no group after it. Otherwise every group has been
asked for, and the statuses are what all mentions tell. -/
theorem validatorStatuses_follow_replies {server : Server} {client ready : Client}
    {known : BeaconTiming} (hready : (timing.runWith server client).result = (.ok known, ready))
    (keys : List Pubkey) (epoch : UInt64) :
    let outcome := ((validatorStatuses keys epoch).runWith server client).result
    let slot := min (epoch.toNat * known.slotsPerEpoch.toNat) (2 ^ 64 - 1)
    let groups := chunksOf chunkSize keys
    let requests := groups.map (groupRequest ready.base slot)
    let replies := repliesTo server ready.requests requests
    (groups.flatten = keys ∧ groups.length = (keys.length + 63) / 64 ∧
      ∀ group ∈ groups, group.length ≤ 64) ∧
    (∀ fault, outcome.1 = .error fault ↔
      ∃ earlier reply, FirstUnusable replies earlier reply fault) ∧
    (∀ earlier reply fault, FirstUnusable replies earlier reply fault →
      outcome.2.requests = ready.requests ++
        requests.take (earlier.length + if reply = .refused then 0 else 1)) ∧
    (∀ statuses, outcome.1 = .ok statuses → outcome.2.requests = ready.requests ++ requests ∧
      ∃ listings, List.Forall₂ Lists replies listings ∧ Tells keys listings.flatten statuses) := by
  intro outcome slot groups requests replies
  have houtcome : outcome = ((fun found => tally keys found.flatten) <$> replies.mapM reading,
      { ready with requests := ready.requests ++ requests.take (reaching replies) }) :=
    result_validatorStatuses hready keys epoch
  refine ⟨groups_of_keys keys, fun fault => ?_, fun earlier reply fault h => ?_, ?_⟩
  · rw [houtcome, ← mapM_reading_eq_error_iff]
    cases replies.mapM reading <;> simp
  · rw [houtcome, ← reaching_of_firstUnusable h]
  · intro statuses h
    rw [houtcome] at h ⊢
    cases hfound : replies.mapM reading with
    | error fault =>
      rw [hfound] at h
      cases h
    | ok listings =>
      rw [hfound] at h
      cases h
      have hlists := mapM_reading_eq_ok_iff.mp hfound
      have hall : reaching replies = requests.length := by
        rw [reaching_of_forall₂ hlists, length_repliesTo]
      exact ⟨by rw [hall, List.take_length], listings, hlists, tells_tally _ _⟩

/-- A success that lists one validator. -/
def listing (key balance : String) : Reply :=
  .answered 200 ("\x7b\"data\": [\x7b\"index\": \"7\", \"balance\": \"" ++ balance ++
    "\", \"validator\": \x7b\"pubkey\": \"" ++ key ++
    "\", \"slashed\": false, \"activation_epoch\": \"5\", \"exit_epoch\": \"90\"\x7d\x7d]\x7d")

/-- A server that does one thing with the first request and another with every later one. -/
def twoReplies (first later : Reply) : Server := fun before _ =>
  if before.isEmpty then first else later

/-- A client that knows the timing of the beacon chain. -/
def timedClient : Client := ⟨"http://node", [], some ⟨0, 12, 32⟩⟩

/-- A key whose octets are all 171. -/
def sameKey : Pubkey := Octets.replicate 48 171

/-- A listing of that key in lowercase, behind a mark. -/
def lowercaseListing : Reply := listing sameKey.toHex "32000000000"

/-- A listing of that key in uppercase, without a mark. -/
def uppercaseListing : Reply :=
  listing (String.ofList (List.replicate 48 ['A', 'B']).flatten) "31000000000"

/-- The listing in lowercase mentions the key with its balance and epochs. -/
theorem lists_lowercaseListing :
    Lists lowercaseListing [(sameKey, ⟨true, 5, 90, 32000000000⟩)] :=
  reading_eq_ok_iff.mp (by decide +kernel)

/-- The listing in uppercase mentions the same key with another balance. -/
theorem lists_uppercaseListing :
    Lists uppercaseListing [(sameKey, ⟨true, 5, 90, 31000000000⟩)] :=
  reading_eq_ok_iff.mp (by decide +kernel)

/-- What comes of asking for one key 65 times, when two requests are replied to so. -/
def askedTwice (key : Pubkey) (first later : Reply) :
    Except Fault (List (Pubkey × ValidatorStatus)) × Client :=
  ((validatorStatuses (List.replicate 65 key) 3).runWith (twoReplies first later) timedClient).result

/-- The two requests, of which the second is for the last key alone. -/
def twoRequests (key : Pubkey) : List String :=
  [groupRequest "http://node" 96 (List.replicate 64 key), groupRequest "http://node" 96 [key]]

/-- Of 65 keys the last is in a group of its own. -/
theorem requests_of_replicate (key : Pubkey) : (chunksOf chunkSize (List.replicate 65 key)).map
    (groupRequest timedClient.base (min ((3 : UInt64).toNat * (32 : UInt64).toNat) (2 ^ 64 - 1))) =
      twoRequests key := rfl

/-- Two requests have the two replies. -/
theorem repliesTo_twoReplies (first later : Reply) (key : Pubkey) :
    repliesTo (twoReplies first later) timedClient.requests (twoRequests key) = [first, later] := rfl

/-- A listing and no answer after it: the second reply is the first one of no use. -/
theorem firstUnusable_of_closed {first : Reply} {mentions : List (Pubkey × ValidatorStatus)}
    (h : Lists first mentions) :
    FirstUnusable [first, .closed] [first] .closed .noConnection where
  split := ⟨[], rfl⟩
  earlier := List.forall_mem_singleton.mpr ⟨mentions, h⟩
  unusable := .faulty .closed

/-- Without an answer to the second group the answer to the first one is of no avail. When both
answers list the key, however its digits are written, it has the status of the second entry. -/
theorem statuses_of_two_groups :
    ((timing.runWith (twoReplies lowercaseListing .closed) timedClient).result =
        (.ok ⟨0, 12, 32⟩, timedClient) ∧
      (askedTwice sameKey lowercaseListing .closed).1 = .error .noConnection ∧
      (askedTwice sameKey lowercaseListing .closed).2.requests = twoRequests sameKey) ∧
    (timing.runWith (twoReplies lowercaseListing uppercaseListing) timedClient).result =
        (.ok ⟨0, 12, 32⟩, timedClient) ∧
      (askedTwice sameKey lowercaseListing uppercaseListing).1 =
        .ok [(sameKey, ⟨true, 5, 90, 31000000000⟩)] ∧
      (askedTwice sameKey lowercaseListing uppercaseListing).2.requests = twoRequests sameKey := by
  have hready (server : Server) :
    (timing.runWith server timedClient).result = (.ok ⟨0, 12, 32⟩, timedClient) := rfl
  have hunanswered {key : Pubkey} {first : Reply} {mentions : List (Pubkey × ValidatorStatus)}
      (hfirst : Lists first mentions) : (askedTwice key first .closed).1 = .error .noConnection ∧
        (askedTwice key first .closed).2.requests = twoRequests key := by
    obtain ⟨-, hfails, hrequests, -⟩ :=
      validatorStatuses_follow_replies (hready (twoReplies first .closed)) (List.replicate 65 key) 3
    dsimp only at hfails hrequests
    have hunusable := firstUnusable_of_closed hfirst
    rw [requests_of_replicate, repliesTo_twoReplies] at hfails hrequests
    exact ⟨(hfails _).mpr ⟨_, _, hunusable⟩, hrequests _ _ _ hunusable⟩
  have hanswered {key : Pubkey} {first later : Reply} {status last : ValidatorStatus}
      (hfirst : Lists first [(key, status)]) (hlater : Lists later [(key, last)]) :
      (askedTwice key first later).1 = .ok [(key, last)] ∧
        (askedTwice key first later).2.requests = twoRequests key := by
    obtain ⟨-, hfails, -, hsucceeds⟩ :=
      validatorStatuses_follow_replies (hready (twoReplies first later)) (List.replicate 65 key) 3
    dsimp only at hfails hsucceeds
    rw [requests_of_replicate, repliesTo_twoReplies] at hfails hsucceeds
    have hlists : List.Forall₂ Lists [first, later] [[(key, status)], [(key, last)]] :=
      .cons hfirst (.cons hlater .nil)
    cases hresult : (askedTwice key first later).1 with
    | error fault =>
      obtain ⟨earlier, reply, hunusable⟩ := (hfails fault).mp hresult
      exact absurd hunusable (not_firstUnusable_of_forall₂ hlists)
    | ok statuses =>
      obtain ⟨hrequests, listings, hlistings, htells⟩ := hsucceeds statuses hresult
      obtain rfl := eq_of_forall₂_lists hlists hlistings
      have hstatuses : statuses = [(key, last)] :=
        Tells.eq_singleton htells (fun _ => List.eq_of_mem_replicate) (by simp)
      exact ⟨congrArg _ hstatuses, hrequests⟩
  exact ⟨⟨hready _, hunanswered lists_lowercaseListing⟩, hready _,
    hanswered lists_lowercaseListing lists_uppercaseListing⟩

end StakeOracle.Beacon.Session
