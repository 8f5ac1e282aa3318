import StakeOracle.Beacon.Script
import StakeOracle.Proofs.Beacon.Bodies

/-!
# Requests and their replies

A session is run against a server, part by part. A request has one reply, which either carries the
content that it was sent for or is faulty in one way: there is no connection, no answer, no success, or
no such content in the body.
-/

namespace StakeOracle.Beacon.Session

/-! ## Parts of a session -/

/-- Reading what the client is leaves it as it is. -/
@[simp] theorem result_get (server : Server) (client : Client) :
    ((get : Session Client).runWith server client).result = (.ok client, client) := rfl

/-- The server is at hand throughout. -/
@[simp] theorem result_read (server : Server) (client : Client) :
    ((read : Session Server).runWith server client).result = (.ok server, client) := rfl

/-- A client that is put in its place is the one that is left. -/
@[simp] theorem result_set (server : Server) (client after : Client) :
    ((set after : Session PUnit).runWith server client).result = (.ok ⟨⟩, after) := rfl

/-- A result that is there already is the result. -/
@[simp] theorem result_ofExcept (result : Except Fault α) (server : Server) (client : Client) :
    ((ofExcept result).runWith server client).result = (result, client) := rfl

/-- The second part of a session goes on with what the first one left. -/
theorem result_runWith_bind (s : Session α) (f : α → Session β) (server : Server)
    (client : Client) : ((s >>= f).runWith server client).result =
      match (s.runWith server client).result with
      | (.ok a, after) => ((f a).runWith server after).result
      | (.error fault, after) => (.error fault, after) := by
  rw [runWith_bind, Noted.result_bind]
  obtain ⟨result, after⟩ := (s.runWith server client).result
  cases result <;> rfl

/-! ## A request and its reply -/

/-- A client after a reply: without a connection the request has not reached the server. -/
def afterReply (client : Client) (target : String) (reply : Reply) : Client :=
  if reply = .refused then client else { client with requests := client.requests ++ [target] }

/-- A request is answered in view of those that have reached the server before. -/
theorem result_send (path : String) (server : Server) (client : Client) :
    ((send path).runWith server client).result =
      let target := client.base ++ path
      let reply := server client.requests target
      (.ok reply, afterReply client target reply) := by
  by_cases h : server client.requests (client.base ++ path) = .refused
  · simp [send, result_runWith_bind, afterReply, h]
  · simp [send, result_runWith_bind, afterReply, h, -bind_pure_comp]

/-- A reply that is a success with content in its body. -/
def Carries (Means : Json.Value → α → Prop) (reply : Reply) (content : α) : Prop :=
  ∃ status body, reply = .answered status body ∧ (200 ≤ status ∧ status < 300) ∧
    Wraps Means body content

/-- A reply without content of use, and what is wrong with it. -/
inductive Faulty (Means : Json.Value → α → Prop) : Reply → Fault → Prop
  | refused : Faulty Means .refused .noConnection
  | closed : Faulty Means .closed .noConnection
  | silent : Faulty Means .silent .noAnswer
  | badStatus {status : Nat} {body : String} (h : ¬ (200 ≤ status ∧ status < 300)) :
    Faulty Means (.answered status body) (.badStatus status body)
  | malformed {status : Nat} {body : String} (h : 200 ≤ status ∧ status < 300)
    (hbody : ∀ content, ¬ Wraps Means body content) : Faulty Means (.answered status body) .malformed

section Content

variable {decode : Json.Value → Option α} {Means : Json.Value → α → Prop} {reply : Reply}

/-- The content of a reply is what its body wraps. -/
theorem contentOf_eq_ok_iff (hdecode : ∀ {v a}, decode v = some a ↔ Means v a) {content : α} :
    contentOf decode reply = .ok content ↔ Carries Means reply content := by
  cases reply with
  | answered status body =>
    simp only [contentOf, Carries, ← content?_eq_some_iff hdecode, Reply.answered.injEq]
    split
    · rename_i hstatus
      cases hbody : content? decode body with
      | none => simp [hbody]
      | some found => simp [hbody, hstatus]
    · rename_i hstatus
      simp [hstatus]
  | closed => simp [contentOf, Carries]
  | silent => simp [contentOf, Carries]
  | refused => simp [contentOf, Carries]

/-- A reply without content fails with what is wrong with it. -/
theorem contentOf_eq_error_iff (hdecode : ∀ {v a}, decode v = some a ↔ Means v a) {fault : Fault} :
    contentOf decode reply = .error fault ↔ Faulty Means reply fault := by
  have hnone {body : String} : content? decode body = none ↔ ∀ content, ¬ Wraps Means body content := by
    simp only [← content?_eq_some_iff hdecode, Option.eq_none_iff_forall_ne_some, ne_eq]
  constructor
  · intro h
    cases reply with
    | answered status body =>
      simp only [contentOf] at h
      split at h
      · rename_i hstatus
        cases hbody : content? decode body with
        | none =>
          rw [hbody] at h
          cases h
          exact .malformed hstatus (hnone.mp hbody)
        | some content =>
          rw [hbody] at h
          cases h
      · rename_i hstatus
        cases h
        exact .badStatus hstatus
    | closed => cases h; exact .closed
    | silent => cases h; exact .silent
    | refused => cases h; exact .refused
  · intro h
    cases h with
    | refused => rfl
    | closed => rfl
    | silent => rfl
    | badStatus hstatus => exact if_neg hstatus
    | malformed hstatus hbody => simp [contentOf, hstatus, hnone.mpr hbody]

end Content

/-- A request with the reply to it. -/
theorem result_fetch (path : String) (decode : Json.Value → Option α) (server : Server)
    (client : Client) : ((fetch path decode).runWith server client).result =
      let target := client.base ++ path
      let reply := server client.requests target
      (contentOf decode reply, afterReply client target reply) := by
  rw [fetch, result_runWith_bind, result_send]
  rfl

end StakeOracle.Beacon.Session
