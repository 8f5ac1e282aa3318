import StakeOracle.Beacon.Client

/-!
# Exchanges with a beacon node

A client answers questions one after another. An exchange records what came of a question, the
requests that reached the server on its way, and the notes that were left. What the client learns
from one question it keeps for the next.
-/

namespace StakeOracle.Beacon

/-- A question to a client. -/
inductive Question where
  | synced
  | timing
  | head
  | validators (keys : List Pubkey) (epoch : UInt64)
  deriving DecidableEq, Repr

/-- The answer to a question. -/
inductive Answer where
  | synced (synced : Bool)
  | timing (timing : BeaconTiming)
  | head (head : BeaconHead)
  | validators (statuses : List (Pubkey × ValidatorStatus))
  deriving DecidableEq, Repr

/-- What came of one question. -/
structure Exchange where
  result : Except Fault Answer
  requests : List String
  notes : List Note

/-- The computation that answers a question. -/
def Question.session : Question → Session Answer
  | synced => .synced <$> Session.isSynced
  | timing => .timing <$> Session.timing
  | head => .head <$> Session.head
  | validators keys epoch => .validators <$> Session.validatorStatuses keys epoch

namespace Client

/-- Asks one question. -/
def ask (server : Server) (client : Client) (question : Question) : Exchange × Client :=
  let noted := question.session.runWith server client
  let (result, after) := noted.result
  (⟨result, after.requests.drop client.requests.length, noted.notes⟩, after)

/-- Asks questions one after another. -/
def askAll (server : Server) (client : Client) : List Question → List Exchange × Client
  | [] => ([], client)
  | question :: rest =>
    let (exchange, after) := client.ask server question
    let (exchanges, last) := after.askAll server rest
    (exchange :: exchanges, last)

end Client

end StakeOracle.Beacon
