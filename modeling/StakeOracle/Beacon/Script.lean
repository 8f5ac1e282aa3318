import StakeOracle.Beacon.Client

/-!
# Scripted servers

A script lists the replies of each path. They are used one per request, and the last one again and
again; a request off the script finds no page.
-/

namespace StakeOracle.Beacon

/-- The replies of each path. -/
abbrev Script := List (String × List Reply)

namespace Script

/-- What a request off the script is answered with. -/
def noRoute : Reply := .answered 404 "no route"

/-- The reply to a request that came the given number of times before. -/
def replyAfter (replies : List Reply) (times : Nat) : Reply :=
  (replies[times]? <|> replies.getLast?).getD noRoute

/-- The server that follows a script. -/
def server (script : Script) : Server := fun before target =>
  match script.lookup target with
  | none => noRoute
  | some replies => replyAfter replies (before.count target)

end Script

/-- A server that cannot be reached. -/
def unreachable : Server := fun _ _ => .refused

end StakeOracle.Beacon
