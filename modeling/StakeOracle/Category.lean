/-!
# Report categories

The engine reports two things: the ether that backs the network, and the price of the reward
token. Each category has a checkpoint, submission flags and a loop of its own.
-/

namespace StakeOracle

/-- What a report is about. -/
inductive Category where
  | balances
  | prices
  deriving DecidableEq, Repr

namespace Category

/-- Both categories, in the order in which they are checked and started. -/
def all : List Category := [balances, prices]

/-- The name of a category in data and messages. -/
def name : Category → String
  | balances => "balances"
  | prices => "prices"

/-- The category of a name. -/
def ofName? : String → Option Category
  | "balances" => some balances
  | "prices" => some prices
  | _ => none

/-- The mark on the log lines of a category. -/
def mark : Category → String
  | balances => "[Balances Report]"
  | prices => "[Price Report]"

/-- The namespace of a category's submission flags in the protocol's storage. -/
def flagSpace : Category → String
  | balances => "network.balances.submitted.node"
  | prices => "network.prices.submitted.node.key"

end Category

end StakeOracle
