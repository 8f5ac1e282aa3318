import StakeOracle.Bytes.Octets
import StakeOracle.Numeric.Word

/-!
# Minipools

A minipool joins the capital of a node with the capital of depositors for one validator.
-/

namespace StakeOracle

/-- The stages of a minipool's life. -/
inductive MinipoolStatus where
  | initialized
  | prelaunch
  | staking
  | withdrawable
  | dissolved
  deriving DecidableEq, Repr

namespace MinipoolStatus

/-- Whether the depositors' capital is still held as it was paid in. -/
def preStake : MinipoolStatus → Bool
  | initialized => true
  | prelaunch => true
  | _ => false

/-- The stages in the order of a minipool's life. -/
def all : List MinipoolStatus := [initialized, prelaunch, staking, withdrawable, dissolved]

/-- The name of a stage. -/
def name : MinipoolStatus → String
  | initialized => "Initialized"
  | prelaunch => "Prelaunch"
  | staking => "Staking"
  | withdrawable => "Withdrawable"
  | dissolved => "Dissolved"

/-- The stage of a name. -/
def ofName? (text : String) : Option MinipoolStatus := all.find? fun s => s.name = text

end MinipoolStatus

/-- How the launch balance was funded. -/
inductive DepositType where
  | unset
  /-- By the node alone, half of it to be refunded. -/
  | full
  /-- Half by the node. -/
  | half
  /-- By depositors alone. -/
  | empty
  /-- As recorded for the minipool. -/
  | recorded
  deriving DecidableEq, Repr

namespace DepositType

/-- All ways of funding. -/
def all : List DepositType := [unset, full, half, empty, recorded]

/-- The name of a way of funding. -/
def name : DepositType → String
  | unset => "None"
  | full => "Full"
  | half => "Half"
  | empty => "Empty"
  | recorded => "Variable"

/-- The way of funding of a name. -/
def ofName? (text : String) : Option DepositType := all.find? fun t => t.name = text

end DepositType

/-- A minipool as the protocol records it. Fees are shares of `10 ^ 18`. -/
structure Minipool where
  address : Address
  pubkey : Pubkey
  status : MinipoolStatus
  depositType : DepositType
  userDeposit : Word
  nodeDeposit : Word
  nodeFee : Word
  node : Address
  deriving DecidableEq, Repr

/-- What a minipool contributes to a balances report. -/
structure MinipoolBalance where
  status : MinipoolStatus
  /-- The depositors' share. -/
  userBalance : Word
  node : Address
  nodeFee : Word
  staking : Bool
  deriving DecidableEq, Repr

end StakeOracle
