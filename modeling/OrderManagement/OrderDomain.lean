import Mathlib.Algebra.Field.Rat
import Mathlib.Algebra.Order.Ring.Unbundled.Rat
import Mathlib.Tactic.Common

/-! The vocabulary of the service: identifiers, enumerations, the errors a
transaction can end with, the order state machine and the buying-power rule. -/

namespace OrderManagement

abbrev UUID := BitVec 128

/-- Microseconds since the epoch; every time the service keeps is timezone-aware. -/
abbrev Timestamp := ℤ

def hexDigit (n : ℕ) : Char := "0123456789abcdef".toList.getD n '0'

def hexDigits : (width : ℕ) → ℕ → List Char
  | 0, _ => []
  | width + 1, n => hexDigits width (n / 16) ++ [hexDigit (n % 16)]

/-- `str(uuid)`: 32 hexadecimal digits in groups of 8, 4, 4, 4 and 12. -/
def UUID.str (u : UUID) : String :=
  let digits := hexDigits 32 u.toNat
  String.ofList <| digits.take 8 ++ '-' :: (digits.drop 8).take 4 ++ '-' :: (digits.drop 12).take 4
    ++ '-' :: (digits.drop 16).take 4 ++ '-' :: digits.drop 20

inductive OrderSide
  | buy | sell
  deriving DecidableEq, Repr

theorem OrderSide.sell_of_not_buy {side : OrderSide} (h : ¬ side = .buy) : side = .sell := by
  cases side
  · exact (h rfl).elim
  · rfl

inductive OrderType
  | market | limit
  deriving DecidableEq, Repr

inductive TimeInForce
  | day | gtc | ioc
  deriving DecidableEq, Repr

inductive OrderStatus
  | new | validated | routed | partiallyFilled | filled | rejected | cancelPending | cancelled
  deriving DecidableEq, Repr

def OrderStatus.value : OrderStatus → String
  | new => "NEW"
  | validated => "VALIDATED"
  | routed => "ROUTED"
  | partiallyFilled => "PARTIALLY_FILLED"
  | filled => "FILLED"
  | rejected => "REJECTED"
  | cancelPending => "CANCEL_PENDING"
  | cancelled => "CANCELLED"

inductive BrokerEventType
  | fullFill | partialFill | rejected | cancelled
  deriving DecidableEq, Repr

def BrokerEventType.value : BrokerEventType → String
  | fullFill => "FULL_FILL"
  | partialFill => "PARTIAL_FILL"
  | rejected => "REJECTED"
  | cancelled => "CANCELLED"

def BrokerEventType.isFill : BrokerEventType → Bool
  | fullFill | partialFill => true
  | rejected | cancelled => false

inductive OrderEventType
  | orderCreated | orderValidated | validationFailed | orderRouted | partialFillReceived
  | fullFillReceived | cancelRequested | orderCancelled | orderRejected | brokerEventIgnored
  deriving DecidableEq, Repr

inductive DomainError
  | orderNotFound (orderId : UUID)
  | accountNotFound (accountId : UUID)
  | invalidStateTransition (current target : OrderStatus)
  | insufficientBuyingPower
  | duplicateOrder (clientOrderId : String)
  | duplicateAccount (userId : String)
  | invalidCancellation (reason : String)
  | invalidFill (reason : String)
  | brokerUnavailable
  deriving DecidableEq, Repr

def DomainError.message : DomainError → String
  | orderNotFound orderId => "Order " ++ orderId.str ++ " was not found"
  | accountNotFound accountId => "Account " ++ accountId.str ++ " was not found"
  | invalidStateTransition current target =>
    "Order cannot transition from " ++ current.value ++ " to " ++ target.value
  | insufficientBuyingPower => "Insufficient buying power"
  | duplicateOrder clientOrderId => "Order " ++ clientOrderId ++ " already exists"
  | duplicateAccount userId => "Account for user " ++ userId ++ " already exists"
  | invalidCancellation reason => reason
  | invalidFill reason => reason
  | brokerUnavailable => "Broker is temporarily unavailable"

/-- The CHECK and UNIQUE constraints of the schema. -/
inductive Constraint
  | accountsPkey | accountsUserId
  | accountsCashNonnegative | accountsReservedNonnegative | accountsReservedNotAboveCash
  | ordersPkey | ordersAccountClientOrder | ordersAccountIdempotencyKey
  | ordersQuantityPositive | ordersPricePositive | ordersFilledNonnegative
  | ordersCancelledNonnegative | ordersRemainingNonnegative | ordersQuantityConservation
  | fillsBrokerEventId | fillsExecutionId | fillsQuantityPositive | fillsPricePositive
  | positionsAccountSymbol | positionsAveragePriceNonnegative | positionsMarkPricePositive
  | processedBrokerEventId
  | marketPricesPkey | marketPricesPricePositive
  deriving DecidableEq, Repr

/-- Columns that do not take every text or number. -/
inductive Column
  | accountUserId | accountCurrency | accountMoney
  | orderClientOrderId | orderIdempotencyKey | orderSymbol | orderNumber | orderRejectionReason
  | fillExecutionId | fillNumber | positionSymbol | positionNumber
  | marketPriceSymbol | marketPriceNumber
  | orderEventData | processedEventDetails
  deriving DecidableEq, Repr

/-- How a transaction fails: a business rule, a violated constraint, a value its
column cannot hold, an UPDATE that finds no row, or a division by zero. -/
inductive Failure
  | domain (error : DomainError)
  | integrity (violated : Constraint)
  | data (column : Column)
  | stale
  | divisionByZero
  deriving DecidableEq, Repr

/-- Whether a row was refused, rather than a rule of the service broken. -/
def Failure.isRefusal : Failure → Bool
  | integrity _ | data _ => true
  | domain _ | stale | divisionByZero => false

def allowedTransitions : OrderStatus → List OrderStatus
  | .new => [.validated, .rejected]
  | .validated => [.routed, .rejected, .cancelPending]
  | .routed => [.partiallyFilled, .filled, .rejected, .cancelPending, .cancelled]
  | .partiallyFilled => [.filled, .cancelPending, .cancelled]
  | .cancelPending => [.filled, .cancelled]
  | .filled => []
  | .rejected => []
  | .cancelled => []

def openOrderStatuses : List OrderStatus := [.validated, .routed, .partiallyFilled, .cancelPending]

def cancellableOrderStatuses : List OrderStatus := [.validated, .routed, .partiallyFilled]

def terminalOrderStatuses : List OrderStatus := [.filled, .rejected, .cancelled]

def ensureTransitionAllowed (current target : OrderStatus) : Except Failure Unit :=
  if target ∈ allowedTransitions current then .ok ()
  else .error (.domain (.invalidStateTransition current target))

theorem allowedTransitions_eq_nil_iff (status : OrderStatus) :
    allowedTransitions status = [] ↔ status ∈ terminalOrderStatuses := by
  cases status <;> decide

def requiredBuyingPower (side : OrderSide) (quantity price : ℚ) : ℚ :=
  if side ≠ .buy then 0 else quantity * price

def ensureSufficientBuyingPower (availableCash requiredCash : ℚ) : Except DomainError Unit :=
  if requiredCash > availableCash then .error .insufficientBuyingPower else .ok ()

/-- Decimal division, which raises on a zero divisor. -/
def decimalDiv (x y : ℚ) : Except Failure ℚ :=
  if y = 0 then .error .divisionByZero else .ok (x / y)

end OrderManagement
