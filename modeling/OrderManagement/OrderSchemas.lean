import OrderManagement.DecimalRounding
import OrderManagement.OrderDomain

/-! Requests and broker messages, with what their validators promise as fields:
a payload that the schema refuses cannot be built. -/

namespace OrderManagement

structure AccountCreate where
  userId : String
  initialCashBalance : ℚ
  currency : String
  userId_length : 1 ≤ userId.length ∧ userId.length ≤ 100
  initialCashBalance_pos : 0 < initialCashBalance
  initialCashBalance_places : Numeric.OnGrid 8 initialCashBalance

/-- An accepted order submission. `symbol` is the normalized one, the only one
the service ever sees; no proof here uses how it was normalized. -/
structure OrderCreate where
  clientOrderId : String
  idempotencyKey : String
  accountId : UUID
  symbol : String
  side : OrderSide
  orderType : OrderType
  timeInForce : TimeInForce
  quantity : ℚ
  price : ℚ
  clientOrderId_length : 1 ≤ clientOrderId.length ∧ clientOrderId.length ≤ 100
  idempotencyKey_length : 8 ≤ idempotencyKey.length ∧ idempotencyKey.length ≤ 100
  quantity_pos : 0 < quantity
  quantity_places : Numeric.OnGrid 8 quantity
  price_pos : 0 < price
  price_places : Numeric.OnGrid 8 price

structure BrokerOrder where
  orderId : UUID
  symbol : String
  side : OrderSide
  timeInForce : TimeInForce
  quantity : ℚ
  remainingQuantity : ℚ
  price : ℚ
  deriving DecidableEq, Repr

/-- A broker callback; `validateFillPayload` is the model validator. Only fills are
constrained: any quantity or price may come with the other two event types. -/
structure BrokerExecutionEvent where
  eventId : UUID
  eventType : BrokerEventType
  orderId : UUID
  timestamp : Timestamp
  filledQuantity : ℚ := 0
  fillPrice : Option ℚ := none
  executionId : Option String := none
  reason : Option String := none
  validateFillPayload : eventType.isFill = true →
    0 < filledQuantity ∧ (∃ price, fillPrice = some price ∧ 0 < price) ∧
      (∃ execution, executionId = some execution ∧ execution ≠ "")

theorem dayOrderExpirySeconds_default_pos : 0 < 300 := by decide

structure Settings where
  dayOrderExpirySeconds : ℕ := 300
  dayOrderExpirySeconds_pos : 0 < dayOrderExpirySeconds := by
    exact dayOrderExpirySeconds_default_pos

end OrderManagement
