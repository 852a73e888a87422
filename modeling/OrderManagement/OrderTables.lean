import OrderManagement.OrderSchemas
import OrderManagement.KeyedTable

/-! The rows of the schema. Each kind of row says what its columns make of it
(`stored`), which of its columns or CHECK constraints refuses it (`violation`),
and what an UPDATE of the changed columns leaves in the table (`patch`). Row ids
that nothing reads, foreign keys and creation times are left out. -/

namespace OrderManagement

structure Account where
  id : UUID
  userId : String
  currency : String
  cashBalance : ℚ
  reservedCash : ℚ
  version : ℕ
  deriving DecidableEq, Repr

def Account.availableCash (a : Account) : ℚ := a.cashBalance - a.reservedCash

structure Order where
  id : UUID
  clientOrderId : String
  idempotencyKey : String
  accountId : UUID
  symbol : String
  side : OrderSide
  orderType : OrderType
  timeInForce : TimeInForce
  quantity : ℚ
  price : ℚ
  filledQuantity : ℚ
  cancelledQuantity : ℚ
  remainingQuantity : ℚ
  averageFillPrice : Option ℚ
  status : OrderStatus
  rejectionReason : Option String
  expiresAt : Option Timestamp
  version : ℕ
  deriving DecidableEq, Repr

structure Fill where
  orderId : UUID
  brokerEventId : UUID
  executionId : String
  quantity : ℚ
  price : ℚ
  executedAt : Timestamp
  deriving DecidableEq, Repr

structure Position where
  accountId : UUID
  symbol : String
  netQuantity : ℚ
  averageEntryPrice : ℚ
  realizedPnl : ℚ
  unrealizedPnl : ℚ
  lastMarkPrice : Option ℚ
  deriving DecidableEq, Repr

structure MarketPrice where
  symbol : String
  price : ℚ
  observedAt : Timestamp
  deriving DecidableEq, Repr

/-- A value of an audit record; `str()` of a number or an id is kept as the value. -/
inductive DataValue
  | text (value : String)
  | uuid (value : UUID)
  | decimal (value : ℚ)
  | null
  deriving DecidableEq, Repr

abbrev EventData := List (String × DataValue)

structure OrderEvent where
  orderId : UUID
  eventType : OrderEventType
  previousStatus : Option OrderStatus
  newStatus : Option OrderStatus
  eventData : EventData
  deriving DecidableEq, Repr

inductive EventOutcome
  | applied | ignored
  deriving DecidableEq, Repr

structure ProcessedBrokerEvent where
  brokerEventId : UUID
  orderId : UUID
  eventType : BrokerEventType
  brokerTimestamp : Timestamp
  outcome : EventOutcome
  details : EventData
  deriving DecidableEq, Repr

def firstFailure (conditions : List (Bool × Failure)) : Option Failure :=
  (conditions.find? fun c => !c.1).map (·.2)

theorem firstFailure_eq_none_iff {conditions : List (Bool × Failure)} :
    firstFailure conditions = none ↔ ∀ c ∈ conditions, c.1 = true := by
  simp [firstFailure, List.find?_eq_none]

theorem firstFailure_forall {P : Failure → Prop} {conditions : List (Bool × Failure)} {f : Failure}
    (h : ∀ c ∈ conditions, P c.2) (failed : firstFailure conditions = some f) : P f := by
  obtain ⟨c, hc, rfl⟩ := Option.map_eq_some_iff.1 failed
  exact h c (List.mem_of_find?_eq_some hc)

/-- UPDATE writes a column only when the attribute changed since it was loaded. -/
def patchColumn {α : Type} [DecidableEq α] (loaded current row : α) : α :=
  if current = loaded then row else current

theorem patchColumn_eq {α : Type} [DecidableEq α] (f : α → α) (loaded current : α) :
    patchColumn (f loaded) (f current) (f loaded) = f current := by
  unfold patchColumn
  split_ifs with h
  · exact h.symm
  · rfl

namespace Numeric

/-- `patchColumn` for a numeric column: a changed attribute goes through the column. -/
def patch (num : Numeric) (loaded current row : ℚ) : ℚ :=
  if current = loaded then row else num.round current

theorem patch_stored (num : Numeric) (loaded current : ℚ) :
    num.patch loaded current (num.round loaded) = num.round current := by
  unfold patch
  split_ifs with h
  · rw [h]
  · rfl

def patchOption (num : Numeric) (loaded current row : Option ℚ) : Option ℚ :=
  if current = loaded then row else current.map num.round

theorem patchOption_stored (num : Numeric) (loaded current : Option ℚ) :
    num.patchOption loaded current (loaded.map num.round) = current.map num.round := by
  unfold patchOption
  split_ifs with h
  · rw [h]
  · rfl

end Numeric

theorem patchColumn_self {α : Type} [DecidableEq α] (loaded current : α) :
    patchColumn loaded current loaded = current := patchColumn_eq id loaded current

section Rows

variable (num : Numeric)

def Account.stored (a : Account) : Account :=
  { a with cashBalance := num.round a.cashBalance, reservedCash := num.round a.reservedCash }

def Account.violation (a : Account) : Option Failure :=
  firstFailure [
    (a.userId.length ≤ 100, .data .accountUserId),
    (a.currency.length ≤ 3, .data .accountCurrency),
    (num.fits a.cashBalance && num.fits a.reservedCash, .data .accountMoney),
    (0 ≤ a.cashBalance, .integrity .accountsCashNonnegative),
    (0 ≤ a.reservedCash, .integrity .accountsReservedNonnegative),
    (a.reservedCash ≤ a.cashBalance, .integrity .accountsReservedNotAboveCash)]

def Account.patch (loaded attrs row : Account) : Account where
  id := row.id
  userId := patchColumn loaded.userId attrs.userId row.userId
  currency := patchColumn loaded.currency attrs.currency row.currency
  cashBalance := num.patch loaded.cashBalance attrs.cashBalance row.cashBalance
  reservedCash := num.patch loaded.reservedCash attrs.reservedCash row.reservedCash
  version := patchColumn loaded.version attrs.version row.version

def Order.stored (o : Order) : Order :=
  { o with
    quantity := num.round o.quantity
    price := num.round o.price
    filledQuantity := num.round o.filledQuantity
    cancelledQuantity := num.round o.cancelledQuantity
    remainingQuantity := num.round o.remainingQuantity
    averageFillPrice := o.averageFillPrice.map num.round }

def Order.violation (o : Order) : Option Failure :=
  firstFailure [
    (o.clientOrderId.length ≤ 100, .data .orderClientOrderId),
    (o.idempotencyKey.length ≤ 100, .data .orderIdempotencyKey),
    (o.symbol.length ≤ 32, .data .orderSymbol),
    (num.fits o.quantity && num.fits o.price && num.fits o.filledQuantity
      && num.fits o.cancelledQuantity && num.fits o.remainingQuantity
      && o.averageFillPrice.all num.fits, .data .orderNumber),
    (o.rejectionReason.all (·.length ≤ 500), .data .orderRejectionReason),
    (0 < o.quantity, .integrity .ordersQuantityPositive),
    (0 < o.price, .integrity .ordersPricePositive),
    (0 ≤ o.filledQuantity, .integrity .ordersFilledNonnegative),
    (0 ≤ o.cancelledQuantity, .integrity .ordersCancelledNonnegative),
    (0 ≤ o.remainingQuantity, .integrity .ordersRemainingNonnegative),
    (o.filledQuantity + o.cancelledQuantity + o.remainingQuantity = o.quantity,
      .integrity .ordersQuantityConservation)]

def Order.patch (loaded attrs row : Order) : Order where
  id := row.id
  clientOrderId := patchColumn loaded.clientOrderId attrs.clientOrderId row.clientOrderId
  idempotencyKey := patchColumn loaded.idempotencyKey attrs.idempotencyKey row.idempotencyKey
  accountId := patchColumn loaded.accountId attrs.accountId row.accountId
  symbol := patchColumn loaded.symbol attrs.symbol row.symbol
  side := patchColumn loaded.side attrs.side row.side
  orderType := patchColumn loaded.orderType attrs.orderType row.orderType
  timeInForce := patchColumn loaded.timeInForce attrs.timeInForce row.timeInForce
  quantity := num.patch loaded.quantity attrs.quantity row.quantity
  price := num.patch loaded.price attrs.price row.price
  filledQuantity := num.patch loaded.filledQuantity attrs.filledQuantity row.filledQuantity
  cancelledQuantity :=
    num.patch loaded.cancelledQuantity attrs.cancelledQuantity row.cancelledQuantity
  remainingQuantity :=
    num.patch loaded.remainingQuantity attrs.remainingQuantity row.remainingQuantity
  averageFillPrice :=
    num.patchOption loaded.averageFillPrice attrs.averageFillPrice row.averageFillPrice
  status := patchColumn loaded.status attrs.status row.status
  rejectionReason := patchColumn loaded.rejectionReason attrs.rejectionReason row.rejectionReason
  expiresAt := patchColumn loaded.expiresAt attrs.expiresAt row.expiresAt
  version := patchColumn loaded.version attrs.version row.version

def Fill.stored (f : Fill) : Fill :=
  { f with quantity := num.round f.quantity, price := num.round f.price }

def Fill.violation (f : Fill) : Option Failure :=
  firstFailure [
    (f.executionId.length ≤ 100, .data .fillExecutionId),
    (num.fits f.quantity && num.fits f.price, .data .fillNumber),
    (0 < f.quantity, .integrity .fillsQuantityPositive),
    (0 < f.price, .integrity .fillsPricePositive)]

def Position.stored (p : Position) : Position :=
  { p with
    netQuantity := num.round p.netQuantity
    averageEntryPrice := num.round p.averageEntryPrice
    realizedPnl := num.round p.realizedPnl
    unrealizedPnl := num.round p.unrealizedPnl
    lastMarkPrice := p.lastMarkPrice.map num.round }

def Position.violation (p : Position) : Option Failure :=
  firstFailure [
    (p.symbol.length ≤ 32, .data .positionSymbol),
    (num.fits p.netQuantity && num.fits p.averageEntryPrice && num.fits p.realizedPnl
      && num.fits p.unrealizedPnl && p.lastMarkPrice.all num.fits, .data .positionNumber),
    (0 ≤ p.averageEntryPrice, .integrity .positionsAveragePriceNonnegative),
    (p.lastMarkPrice.all (0 < ·), .integrity .positionsMarkPricePositive)]

def Position.patch (loaded attrs row : Position) : Position where
  accountId := row.accountId
  symbol := row.symbol
  netQuantity := num.patch loaded.netQuantity attrs.netQuantity row.netQuantity
  averageEntryPrice :=
    num.patch loaded.averageEntryPrice attrs.averageEntryPrice row.averageEntryPrice
  realizedPnl := num.patch loaded.realizedPnl attrs.realizedPnl row.realizedPnl
  unrealizedPnl := num.patch loaded.unrealizedPnl attrs.unrealizedPnl row.unrealizedPnl
  lastMarkPrice := num.patchOption loaded.lastMarkPrice attrs.lastMarkPrice row.lastMarkPrice

def MarketPrice.stored (m : MarketPrice) : MarketPrice := { m with price := num.round m.price }

def MarketPrice.violation (m : MarketPrice) : Option Failure :=
  firstFailure [
    (m.symbol.length ≤ 32, .data .marketPriceSymbol),
    (num.fits m.price, .data .marketPriceNumber),
    (0 < m.price, .integrity .marketPricesPricePositive)]

def MarketPrice.patch (loaded attrs row : MarketPrice) : MarketPrice where
  symbol := row.symbol
  price := num.patch loaded.price attrs.price row.price
  observedAt := patchColumn loaded.observedAt attrs.observedAt row.observedAt

variable {num}

theorem Account.violation_isRefusal {a : Account} {f : Failure} (h : a.violation num = some f) :
    f.isRefusal = true :=
      firstFailure_forall (P := fun f => f.isRefusal = true) (by simp [Failure.isRefusal]) h

theorem Order.violation_isRefusal {o : Order} {f : Failure} (h : o.violation num = some f) :
    f.isRefusal = true :=
      firstFailure_forall (P := fun f => f.isRefusal = true) (by simp [Failure.isRefusal]) h

theorem Fill.violation_isRefusal {r : Fill} {f : Failure} (h : r.violation num = some f) :
    f.isRefusal = true :=
      firstFailure_forall (P := fun f => f.isRefusal = true) (by simp [Failure.isRefusal]) h

theorem Position.violation_isRefusal {p : Position} {f : Failure} (h : p.violation num = some f) :
    f.isRefusal = true :=
      firstFailure_forall (P := fun f => f.isRefusal = true) (by simp [Failure.isRefusal]) h

/-! What a column has kept it keeps again. -/

@[simp] theorem Account.stored_stored (a : Account) : (a.stored num).stored num = a.stored num := by
  simp [Account.stored, num.round_round]

@[simp] theorem Order.stored_stored (o : Order) : (o.stored num).stored num = o.stored num := by
  simp [Order.stored, num.round_round, Function.comp_def]

@[simp] theorem Fill.stored_stored (f : Fill) : (f.stored num).stored num = f.stored num := by
  simp [Fill.stored, num.round_round]

@[simp] theorem Position.stored_stored (p : Position) :
    (p.stored num).stored num = p.stored num := by
  simp [Position.stored, num.round_round, Function.comp_def]

@[simp] theorem MarketPrice.stored_stored (m : MarketPrice) :
    (m.stored num).stored num = m.stored num := by
  simp [MarketPrice.stored, num.round_round]

/-! Patching the row of an instance that is up to date stores its attributes. -/

theorem Account.patch_stored {loaded attrs : Account} (h : attrs.id = loaded.id) :
    Account.patch num loaded attrs (loaded.stored num) = attrs.stored num := by
  cases attrs
  cases loaded
  simp_all [Account.patch, Account.stored, Numeric.patch_stored, patchColumn_self]

theorem Order.patch_stored {loaded attrs : Order} (h : attrs.id = loaded.id) :
    Order.patch num loaded attrs (loaded.stored num) = attrs.stored num := by
  cases attrs
  cases loaded
  simp_all [Order.patch, Order.stored, Numeric.patch_stored, Numeric.patchOption_stored,
    patchColumn_self]

theorem Position.patch_stored {loaded attrs : Position} (ha : attrs.accountId = loaded.accountId)
    (hs : attrs.symbol = loaded.symbol) :
    Position.patch num loaded attrs (loaded.stored num) = attrs.stored num := by
  cases attrs
  cases loaded
  simp_all [Position.patch, Position.stored, Numeric.patch_stored, Numeric.patchOption_stored]

theorem MarketPrice.patch_stored {loaded attrs : MarketPrice} (h : attrs.symbol = loaded.symbol) :
    MarketPrice.patch num loaded attrs (loaded.stored num) = attrs.stored num := by
  cases attrs
  cases loaded
  simp_all [MarketPrice.patch, MarketPrice.stored, Numeric.patch_stored, patchColumn_self]

end Rows

@[simp] theorem Account.stored_exact (a : Account) : a.stored .exact = a := rfl

@[simp] theorem Order.stored_exact (o : Order) : o.stored .exact = o := by
  simp [Order.stored, Numeric.exact]

@[simp] theorem Fill.stored_exact (f : Fill) : f.stored .exact = f := rfl

@[simp] theorem Position.stored_exact (p : Position) : p.stored .exact = p := by
  simp [Position.stored, Numeric.exact]

@[simp] theorem MarketPrice.stored_exact (m : MarketPrice) : m.stored .exact = m := rfl

end OrderManagement
