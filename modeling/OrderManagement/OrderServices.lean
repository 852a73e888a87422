import OrderManagement.OrderStore
import OrderManagement.PositionRules

/-! The services, one transaction each, as programs over the statements of the
store. A session keeps the instances it has loaded; `flush` sends the changed
columns of all of them, which the ORM does before every INSERT and at commit. -/

namespace OrderManagement

open Program

/-- An ORM instance: attributes as last loaded or flushed, and as they are now. -/
structure Instance (α : Type) where
  loaded : α
  attrs : α

namespace Instance

variable {α κ : Type} [DecidableEq κ]

def of (row : α) : Instance α := ⟨row, row⟩

def set (i : Instance α) (f : α → α) : Instance α := { i with attrs := f i.attrs }

def flushed (i : Instance α) : Instance α := of i.attrs

/-- A query returns the instance the session already holds for a row, if any,
without overwriting its attributes. -/
def resolve (key : α → κ) (held : Option (Instance α)) (row : α) : Instance α :=
  match held with
  | some i => if key i.attrs = key row then i else of row
  | none => of row

end Instance

/-- The persistent objects of a session; the services hold one order and at most
one account and one position. -/
structure Session where
  order : Instance Order
  account : Option (Instance Account) := none
  position : Option (Instance Position) := none

namespace Session

def setOrder (s : Session) (f : Order → Order) : Session := { s with order := s.order.set f }

def flushed (s : Session) : Session where
  order := s.order.flushed
  account := s.account.map Instance.flushed
  position := s.position.map Instance.flushed

end Session

def flushAccount : Option (Instance Account) → Txn Unit
  | none => pure ()
  | some a => issue (.updateAccount a.loaded a.attrs)

def flushPosition : Option (Instance Position) → Txn Unit
  | none => pure ()
  | some p => issue (.updatePosition p.loaded p.attrs)

def flush (session : Session) : Txn Session := do
  flushAccount session.account
  issue (.updateOrder session.order.loaded session.order.attrs)
  flushPosition session.position
  return session.flushed

/-- Python's `value or default` on an optional string. -/
def orDefault (value : Option String) (default : String) : String :=
  match value with
  | none => default
  | some text => if text = "" then default else text

def DataValue.ofOption : Option String → DataValue
  | none => .null
  | some value => .text value

/-! `OrderLifecycleService` -/

def appendEvent (session : Session) (eventType : OrderEventType)
    (previousStatus newStatus : Option OrderStatus) (eventData : EventData) : Txn Session := do
  let session ← flush session
  issue (.insertOrderEvent
    ⟨session.order.attrs.id, eventType, previousStatus, newStatus, eventData⟩)
  return session

def transition (session : Session) (target : OrderStatus) (eventType : OrderEventType)
    (eventData : EventData) : Txn Session := do
  let previous := session.order.attrs.status
  liftExcept (ensureTransitionAllowed previous target)
  appendEvent (session.setOrder fun o => { o with status := target, version := o.version + 1 })
    eventType (some previous) (some target) eventData

def accountForUpdate (session : Session) : Txn (Instance Account) := do
  match ← issue (.accountForUpdate session.order.attrs.accountId) with
  | none => raise (.domain (.accountNotFound session.order.attrs.accountId))
  | some row => return Instance.resolve Account.id session.account row

/-! `OrderService` -/

def orderMatchesRequest (order : Order) (payload : OrderCreate) : Bool :=
  order.accountId = payload.accountId && order.clientOrderId = payload.clientOrderId
    && order.symbol = payload.symbol && order.side = payload.side
    && order.orderType = payload.orderType && order.timeInForce = payload.timeInForce
    && order.quantity = payload.quantity && order.price = payload.price

/-- What one call of `create_order` draws: the id of the new row and the clock. -/
structure CreateDraw where
  orderId : UUID
  now : Timestamp

def newOrder (settings : Settings) (draw : CreateDraw) (payload : OrderCreate) : Order where
  id := draw.orderId
  clientOrderId := payload.clientOrderId
  idempotencyKey := payload.idempotencyKey
  accountId := payload.accountId
  symbol := payload.symbol
  side := payload.side
  orderType := payload.orderType
  timeInForce := payload.timeInForce
  quantity := payload.quantity
  price := payload.price
  filledQuantity := 0
  cancelledQuantity := 0
  remainingQuantity := payload.quantity
  averageFillPrice := none
  status := .new
  rejectionReason := none
  expiresAt :=
    if payload.timeInForce = .day then some (draw.now + settings.dayOrderExpirySeconds * 1000000)
    else none
  version := 1

/-- The main transaction of `create_order`: what its session holds after the
commit, and whether the order goes to the broker. -/
structure Created where
  session : Session
  shouldRoute : Bool

def Account.reserve (a : Account) (requiredCash : ℚ) : Account :=
  { a with reservedCash := a.reservedCash + requiredCash, version := a.version + 1 }

def Account.release (a : Account) (amount : ℚ) : Account :=
  { a with reservedCash := a.reservedCash - amount, version := a.version + 1 }

/-- From the insertion of the order to the end of the main transaction. -/
def placeOrder (settings : Settings) (draw : CreateDraw) (payload : OrderCreate)
    (account : Instance Account) : Txn Created := do
  let order := newOrder settings draw payload
  issue (.insertOrder order)
  let session ← appendEvent { order := .of order, account := some account } .orderCreated none
    (some .new) [("client_order_id", .text order.clientOrderId), ("symbol", .text order.symbol),
      ("quantity", .decimal order.quantity)]
  let requiredCash := requiredBuyingPower payload.side payload.quantity payload.price
  match ensureSufficientBuyingPower account.attrs.availableCash requiredCash with
  | .error exc =>
    let session := session.setOrder fun o => { o with rejectionReason := some exc.message }
    let session ← transition session .rejected .validationFailed [("reason", .text exc.message)]
    return ⟨session, false⟩
  | .ok () =>
    let session ← transition session .validated .orderValidated []
    let account :=
      if order.side = .buy then account.set (Account.reserve · requiredCash) else account
    let session ← transition { session with account := some account } .routed .orderRouted []
    return ⟨session, true⟩

def createOrder (settings : Settings) (draw : CreateDraw) (payload : OrderCreate) :
    Txn Created := do
  match ← issue (.accountForUpdate payload.accountId) with
  | none => raise (.domain (.accountNotFound payload.accountId))
  | some account =>
    match ← issue (.orderByIdempotencyKey payload.accountId payload.idempotencyKey) with
    | some existing =>
      if orderMatchesRequest existing payload then
        return ⟨{ order := .of existing, account := some (.of account) }, false⟩
      else raise (.domain (.duplicateOrder payload.clientOrderId))
    | none =>
      match ← issue (.orderByClientOrderId payload.accountId payload.clientOrderId) with
      | some _ => raise (.domain (.duplicateOrder payload.clientOrderId))
      | none => placeOrder settings draw payload (.of account)

/-- The message `create_order` submits once its transaction has committed. -/
def brokerOrder (order : Order) : BrokerOrder where
  orderId := order.id
  symbol := order.symbol
  side := order.side
  timeInForce := order.timeInForce
  quantity := order.quantity
  remainingQuantity := order.remainingQuantity
  price := order.price

/-- `_mark_routing_failure` in a session that holds the objects of `held`, or in a
fresh session. -/
def markRoutingFailure (held : Option Session) (orderId : UUID) (reason : String) : Txn Unit := do
  match ← issue (.orderForUpdate orderId) with
  | none => return ()
  | some row =>
    let order := Instance.resolve Order.id (held.map Session.order) row
    if order.attrs.status ≠ .routed then return ()
    else do
      let account ← accountForUpdate { order, account := held.bind Session.account }
      let account :=
        if order.attrs.side = .buy then
          account.set (Account.release · (order.attrs.remainingQuantity * order.attrs.price))
        else account
      let rejectionReason := "Broker routing failed: " ++ reason
      let order := order.set fun o => { o with rejectionReason := some rejectionReason }
      let _ ← transition { order, account := some account } .rejected .orderRejected
        [("reason", .text rejectionReason)]
      return ()

/-! `CancellationService` -/

/-- The order as `request_cancellation` returns it, and whether the broker is told. -/
structure CancelRequested where
  order : Order
  shouldNotifyBroker : Bool

def requestCancellation (orderId : UUID) (reason : String) : Txn CancelRequested := do
  match ← issue (.orderForUpdate orderId) with
  | none => raise (.domain (.orderNotFound orderId))
  | some order =>
    if order.status = .cancelPending then return ⟨order, false⟩
    else if order.status ∉ cancellableOrderStatuses then
      raise (.domain (.invalidCancellation
        ("Order cannot be cancelled from " ++ order.status.value)))
    else do
      let session ← transition { order := .of order } .cancelPending .cancelRequested
        [("reason", .text reason)]
      return ⟨session.order.attrs, true⟩

/-! `PositionService` -/

def Position.opened (accountId : UUID) (symbol : String) (markPrice : ℚ) : Position where
  accountId := accountId
  symbol := symbol
  netQuantity := 0
  averageEntryPrice := 0
  realizedPnl := 0
  unrealizedPnl := 0
  lastMarkPrice := some markPrice

def Position.executed (p : Position) (side : OrderSide) (fillQuantity fillPrice markPrice : ℚ) :
    Except Failure Position := do
  let result ← calculatePositionAfterFill p.netQuantity p.averageEntryPrice p.realizedPnl side
    fillQuantity fillPrice
  .ok { p with
    netQuantity := result.netQuantity
    averageEntryPrice := result.averageEntryPrice
    realizedPnl := result.realizedPnl
    lastMarkPrice := some markPrice
    unrealizedPnl :=
      calculateUnrealizedPnl result.netQuantity result.averageEntryPrice (some markPrice) }

def applyExecution (session : Session) (fillQuantity fillPrice : ℚ) : Txn Session := do
  let order := session.order.attrs
  let found ← issue (.positionForUpdate order.accountId order.symbol)
  let marketPrice ← issue (.marketPrice order.symbol)
  let markPrice := (marketPrice.map MarketPrice.price).getD fillPrice
  match found with
  | some row =>
    let executed ← liftExcept (row.executed order.side fillQuantity fillPrice markPrice)
    return { session with position := some ⟨row, executed⟩ }
  | none =>
    let row := Position.opened order.accountId order.symbol markPrice
    let session ← flush session
    issue (.insertPosition row)
    let executed ← liftExcept (row.executed order.side fillQuantity fillPrice markPrice)
    return { session with position := some ⟨row, executed⟩ }

/-! `ExecutionService` -/

/-- Whether an event was applied, and else why not. -/
abbrev Verdict := Bool × Option String

def Order.bookFill (o : Order) (fillQuantity fillPrice : ℚ) : Except Failure Order := do
  let newFilled := o.filledQuantity + fillQuantity
  let previousValue := o.filledQuantity * o.averageFillPrice.getD 0
  let average ← decimalDiv (previousValue + fillQuantity * fillPrice) newFilled
  .ok { o with
    averageFillPrice := some average
    filledQuantity := newFilled
    remainingQuantity := o.remainingQuantity - fillQuantity
    version := o.version + 1 }

def Account.settleFill (a : Account) (o : Order) (fillQuantity fillPrice : ℚ) :
    Except Failure Account :=
  let notional := fillQuantity * fillPrice
  if o.side = .buy then
    let reservedRelease := fillQuantity * o.price
    if reservedRelease > a.reservedCash then
      .error (.domain (.invalidFill "Reserved cash is inconsistent with the order"))
    else if notional > a.cashBalance then
      .error (.domain (.invalidFill "Fill would create a negative cash balance"))
    else
      .ok { a with
        reservedCash := a.reservedCash - reservedRelease
        cashBalance := a.cashBalance - notional
        version := a.version + 1 }
  else .ok { a with cashBalance := a.cashBalance + notional, version := a.version + 1 }

def releaseRemainingReservation (a : Account) (o : Order) : Except Failure Account :=
  if o.side ≠ .buy ∨ o.remainingQuantity ≤ 0 then .ok a
  else
    let releaseAmount := o.remainingQuantity * o.price
    if releaseAmount > a.reservedCash then
      .error (.domain (.invalidFill "Reserved cash is inconsistent with the order"))
    else .ok (a.release releaseAmount)

def Order.cancelRest (o : Order) : Order :=
  { o with
    cancelledQuantity := o.cancelledQuantity + o.remainingQuantity
    remainingQuantity := 0
    version := o.version + 1 }

def cancelRemaining (session : Session) (reason : String) (eventData : EventData) :
    Txn Session := do
  let account ← accountForUpdate session
  let order := session.order.attrs
  let released ← liftExcept (releaseRemainingReservation account.attrs order)
  transition
    { session.setOrder Order.cancelRest with account := some (account.set fun _ => released) }
    .cancelled .orderCancelled
    (eventData ++
      [("cancelled_quantity", .decimal order.remainingQuantity), ("reason", .text reason)])

def newFill (o : Order) (event : BrokerExecutionEvent) (fillPrice : ℚ) : Fill where
  orderId := o.id
  brokerEventId := event.eventId
  executionId := orDefault event.executionId event.eventId.str
  quantity := event.filledQuantity
  price := fillPrice
  executedAt := event.timestamp

def fillData (event : BrokerExecutionEvent) (fillPrice : ℚ) : EventData :=
  [("broker_event_id", .uuid event.eventId), ("execution_id", .ofOption event.executionId),
    ("quantity", .decimal event.filledQuantity), ("price", .decimal fillPrice)]

/-- The last part of `_apply_fill`: the status and the audit records of a booked fill. -/
def concludeFill (session : Session) (eventData : EventData) : Txn Session := do
  let order := session.order.attrs
  if order.remainingQuantity = 0 then
    transition session .filled .fullFillReceived eventData
  else if order.timeInForce = .ioc then do
    let session ← appendEvent session .partialFillReceived (some order.status) (some order.status)
      eventData
    cancelRemaining session "IOC remainder cancelled" eventData
  else if order.status = .routed then
    transition session .partiallyFilled .partialFillReceived eventData
  else
    appendEvent session .partialFillReceived (some order.status) (some order.status) eventData

/-- Statuses in which fills and cancellations are applied. -/
def workingStatuses : List OrderStatus := [.routed, .partiallyFilled, .cancelPending]

def applyFill (session : Session) (event : BrokerExecutionEvent) : Txn (Session × Verdict) := do
  let order := session.order.attrs
  let fillQuantity := event.filledQuantity
  if order.status ∉ workingStatuses then
    return (session, false, some ("Order is already " ++ order.status.value))
  else match event.fillPrice with
    | none => raise (.domain (.invalidFill "Fill price is required"))
    | some fillPrice =>
      if fillQuantity ≤ 0 then raise (.domain (.invalidFill "Fill quantity must be positive"))
      else if fillQuantity > order.remainingQuantity then
        return (session, false, some "Fill quantity exceeds remaining quantity")
      else if event.eventType = .fullFill ∧ fillQuantity ≠ order.remainingQuantity then
        return (session, false, some "Full-fill event does not consume remaining quantity")
      else do
        let booked ← liftExcept (order.bookFill fillQuantity fillPrice)
        let session ← flush (session.setOrder fun _ => booked)
        issue (.insertFill (newFill order event fillPrice))
        let account ← accountForUpdate session
        let settled ← liftExcept (account.attrs.settleFill order fillQuantity fillPrice)
        let session ← applyExecution { session with account := some (account.set fun _ => settled) }
          fillQuantity fillPrice
        let session ← concludeFill session (fillData event fillPrice)
        return (session, true, none)

def applyRejection (session : Session) (event : BrokerExecutionEvent) :
    Txn (Session × Verdict) := do
  let order := session.order.attrs
  if order.status ≠ .routed then
    return (session, false, some ("Order cannot be rejected from " ++ order.status.value))
  else do
    let account ← accountForUpdate session
    let released ← liftExcept (releaseRemainingReservation account.attrs order)
    let rejectionReason := orDefault event.reason "Rejected by broker"
    let session ← transition
      { session.setOrder fun o => { o with rejectionReason := some rejectionReason } with
        account := some (account.set fun _ => released) }
      .rejected .orderRejected
      [("broker_event_id", .uuid event.eventId), ("reason", .text rejectionReason)]
    return (session, true, none)

def applyCancellation (session : Session) (event : BrokerExecutionEvent) :
    Txn (Session × Verdict) := do
  let order := session.order.attrs
  if order.status ∉ workingStatuses then
    return (session, false, some ("Order cannot be cancelled from " ++ order.status.value))
  else do
    let session ← cancelRemaining session (orDefault event.reason "Cancelled by broker")
      [("broker_event_id", .uuid event.eventId)]
    return (session, true, none)

def dispatch (session : Session) (event : BrokerExecutionEvent) : Txn (Session × Verdict) :=
  match event.eventType with
  | .fullFill | .partialFill => applyFill session event
  | .rejected => applyRejection session event
  | .cancelled => applyCancellation session event

def processedRow (event : BrokerExecutionEvent) (verdict : Verdict) : ProcessedBrokerEvent where
  brokerEventId := event.eventId
  orderId := event.orderId
  eventType := event.eventType
  brokerTimestamp := event.timestamp
  outcome := if verdict.1 then .applied else .ignored
  details := match verdict.2 with
    | none => []
    | some reason => [("reason", .text reason)]

def ignoredData (event : BrokerExecutionEvent) (reason : Option String) : EventData :=
  [("broker_event_id", .uuid event.eventId), ("event_type", .text event.eventType.value),
    ("reason", .ofOption reason)]

def processEvent (event : BrokerExecutionEvent) : Txn Bool := do
  match ← issue (.orderForUpdate event.orderId) with
  | none => raise (.domain (.orderNotFound event.orderId))
  | some order =>
    match ← issue (.processedByEventId event.eventId) with
    | some _ => return false
    | none =>
      let (session, verdict) ← dispatch { order := .of order } event
      issue (.insertProcessed (processedRow event verdict))
      if verdict.1 then return true
      else do
        let _ ← appendEvent session .brokerEventIgnored (some session.order.attrs.status)
          (some session.order.attrs.status) (ignoredData event verdict.2)
        return false

/-! `MarketDataService`, `AccountService` and `PnLService` -/

def markedPosition (price : ℚ) (p : Position) : Position :=
  { p with
    lastMarkPrice := some price
    unrealizedPnl := calculateUnrealizedPnl p.netQuantity p.averageEntryPrice (some price) }

def markPositions (price : ℚ) : List Position → Txn Unit
  | [] => pure ()
  | p :: ps => do
    issue (.updatePosition p (markedPosition price p))
    markPositions price ps

def upsertMarketPrice (symbol : String) (price : ℚ) (observedAt : Timestamp) : Txn Bool := do
  match ← issue (.marketPrice symbol) with
  | none =>
    issue (.insertMarketPrice ⟨symbol, price, observedAt⟩)
    return true
  | some found =>
    if observedAt ≥ found.observedAt then do
      issue (.updateMarketPrice found { found with price := price, observedAt := observedAt })
      return true
    else return false

/-- `apply_tick`; `upper` is `str.upper`. -/
def applyTick (upper : String → String) (symbol : String) (price : ℚ) (observedAt : Timestamp) :
    Txn Unit := do
  let applied ← upsertMarketPrice (upper symbol) price observedAt
  if applied then do
    let positions ← issue (.positionsBySymbolForUpdate (upper symbol))
    markPositions price positions
  else return ()

def newAccount (id : UUID) (payload : AccountCreate) : Account where
  id := id
  userId := payload.userId
  currency := payload.currency
  cashBalance := payload.initialCashBalance
  reservedCash := 0
  version := 1

def createAccount (id : UUID) (payload : AccountCreate) : Txn Account := do
  match ← issue (.accountByUserId payload.userId) with
  | some _ => raise (.domain (.duplicateAccount payload.userId))
  | none =>
    issue (.insertAccount (newAccount id payload))
    return newAccount id payload

structure PnLSummary where
  realizedPnl : ℚ
  unrealizedPnl : ℚ
  totalPnl : ℚ
  deriving DecidableEq, Repr

/-- `list_by_account`, without the order of the rows, which no sum depends on. -/
def Db.positionsOf (db : Db) (accountId : UUID) : List Position :=
  db.positions.rows.filter fun p => p.accountId = accountId

def getAccountSummary (db : Db) (accountId : UUID) : PnLSummary :=
  let positions := db.positionsOf accountId
  let realized := (positions.map Position.realizedPnl).sum
  let unrealized := (positions.map Position.unrealizedPnl).sum
  ⟨realized, unrealized, realized + unrealized⟩

end OrderManagement
