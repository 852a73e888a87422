import OrderManagement.FillOutcomes
import OrderManagement.TransactionProtocol

/-! The operations of one account. When orders, broker events and execution ids each
belong to one account, an operation on an order of `B` issues statements on rows of `B`
alone, whatever the other accounts have stored. -/

namespace OrderManagement

open Program

/-- The account of every order, broker event and execution. -/
structure Owners where
  order : UUID → UUID
  event : UUID → UUID
  execution : String → UUID

variable {own : Owners} {B : UUID}

/-- A row of the account `B`. Ticks alone write market prices. -/
def Write.Of (own : Owners) (B : UUID) : Write → Prop
  | .insertAccount row | .updateAccount row => row.id = B
  | .insertOrder row | .updateOrder row => own.order row.id = B ∧ row.accountId = B
  | .insertFill row =>
    own.order row.orderId = B ∧ own.event row.brokerEventId = B ∧ own.execution row.executionId = B
  | .insertPosition row | .updatePosition row => row.accountId = B
  | .insertMarketPrice _ | .updateMarketPrice _ => False
  | .insertProcessed row => own.order row.orderId = B ∧ own.event row.brokerEventId = B
  | .insertOrderEvent row => own.order row.orderId = B

def Stmt.Of (own : Owners) (B : UUID) {β : Type} : Stmt β → Prop
  | .accountForUpdate id => id = B
  | .updateAccount loaded _ => loaded.id = B
  | .orderForUpdate id => own.order id = B
  | .orderByIdempotencyKey accountId _ | .orderByClientOrderId accountId _ => accountId = B
  | .insertOrder row => own.order row.id = B ∧ row.accountId = B
  | .updateOrder loaded current => own.order loaded.id = B ∧ current.accountId = B
  | .insertFill row =>
    own.order row.orderId = B ∧ own.event row.brokerEventId = B ∧ own.execution row.executionId = B
  | .positionForUpdate accountId _ => accountId = B
  | .insertPosition row => row.accountId = B
  | .updatePosition loaded _ => loaded.accountId = B
  | .marketPrice _ => True
  | .processedByEventId eventId => own.event eventId = B
  | .insertProcessed row => own.order row.orderId = B ∧ own.event row.brokerEventId = B
  | .insertOrderEvent row => own.order row.orderId = B
  | .accountByUserId _ | .insertAccount _ | .positionsBySymbolForUpdate _ | .insertMarketPrice _
  | .updateMarketPrice _ _ => False

/-- Statements of the account `B`, whose orders answer with its id. -/
def accountProtocol (own : Owners) (B : UUID) : Protocol Stmt Unit where
  allows _ s := s.Of own B
  expected
    | .accountForUpdate id, found => ∀ a ∈ found, a.id = id
    | .orderForUpdate id, found => ∀ o ∈ found, o.id = id ∧ o.accountId = B
    | .positionForUpdate accountId _, found => ∀ p ∈ found, p.accountId = accountId
    | _, _ => True
  after _ _ _ := ()

/-- A transaction that touches rows of `B` alone and returns with `Q`. -/
def Confined (own : Owners) (B : UUID) {α : Type} (Q : α → Prop) (p : Txn α) : Prop :=
  p.Follows (accountProtocol own B) (fun a _ => Q a) (fun _ => True) ()

section Rules

variable {α β : Type} {Q : α → Prop}

theorem confined_pure {a : α} (h : Q a) : Confined own B Q (pure a) := h

theorem confined_raise (f : Failure) : Confined own B Q (raise f) := trivial

theorem confined_issue {s : Stmt β} (h : s.Of own B) :
    Confined own B ((accountProtocol own B).expected s) (issue s) := ⟨h, fun _ expected => expected⟩

theorem confined_liftExcept (x : Except Failure α) : Confined own B (x = .ok ·) (liftExcept x) :=
  (follows_liftExcept _ x).2 ⟨fun _ h => h, fun _ _ => trivial⟩

theorem confined_bind {R : β → Prop} {p : Txn β} {f : β → Txn α} (first : Confined own B R p)
    (rest : ∀ b, R b → Confined own B Q (f b)) : Confined own B Q (p >>= f) :=
  (follows_bind _ p f).2 (follows_mono _ first (fun b _ => rest b) fun _ _ => trivial)

theorem confined_ite {c : Prop} [Decidable c] {p q : Txn α} (first : c → Confined own B Q p)
    (second : ¬ c → Confined own B Q q) : Confined own B Q (if c then p else q) :=
  follows_ite _ first second

end Rules

structure Session.Of (own : Owners) (B : UUID) (s : Session) : Prop where
  loaded : own.order s.order.loaded.id = B
  order : own.order s.order.attrs.id = B
  owner : s.order.attrs.accountId = B
  account : ∀ i ∈ s.account, i.loaded.id = B ∧ i.attrs.id = B
  position : ∀ p ∈ s.position, p.loaded.accountId = B ∧ p.attrs.accountId = B

namespace Session.Of

variable {s : Session}

theorem flushed (h : s.Of own B) : s.flushed.Of own B where
  loaded := h.order
  order := h.order
  owner := h.owner
  account i hi := by
    obtain ⟨j, hj, rfl⟩ := Option.map_eq_some_iff.1 hi
    exact ⟨(h.account j hj).2, (h.account j hj).2⟩
  position p hp := by
    obtain ⟨q, hq, rfl⟩ := Option.map_eq_some_iff.1 hp
    exact ⟨(h.position q hq).2, (h.position q hq).2⟩

theorem setOrder (h : s.Of own B) {f : Order → Order} (id : (f s.order.attrs).id = s.order.attrs.id)
    (owner : (f s.order.attrs).accountId = s.order.attrs.accountId) : (s.setOrder f).Of own B where
  loaded := h.loaded
  order := id ▸ h.order
  owner := owner.trans h.owner
  account := h.account
  position := h.position

theorem setAccount (h : s.Of own B) {i : Instance Account} (loaded : i.loaded.id = B)
    (attrs : i.attrs.id = B) : Session.Of own B { s with account := some i } where
  loaded := h.loaded
  order := h.order
  owner := h.owner
  account _ hj := Option.some.inj hj ▸ ⟨loaded, attrs⟩
  position := h.position

theorem setPosition (h : s.Of own B) {p : Instance Position} (loaded : p.loaded.accountId = B)
    (attrs : p.attrs.accountId = B) : Session.Of own B { s with position := some p } where
  loaded := h.loaded
  order := h.order
  owner := h.owner
  account := h.account
  position _ hq := Option.some.inj hq ▸ ⟨loaded, attrs⟩

theorem ofOrder {o : Order} (order : own.order o.id = B) (owner : o.accountId = B) :
    Session.Of own B { order := .of o } :=
  ⟨order, order, owner, by simp, by simp⟩

end Session.Of

section Services

variable {s : Session} {data : EventData}

theorem flush_confined (h : s.Of own B) : Confined own B (Session.Of own B) (flush s) := by
  refine confined_bind (R := fun _ => True) ?_ fun _ _ =>
    confined_bind (confined_issue ⟨h.loaded, h.owner⟩) fun _ _ =>
      confined_bind (R := fun _ => True) ?_ fun _ _ => confined_pure h.flushed
  · cases held : s.account with
    | none => exact confined_pure trivial
    | some a => exact confined_issue (h.account a held).1
  · cases held : s.position with
    | none => exact confined_pure trivial
    | some p => exact confined_issue (h.position p held).1

theorem appendEvent_confined (h : s.Of own B) (eventType : OrderEventType)
    (previous new : Option OrderStatus) (data : EventData) :
    Confined own B (Session.Of own B) (appendEvent s eventType previous new data) :=
  confined_bind (flush_confined h) fun _ flushed =>
    confined_bind (confined_issue flushed.order) fun _ _ => confined_pure flushed

theorem transition_confined (h : s.Of own B) (target : OrderStatus) (eventType : OrderEventType)
    (data : EventData) : Confined own B (Session.Of own B) (transition s target eventType data) :=
  confined_bind (confined_liftExcept _) fun _ _ => appendEvent_confined (h.setOrder rfl rfl) _ _ _ _

theorem accountForUpdate_confined (h : s.Of own B) :
    Confined own B (fun i => i.loaded.id = B ∧ i.attrs.id = B) (accountForUpdate s) := by
  refine confined_bind (confined_issue h.owner) fun found expected => ?_
  cases found with
  | none => exact confined_raise _
  | some row =>
    refine confined_pure ?_
    have key : row.id = B := (expected row rfl).trans h.owner
    unfold Instance.resolve
    cases held : s.account with
    | none => exact ⟨key, key⟩
    | some i =>
      dsimp only
      split_ifs
      · exact h.account i held
      · exact ⟨key, key⟩

theorem cancelRemaining_confined (h : s.Of own B) (reason : String) (data : EventData) :
    Confined own B (Session.Of own B) (cancelRemaining s reason data) :=
  confined_bind (accountForUpdate_confined h) fun account row =>
    confined_bind (confined_liftExcept _) fun b released =>
      transition_confined ((h.setOrder rfl rfl).setAccount (i := account.set fun _ => b) row.1
        ((releaseRemainingReservation_id released).trans row.2)) _ _ _

theorem concludeFill_confined (h : s.Of own B) (data : EventData) :
    Confined own B (Session.Of own B) (concludeFill s data) :=
  confined_ite (fun _ => transition_confined h _ _ _) fun _ =>
    confined_ite
      (fun _ => confined_bind (appendEvent_confined h _ _ _ _) fun _ logged =>
        cancelRemaining_confined logged _ _)
      fun _ => confined_ite (fun _ => transition_confined h _ _ _) fun _ =>
        appendEvent_confined h _ _ _ _

theorem applyExecution_confined (h : s.Of own B) (q price : ℚ) :
    Confined own B (Session.Of own B) (applyExecution s q price) := by
  refine confined_bind (confined_issue h.owner) fun found expected =>
    confined_bind (confined_issue trivial) fun _ _ => ?_
  cases found with
  | some row =>
    have key : row.accountId = B := (expected row rfl).trans h.owner
    refine confined_bind (confined_liftExcept _) fun executed done => confined_pure ?_
    exact h.setPosition key ((congrArg Prod.fst (Position.executed_holding done)).trans key)
  | none =>
    refine confined_bind (flush_confined h) fun t flushed =>
      confined_bind (confined_issue h.owner) fun _ _ =>
        confined_bind (confined_liftExcept _) fun executed done => confined_pure ?_
    exact flushed.setPosition h.owner
      ((congrArg Prod.fst (Position.executed_holding done)).trans h.owner)

structure BrokerExecutionEvent.Of (own : Owners) (B : UUID) (event : BrokerExecutionEvent) :
    Prop where
  orderId : own.order event.orderId = B
  eventId : own.event event.eventId = B
  executionId : event.eventType.isFill = true →
    own.execution (orDefault event.executionId event.eventId.str) = B

variable {event : BrokerExecutionEvent}

theorem applyFill_confined (h : s.Of own B) (belongs : event.Of own B)
    (isFill : event.eventType.isFill = true) :
    Confined own B (fun r => Session.Of own B r.1) (applyFill s event) := by
  refine confined_ite (fun _ => confined_pure h) fun _ => ?_
  cases event.fillPrice with
  | none => exact confined_raise _
  | some price =>
    refine confined_ite (fun _ => confined_raise _) fun _ => confined_ite (fun _ => confined_pure h)
      fun _ => confined_ite (fun _ => confined_pure h) fun _ => ?_
    refine confined_bind (confined_liftExcept _) fun booked book => ?_
    obtain ⟨-, rfl⟩ := Order.bookFill_ok book
    refine confined_bind (flush_confined (h.setOrder rfl rfl)) fun t flushed => ?_
    refine confined_bind (confined_issue ⟨h.order, belongs.eventId, belongs.executionId isFill⟩)
      fun _ _ => ?_
    refine confined_bind (accountForUpdate_confined flushed) fun account row => ?_
    refine confined_bind (confined_liftExcept _) fun settled done => ?_
    have paid := flushed.setAccount (i := account.set fun _ => settled) row.1
      ((Account.settleFill_id done).trans row.2)
    refine confined_bind (applyExecution_confined paid _ _) fun u executed => ?_
    exact confined_bind (concludeFill_confined executed _) fun v concluded =>
      confined_pure concluded

theorem applyRejection_confined (h : s.Of own B) (event : BrokerExecutionEvent) :
    Confined own B (fun r => Session.Of own B r.1) (applyRejection s event) :=
  confined_ite (fun _ => confined_pure h) fun _ =>
    confined_bind (accountForUpdate_confined h) fun account row =>
      confined_bind (confined_liftExcept _) fun b released =>
        confined_bind (transition_confined ((h.setOrder rfl rfl).setAccount
          (i := account.set fun _ => b) row.1
          ((releaseRemainingReservation_id released).trans row.2)) _ _ _) fun _ t => confined_pure t

theorem applyCancellation_confined (h : s.Of own B) (event : BrokerExecutionEvent) :
    Confined own B (fun r => Session.Of own B r.1) (applyCancellation s event) :=
  confined_ite (fun _ => confined_pure h) fun _ =>
    confined_bind (cancelRemaining_confined h _ _) fun _ t => confined_pure t

theorem dispatch_confined (h : s.Of own B) (belongs : event.Of own B) :
    Confined own B (fun r => Session.Of own B r.1) (dispatch s event) := by
  unfold dispatch
  cases kind : event.eventType with
  | fullFill | partialFill => exact applyFill_confined h belongs (by rw [kind]; rfl)
  | rejected => exact applyRejection_confined h event
  | cancelled => exact applyCancellation_confined h event

theorem processEvent_confined (belongs : event.Of own B) :
    Confined own B (fun _ => True) (processEvent event) := by
  refine confined_bind (confined_issue belongs.orderId) fun found expected => ?_
  cases found with
  | none => exact confined_raise _
  | some order =>
    obtain ⟨key, owner⟩ := expected order rfl
    refine confined_bind (confined_issue belongs.eventId) fun processed _ => ?_
    cases processed with
    | some _ => exact confined_pure trivial
    | none =>
      have held := Session.Of.ofOrder (key ▸ belongs.orderId) owner
      refine confined_bind (dispatch_confined held belongs) fun _ t =>
        confined_bind (confined_issue ⟨belongs.orderId, belongs.eventId⟩) fun _ _ => ?_
      exact confined_ite (fun _ => confined_pure trivial) fun _ =>
        confined_bind (appendEvent_confined t _ _ _ _) fun _ _ => confined_pure trivial

theorem placeOrder_confined {settings : Settings} {draw : CreateDraw} {payload : OrderCreate}
    {account : Instance Account} (drawn : own.order draw.orderId = B)
    (owner : payload.accountId = B)
    (loaded : account.loaded.id = B) (attrs : account.attrs.id = B) :
    Confined own B (fun _ => True) (placeOrder settings draw payload account) := by
  have placed : Session.Of own B
      { order := .of (newOrder settings draw payload), account := some account } :=
    (Session.Of.ofOrder drawn owner).setAccount loaded attrs
  refine confined_bind (confined_issue ⟨drawn, owner⟩) fun _ _ =>
    confined_bind (appendEvent_confined placed _ _ _ _) fun t logged => ?_
  dsimp only
  cases ensureSufficientBuyingPower account.attrs.availableCash
    (requiredBuyingPower payload.side payload.quantity payload.price) with
  | error exc =>
    exact confined_bind (transition_confined (logged.setOrder rfl rfl) _ _ _) fun _ _ =>
      confined_pure trivial
  | ok _ =>
    refine confined_bind (transition_confined logged _ _ _) fun u validated => ?_
    have charged : ∀ {c : Prop} [Decidable c],
        Session.Of own B { u with account := some (if c then account.set (Account.reserve ·
          (requiredBuyingPower payload.side payload.quantity payload.price)) else account) } := by
      intro c _
      split_ifs
      · exact validated.setAccount loaded attrs
      · exact validated.setAccount loaded attrs
    exact confined_bind (transition_confined charged _ _ _) fun _ _ => confined_pure trivial

theorem createOrder_confined {settings : Settings} {draw : CreateDraw} {payload : OrderCreate}
    (drawn : own.order draw.orderId = B) (owner : payload.accountId = B) :
    Confined own B (fun _ => True) (createOrder settings draw payload) := by
  refine confined_bind (confined_issue owner) fun found expected => ?_
  cases found with
  | none => exact confined_raise _
  | some account =>
    have key : account.id = B := (expected account rfl).trans owner
    refine confined_bind (confined_issue owner) fun keyed _ => ?_
    cases keyed with
    | some existing => exact confined_ite (fun _ => confined_pure trivial) fun _ => confined_raise _
    | none =>
      refine confined_bind (confined_issue owner) fun taken _ => ?_
      cases taken with
      | some _ => exact confined_raise _
      | none => exact placeOrder_confined drawn owner key key

theorem requestCancellation_confined {orderId : UUID} (order : own.order orderId = B)
    (reason : String) : Confined own B (fun _ => True) (requestCancellation orderId reason) := by
  refine confined_bind (confined_issue order) fun found expected => ?_
  cases found with
  | none => exact confined_raise _
  | some row =>
    obtain ⟨key, owner⟩ := expected row rfl
    exact confined_ite (fun _ => confined_pure trivial) fun _ => confined_ite
      (fun _ => confined_raise _) fun _ =>
        confined_bind (transition_confined (.ofOrder (key ▸ order) owner) _ _ _) fun _ _ =>
          confined_pure trivial

theorem markRoutingFailure_confined {orderId : UUID} (order : own.order orderId = B)
    (reason : String) :
    Confined own B (fun _ => True) (markRoutingFailure none orderId reason) := by
  refine confined_bind (confined_issue order) fun found expected => ?_
  cases found with
  | none => exact confined_pure trivial
  | some row =>
    obtain ⟨key, owner⟩ := expected row rfl
    have held := Session.Of.ofOrder (key ▸ order) owner
    refine confined_ite (fun _ => confined_pure trivial) fun _ =>
      confined_bind (accountForUpdate_confined held) fun account loaded => ?_
    have refunded : ∀ {c : Prop} [Decidable c], Session.Of own B
        { order := .of row, account := some (if c then account.set (Account.release ·
          (row.remainingQuantity * row.price)) else account) } := by
      intro c _
      split_ifs
      · exact held.setAccount loaded.1 loaded.2
      · exact held.setAccount loaded.1 loaded.2
    exact confined_bind (transition_confined (refunded.setOrder rfl rfl) _ _ _) fun _ _ =>
      confined_pure trivial

end Services

end OrderManagement
