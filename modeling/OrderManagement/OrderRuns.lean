import OrderManagement.EventProcessing
import OrderManagement.MarketTicks
import OrderManagement.SubmissionOutcomes
import OrderManagement.TransitionRuns

/-! Runs of the service. Each operation is one transaction on the latest committed
rows; a transaction that raises rolls back. `step_change` lists every way in which
an operation can change the database, and the invariants are case analyses on it. -/

namespace OrderManagement

open Program TransitionRuns

/-- What stays fixed over a run: the numeric columns, the settings and `str.upper`. -/
structure Deployment where
  num : Numeric
  settings : Settings
  upper : String → String

def Deployment.exact (settings : Settings) (upper : String → String) : Deployment :=
  ⟨.exact, settings, upper⟩

/-- The operations of the service. A routing failure is the transaction that
`create_order` runs after a failed submission, here in a session of its own. -/
inductive Op
  | createOrder (draw : CreateDraw) (payload : OrderCreate)
  | processEvent (event : BrokerExecutionEvent)
  | requestCancellation (orderId : UUID) (reason : String)
  | markRoutingFailure (orderId : UUID) (reason : String)
  | applyTick (symbol : String) (price : ℚ) (observedAt : Timestamp)

def committed {α : Type} (num : Numeric) (p : Txn α) (db : Db) : Db :=
  match p.run (postgres num) db with
  | .ok (_, db') => db'
  | .error _ => db

def step (S : Deployment) (db : Db) : Op → Db
  | .createOrder draw payload => committed S.num (createOrder S.settings draw payload) db
  | .processEvent event => committed S.num (processEvent event) db
  | .requestCancellation orderId reason =>
    committed S.num (requestCancellation orderId reason) db
  | .markRoutingFailure orderId reason =>
    committed S.num (markRoutingFailure none orderId reason) db
  | .applyTick symbol price observedAt =>
    committed S.num (applyTick S.upper symbol price observedAt) db

/-- The ways in which one operation can change the database. -/
inductive Change (S : Deployment) (db : Db) : Op → Db → Prop
  | unchanged {op : Op} : Change S db op db
  | refused {draw : CreateDraw} {payload : OrderCreate}
      (t : Placement db S.settings draw payload)
      (inserted : (t.order.stored S.num).refusal S.num db = none)
      (short : t.account.availableCash < t.required) :
      Change S db (.createOrder draw payload)
        (db.booked S.num t.rejected t.account none [t.created, t.rejection])
  | routed {draw : CreateDraw} {payload : OrderCreate} (t : Placement db S.settings draw payload)
      (inserted : (t.order.stored S.num).refusal S.num db = none)
      (covered : t.required ≤ t.account.availableCash)
      (kept : (t.charged.stored S.num).violation S.num = none) :
      Change S db (.createOrder draw payload)
        (db.booked S.num t.routed t.charged none [t.created, t.validation, t.routing])
  | ignored {event : BrokerExecutionEvent} {order : Order} {reason : String}
      (found : db.orders.find event.orderId = some order)
      (unprocessed : db.processedBrokerEvents.find event.eventId = none)
      (ignores : Ignores order event reason) :
      Change S db (.processEvent event)
        (({ db with orderEvents := db.orderEvents ++ [⟨order.id, .brokerEventIgnored,
            some order.status, some order.status, ignoredData event (some reason)⟩] } : Db).recorded
          event (false, some reason))
  | filled {event : BrokerExecutionEvent} (t : AppliedFill S.num db event) :
      Change S db (.processEvent event) t.after
  | released {event : BrokerExecutionEvent} {order final : Order} {account released : Account}
      {record : OrderEvent} (found : db.orders.find event.orderId = some order)
      (unprocessed : db.processedBrokerEvents.find event.eventId = none)
      (accountFound : db.accounts.find order.accountId = some account)
      (becomes : Released event order final record)
      (release : releaseRemainingReservation account order = .ok released)
      (kept : AcceptedRows S.num final released none) :
      Change S db (.processEvent event)
        ((db.booked S.num final released none [record]).recorded event (true, none))
  | cancelRequested {orderId : UUID} {reason : String} {order : Order}
      (found : db.orders.find orderId = some order)
      (cancellable : order.status ∈ cancellableOrderStatuses) :
      Change S db (.requestCancellation orderId reason)
        (db.logged S.num { order := .of (order.moved .cancelPending) }
          [⟨order.id, .cancelRequested, some order.status, some .cancelPending,
            [("reason", .text reason)]⟩])
  | routingFailed {orderId : UUID} {reason : String} {order : Order} {account : Account}
      (found : db.orders.find orderId = some order) (wasRouted : order.status = .routed)
      (accountFound : db.accounts.find order.accountId = some account)
      (kept : AcceptedRows S.num ((order.unroutable reason).moved .rejected)
        (account.refund order) none) :
      Change S db (.markRoutingFailure orderId reason)
        (db.booked S.num ((order.unroutable reason).moved .rejected) (account.refund order) none
          [⟨order.id, .orderRejected, some order.status, some .rejected,
            [("reason", .text ("Broker routing failed: " ++ reason))]⟩])
  | ticked {symbol : String} {price : ℚ} {observedAt : Timestamp}
      (kept : (MarketPrice.stored S.num ⟨S.upper symbol, price, observedAt⟩).violation S.num = none)
      (marks : ∀ p ∈ db.positions.rows, p.symbol = S.upper symbol →
        ((markedPosition price p).stored S.num).violation S.num = none) :
      Change S db (.applyTick symbol price observedAt)
        { db with
          marketPrices :=
            db.marketPrices.put (MarketPrice.stored S.num ⟨S.upper symbol, price, observedAt⟩)
          positions := markedTable S.num price
            (db.positions.rows.filter fun p => p.symbol = S.upper symbol) db.positions }

variable {S : Deployment} {db : Db}

theorem committed_of_wp {α : Type} {p : Txn α} {num : Numeric} {Q : α → Db → Prop}
    {X : Failure → Prop} {P : Db → Prop} (h : p.wp (postgres num) Q X db) (unchanged : P db)
    (returns : ∀ a db', Q a db' → P db') : P (committed num p db) := by
  unfold committed
  cases ran : p.run (postgres num) db with
  | error f => exact unchanged
  | ok r => exact returns r.1 r.2 (wp_ok _ h ran)

theorem step_change (S : Deployment) (sound : db.Sound S.num) (op : Op) :
    Change S db op (step S db op) := by
  cases op with
  | createOrder draw payload =>
    refine committed_of_wp (createOrder_spec sound) .unchanged fun _ _ h => ?_
    cases h with
    | existing => exact .unchanged
    | rejected t inserted short => exact .refused t inserted short
    | routed t inserted covered kept => exact .routed t inserted covered kept
  | processEvent event =>
    refine committed_of_wp (processEvent_spec sound) .unchanged fun _ _ h => ?_
    cases h with
    | duplicate => exact .unchanged
    | ignored found unprocessed ignores => exact .ignored found unprocessed ignores
    | filled t => exact .filled t
    | released found unprocessed accountFound becomes release kept =>
      exact .released found unprocessed accountFound becomes release kept
  | requestCancellation orderId reason =>
    refine committed_of_wp (requestCancellation_spec sound) .unchanged fun _ _ h => ?_
    cases h with
    | pending => exact .unchanged
    | requested found cancellable => exact .cancelRequested found cancellable
  | markRoutingFailure orderId reason =>
    refine committed_of_wp (markRoutingFailure_spec sound) .unchanged fun _ _ h => ?_
    cases h with
    | noEffect => exact .unchanged
    | failed found routed accountFound kept => exact .routingFailed found routed accountFound kept
  | applyTick symbol price observedAt =>
    refine committed_of_wp (applyTick_spec sound) .unchanged fun _ _ h => ?_
    cases h with
    | outdated => exact .unchanged
    | marked kept marks => exact .ticked kept marks

theorem Db.Sound.booked {num : Numeric} (sound : db.Sound num) {o : Order} {a : Account}
    {p : Option Position} (kept : AcceptedRows num o a p) (es : List OrderEvent) :
    (db.booked num o a p es).Sound num where
  accounts := Table.forall_put ⟨a.stored_stored, kept.account⟩ sound.accounts
  orders := Table.forall_put ⟨o.stored_stored, kept.order⟩ sound.orders
  fills := sound.fills
  positions := by
    cases p with
    | none => exact sound.positions
    | some q => exact Table.forall_put ⟨q.stored_stored, kept.position q rfl⟩ sound.positions
  marketPrices := sound.marketPrices

theorem Db.Sound.recorded {num : Numeric} (sound : db.Sound num) (event : BrokerExecutionEvent)
    (verdict : Verdict) : (db.recorded event verdict).Sound num :=
  ⟨sound.accounts, sound.orders, sound.fills, sound.positions, sound.marketPrices⟩

theorem markedTable_forall {num : Numeric} {price : ℚ} {P : Position → Prop} {ps : List Position}
    {t : Table Position Position.holding} (rows : ∀ p ∈ t.rows, P p)
    (marks : ∀ p ∈ ps, P ((markedPosition price p).stored num)) :
    ∀ p ∈ (markedTable num price ps t).rows, P p := by
  induction ps generalizing t with
  | nil => exact rows
  | cons p ps ih =>
    exact ih (Table.forall_put (marks p (by simp)) rows) fun q hq => marks q (by simp [hq])

theorem Change.sound {op : Op} {db' : Db} (h : Change S db op db') (sound : db.Sound S.num) :
    db'.Sound S.num := by
  cases h with
  | unchanged => exact sound
  | refused t inserted short =>
    obtain ⟨kept, checked⟩ := sound.accounts t.account (Table.mem_of_find t.accountFound)
    exact sound.booked ⟨t.rejected_checked ((Order.refusal_eq_none_iff.1 inserted).1),
      kept.symm ▸ checked, by simp⟩ _
  | routed t inserted covered kept =>
    have rows : AcceptedRows S.num t.routed t.charged none :=
      ⟨(Order.refusal_eq_none_iff.1 inserted).1, kept, by simp⟩
    exact sound.booked rows _
  | ignored found unprocessed ignores =>
    exact ⟨sound.accounts, sound.orders, sound.fills, sound.positions, sound.marketPrices⟩
  | filled t =>
    have booked := sound.booked t.kept t.log
    exact ⟨booked.accounts, booked.orders,
      Table.forall_put ⟨t.fill.stored_stored, (Fill.refusal_eq_none_iff.1 t.fillKept).1⟩
        sound.fills,
      booked.positions, booked.marketPrices⟩
  | released found unprocessed accountFound becomes release kept =>
    exact (sound.booked kept _).recorded _ _
  | @cancelRequested orderId reason order found cancellable =>
    obtain ⟨kept, checked⟩ := sound.orders order (Table.mem_of_find found)
    exact ⟨sound.accounts, Table.forall_put ⟨Order.stored_stored _,
      (Order.violation_moved S.num order .cancelPending).trans (kept.symm ▸ checked)⟩ sound.orders,
      sound.fills, sound.positions, sound.marketPrices⟩
  | routingFailed found wasRouted accountFound kept => exact sound.booked kept _
  | ticked kept marks =>
    refine ⟨sound.accounts, sound.orders, sound.fills, ?_,
      Table.forall_put ⟨MarketPrice.stored_stored _, kept⟩ sound.marketPrices⟩
    refine markedTable_forall sound.positions fun p hp => ⟨Position.stored_stored _, ?_⟩
    obtain ⟨mem, same⟩ := List.mem_filter.1 hp
    exact marks p mem (by simpa using same)

theorem step_sound (sound : db.Sound S.num) (op : Op) : (step S db op).Sound S.num :=
  (step_change S sound op).sound sound

/-- An invariant of the runs from sound states, through the changes an operation makes. -/
theorem run_induction (S : Deployment) (Inv : Db → Prop) {ops : List Op} (sound : db.Sound S.num)
    (keeps : ∀ db op db', db.Sound S.num → Inv db → Change S db op db' → Inv db')
    (start : Inv db) : Inv (run (step S) db ops) :=
  (run_invariant (fun db => db.Sound S.num ∧ Inv db)
    (fun db op h => ⟨step_sound h.1 op, keeps db op _ h.1 h.2 (step_change S h.1 op)⟩)
    ⟨sound, start⟩).2

theorem run_sound (sound : db.Sound S.num) (ops : List Op) : (run (step S) db ops).Sound S.num :=
  run_invariant (Db.Sound S.num) (fun _ op h => step_sound h op) sound

/-- The columns of an order that are written once. -/
structure Order.Frozen (o o' : Order) : Prop where
  id : o'.id = o.id
  clientOrderId : o'.clientOrderId = o.clientOrderId
  idempotencyKey : o'.idempotencyKey = o.idempotencyKey
  accountId : o'.accountId = o.accountId
  symbol : o'.symbol = o.symbol
  side : o'.side = o.side
  orderType : o'.orderType = o.orderType
  timeInForce : o'.timeInForce = o.timeInForce
  quantity : o'.quantity = o.quantity
  price : o'.price = o.price

theorem Order.Frozen.refl (o : Order) : o.Frozen o :=
  ⟨rfl, rfl, rfl, rfl, rfl, rfl, rfl, rfl, rfl, rfl⟩

theorem Order.Frozen.trans {o p q : Order} (h : o.Frozen p) (g : p.Frozen q) : o.Frozen q :=
  ⟨g.id.trans h.id, g.clientOrderId.trans h.clientOrderId,
    g.idempotencyKey.trans h.idempotencyKey, g.accountId.trans h.accountId,
    g.symbol.trans h.symbol, g.side.trans h.side, g.orderType.trans h.orderType,
    g.timeInForce.trans h.timeInForce, g.quantity.trans h.quantity, g.price.trans h.price⟩

theorem Order.Frozen.stored {num : Numeric} {o o' : Order} (h : o.Frozen o')
    (kept : o.stored num = o) : o.Frozen (o'.stored num) where
  id := h.id
  clientOrderId := h.clientOrderId
  idempotencyKey := h.idempotencyKey
  accountId := h.accountId
  symbol := h.symbol
  side := h.side
  orderType := h.orderType
  timeInForce := h.timeInForce
  quantity := by
    conv_rhs => rw [← kept]
    exact congrArg num.round h.quantity
  price := by
    conv_rhs => rw [← kept]
    exact congrArg num.round h.price

theorem Order.bookFill_frozen {o b : Order} {q price : ℚ} (h : o.bookFill q price = .ok b) :
    o.Frozen b := by
  obtain ⟨-, rfl⟩ := Order.bookFill_ok h
  exact ⟨rfl, rfl, rfl, rfl, rfl, rfl, rfl, rfl, rfl, rfl⟩

theorem Concluded.frozen {data : EventData} {o o' : Order} {a a' : Account} {es : List OrderEvent}
    (h : Concluded data o a o' a' es) : o.Frozen o' := by
  cases h <;> exact ⟨rfl, rfl, rfl, rfl, rfl, rfl, rfl, rfl, rfl, rfl⟩

theorem Released.frozen {event : BrokerExecutionEvent} {o o' : Order} {e : OrderEvent}
    (h : Released event o o' e) : o.Frozen o' := by
  cases h <;> exact ⟨rfl, rfl, rfl, rfl, rfl, rfl, rfl, rfl, rfl, rfl⟩

theorem AppliedFill.frozen {num : Numeric} {event : BrokerExecutionEvent}
    (t : AppliedFill num db event) : t.order.Frozen t.final :=
  (Order.bookFill_frozen t.book).trans t.conclude.frozen

theorem Concluded.filledQuantity {data : EventData} {o o' : Order} {a a' : Account}
    {es : List OrderEvent} (h : Concluded data o a o' a' es) :
    o'.filledQuantity = o.filledQuantity := by
  cases h <;> rfl

theorem Concluded.log_orderId {data : EventData} {o o' : Order} {a a' : Account}
    {es : List OrderEvent} (h : Concluded data o a o' a' es) : ∀ e ∈ es, e.orderId = o.id := by
  cases h <;> simp

theorem AppliedFill.final_filled {num : Numeric} {event : BrokerExecutionEvent}
    (t : AppliedFill num db event) :
    t.final.filledQuantity = t.order.filledQuantity + event.filledQuantity := by
  obtain ⟨-, booked⟩ := Order.bookFill_ok t.book
  rw [t.conclude.filledQuantity, booked]

theorem Placement.unplaced {num : Numeric} {settings : Settings} {draw : CreateDraw}
    {payload : OrderCreate} (t : Placement db settings draw payload)
    (inserted : (t.order.stored num).refusal num db = none) :
    db.orders.find draw.orderId = none := (Order.refusal_eq_none_iff.1 inserted).2.1

structure Order.New (o : Order) (db : Db) : Prop where
  id : db.orders.find o.id = none
  clientOrderId : db.byClientOrderId o.accountId o.clientOrderId = none
  idempotencyKey : db.byIdempotencyKey o.accountId o.idempotencyKey = none

theorem Order.new_of_refusal {num : Numeric} {o : Order} (h : o.refusal num db = none) : o.New db :=
  have free := (Order.refusal_eq_none_iff.1 h).2
  ⟨free.1, free.2.1, free.2.2⟩

/-- Orders are added and amended, never removed: at most one order row is written, a new
one or one whose written-once columns agree with the row it replaces. -/
structure Db.Amended (db db' : Db) : Prop where
  orders : db'.orders = db.orders ∨ ∃ o', db'.orders = db.orders.put o' ∧
    (o'.New db ∨ ∃ o, db.orders.find o'.id = some o ∧ o.Frozen o')
  accounts : ∀ {k : UUID}, (db.accounts.find k).isSome → (db'.accounts.find k).isSome

theorem Change.orders {op : Op} {db' : Db} (h : Change S db op db') (sound : db.Sound S.num) :
    db'.orders = db.orders ∨ ∃ o', db'.orders = db.orders.put o' ∧
      (o'.New db ∨ ∃ o, db.orders.find o'.id = some o ∧ o.Frozen o') := by
  have replaced : ∀ {k : UUID} {o o' : Order}, db.orders.find k = some o → o.Frozen o' →
      ∃ p', db.orders.put (o'.stored S.num) = db.orders.put p' ∧
        (p'.New db ∨ ∃ p, db.orders.find p'.id = some p ∧ p.Frozen p') := by
    intro k o o' found frozen
    have key : o'.id = k := frozen.id.trans (Table.find_key found)
    exact ⟨_, rfl, Or.inr ⟨o, by rw [Order.stored_id, key, found],
      frozen.stored (sound.orders o (Table.mem_of_find found)).1⟩⟩
  cases h with
  | unchanged | ignored | ticked => exact Or.inl rfl
  | refused t inserted short =>
    have new := Order.new_of_refusal inserted
    exact Or.inr ⟨_, rfl, Or.inl ⟨new.id, new.clientOrderId, new.idempotencyKey⟩⟩
  | routed t inserted covered kept =>
    have new := Order.new_of_refusal inserted
    exact Or.inr ⟨_, rfl, Or.inl ⟨new.id, new.clientOrderId, new.idempotencyKey⟩⟩
  | filled t => exact Or.inr (replaced t.found t.frozen)
  | released found unprocessed accountFound becomes release kept =>
    exact Or.inr (replaced found becomes.frozen)
  | cancelRequested found cancellable =>
    exact Or.inr (replaced found ⟨rfl, rfl, rfl, rfl, rfl, rfl, rfl, rfl, rfl, rfl⟩)
  | routingFailed found wasRouted accountFound kept =>
    exact Or.inr (replaced found ⟨rfl, rfl, rfl, rfl, rfl, rfl, rfl, rfl, rfl, rfl⟩)

theorem Change.amended {op : Op} {db' : Db} (h : Change S db op db') (sound : db.Sound S.num) :
    db.Amended db' where
  orders := h.orders sound
  accounts found := by
    cases h with
    | refused | routed | filled | released | routingFailed => exact Table.find_put_isSome _ found
    | unchanged | ignored | cancelRequested | ticked => exact found

namespace Db.Amended

variable {db' : Db} (h : db.Amended db')

include h in
theorem order_frozen {k : UUID} {o : Order} (found : db.orders.find k = some o) :
    ∃ o', db'.orders.find k = some o' ∧ o.Frozen o' := by
  rcases h.orders with same | ⟨o', eq, new | ⟨p, was, frozen⟩⟩
  · exact ⟨o, same ▸ found, .refl o⟩
  · have other : o'.id ≠ k := by
      rintro rfl
      rw [new.id] at found
      cases found
    exact ⟨o, by rw [eq, Table.find_put_of_ne other, found], .refl o⟩
  · by_cases key : o'.id = k
    · obtain rfl : p = o := by
        rw [key, found] at was
        exact (Option.some.inj was).symm
      exact ⟨o', by rw [eq, Table.find_put_of_eq key], frozen⟩
    · exact ⟨o, by rw [eq, Table.find_put_of_ne key, found], .refl o⟩

include h in
/-- What a function of the written-once columns says of the table grows by new orders. -/
theorem order_rows {β : Type} {f : Order → β} (frozen : ∀ o o' : Order, o.Frozen o' → f o' = f o) :
    db'.orders.rows.map f = db.orders.rows.map f ∨
      ∃ o' : Order, o'.New db ∧ db'.orders.rows.map f = db.orders.rows.map f ++ [f o'] := by
  rcases h.orders with same | ⟨o', eq, new | ⟨p, was, same⟩⟩
  · exact Or.inl (by rw [same])
  · exact Or.inr ⟨o', new, by rw [eq, Table.rows_put_of_new new.id, List.map_append]; rfl⟩
  · exact Or.inl (by rw [eq, Table.map_put was (frozen p o' same)])

include h in
theorem first_order {p : Order → Bool} (frozen : ∀ o o' : Order, o.Frozen o' → p o' = p o)
    {o : Order} (found : db.orders.first p = some o) :
    ∃ o', db'.orders.first p = some o' ∧ o.Frozen o' := by
  rcases h.orders with same | ⟨o', eq, new | ⟨q, was, same⟩⟩
  · exact ⟨o, same ▸ found, .refl o⟩
  · exact ⟨o, eq ▸ Table.first_put_of_new new.id found, .refl o⟩
  · obtain ⟨r, first, rfl | ⟨rfl, rfl⟩⟩ := Table.first_put was (frozen q o' same) found
    · exact ⟨r, eq ▸ first, .refl r⟩
    · exact ⟨r, eq ▸ first, same⟩

include h in
theorem byIdempotencyKey {a : UUID} {key : String} {o : Order}
    (found : db.byIdempotencyKey a key = some o) :
    ∃ o', db'.byIdempotencyKey a key = some o' ∧ o.Frozen o' :=
  h.first_order (fun o o' frozen => by rw [frozen.accountId, frozen.idempotencyKey]) found

end Db.Amended

theorem run_order (sound : db.Sound S.num) {k : UUID} {o : Order}
    (found : db.orders.find k = some o) (ops : List Op) :
    ∃ o', (run (step S) db ops).orders.find k = some o' ∧ o.Frozen o' := by
  refine run_induction S (fun db => ∃ o', db.orders.find k = some o' ∧ o.Frozen o') sound ?_
    ⟨o, found, .refl o⟩
  rintro db op db' sound ⟨p, hp, frozen⟩ change
  obtain ⟨p', hp', frozen'⟩ := (change.amended sound).order_frozen hp
  exact ⟨p', hp', frozen.trans frozen'⟩

theorem run_account (sound : db.Sound S.num) {k : UUID} (found : (db.accounts.find k).isSome)
    (ops : List Op) : ((run (step S) db ops).accounts.find k).isSome :=
  run_induction S (fun db => (db.accounts.find k).isSome) sound
    (fun _ _ _ sound found change => (change.amended sound).accounts found) found

/-- The statuses that an order only has inside the transaction that places it. -/
def Db.Decided (db : Db) : Prop :=
  ∀ o ∈ db.orders.rows, o.status ≠ .new ∧ o.status ≠ .validated

theorem Db.Decided.working (h : db.Decided) {o : Order} (mem : o ∈ db.orders.rows)
    (cancellable : o.status ∈ cancellableOrderStatuses) : o.status ∈ workingStatuses := by
  obtain ⟨-, notValidated⟩ := h o mem
  revert cancellable notValidated
  cases o.status <;> decide

theorem Concluded.status {data : EventData} {o o' : Order} {a a' : Account} {es : List OrderEvent}
    (h : Concluded data o a o' a' es) :
    o'.status = .filled ∨ o'.status = .cancelled ∨ o'.status = .partiallyFilled ∨
      o'.status = o.status := by
  cases h with
  | filled => exact Or.inl rfl
  | ioc => exact Or.inr (Or.inl rfl)
  | first => exact Or.inr (Or.inr (Or.inl rfl))
  | further => exact Or.inr (Or.inr (Or.inr rfl))

theorem Change.decided {op : Op} {db' : Db} (h : Change S db op db') (decided : db.Decided) :
    db'.Decided := by
  cases h with
  | unchanged | ignored | ticked => exact decided
  | refused t inserted short =>
    refine Table.forall_put ?_ decided
    change OrderStatus.rejected ≠ .new ∧ OrderStatus.rejected ≠ .validated
    decide
  | routed t inserted covered kept =>
    refine Table.forall_put ?_ decided
    change OrderStatus.routed ≠ .new ∧ OrderStatus.routed ≠ .validated
    decide
  | filled t =>
    refine Table.forall_put ?_ decided
    change t.final.status ≠ .new ∧ t.final.status ≠ .validated
    obtain ⟨-, booked⟩ := Order.bookFill_ok t.book
    rcases t.conclude.status with eq | eq | eq | eq
    · simp [eq]
    · simp [eq]
    · simp [eq]
    · rw [eq, booked]
      exact decided t.order (Table.mem_of_find t.found)
  | @released event order final account released record found unprocessed accountFound becomes
      release kept =>
    refine Table.forall_put ?_ decided
    change final.status ≠ .new ∧ final.status ≠ .validated
    cases becomes <;> simp [Order.moved]
  | cancelRequested found cancellable =>
    refine Table.forall_put ?_ decided
    change OrderStatus.cancelPending ≠ .new ∧ OrderStatus.cancelPending ≠ .validated
    decide
  | routingFailed found wasRouted accountFound kept =>
    refine Table.forall_put ?_ decided
    change OrderStatus.rejected ≠ .new ∧ OrderStatus.rejected ≠ .validated
    decide

/-- Freshly created accounts: nothing has been reserved, ordered or processed. -/
structure Db.Fresh (num : Numeric) (db : Db) : Prop where
  sound : db.Sound num
  unreserved : ∀ a ∈ db.accounts.rows, a.reservedCash = 0
  orders : db.orders.rows = []
  fills : db.fills.rows = []
  positions : db.positions.rows = []
  processed : db.processedBrokerEvents.rows = []

theorem run_decided {db₀ : Db} (fresh : db₀.Fresh S.num) (ops : List Op) :
    (run (step S) db₀ ops).Decided :=
  run_induction S Db.Decided fresh.sound (fun _ _ _ _ decided change => change.decided decided)
    (by simp [Db.Decided, fresh.orders])

theorem Db.fresh_empty (num : Numeric) : Db.empty.Fresh num where
  sound := ⟨by simp [Db.empty], by simp [Db.empty], by simp [Db.empty], by simp [Db.empty],
    by simp [Db.empty]⟩
  unreserved := by simp [Db.empty]
  orders := rfl
  fills := rfl
  positions := rfl
  processed := rfl

theorem Db.Fresh.createAccount {num : Numeric} (fresh : db.Fresh num) (id : UUID)
    (payload : AccountCreate) : (committed num (createAccount id payload) db).Fresh num := by
  have created : (OrderManagement.createAccount id payload).wp (postgres num)
      (fun _ db' => db'.Fresh num) (fun _ => True) db := by
    unfold OrderManagement.createAccount
    simp only [wp_bind, wp_accountByUserId]
    cases db.accounts.first fun a => a.userId = payload.userId with
    | some _ => trivial
    | none =>
      simp only [wp_bind, wp_insertAccount]
      refine ⟨fun _ _ => trivial, fun inserted => ?_⟩
      have checked : ((newAccount id payload).stored num).violation num = none := by
        unfold Account.refusal at inserted
        simp only [Option.or_eq_none_iff] at inserted
        exact inserted.1
      exact
        { sound := ⟨Table.forall_put ⟨Account.stored_stored _, checked⟩ fresh.sound.accounts,
            fresh.sound.orders, fresh.sound.fills, fresh.sound.positions, fresh.sound.marketPrices⟩
          unreserved := Table.forall_put num.round_zero fresh.unreserved
          orders := fresh.orders
          fills := fresh.fills
          positions := fresh.positions
          processed := fresh.processed }
  exact committed_of_wp created fresh fun _ _ h => h

/-- The database after opening accounts in an empty one. -/
def openAccounts (num : Numeric) (requests : List (UUID × AccountCreate)) : Db :=
  run (fun db request => committed num (createAccount request.1 request.2) db) Db.empty requests

theorem openAccounts_fresh (num : Numeric) (requests : List (UUID × AccountCreate)) :
    (openAccounts num requests).Fresh num :=
  run_invariant (Db.Fresh num) (fun _ request h => h.createAccount request.1 request.2)
    (Db.fresh_empty num)

/-! A trader with 1000 in cash and an order to buy 10 at 20, for the examples. -/

def traderAccount : AccountCreate where
  userId := "trader"
  initialCashBalance := 1000
  currency := "USD"
  userId_length := by decide
  initialCashBalance_pos := by norm_num
  initialCashBalance_places := by decide +kernel

def traderDb (num : Numeric) : Db := openAccounts num [(1, traderAccount)]

def limitBuy : OrderCreate where
  clientOrderId := "client-1"
  idempotencyKey := "idempotency-1"
  accountId := 1
  symbol := "AAPL"
  side := .buy
  orderType := .limit
  timeInForce := .day
  quantity := 10
  price := 20
  clientOrderId_length := by decide
  idempotencyKey_length := by decide
  quantity_pos := by norm_num
  quantity_places := by decide +kernel
  price_pos := by norm_num
  price_places := by decide +kernel

def partialFill : BrokerExecutionEvent where
  eventId := 3
  eventType := .partialFill
  orderId := 2
  timestamp := 0
  filledQuantity := 4
  fillPrice := some 21
  executionId := some "execution-1"
  validateFillPayload _ :=
    ⟨by norm_num, ⟨21, rfl, by norm_num⟩, ⟨"execution-1", rfl, by decide⟩⟩

end OrderManagement
