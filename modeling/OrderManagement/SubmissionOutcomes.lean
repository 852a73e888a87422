import OrderManagement.SessionRules

/-! What submissions, cancellation requests, routing failures and ticks can do to
the database, by the same method as for broker events. -/

namespace OrderManagement

open Program

theorem Order.violation_moved (num : Numeric) (o : Order) (target : OrderStatus) :
    ((o.moved target).stored num).violation num = (o.stored num).violation num := rfl

theorem RefusedRow.account_of_order {num : Numeric} {o : Order} {a : Account} {f : Failure}
    (h : RefusedRow num o a none f) (order : (o.stored num).violation num = none) :
    (a.stored num).violation num = some f := by
  cases h with
  | order refused =>
    rw [order] at refused
    cases refused
  | account refused => exact refused
  | position held => cases held

/-- A submission that the lookups of `create_order` let through to the insertion. -/
structure Placement (db : Db) (settings : Settings) (draw : CreateDraw) (payload : OrderCreate)
    where
  account : Account
  accountFound : db.accounts.find payload.accountId = some account
  newKey : db.byIdempotencyKey payload.accountId payload.idempotencyKey = none
  newClientOrderId : db.byClientOrderId payload.accountId payload.clientOrderId = none

namespace Placement

variable {db : Db} {settings : Settings} {draw : CreateDraw} {payload : OrderCreate}

def order (_ : Placement db settings draw payload) : Order := newOrder settings draw payload

def required (_ : Placement db settings draw payload) : ℚ :=
  requiredBuyingPower payload.side payload.quantity payload.price

variable (t : Placement db settings draw payload)

def created : OrderEvent :=
  ⟨t.order.id, .orderCreated, none, some .new, [("client_order_id", .text payload.clientOrderId),
    ("symbol", .text payload.symbol), ("quantity", .decimal payload.quantity)]⟩

def unfunded : Order :=
  { t.order with rejectionReason := some DomainError.insufficientBuyingPower.message }

def rejected : Order := t.unfunded.moved .rejected

def rejection : OrderEvent :=
  ⟨t.order.id, .validationFailed, some .new, some .rejected,
    [("reason", .text DomainError.insufficientBuyingPower.message)]⟩

def validation : OrderEvent := ⟨t.order.id, .orderValidated, some .new, some .validated, []⟩

def routed : Order := (t.order.moved .validated).moved .routed

def routing : OrderEvent := ⟨t.order.id, .orderRouted, some .validated, some .routed, []⟩

def charged : Account :=
  if payload.side = .buy then t.account.reserve t.required else t.account

theorem charged_id : t.charged.id = t.account.id := by
  unfold charged
  split_ifs <;> rfl

theorem rejected_checked {num : Numeric} (h : (t.order.stored num).violation num = none) :
    (t.rejected.stored num).violation num = none := by
  unfold Order.violation at h ⊢
  rw [firstFailure_eq_none_iff] at h ⊢
  simp only [List.forall_mem_cons] at h ⊢
  obtain ⟨h1, h2, h3, h4, -, h6⟩ := h
  have short : decide (DomainError.insufficientBuyingPower.message.length ≤ 500) = true := by
    decide
  exact ⟨h1, h2, h3, h4, short, h6⟩

end Placement

inductive CreateEffect (num : Numeric) (db : Db) (settings : Settings) (draw : CreateDraw)
    (payload : OrderCreate) : Created → Db → Prop
  | existing {account : Account} {order : Order}
      (accountFound : db.accounts.find payload.accountId = some account)
      (keyed : db.byIdempotencyKey payload.accountId payload.idempotencyKey = some order)
      (same : orderMatchesRequest order payload = true) :
      CreateEffect num db settings draw payload
        ⟨{ order := .of order, account := some (.of account) }, false⟩ db
  | rejected {s : Session} (t : Placement db settings draw payload)
      (inserted : (t.order.stored num).refusal num db = none)
      (short : t.account.availableCash < t.required)
      (holds : s.Holds t.rejected t.account none) :
      CreateEffect num db settings draw payload ⟨s, false⟩
        (db.booked num t.rejected t.account none [t.created, t.rejection])
  | routed {s : Session} (t : Placement db settings draw payload)
      (inserted : (t.order.stored num).refusal num db = none)
      (covered : t.required ≤ t.account.availableCash)
      (kept : (t.charged.stored num).violation num = none)
      (holds : s.Holds t.routed t.charged none) (clean : s.Clean) :
      CreateEffect num db settings draw payload ⟨s, true⟩
        (db.booked num t.routed t.charged none [t.created, t.validation, t.routing])

inductive CreateFailure (num : Numeric) (db : Db) (settings : Settings) (draw : CreateDraw)
    (payload : OrderCreate) : Failure → Prop
  | accountNotFound (missing : db.accounts.find payload.accountId = none) :
      CreateFailure num db settings draw payload (.domain (.accountNotFound payload.accountId))
  | differs {order : Order}
      (keyed : db.byIdempotencyKey payload.accountId payload.idempotencyKey = some order)
      (differs : orderMatchesRequest order payload = false) :
      CreateFailure num db settings draw payload (.domain (.duplicateOrder payload.clientOrderId))
  | reused {order : Order}
      (newKey : db.byIdempotencyKey payload.accountId payload.idempotencyKey = none)
      (taken : db.byClientOrderId payload.accountId payload.clientOrderId = some order) :
      CreateFailure num db settings draw payload (.domain (.duplicateOrder payload.clientOrderId))
  | refused {f : Failure} (t : Placement db settings draw payload)
      (refused : (t.order.stored num).refusal num db = some f) :
      CreateFailure num db settings draw payload f
  | reservation {f : Failure} (t : Placement db settings draw payload)
      (covered : t.required ≤ t.account.availableCash)
      (refused : (t.charged.stored num).violation num = some f) :
      CreateFailure num db settings draw payload f

section Create

variable {num : Numeric} {db : Db} {settings : Settings} {draw : CreateDraw}
  {payload : OrderCreate}

theorem placeOrder_spec (sound : db.Sound num) (t : Placement db settings draw payload) :
    (placeOrder settings draw payload (.of t.account)).wp (postgres num)
      (CreateEffect num db settings draw payload) (CreateFailure num db settings draw payload)
      db := by
  obtain ⟨accountKept, accountChecked⟩ :=
    sound.accounts t.account (Table.mem_of_find t.accountFound)
  unfold placeOrder
  simp only [wp_bind]
  rw [wp_insertOrder]
  refine ⟨fun f refused => .refused t refused, fun inserted => ?_⟩
  have orderChecked : (t.order.stored num).violation num = none :=
    (Order.refusal_eq_none_iff.1 inserted).1
  -- the session right after the insertion
  have holds : Session.Holds { order := .of t.order, account := some (.of t.account) } t.order
      t.account none := ⟨rfl, rfl, rfl⟩
  have synced : Session.Synced num
      { db with orders := db.orders.put ((newOrder settings draw payload).stored num) }
      { order := .of t.order, account := some (.of t.account) } :=
    { order := Table.find_put_self _ (t.order.stored num)
      orderSound := orderChecked
      orderId := rfl
      account := fun i hi => by
        obtain rfl := Option.some.inj hi
        simp only [Instance.of]
        rw [accountKept]
        exact ⟨(Table.find_key t.accountFound).symm ▸ t.accountFound, accountChecked, trivial⟩
      position := by simp }
  have rows : ∀ {o : Order} {a : Account} {es : List OrderEvent}, o.id = t.order.id →
      ({ db with orders := db.orders.put ((newOrder settings draw payload).stored num) } :
        Db).booked num o a none es = db.booked num o a none es := by
    intro o a es same
    apply Db.ext <;> try rfl
    exact Table.put_put same.symm
  have unrefused : ∀ {o : Order}, (o.stored num).violation num = none →
      ∀ f, ¬ RefusedRow num o t.account none f := fun checked f refused => by
    have := refused.account_of_order checked
    rw [accountKept, accountChecked] at this
    cases this
  refine holds.wp_appendEvent synced (fun f refused => (unrefused orderChecked f refused).elim)
    fun _ u uHolds uSynced _ => ?_
  rw [rows rfl] at uSynced ⊢
  by_cases short : t.account.availableCash < t.required
  · rw [show ensureSufficientBuyingPower (Instance.of t.account).attrs.availableCash
      (requiredBuyingPower payload.side payload.quantity payload.price) =
        .error .insufficientBuyingPower from if_pos short]
    simp only [wp_bind]
    have reasoned : (u.setOrder fun o => { o with
        rejectionReason := some DomainError.insufficientBuyingPower.message }).Holds
        t.unfunded t.account none :=
      ⟨by rw [Placement.unfunded, ← uHolds.order]; rfl, uHolds.account, uHolds.position⟩
    refine reasoned.wp_transition (uSynced.set_order rfl)
      (show OrderStatus.rejected ∈ allowedTransitions .new by decide)
      (fun f refused => (unrefused (t.rejected_checked orderChecked) f refused).elim)
      fun _ v vHolds _ _ => ?_
    rw [Db.booked_booked (show t.order.id = (t.unfunded.moved .rejected).id from rfl) rfl (by simp)]
    exact .rejected t inserted short vHolds
  · rw [show ensureSufficientBuyingPower (Instance.of t.account).attrs.availableCash
      (requiredBuyingPower payload.side payload.quantity payload.price) = .ok () from if_neg short]
    simp only [wp_bind]
    refine uHolds.wp_transition uSynced
      (show OrderStatus.validated ∈ allowedTransitions .new by decide)
      (fun f refused =>
        (unrefused (Order.violation_moved num t.order .validated ▸ orderChecked) f refused).elim)
      fun _ v vHolds vSynced _ => ?_
    rw [Db.booked_booked (show t.order.id = (t.order.moved .validated).id from rfl) rfl
      (by simp)] at vSynced ⊢
    let reserved : Instance Account :=
      if payload.side = .buy then (Instance.of t.account).set (Account.reserve · t.required)
      else .of t.account
    have charged : Session.Holds { v with account := some reserved } (t.order.moved .validated)
        t.charged none := by
      refine ⟨vHolds.order, ?_, vHolds.position⟩
      unfold Placement.charged reserved
      split_ifs <;> rfl
    refine charged.wp_transition ?_
      (show OrderStatus.routed ∈ allowedTransitions .validated by decide)
      (fun f refused => ?_) fun accepted w wHolds _ wClean => ?_
    · refine ⟨vSynced.order, vSynced.orderSound, vSynced.orderId, fun i hi => ?_, vSynced.position⟩
      obtain rfl := Option.some.inj hi
      have row : (Db.booked num db (t.order.moved .validated) t.account none
          ([t.created] ++ [t.validation])).accounts.find t.account.id =
            some (t.account.stored num) := Table.find_put_self _ (t.account.stored num)
      have loaded : reserved.loaded = t.account := by
        unfold reserved
        split_ifs <;> rfl
      have attrs : reserved.attrs = t.charged := by
        unfold Placement.charged reserved
        split_ifs <;> rfl
      rw [loaded]
      exact ⟨row, accountKept.symm ▸ accountChecked, attrs ▸ t.charged_id⟩
    · exact .reservation t (not_lt.1 short) (refused.account_of_order orderChecked)
    · rw [Db.booked_booked (show (t.order.moved .validated).id =
        ((t.order.moved .validated).moved .routed).id from rfl)
        t.charged_id.symm (by simp)]
      exact .routed t inserted (not_lt.1 short) accepted.account wHolds wClean

theorem createOrder_spec (sound : db.Sound num) :
    (createOrder settings draw payload).wp (postgres num)
      (CreateEffect num db settings draw payload) (CreateFailure num db settings draw payload)
      db := by
  unfold createOrder
  simp only [wp_bind, wp_accountForUpdate]
  cases accountFound : db.accounts.find payload.accountId with
  | none => exact .accountNotFound accountFound
  | some account =>
    simp only [wp_bind, wp_orderByIdempotencyKey]
    cases keyed : db.byIdempotencyKey payload.accountId payload.idempotencyKey with
    | some order =>
      dsimp only
      split_ifs with same
      · exact .existing accountFound keyed same
      · exact .differs keyed (by simpa using same)
    | none =>
      simp only [wp_bind, wp_orderByClientOrderId]
      cases taken : db.byClientOrderId payload.accountId payload.clientOrderId with
      | some order => exact .reused keyed taken
      | none => exact placeOrder_spec sound ⟨account, accountFound, keyed, taken⟩

theorem createOrder_again {order : Order} (sound : db.Sound num)
    (accountFound : (db.accounts.find payload.accountId).isSome)
    (keyed : db.byIdempotencyKey payload.accountId payload.idempotencyKey = some order)
    (same : orderMatchesRequest order payload = true) :
    ∃ account, (createOrder settings draw payload).run (postgres num) db =
      .ok (⟨{ order := .of order, account := some (.of account) }, false⟩, db) := by
  have keyed' : ∀ {o : Order}, db.byIdempotencyKey payload.accountId payload.idempotencyKey =
      some o → o = order := fun h => Option.some.inj (h.symm.trans keyed)
  have noPlacement : ∀ _ : Placement db settings draw payload, False := fun t => by
    have := t.newKey
    rw [keyed] at this
    cases this
  cases ran : (createOrder settings draw payload).run (postgres num) db with
  | error f =>
    cases wp_error _ (createOrder_spec sound) ran with
    | accountNotFound missing => simp [missing] at accountFound
    | differs found differs =>
      rw [keyed' found, same] at differs
      cases differs
    | reused newKey =>
      rw [keyed] at newKey
      cases newKey
    | refused t => exact (noPlacement t).elim
    | reservation t => exact (noPlacement t).elim
  | ok result =>
    obtain ⟨created, after⟩ := result
    cases wp_ok _ (createOrder_spec sound) ran with
    | existing accountFound found same => exact ⟨_, by rw [keyed' found]⟩
    | rejected t => exact (noPlacement t).elim
    | routed t => exact (noPlacement t).elim

theorem createOrder_duplicate (sound : db.Sound num)
    (accountFound : (db.accounts.find payload.accountId).isSome)
    (differs : ∀ o, db.byIdempotencyKey payload.accountId payload.idempotencyKey = some o →
      orderMatchesRequest o payload = false)
    (used : (db.byIdempotencyKey payload.accountId payload.idempotencyKey).isSome ∨
      (db.byClientOrderId payload.accountId payload.clientOrderId).isSome) :
    (createOrder settings draw payload).run (postgres num) db =
      .error (.domain (.duplicateOrder payload.clientOrderId)) := by
  have noPlacement : ∀ _ : Placement db settings draw payload, False := fun t => by
    simp [t.newKey, t.newClientOrderId] at used
  cases ran : (createOrder settings draw payload).run (postgres num) db with
  | error f =>
    cases wp_error _ (createOrder_spec sound) ran with
    | accountNotFound missing => simp [missing] at accountFound
    | differs | reused => rfl
    | refused t => exact (noPlacement t).elim
    | reservation t => exact (noPlacement t).elim
  | ok result =>
    obtain ⟨created, after⟩ := result
    cases wp_ok _ (createOrder_spec sound) ran with
    | existing accountFound found same =>
      rw [differs _ found] at same
      cases same
    | rejected t => exact (noPlacement t).elim
    | routed t => exact (noPlacement t).elim

end Create

inductive CancelEffect (num : Numeric) (db : Db) (orderId : UUID) (reason : String) :
    CancelRequested → Db → Prop
  | pending {order : Order} (found : db.orders.find orderId = some order)
      (pending : order.status = .cancelPending) :
      CancelEffect num db orderId reason ⟨order, false⟩ db
  | requested {order : Order} (found : db.orders.find orderId = some order)
      (cancellable : order.status ∈ cancellableOrderStatuses) :
      CancelEffect num db orderId reason ⟨order.moved .cancelPending, true⟩
        (db.logged num { order := .of (order.moved .cancelPending) }
          [⟨order.id, .cancelRequested, some order.status, some .cancelPending,
            [("reason", .text reason)]⟩])

inductive CancelFailure (db : Db) (orderId : UUID) : Failure → Prop
  | orderNotFound (missing : db.orders.find orderId = none) :
      CancelFailure db orderId (.domain (.orderNotFound orderId))
  | notCancellable {order : Order} (found : db.orders.find orderId = some order)
      (notPending : order.status ≠ .cancelPending)
      (notCancellable : order.status ∉ cancellableOrderStatuses) :
      CancelFailure db orderId (.domain (.invalidCancellation
        ("Order cannot be cancelled from " ++ order.status.value)))

/-- The order and the account as a routing failure leaves them. -/
def Order.unroutable (o : Order) (reason : String) : Order :=
  { o with rejectionReason := some ("Broker routing failed: " ++ reason) }

def Account.refund (a : Account) (o : Order) : Account :=
  if o.side = .buy then a.release (o.remainingQuantity * o.price) else a

theorem Account.refund_id (a : Account) (o : Order) : (a.refund o).id = a.id := by
  unfold refund
  split_ifs <;> rfl

inductive RoutingFailureEffect (num : Numeric) (db : Db) (orderId : UUID) (reason : String) :
    Db → Prop
  | noEffect (unrouted : ∀ order, db.orders.find orderId = some order → order.status ≠ .routed) :
      RoutingFailureEffect num db orderId reason db
  | failed {order : Order} {account : Account} (found : db.orders.find orderId = some order)
      (routed : order.status = .routed)
      (accountFound : db.accounts.find order.accountId = some account)
      (kept : AcceptedRows num ((order.unroutable reason).moved .rejected) (account.refund order)
        none) :
      RoutingFailureEffect num db orderId reason
        (db.booked num ((order.unroutable reason).moved .rejected) (account.refund order) none
          [⟨order.id, .orderRejected, some order.status, some .rejected,
            [("reason", .text ("Broker routing failed: " ++ reason))]⟩])

section Cancel

variable {num : Numeric} {db : Db} {orderId : UUID} {reason : String}

theorem requestCancellation_spec (sound : db.Sound num) :
    (requestCancellation orderId reason).wp (postgres num) (CancelEffect num db orderId reason)
      (CancelFailure db orderId) db := by
  unfold requestCancellation
  simp only [wp_bind, wp_orderForUpdate]
  cases found : db.orders.find orderId with
  | none => exact .orderNotFound found
  | some order =>
    dsimp only
    by_cases pending : order.status = .cancelPending
    · rw [if_pos pending]
      exact .pending found pending
    rw [if_neg pending]
    by_cases cancellable : order.status ∈ cancellableOrderStatuses
    swap
    · rw [if_pos cancellable]
      exact .notCancellable found pending cancellable
    rw [if_neg (not_not.2 cancellable), wp_bind]
    have synced := sound.synced found
    refine wp_transition synced ?_ (fun forbidden => ?_) fun _ _ => .requested found cancellable
    · rintro f (⟨held, -⟩ | refused | ⟨held, -⟩)
      · cases held
      · have checked : ((order.moved .cancelPending).stored num).violation num = none :=
          synced.orderSound
        exact absurd (refused.symm.trans checked) (by simp)
      · cases held
    · have allowed : ∀ status ∈ cancellableOrderStatuses,
          OrderStatus.cancelPending ∈ allowedTransitions status := by decide
      exact absurd (allowed _ cancellable) forbidden

theorem markRoutingFailure_spec (sound : db.Sound num) :
    (markRoutingFailure none orderId reason).wp (postgres num)
      (fun _ => RoutingFailureEffect num db orderId reason) (fun _ => True) db := by
  unfold markRoutingFailure
  simp only [wp_bind, wp_orderForUpdate]
  cases found : db.orders.find orderId with
  | none => exact .noEffect (by simp [found])
  | some order =>
    dsimp only
    have attrs : (Instance.of order).attrs = order := rfl
    simp only [Instance.resolve, Option.map_none, attrs]
    by_cases routed : order.status = .routed
    swap
    · rw [if_pos routed]
      exact .noEffect fun o ho => by
        rw [found, Option.some_inj] at ho
        exact ho ▸ routed
    rw [if_neg (not_not.2 routed), wp_bind]
    refine wp_accountForUpdate_fresh rfl (fun _ => trivial) fun account accountFound => ?_
    simp only [wp_bind]
    let refunded : Instance Account := ⟨account, account.refund order⟩
    have holds : Session.Holds
        { order := (Instance.of order).set (Order.unroutable · reason), account := some refunded }
        (order.unroutable reason) (account.refund order) none := ⟨rfl, rfl, rfl⟩
    have synced : Session.Synced num db
        { order := (Instance.of order).set (Order.unroutable · reason),
          account := some refunded } :=
      (sound.synced_account found accountFound (account.refund_id order)).set_order rfl
    have same : (if order.side = .buy then (Instance.of account).set (Account.release ·
        (order.remainingQuantity * order.price)) else .of account) = refunded := by
      unfold refunded Account.refund
      split_ifs <;> rfl
    rw [same]
    refine holds.wp_transition synced ?_ (fun _ _ => trivial) fun kept _ _ _ _ =>
      .failed found routed accountFound kept
    rw [show (order.unroutable reason).status = .routed from routed]
    decide

end Cancel

end OrderManagement
