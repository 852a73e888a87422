import OrderManagement.CashReservation
import OrderManagement.ExactlyOnce
import OrderManagement.TextColumns

/-! Which broker events the reachable states take. A fill that the guards of
`_apply_fill` let through is refused by a table in three cases only: an execution id
that is too long or in use, or a price that the account cannot pay. -/

namespace OrderManagement

open Program TransitionRuns

/-- The states of a run, with what the outcome of an event depends on. -/
structure Db.Ready (db : Db) : Prop extends db.Reconciled where
  owned : ∀ o ∈ db.orders.rows, (db.accounts.find o.accountId).isSome
  marks : db.fillMarks = db.appliedFillMarks

section Ready

variable {settings : Settings} {upper : String → String} {db db' : Db}

theorem Change.owned {S : Deployment} {op : Op} (h : Change S db op db')
    (owned : ∀ o ∈ db.orders.rows, (db.accounts.find o.accountId).isSome) :
    ∀ o ∈ db'.orders.rows, (db'.accounts.find o.accountId).isSome := by
  -- an order of an account, written with a row of that account
  have written : ∀ {o' : Order} {a a' : Account}, db'.orders = db.orders.put o' →
      db.accounts.find o'.accountId = some a → db'.accounts = db.accounts.put a' →
      ∀ o ∈ db'.orders.rows, (db'.accounts.find o.accountId).isSome := by
    intro o' a a' orders found accounts
    rw [orders, accounts]
    exact Table.forall_put (Table.find_put_isSome a' (by simp [found])) fun o mem =>
      Table.find_put_isSome a' (owned o mem)
  cases h with
  | unchanged | ignored | ticked => exact owned
  | refused t | routed t => exact written rfl t.accountFound rfl
  | filled t =>
    have owner : t.final.accountId = t.order.accountId := t.frozen.accountId
    exact written rfl (owner ▸ t.accountFound) rfl
  | released found unprocessed accountFound becomes =>
    exact written rfl (becomes.frozen.accountId.symm ▸ accountFound) rfl
  | @cancelRequested orderId reason order found =>
    exact Table.forall_put (owned order (Table.mem_of_find found)) owned
  | routingFailed found wasRouted accountFound => exact written rfl accountFound rfl

theorem Db.Fresh.ready (fresh : db.Fresh .exact) : db.Ready where
  toReconciled := fresh.reconciled
  owned := by simp [fresh.orders]
  marks := by simp [Db.fillMarks, Db.appliedFillMarks, fresh.fills, fresh.processed]

theorem Db.Ready.step (h : db.Ready) (op : Op) : (step (.exact settings upper) db op).Ready := by
  have change := step_change (.exact settings upper) h.sound op
  exact ⟨h.toReconciled.step op, change.owned h.owned, change.fillMarks h.marks⟩

theorem Db.Ready.processed (h : db.Ready) {event : BrokerExecutionEvent} {applied : Bool}
    (ran : (processEvent event).run (postgres .exact) db = .ok (applied, db')) : db'.Ready := by
  have stepped := @Db.Ready.step {} id db h (.processEvent event)
  have same : OrderManagement.step (.exact {} id) db (.processEvent event) = db' := by
    simp only [OrderManagement.step, committed, Deployment.exact_num, ran]
  rwa [same] at stepped

theorem run_ready (ready : db.Ready) (ops : List Op) :
    (run (OrderManagement.step (.exact settings upper)) db ops).Ready :=
  run_invariant Db.Ready (fun _ op h => h.step op) ready

theorem unbooked_of_marks (marks : db.fillMarks = db.appliedFillMarks) {eventId : UUID}
    (unprocessed : db.processedBrokerEvents.find eventId = none) :
    db.fills.find eventId = none := by
  rw [Table.find_eq_none_iff] at unprocessed ⊢
  intro f mem same
  have marked : (f.brokerEventId, f.orderId) ∈ db.appliedFillMarks :=
    marks ▸ List.mem_map.2 ⟨f, mem, rfl⟩
  obtain ⟨r, kept, eq⟩ := List.mem_map.1 marked
  exact unprocessed r (List.mem_of_mem_filter kept) ((congrArg Prod.fst eq).trans same)

end Ready

/-! The checks of exact rows. -/

theorem exact_all_fits (x : Option ℚ) : x.all Numeric.exact.fits = true := by
  cases x <;> rfl

theorem Account.violation_eq_none_iff {a : Account} : a.violation .exact = none ↔
    a.userId.length ≤ 100 ∧ a.currency.length ≤ 3 ∧ 0 ≤ a.cashBalance ∧ 0 ≤ a.reservedCash ∧
      a.reservedCash ≤ a.cashBalance := by
  simp [Account.violation, firstFailure_eq_none_iff]

theorem Order.violation_eq_none_iff {o : Order} : o.violation .exact = none ↔
    o.clientOrderId.length ≤ 100 ∧ o.idempotencyKey.length ≤ 100 ∧ o.symbol.length ≤ 32 ∧
      (∀ reason ∈ o.rejectionReason, reason.length ≤ 500) ∧ 0 < o.quantity ∧ 0 < o.price ∧
      0 ≤ o.filledQuantity ∧ 0 ≤ o.cancelledQuantity ∧ 0 ≤ o.remainingQuantity ∧
      o.filledQuantity + o.cancelledQuantity + o.remainingQuantity = o.quantity := by
  cases reason : o.rejectionReason <;>
    simp [Order.violation, firstFailure_eq_none_iff, exact_all_fits, reason]

theorem Fill.violation_eq_none_iff {f : Fill} : f.violation .exact = none ↔
    f.executionId.length ≤ 100 ∧ 0 < f.quantity ∧ 0 < f.price := by
  simp [Fill.violation, firstFailure_eq_none_iff]

theorem Position.violation_eq_none_iff {p : Position} : p.violation .exact = none ↔
    p.symbol.length ≤ 32 ∧ 0 ≤ p.averageEntryPrice ∧ ∀ mark ∈ p.lastMarkPrice, 0 < mark := by
  cases mark : p.lastMarkPrice <;>
    simp [Position.violation, firstFailure_eq_none_iff, mark]

/-! Any columns check what exact ones do, and that the numbers fit. -/

section Columns

variable {num : Numeric}

theorem Account.violation_iff {a : Account} : a.violation num = none ↔
    a.violation .exact = none ∧ num.fits a.cashBalance = true ∧ num.fits a.reservedCash = true := by
  simp [violation, firstFailure_eq_none_iff]
  tauto

theorem Order.violation_iff {o : Order} : o.violation num = none ↔
    o.violation .exact = none ∧ num.fits o.quantity = true ∧ num.fits o.price = true ∧
      num.fits o.filledQuantity = true ∧ num.fits o.cancelledQuantity = true ∧
      num.fits o.remainingQuantity = true ∧
      ∀ average ∈ o.averageFillPrice, num.fits average = true := by
  cases average : o.averageFillPrice <;>
    simp [violation, firstFailure_eq_none_iff, average] <;> tauto

theorem Fill.violation_iff {f : Fill} : f.violation num = none ↔
    f.violation .exact = none ∧ num.fits f.quantity = true ∧ num.fits f.price = true := by
  simp [violation, firstFailure_eq_none_iff]
  tauto

theorem Position.violation_iff {p : Position} : p.violation num = none ↔
    p.violation .exact = none ∧ num.fits p.netQuantity = true ∧
      num.fits p.averageEntryPrice = true ∧ num.fits p.realizedPnl = true ∧
      num.fits p.unrealizedPnl = true ∧ ∀ mark ∈ p.lastMarkPrice, num.fits mark = true := by
  cases mark : p.lastMarkPrice <;>
    simp [violation, firstFailure_eq_none_iff, mark] <;> tauto

end Columns

def Db.Unexecuted (db : Db) (event : BrokerExecutionEvent) : Prop :=
  (orDefault event.executionId event.eventId.str).length ≤ 100 ∧
    NulFree (orDefault event.executionId event.eventId.str) ∧
    db.byExecutionId (orDefault event.executionId event.eventId.str) = none

instance (db : Db) (event : BrokerExecutionEvent) : Decidable (db.Unexecuted event) :=
  inferInstanceAs (Decidable (_ ∧ _))

section Attempt

variable {db : Db} {event : BrokerExecutionEvent}

theorem FillAttempt.unique (t u : FillAttempt db event) : t = u := by
  obtain ⟨order, price, found, unprocessed, isFill, working, priced, covered, whole⟩ := t
  obtain ⟨order', price', found', -, -, -, priced', -, -⟩ := u
  obtain rfl : order = order' := Option.some.inj (found.symm.trans found')
  obtain rfl : price = price' := Option.some.inj (priced.symm.trans priced')
  rfl

namespace FillAttempt

variable (t : FillAttempt db event)

def Funded (account : Account) : Prop :=
  t.order.side = .buy → event.filledQuantity * (t.price - t.order.price) ≤ account.availableCash

structure Admissible (account : Account) : Prop where
  length : t.fill.executionId.length ≤ 100
  unused : db.byExecutionId t.fill.executionId = none
  funded : t.Funded account

variable {t} {account settled : Account}

/-- Once the guards on the account have passed, its row is refused exactly if the price
takes more than the cash that is not reserved. -/
theorem settled_iff (h : account.settleFill t.order event.filledQuantity t.price = .ok settled)
    (sound : account.violation .exact = none) :
    (0 ≤ settled.cashBalance ∧ 0 ≤ settled.reservedCash ∧
      settled.reservedCash ≤ settled.cashBalance) ↔ t.Funded account := by
  obtain ⟨-, -, cash, reserved, covered⟩ := Account.violation_eq_none_iff.1 sound
  have notional := mul_pos t.positive t.price_pos
  unfold Funded Account.availableCash
  rcases Account.settleFill_ok h with ⟨buy, released, paid, rfl⟩ | ⟨sell, rfl⟩
  · rw [mul_sub]
    constructor
    · rintro ⟨-, -, left⟩ -
      dsimp only at left
      linarith
    · intro funded
      have := funded buy
      exact ⟨by dsimp only; linarith, by dsimp only; linarith, by dsimp only; linarith⟩
  · refine iff_of_true ⟨?_, reserved, ?_⟩ fun buy => absurd (sell.symm.trans buy) (by decide)
    · dsimp only
      linarith
    · dsimp only
      linarith

end FillAttempt

/-! The rows of a fill that are never refused. -/

section Rows

variable {data : EventData} {o o' : Order} {a a' : Account} {es : List OrderEvent}
  {account : Account}

theorem Concluded.order_checked (h : Concluded data o a o' a' es)
    (checked : o.violation .exact = none) : o'.violation .exact = none := by
  cases h with
  | filled | first => exact checked
  | further => exact checked
  | ioc =>
    obtain ⟨c, k, s, r, quantity, price, filled, cancelled, remaining, sum⟩ :=
      Order.violation_eq_none_iff.1 checked
    refine Order.violation_eq_none_iff.2 ⟨c, k, s, r, quantity, price, filled, ?_, le_refl 0, ?_⟩
    · exact add_nonneg cancelled remaining
    · simp only [Order.moved, Order.cancelRest]
      linarith

theorem releaseRemainingReservation_checked {b : Account}
    (h : releaseRemainingReservation a o = .ok b)
    (order : o.violation .exact = none) (checked : a.violation .exact = none) :
    b.violation .exact = none := by
  obtain ⟨user, currency, cash, reserved, covered⟩ := Account.violation_eq_none_iff.1 checked
  obtain ⟨-, -, -, -, -, price, -⟩ := Order.violation_eq_none_iff.1 order
  rcases releaseRemainingReservation_ok h with ⟨-, rfl⟩ | ⟨-, rest, enough, rfl⟩
  · exact checked
  · have amount := mul_pos rest price
    refine Account.violation_eq_none_iff.2 ⟨user, currency, cash, ?_, ?_⟩
    · simp only [Account.release]
      linarith
    · simp only [Account.release]
      linarith

theorem bookFill_checked {q price : ℚ} {b : Order} (h : o.bookFill q price = .ok b)
    (positive : 0 < q)
    (covered : q ≤ o.remainingQuantity) (checked : o.violation .exact = none) :
    b.violation .exact = none := by
  obtain ⟨c, k, s, r, quantity, limit, filled, cancelled, -, sum⟩ :=
    Order.violation_eq_none_iff.1 checked
  obtain ⟨-, rfl⟩ := Order.bookFill_ok h
  refine Order.violation_eq_none_iff.2 ⟨c, k, s, r, quantity, limit, ?_, cancelled, ?_, ?_⟩
  · dsimp only
    linarith
  · dsimp only
    linarith
  · dsimp only
    linarith

theorem FillAttempt.mark_pos {num : Numeric} (t : FillAttempt db event) (sound : db.Sound num) :
    0 < t.mark := by
  unfold FillAttempt.mark
  cases found : db.marketPrices.find t.order.symbol with
  | none => exact t.price_pos
  | some m =>
    have checked := (sound.marketPrices m (Table.mem_of_find found)).2
    unfold MarketPrice.violation at checked
    rw [firstFailure_eq_none_iff] at checked
    simpa using checked (0 < m.price, .integrity .marketPricesPricePositive) (by simp)

theorem FillAttempt.opened_checked {num : Numeric} (t : FillAttempt db event)
    (sound : db.Sound num) : t.opened.violation .exact = none := by
  obtain ⟨-, checked⟩ := sound.orders t.order (Table.mem_of_find t.found)
  obtain ⟨-, -, symbol, -⟩ := Order.violation_eq_none_iff.1 (Order.violation_iff.1 checked).1
  refine Position.violation_eq_none_iff.2 ⟨symbol, le_refl 0, fun mark held => ?_⟩
  obtain rfl := Option.some.inj held
  exact t.mark_pos sound

theorem FillAttempt.executed_checked {num : Numeric} (t : FillAttempt db event)
    (sound : db.Sound num) {executed : Position}
    (h : t.held.executed t.order.side event.filledQuantity t.price t.mark = .ok executed) :
    executed.violation .exact = none := by
  have held : t.held.violation .exact = none := by
    unfold FillAttempt.held
    cases found : db.positions.find (t.order.accountId, t.order.symbol) with
    | none => exact t.opened_checked sound
    | some p =>
      obtain ⟨-, checked⟩ := sound.positions p (Table.mem_of_find found)
      exact (Position.violation_iff.1 checked).1
  obtain ⟨symbol, average, -⟩ := Position.violation_eq_none_iff.1 held
  obtain ⟨c, calculated, rfl⟩ := Position.executed_ok h
  refine Position.violation_eq_none_iff.2 ⟨symbol, ?_, fun mark marked => ?_⟩
  · exact calculatePositionAfterFill_average_nonneg average t.price_pos.le calculated
  · obtain rfl := Option.some.inj marked
    exact t.mark_pos sound

end Rows

theorem FillAttempt.not_released (t : FillAttempt db event) {order final : Order}
    {record : OrderEvent} (h : Released event order final record) : False := by
  have isFill := t.isFill
  cases h with
  | rejected kind =>
    rw [kind] at isFill
    cases isFill
  | cancelled kind =>
    rw [kind] at isFill
    cases isFill

section Outcome

variable {account : Account} (ready : db.Ready)

include ready in
theorem FillAttempt.settle_of_funded (t : FillAttempt db event)
    (accountFound : db.accounts.find t.order.accountId = some account) (funded : t.Funded account) :
    ∃ settled, account.settleFill t.order event.filledQuantity t.price = .ok settled := by
  cases h : account.settleFill t.order event.filledQuantity t.price with
  | ok settled => exact ⟨settled, rfl⟩
  | error f =>
    obtain ⟨buy, short⟩ := Account.settleFill_error h
    have mem := Table.mem_of_find t.found
    have reserved := ready.reserved.covers ready.sound mem accountFound
    rw [Order.reservation_of_buy buy t.working] at reserved
    have part := mul_le_mul_of_nonneg_right t.covered (ready.sound.price_pos mem).le
    have paid := funded buy
    rw [Account.availableCash, mul_sub] at paid
    rcases short with ⟨short, -⟩ | ⟨short, -⟩ <;> linarith

/-- An account row that a fill writes: the settled one, or what is left of it once the rest
of an IOC order is released. -/
structure SettledRow (account settled a : Account) : Prop where
  userId : a.userId = account.userId
  currency : a.currency = account.currency
  cash : a.cashBalance = settled.cashBalance
  reserved : 0 ≤ a.reservedCash
  releases : a.reservedCash ≤ settled.reservedCash

theorem Account.settleFill_row {a b : Account} {o : Order} {q price : ℚ}
    (h : a.settleFill o q price = .ok b) (reserved : 0 ≤ a.reservedCash) : SettledRow a b b := by
  rcases Account.settleFill_ok h with ⟨-, enough, -, rfl⟩ | ⟨-, rfl⟩
  · exact ⟨rfl, rfl, rfl, sub_nonneg.2 enough, le_refl _⟩
  · exact ⟨rfl, rfl, rfl, reserved, le_refl _⟩

theorem Concluded.account_row {data : EventData} {o o' : Order} {a b a' : Account}
    {es : List OrderEvent} (h : Concluded data o a o' a' es) (row : SettledRow b a a)
    (price : 0 ≤ o.price) : SettledRow b a a' := by
  cases h with
  | filled | first | further => exact row
  | ioc rest ioc release =>
    rcases releaseRemainingReservation_ok release with ⟨-, rfl⟩ | ⟨-, rest, enough, rfl⟩
    · exact row
    · refine ⟨row.userId, row.currency, rfl, sub_nonneg.2 enough, ?_⟩
      exact sub_le_self _ (mul_nonneg rest.le price)

inductive FillRefusal (t : FillAttempt db event) (account : Account) : Failure → Prop
  | fillRow {f : Failure} (refused : t.fill.refusal .exact db = some f) : FillRefusal t account f
  | settle {f : Failure}
      (error : account.settleFill t.order event.filledQuantity t.price = .error f) :
      FillRefusal t account f
  | account {f : Failure} {settled a : Account}
      (settle : account.settleFill t.order event.filledQuantity t.price = .ok settled)
      (row : SettledRow account settled a) (refused : a.violation .exact = some f) :
      FillRefusal t account f

include ready in
theorem EventFailure.refusal {f : Failure} (failed : EventFailure .exact db event f)
    (t : FillAttempt db event) (accountFound : db.accounts.find t.order.accountId = some account) :
    FillRefusal t account f := by
  have sound := ready.sound
  obtain ⟨-, orderChecked⟩ := sound.orders t.order (Table.mem_of_find t.found)
  have owner : ∀ u : FillSettled db event, u.account = account ∧
      account.settleFill t.order event.filledQuantity t.price = .ok u.settled := fun u => by
    have same := FillAttempt.unique u.toFillAttempt t
    have found := u.accountFound
    have settle := u.settle
    rw [same] at found settle
    obtain rfl := Option.some.inj (found.symm.trans accountFound)
    exact ⟨rfl, settle⟩
  -- only the account's row can be refused
  have rows : ∀ {o : Order} {a : Account} {p : Option Position} {settled : Account},
      o.violation .exact = none → (∀ r ∈ p, r.violation .exact = none) →
      account.settleFill t.order event.filledQuantity t.price = .ok settled →
      SettledRow account settled a → RefusedRow .exact o a p f → FillRefusal t account f := by
    rintro o a p settled order position settle row (refused | refused | ⟨held, refused⟩)
    · rw [Order.stored_exact, order] at refused
      cases refused
    · exact .account settle row refused
    · rw [Position.stored_exact, position _ held] at refused
      cases refused
  have settledRow :
      ∀ u : FillSettled db event, SettledRow account u.settled u.settled := fun u => by
    obtain ⟨-, settle⟩ := owner u
    obtain ⟨-, checked⟩ := sound.accounts account (Table.mem_of_find accountFound)
    exact Account.settleFill_row settle (Account.violation_eq_none_iff.1 checked).2.2.2.1
  have bookedChecked : ∀ u : FillSettled db event, u.booked.violation .exact = none := fun u => by
    refine bookFill_checked u.book u.positive u.covered ?_
    rwa [FillAttempt.unique u.toFillAttempt t]
  cases failed with
  | orderNotFound missing => exact absurd (missing.symm.trans t.found) (by simp)
  | accountNotFound found missing =>
    obtain rfl := Option.some.inj (found.symm.trans t.found)
    exact absurd (missing.symm.trans accountFound) (by simp)
  | book u error =>
    obtain rfl := u.unique t
    obtain ⟨zero, -⟩ := Order.bookFill_error error
    have positive := u.positive
    obtain ⟨-, -, -, -, -, -, filled, -⟩ := Order.violation_eq_none_iff.1 orderChecked
    linarith
  | bookedRow u book refused =>
    obtain rfl := u.unique t
    rw [Order.stored_exact, bookFill_checked book u.positive u.covered orderChecked] at refused
    cases refused
  | fillRow u refused =>
    obtain rfl := u.unique t
    exact .fillRow refused
  | settle u found error =>
    obtain rfl := u.unique t
    obtain rfl := Option.some.inj (found.symm.trans accountFound)
    exact .settle error
  | settledRow u refused =>
    exact rows (bookedChecked u) (by simp) (owner u).2 (settledRow u) refused
  | openedRow u refused =>
    rw [Position.stored_exact, u.opened_checked sound] at refused
    cases refused
  | execute u error =>
    obtain ⟨r, executed⟩ := u.held.executed_total u.order.side u.price u.mark u.positive
    exact absurd (error.symm.trans executed) (by simp)
  | executedRow u execute refused =>
    refine rows (bookedChecked u) (fun r held => ?_) (owner u).2 (settledRow u) refused
    obtain rfl := Option.some.inj held
    exact u.executed_checked sound execute
  | releaseRest u rest ioc error =>
    exact ((EventFailure.releaseRest u rest ioc error).consistent ready.toReconciled
      (releaseRemainingReservation_error error).2.2.2).elim
  | concludedRow u execute conclude refused =>
    obtain ⟨-, -, -, -, -, price, -⟩ := Order.violation_eq_none_iff.1 (bookedChecked u)
    refine rows (conclude.order_checked (bookedChecked u)) (fun r held => ?_) (owner u).2
      (conclude.account_row (settledRow u) price.le) refused
    obtain rfl := Option.some.inj held
    exact u.executed_checked sound execute
  | release found unprocessed accountFound becomes => exact (t.not_released becomes).elim
  | releasedRow found unprocessed accountFound becomes => exact (t.not_released becomes).elim

include ready in
theorem EventFailure.not_admissible {f : Failure} (failed : EventFailure .exact db event f)
    (t : FillAttempt db event) (accountFound : db.accounts.find t.order.accountId = some account) :
    ¬ t.Admissible account := by
  intro admissible
  obtain ⟨-, checked⟩ := ready.sound.accounts account (Table.mem_of_find accountFound)
  cases failed.refusal ready t accountFound with
  | fillRow refused =>
    have taken : t.fill.refusal .exact db = none :=
      Fill.refusal_eq_none_iff.2 ⟨Fill.violation_eq_none_iff.2
        ⟨admissible.length, t.positive, t.price_pos⟩, unbooked_of_marks ready.marks t.unprocessed,
          admissible.unused⟩
    exact absurd (taken.symm.trans refused) (by simp)
  | settle error =>
    obtain ⟨settled, ok⟩ := t.settle_of_funded ready accountFound admissible.funded
    exact absurd (ok.symm.trans error) (by simp)
  | account settle row refused =>
    obtain ⟨cash, -, covered⟩ := (FillAttempt.settled_iff settle checked).2 admissible.funded
    obtain ⟨user, currency, -⟩ := Account.violation_eq_none_iff.1 checked
    have kept := Account.violation_eq_none_iff.2 ⟨row.userId ▸ user, row.currency ▸ currency,
      row.cash ▸ cash, row.reserved, (row.releases.trans covered).trans row.cash.ge⟩
    exact absurd (kept.symm.trans refused) (by simp)

theorem AppliedFill.admissible (u : AppliedFill .exact db event) (sound : db.Sound .exact) :
    u.toFillAttempt.Admissible u.account := by
  obtain ⟨checked, -, unused⟩ := Fill.refusal_eq_none_iff.1 u.fillKept
  obtain ⟨-, accountChecked⟩ := sound.accounts u.account (Table.mem_of_find u.accountFound)
  have kept := u.settledKept
  rw [Account.stored_exact, Account.violation_eq_none_iff] at kept
  exact ⟨(Fill.violation_eq_none_iff.1 checked).1, unused,
    (FillAttempt.settled_iff u.settle accountChecked).1 kept.2.2⟩

theorem FillAttempt.not_ignored (t : FillAttempt db event) {reason : String}
    (h : Ignores t.order event reason) : False := by
  have isFill := t.isFill
  cases h with
  | fillOfDone fill done => exact done t.working
  | overfill fill working beyond => exact absurd t.covered (not_le.2 beyond)
  | partOfFull full working part => exact part.ne (t.whole full)
  | rejectionOfUnrouted kind =>
    rw [kind] at isFill
    cases isFill
  | cancellationOfDone kind =>
    rw [kind] at isFill
    cases isFill

theorem FillAttempt.effect {num : Numeric} (t : FillAttempt db event) {applied : Bool} {db' : Db}
    (h : EventEffect num db event applied db') :
    applied = true ∧ ∃ u : AppliedFill num db event, db' = u.after := by
  cases h with
  | duplicate found processed => exact absurd (t.unprocessed.symm.trans processed) (by simp)
  | ignored found unprocessed ignores =>
    obtain rfl := Option.some.inj (found.symm.trans t.found)
    exact (t.not_ignored ignores).elim
  | filled u => exact ⟨rfl, u, rfl⟩
  | released found unprocessed accountFound becomes => exact (t.not_released becomes).elim

include ready in
/-- In a reachable state a fill that its order can take is applied exactly if it is admissible. -/
theorem FillAttempt.applies_iff (t : FillAttempt db event)
    (accountFound : db.accounts.find t.order.accountId = some account) :
    (∃ u : AppliedFill .exact db event,
      (processEvent event).run (postgres .exact) db = .ok (true, u.after)) ↔
        t.Admissible account := by
  constructor
  · rintro ⟨u, -⟩
    have admissible := u.admissible ready.sound
    have same := u.unique t
    have owner : u.account = account := by
      have found := u.accountFound
      rw [same, accountFound] at found
      exact (Option.some.inj found).symm
    rwa [owner, same] at admissible
  · intro admissible
    cases ran : (processEvent event).run (postgres .exact) db with
    | error f => exact ((wp_error _ (processEvent_spec ready.sound) ran).not_admissible ready t
        accountFound admissible).elim
    | ok result =>
      obtain ⟨applied, db'⟩ := result
      obtain ⟨rfl, u, rfl⟩ := t.effect (wp_ok _ (processEvent_spec ready.sound) ran)
      exact ⟨u, rfl⟩

end Outcome

end Attempt

end OrderManagement
