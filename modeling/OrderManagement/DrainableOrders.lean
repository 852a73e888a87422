import OrderManagement.EncodedRuns
import OrderManagement.FillAdmission

/-! Whether an open order can still be finished when money is stored with eight decimals and
sixteen digits before them. The reserved cash of an account drifts from what its orders
reserve, and the guards compare it with unrounded products. -/

namespace OrderManagement

open Program TransitionRuns

/-! A row that exact columns take is taken if its numbers fit. -/

section Rows

variable {num : Numeric} (ranged : num.Ranged)

include ranged

theorem Account.stored_checked {a : Account} (checked : a.violation .exact = none)
    (cash : num.fits a.cashBalance = true) (reserved : num.fits a.reservedCash = true) :
    (a.stored num).violation num = none := by
  obtain ⟨user, currency, cash', reserved', covered⟩ := Account.violation_eq_none_iff.1 checked
  refine Account.violation_iff.2 ⟨Account.violation_eq_none_iff.2 ⟨user, currency,
    num.round_nonneg cash', num.round_nonneg reserved', num.round_mono covered⟩, ?_, ?_⟩
  · exact (ranged.kept _).trans cash
  · exact (ranged.kept _).trans reserved

theorem Position.stored_checked {p : Position} (checked : p.violation .exact = none)
    (net : num.fits p.netQuantity = true) (average : num.fits p.averageEntryPrice = true)
    (realized : num.fits p.realizedPnl = true) (unrealized : num.fits p.unrealizedPnl = true)
    (mark : ∀ m ∈ p.lastMarkPrice, num.Keeps m ∧ num.fits m = true) :
    (p.stored num).violation num = none := by
  obtain ⟨symbol, average', marks⟩ := Position.violation_eq_none_iff.1 checked
  refine Position.violation_iff.2 ⟨Position.violation_eq_none_iff.2
    ⟨symbol, num.round_nonneg average', fun m held => ?_⟩, (ranged.kept _).trans net,
    (ranged.kept _).trans average, (ranged.kept _).trans realized,
    (ranged.kept _).trans unrealized, fun m held => ?_⟩
  · obtain ⟨m, marked, rfl⟩ := Option.map_eq_some_iff.1 held
    exact (mark m marked).1.symm ▸ marks m marked
  · obtain ⟨m, marked, rfl⟩ := Option.map_eq_some_iff.1 held
    exact (ranged.kept m).trans (mark m marked).2

theorem Order.stored_checked {o : Order} (checked : o.violation .exact = none)
    (kept : num.Keeps o.quantity ∧ num.Keeps o.price ∧ num.Keeps o.filledQuantity ∧
      num.Keeps o.cancelledQuantity ∧ num.Keeps o.remainingQuantity)
    (quantity : num.fits o.quantity = true) (price : num.fits o.price = true)
    (average : ∀ a ∈ o.averageFillPrice, num.fits a = true) :
    (o.stored num).violation num = none := by
  obtain ⟨quantity', price', filled', cancelled', remaining'⟩ := kept
  have same : (o.stored num).violation .exact = none := by
    rw [Order.violation_eq_none_iff] at checked ⊢
    simpa only [Order.stored, show num.round o.quantity = o.quantity from quantity',
      show num.round o.price = o.price from price',
      show num.round o.filledQuantity = o.filledQuantity from filled',
      show num.round o.cancelledQuantity = o.cancelledQuantity from cancelled',
      show num.round o.remainingQuantity = o.remainingQuantity from remaining'] using checked
  obtain ⟨-, -, -, -, -, -, filled, cancelled, remaining, sum⟩ :=
    Order.violation_eq_none_iff.1 checked
  refine Order.violation_iff.2 ⟨same, (ranged.kept _).trans quantity, (ranged.kept _).trans price,
    (ranged.kept _).trans (ranged.part filled ?_ quantity),
    (ranged.kept _).trans (ranged.part cancelled ?_ quantity),
    (ranged.kept _).trans (ranged.part remaining ?_ quantity), fun a held => ?_⟩
  · linarith
  · linarith
  · linarith
  · obtain ⟨a, averaged, rfl⟩ := Option.map_eq_some_iff.1 held
    exact (ranged.kept a).trans (average a averaged)

omit ranged in
theorem Fill.stored_checked {f : Fill} (checked : f.violation .exact = none)
    (quantity : num.Keeps f.quantity) (price : num.Keeps f.price)
    (fits : num.fits f.quantity = true ∧ num.fits f.price = true) :
    (f.stored num).violation num = none := by
  rw [show f.stored num = f by simp only [Fill.stored, show num.round f.quantity = f.quantity from
    quantity, show num.round f.price = f.price from price]]
  exact Fill.violation_iff.2 ⟨checked, fits⟩

end Rows

theorem Concluded.whole {data : EventData} {o o' : Order} {a a' : Account} {es : List OrderEvent}
    (h : Concluded data o a o' a' es) (rest : o.remainingQuantity = 0) :
    o' = o.moved .filled ∧ a' = a := by
  cases h with
  | filled => exact ⟨rfl, rfl⟩
  | ioc left | first left | further left => exact absurd rest left

/-- The event commits and leaves its order in the status. -/
def Leaves (num : Numeric) (db : Db) (event : BrokerExecutionEvent) (status : OrderStatus) : Prop :=
  ∃ db' order, (processEvent event).run (encodedPostgres num) db = .ok (true, db') ∧
    db'.orders.find event.orderId = some order ∧ order.status = status

structure CancelsRest (db : Db) (o : Order) (event : BrokerExecutionEvent) : Prop where
  orderId : event.orderId = o.id
  kind : event.eventType = .cancelled
  unprocessed : db.processedBrokerEvents.find event.eventId = none

structure FillsRest (db : Db) (o : Order) (event : BrokerExecutionEvent) : Prop where
  orderId : event.orderId = o.id
  kind : event.eventType = .fullFill
  unprocessed : db.processedBrokerEvents.find event.eventId = none
  quantity : event.filledQuantity = o.remainingQuantity
  price : event.fillPrice = some o.price

/-- The stored reservation of the account pays for what remains of a BUY order. -/
def Db.Backs (db : Db) (o : Order) : Prop :=
  o.side = .buy → ∀ account ∈ db.accounts.find o.accountId,
    o.remainingQuantity * o.price ≤ account.reservedCash

/-- The market price in the symbol of the order, or else its own price. -/
def Db.markFor (db : Db) (o : Order) : ℚ :=
  ((db.marketPrices.find o.symbol).map MarketPrice.price).getD o.price

def Db.positionFor (db : Db) (o : Order) : Position :=
  (db.positions.find (o.accountId, o.symbol)).getD (.opened o.accountId o.symbol (db.markFor o))

/-- The columns take the numbers that a fill of the remaining quantity at the price of the order
leaves of its account and its position. -/
structure Db.FitsRest (num : Numeric) (db : Db) (o : Order) : Prop where
  cash : o.side = .sell → ∀ account ∈ db.accounts.find o.accountId,
    num.fits (account.cashBalance + o.remainingQuantity * o.price) = true
  position : ∀ c, calculatePositionAfterFill (db.positionFor o).netQuantity
      (db.positionFor o).averageEntryPrice (db.positionFor o).realizedPnl o.side
      o.remainingQuantity o.price = .ok c →
    num.fits c.netQuantity = true ∧ num.fits c.averageEntryPrice = true ∧
      num.fits c.realizedPnl = true ∧
      num.fits
        (calculateUnrealizedPnl c.netQuantity c.averageEntryPrice (some (db.markFor o))) = true

section Drain

variable {num : Numeric} {db : Db} {event : BrokerExecutionEvent} {o : Order} {account : Account}

theorem CancelsRest.sentTexts (cancels : CancelsRest db o event)
    (free : NulFree (orDefault event.reason "Cancelled by broker")) : SentTexts db event where
  fill t := by
    have isFill := t.isFill
    simp [cancels.kind, BrokerEventType.isFill] at isFill
  rejection _ _ _ rejection := by simp [cancels.kind] at rejection
  cancellation _ _ _ _ _ := free

theorem FillsRest.sentTexts (fills : FillsRest db o event) (unexecuted : db.Unexecuted event) :
    SentTexts db event where
  fill _ := unexecuted.2.1
  rejection _ _ _ rejection := by simp [fills.kind] at rejection
  cancellation _ _ _ cancellation := by simp [fills.kind] at cancellation

/-- What the guards and the tables know of an order and its account. -/
structure Holding (num : Numeric) (db : Db) (o : Order) (account : Account) : Prop where
  found : db.orders.find o.id = some o
  working : o.status ∈ workingStatuses
  accountFound : db.accounts.find o.accountId = some account

namespace Holding

variable (h : Holding num db o account) (grid : num.Grid) (ranged : num.Ranged)
  (sound : db.Sound num)

include h

theorem backs_iff : db.Backs o ↔
    (o.side = .buy → o.remainingQuantity * o.price ≤ account.reservedCash) := by
  simp [Db.Backs, h.accountFound]

include sound

theorem keeps : num.Keeps o.quantity ∧ num.Keeps o.price ∧ num.Keeps o.filledQuantity ∧
    num.Keeps o.cancelledQuantity ∧ num.Keeps o.remainingQuantity := by
  have kept := (sound.orders o (Table.mem_of_find h.found)).1
  exact ⟨congrArg Order.quantity kept, congrArg Order.price kept,
    congrArg Order.filledQuantity kept,
    congrArg Order.cancelledQuantity kept, congrArg Order.remainingQuantity kept⟩

theorem order_checked : o.violation num = none :=
  (sound.orders o (Table.mem_of_find h.found)).2

theorem account_checked : account.violation num = none :=
  (sound.accounts account (Table.mem_of_find h.accountFound)).2

include grid ranged in
theorem cancelled_checked {left : Account}
    (release : releaseRemainingReservation account o = .ok left) :
    ((o.cancelRest.moved .cancelled).stored num).violation num = none ∧
      (left.stored num).violation num = none := by
  obtain ⟨quantity, price, filled, cancelled, remaining⟩ := h.keeps sound
  obtain ⟨checked, quantity', price', -, -, -, average⟩ :=
    Order.violation_iff.1 (h.order_checked sound)
  obtain ⟨accountChecked, cash, reserved⟩ := Account.violation_iff.1 (h.account_checked sound)
  have leftChecked := releaseRemainingReservation_checked release checked accountChecked
  obtain ⟨c, k, s, r, positive, priced, filled', cancelled', rest, sum⟩ :=
    Order.violation_eq_none_iff.1 checked
  refine ⟨Order.stored_checked ranged (Order.violation_eq_none_iff.2
      ⟨c, k, s, r, positive, priced, filled', add_nonneg cancelled' rest, le_refl 0, ?_⟩)
      ⟨quantity, price, filled, grid.add cancelled remaining, num.keeps_zero⟩ quantity' price'
      average, ?_⟩
  · simp only [Order.moved, Order.cancelRest]
    linarith
  · obtain ⟨-, -, -, nonneg, -⟩ := Account.violation_eq_none_iff.1 leftChecked
    rcases releaseRemainingReservation_ok release with ⟨-, rfl⟩ | ⟨-, some_, enough, rfl⟩
    · exact Account.stored_checked ranged leftChecked cash reserved
    · have amount := mul_pos some_ priced
      exact Account.stored_checked ranged leftChecked cash
        (ranged.part nonneg (sub_le_self _ amount.le) reserved)

omit sound in
theorem released_by (cancels : CancelsRest db o event) {order final : Order} {record : OrderEvent}
    (found : db.orders.find event.orderId = some order)
    (becomes : Released event order final record) :
    order = o ∧ final = o.cancelRest.moved .cancelled := by
  rw [cancels.orderId, h.found, Option.some_inj] at found
  subst found
  cases becomes with
  | rejected rejection => simp [cancels.kind] at rejection
  | cancelled => exact ⟨rfl, rfl⟩

include grid ranged in
theorem cancels_not_failed (cancels : CancelsRest db o event) (backed : db.Backs o) {f : Failure}
    (failed : EventFailure num db event f) : False := by
  have found : db.orders.find event.orderId = some o := cancels.orderId ▸ h.found
  have notFill : event.eventType.isFill = true → False := by
    simp [cancels.kind, BrokerEventType.isFill]
  cases failed with
  | orderNotFound missing => exact absurd (missing.symm.trans found) (by simp)
  | accountNotFound found' missing =>
    obtain rfl := Option.some.inj (found'.symm.trans found)
    exact absurd (missing.symm.trans h.accountFound) (by simp)
  | book t | bookedRow t | fillRow t | settle t => exact notFill t.isFill
  | settledRow t | openedRow t | execute t | executedRow t | releaseRest t | concludedRow t =>
    exact notFill t.isFill
  | release found' _ accountFound becomes error =>
    obtain ⟨rfl, -⟩ := h.released_by cancels found' becomes
    obtain rfl := Option.some.inj (accountFound.symm.trans h.accountFound)
    obtain ⟨buy, -, short, -⟩ := releaseRemainingReservation_error error
    exact absurd (backed buy _ accountFound) (not_le.2 short)
  | releasedRow found' _ accountFound becomes release refused =>
    obtain ⟨rfl, rfl⟩ := h.released_by cancels found' becomes
    obtain rfl := Option.some.inj (accountFound.symm.trans h.accountFound)
    obtain ⟨order, left⟩ := h.cancelled_checked grid ranged sound release
    rcases refused with refused | refused | ⟨held, -⟩
    · exact absurd (order.symm.trans refused) (by simp)
    · exact absurd (left.symm.trans refused) (by simp)
    · cases held

include grid ranged in
theorem leaves_cancelled_iff (encoded : db.Encoded) (cancels : CancelsRest db o event) :
    Leaves num db event .cancelled ↔
      db.Backs o ∧ NulFree (orDefault event.reason "Cancelled by broker") := by
  have notFill : event.eventType.isFill = true → False := by
    simp [cancels.kind, BrokerEventType.isFill]
  constructor
  · rintro ⟨db', order, ran, -⟩
    have texts := sentTexts_of_return ran
    refine ⟨fun buy account' accountFound' => ?_,
      texts.cancellation o (cancels.orderId ▸ h.found) cancels.unprocessed cancels.kind h.working⟩
    rw [processEvent_run_encoded encoded texts num] at ran
    obtain rfl := Option.some.inj (h.accountFound.symm.trans accountFound')
    obtain ⟨-, -, -, reserved, -⟩ :=
      Account.violation_eq_none_iff.1 (Account.violation_iff.1 (h.account_checked sound)).1
    cases wp_ok _ (processEvent_spec sound) ran with
    | filled t => exact (notFill t.isFill).elim
    | released found' _ accountFound becomes release =>
      obtain ⟨rfl, -⟩ := h.released_by cancels found' becomes
      obtain rfl := Option.some.inj (accountFound.symm.trans h.accountFound)
      rcases releaseRemainingReservation_ok release with ⟨sell | none, -⟩ | ⟨-, -, enough, -⟩
      · exact absurd buy sell
      · have price := (sound.price_pos (Table.mem_of_find found')).le
        exact (mul_nonpos_of_nonpos_of_nonneg none price).trans reserved
      · exact enough
  · rintro ⟨backed, free⟩
    have unguarded := processEvent_run_encoded encoded (cancels.sentTexts free) num
    cases ran : (processEvent event).run (postgres num) db with
    | error f =>
      exact (h.cancels_not_failed grid ranged sound cancels backed
        (wp_error _ (processEvent_spec sound) ran)).elim
    | ok result =>
      obtain ⟨applied, db'⟩ := result
      cases wp_ok _ (processEvent_spec sound) ran with
      | duplicate _ processed => exact absurd (cancels.unprocessed.symm.trans processed) (by simp)
      | ignored found' _ ignores =>
        rw [cancels.orderId, h.found, Option.some_inj] at found'
        subst found'
        cases ignores with
        | fillOfDone fill | overfill fill => exact (notFill fill).elim
        | partOfFull full => exact (notFill (full ▸ rfl)).elim
        | rejectionOfUnrouted rejection => simp [cancels.kind] at rejection
        | cancellationOfDone _ done => exact absurd h.working done
      | filled t => exact (notFill t.isFill).elim
      | @released order' final left account' record found' _ _ becomes =>
        obtain ⟨rfl, rfl⟩ := h.released_by cancels found' becomes
        refine ⟨_, (order'.cancelRest.moved .cancelled).stored num, unguarded.trans ran, ?_, rfl⟩
        rw [cancels.orderId]
        exact Table.find_put_self _ _

omit sound in
theorem filled_order (t : FillAttempt db event) (fills : FillsRest db o event) :
    t.order = o ∧ t.price = o.price := by
  have found := t.found
  rw [fills.orderId, h.found] at found
  exact ⟨(Option.some.inj found).symm, Option.some.inj (t.priced.symm.trans fills.price)⟩

include grid ranged in
theorem filled_checked (t : FillAttempt db event) (fills : FillsRest db o event)
    {booked : Order} (book : t.order.bookFill event.filledQuantity t.price = .ok booked) :
    booked.remainingQuantity = 0 ∧ (booked.stored num).violation num = none := by
  obtain ⟨rfl, priced⟩ := h.filled_order t fills
  obtain ⟨quantity, price, filled, cancelled, remaining⟩ := h.keeps sound
  have taken : num.Keeps event.filledQuantity := fills.quantity ▸ remaining
  obtain ⟨exact_, quantity', price', -, -, -, average⟩ :=
    Order.violation_iff.1 (h.order_checked sound)
  obtain ⟨-, -, -, -, -, -, filled', -⟩ := Order.violation_eq_none_iff.1 exact_
  have checked := bookFill_checked book t.positive t.covered exact_
  obtain ⟨-, rfl⟩ := Order.bookFill_ok book
  refine ⟨sub_eq_zero.2 fills.quantity.symm, Order.stored_checked ranged checked
    ⟨quantity, price, grid.add filled taken, cancelled, grid.sub remaining taken⟩ quantity' price'
    fun a held => ?_⟩
  · have before : num.fits (t.order.averageFillPrice.getD 0) = true := by
      cases previous : t.order.averageFillPrice with
      | none => exact ranged.zero
      | some x => exact average x previous
    obtain rfl := Option.mem_some_iff.1 held
    exact ranged.mean filled' t.positive before (priced ▸ price')

omit sound in
theorem settled_account (t : FillSettled db event) (fills : FillsRest db o event) :
    t.account = account := by
  have accountFound := t.accountFound
  rw [(h.filled_order t.toFillAttempt fills).1, h.accountFound, Option.some_inj] at accountFound
  exact accountFound.symm

include ranged in
theorem settled_checked (t : FillSettled db event) (fills : FillsRest db o event)
    (cash : o.side = .sell →
      num.fits (account.cashBalance + o.remainingQuantity * o.price) = true) :
    (t.settled.stored num).violation num = none := by
  obtain ⟨same, priced⟩ := h.filled_order t.toFillAttempt fills
  obtain rfl := h.settled_account t fills
  obtain ⟨checked, cash', reserved'⟩ := Account.violation_iff.1 (h.account_checked sound)
  obtain ⟨user, currency, -, reserved, covered⟩ := Account.violation_eq_none_iff.1 checked
  have row := Account.settleFill_row t.settle reserved
  have funded : t.Funded t.account := fun _ => by
    rw [priced, same, sub_self, mul_zero]
    exact sub_nonneg.2 covered
  have after := (FillAttempt.settled_iff t.settle checked).2 funded
  refine Account.stored_checked ranged (Account.violation_eq_none_iff.2
    ⟨row.userId ▸ user, row.currency ▸ currency, after⟩) ?_ ?_
  · rcases Account.settleFill_ok t.settle with ⟨-, -, -, settled⟩ | ⟨sell, settled⟩
    · have notional := mul_pos t.positive t.price_pos
      refine ranged.part after.1 ?_ cash'
      rw [settled]
      exact sub_le_self _ notional.le
    · rw [settled, fills.quantity, priced]
      exact cash (same ▸ sell)
  · rcases Account.settleFill_ok t.settle with ⟨-, -, -, settled⟩ | ⟨-, settled⟩
    · have price := sound.price_pos (Table.mem_of_find t.found)
      refine ranged.part after.2.1 ?_ reserved'
      rw [settled]
      exact sub_le_self _ (mul_nonneg t.positive.le price.le)
    · rw [settled]
      exact reserved'

theorem mark_kept (t : FillAttempt db event) (fills : FillsRest db o event) :
    num.Keeps t.mark ∧ num.fits t.mark = true := by
  obtain ⟨rfl, priced⟩ := h.filled_order t fills
  unfold FillAttempt.mark
  cases found : db.marketPrices.find t.order.symbol with
  | none =>
    obtain ⟨-, -, price, -⟩ := Order.violation_iff.1 (h.order_checked sound)
    rw [Option.map_none, Option.getD_none, priced]
    exact ⟨(h.keeps sound).2.1, price⟩
  | some m =>
    obtain ⟨kept, checked⟩ := sound.marketPrices m (Table.mem_of_find found)
    refine ⟨congrArg MarketPrice.price kept, ?_⟩
    unfold MarketPrice.violation at checked
    rw [firstFailure_eq_none_iff] at checked
    exact checked (num.fits m.price, .data .marketPriceNumber) (by simp)

def attempt (h : Holding num db o account) (fills : FillsRest db o event) :
    FillAttempt db event where
  order := o
  price := o.price
  found := fills.orderId ▸ h.found
  unprocessed := fills.unprocessed
  isFill := by rw [fills.kind]; rfl
  working := h.working
  priced := fills.price
  covered := fills.quantity.le
  whole _ := fills.quantity

omit sound in
theorem attempt_held (fills : FillsRest db o event) (t : FillAttempt db event) :
    t.mark = db.markFor o ∧ t.held = db.positionFor o := by
  rw [t.unique (h.attempt fills)]
  exact ⟨rfl, rfl⟩

include grid ranged in
theorem rows_checked (fills : FillsRest db o event) (t : FillSettled db event)
    (fits : db.FitsRest num o) {p : Option Position}
    {f : Failure} (position : ∀ r ∈ p, (r.stored num).violation num = none)
    (refused : RefusedRow num t.booked t.settled p f) : False := by
  obtain ⟨-, order⟩ := h.filled_checked grid ranged sound t.toFillAttempt fills t.book
  have settled := h.settled_checked ranged sound t fills
    fun sell => fits.cash sell account h.accountFound
  rcases refused with refused | refused | ⟨held, refused⟩
  · exact absurd (order.symm.trans refused) (by simp)
  · exact absurd (settled.symm.trans refused) (by simp)
  · exact absurd ((position _ held).symm.trans refused) (by simp)

include ranged in
theorem position_checked (fills : FillsRest db o event) (t : FillSettled db event)
    (fits : db.FitsRest num o) {executed : Position}
    (execute : t.held.executed t.order.side event.filledQuantity t.price t.mark = .ok executed) :
    (executed.stored num).violation num = none := by
  have checked := t.executed_checked sound execute
  have mark := h.mark_kept sound t.toFillAttempt fills
  obtain ⟨same, priced⟩ := h.filled_order t.toFillAttempt fills
  obtain ⟨marked, held⟩ := h.attempt_held fills t.toFillAttempt
  obtain ⟨c, calculated, rfl⟩ := Position.executed_ok execute
  rw [held, same, priced, fills.quantity] at calculated
  obtain ⟨net, average, realized, unrealized⟩ := fits.position c calculated
  refine Position.stored_checked ranged checked net average realized (marked ▸ unrealized)
    fun m marks => ?_
  exact Option.some.inj marks ▸ mark

include ranged in
theorem opened_checked (fills : FillsRest db o event) (t : FillAttempt db event) :
    (t.opened.stored num).violation num = none := by
  have mark := h.mark_kept sound t fills
  exact Position.stored_checked ranged (t.opened_checked sound) ranged.zero ranged.zero ranged.zero
    ranged.zero fun m marks => Option.some.inj marks ▸ mark

theorem fill_taken (marks : db.fillMarks = db.appliedFillMarks) (fills : FillsRest db o event)
    (unexecuted : db.Unexecuted event) :
    ((h.attempt fills).fill.stored num).refusal num db = none := by
  obtain ⟨-, price, -, -, remaining⟩ := h.keeps sound
  obtain ⟨-, -, price', -, -, remaining', -⟩ := Order.violation_iff.1 (h.order_checked sound)
  obtain ⟨short, -, unused⟩ := unexecuted
  rw [← fills.quantity] at remaining remaining'
  have row := Fill.stored_checked (f := (h.attempt fills).fill)
    (Fill.violation_eq_none_iff.2
      ⟨short, (h.attempt fills).positive, (h.attempt fills).price_pos⟩)
    remaining price ⟨remaining', price'⟩
  exact Fill.refusal_eq_none_iff.2 ⟨row, unbooked_of_marks marks fills.unprocessed, unused⟩

include grid ranged in
theorem fills_not_failed (marks : db.fillMarks = db.appliedFillMarks) (fills : FillsRest db o event)
    (backed : db.Backs o) (unexecuted : db.Unexecuted event) (fits : db.FitsRest num o)
    {f : Failure}
    (failed : EventFailure num db event f) : False := by
  have found : db.orders.find event.orderId = some o := fills.orderId ▸ h.found
  have positive := (h.attempt fills).positive
  cases failed with
  | orderNotFound missing => exact absurd (missing.symm.trans found) (by simp)
  | accountNotFound found' missing =>
    obtain rfl := Option.some.inj (found'.symm.trans found)
    exact absurd (missing.symm.trans h.accountFound) (by simp)
  | book t error =>
    obtain ⟨zero, -⟩ := Order.bookFill_error error
    obtain rfl := t.unique (h.attempt fills)
    obtain ⟨-, -, -, -, -, -, filled, -⟩ :=
      Order.violation_eq_none_iff.1 (Order.violation_iff.1 (h.order_checked sound)).1
    exact absurd zero (add_pos_of_nonneg_of_pos filled positive).ne'
  | bookedRow t book refused =>
    obtain ⟨-, checked⟩ := h.filled_checked grid ranged sound t fills book
    exact absurd (checked.symm.trans refused) (by simp)
  | fillRow t refused =>
    obtain rfl := t.unique (h.attempt fills)
    exact absurd ((h.fill_taken sound marks fills unexecuted).symm.trans refused) (by simp)
  | settle t accountFound error =>
    obtain rfl := t.unique (h.attempt fills)
    obtain rfl := Option.some.inj (accountFound.symm.trans h.accountFound)
    obtain ⟨-, -, -, -, covered⟩ :=
      Account.violation_eq_none_iff.1 (Account.violation_iff.1 (h.account_checked sound)).1
    obtain ⟨buy, short⟩ := Account.settleFill_error error
    have enough := backed buy _ accountFound
    rw [← fills.quantity] at enough
    rcases short with ⟨short, -⟩ | ⟨short, -⟩
    · exact absurd enough (not_le.2 short)
    · exact absurd (enough.trans covered) (not_le.2 short)
  | settledRow t refused => exact h.rows_checked grid ranged sound fills t fits (by simp) refused
  | openedRow t refused =>
    exact absurd ((h.opened_checked ranged sound fills t.toFillAttempt).symm.trans refused)
      (by simp)
  | execute t error =>
    obtain ⟨r, executed⟩ := t.held.executed_total t.order.side t.price t.mark t.positive
    exact absurd (error.symm.trans executed) (by simp)
  | executedRow t execute refused =>
    exact h.rows_checked grid ranged sound fills t fits (fun r held => Option.some.inj held ▸
      h.position_checked ranged sound fills t fits execute) refused
  | releaseRest t rest =>
    exact rest (h.filled_checked grid ranged sound t.toFillAttempt fills t.book).1
  | @concludedRow f executed final settled log t execute conclude refused =>
    have rest := (h.filled_checked grid ranged sound t.toFillAttempt fills t.book).1
    obtain ⟨rfl, rfl⟩ := conclude.whole rest
    -- the status is no part of what the table checks
    have booked : RefusedRow num t.booked t.settled (some executed) f := by
      rcases refused with refused | refused | ⟨held, refused⟩
      · exact .order refused
      · exact .account refused
      · exact .position held refused
    exact h.rows_checked grid ranged sound fills t fits (fun r held => Option.some.inj held ▸
      h.position_checked ranged sound fills t fits execute) booked
  | release found' _ _ becomes => exact ((h.attempt fills).not_released becomes).elim
  | releasedRow found' _ _ becomes => exact ((h.attempt fills).not_released becomes).elim

omit sound in
include ranged in
theorem filled_needs (fills : FillsRest db o event) (u : AppliedFill num db event) :
    db.Backs o ∧ (u.toFillAttempt.fill.executionId.length ≤ 100 ∧
      db.byExecutionId u.toFillAttempt.fill.executionId = none) ∧ db.FitsRest num o := by
  obtain ⟨same, priced⟩ := h.filled_order u.toFillAttempt fills
  have owner := h.settled_account u.toFillSettled fills
  obtain ⟨row, -, unused⟩ := Fill.refusal_eq_none_iff.1 u.fillKept
  have settle := u.settle
  rw [same, owner, priced, fills.quantity] at settle
  refine ⟨h.backs_iff.2 fun buy => ?_, ⟨(Fill.violation_eq_none_iff.1
    (Fill.violation_iff.1 row).1).1, unused⟩, fun sell account' found => ?_, fun c calculated => ?_⟩
  · rcases Account.settleFill_ok settle with ⟨-, enough, -⟩ | ⟨sell, -⟩
    · exact enough
    · exact absurd (buy.symm.trans sell) (by decide)
  · obtain rfl := Option.some.inj (h.accountFound.symm.trans found)
    obtain ⟨-, cash, -⟩ := Account.violation_iff.1 u.settledKept
    rcases Account.settleFill_ok settle with ⟨buy, -⟩ | ⟨-, settled⟩
    · exact absurd (buy.symm.trans sell) (by decide)
    · have fits := (ranged.kept _).symm.trans cash
      rwa [settled] at fits
  · have kept := u.kept.position u.executed rfl
    obtain ⟨-, net, average, realized, unrealized, -⟩ := Position.violation_iff.1 kept
    obtain ⟨marked, held⟩ := h.attempt_held fills u.toFillAttempt
    obtain ⟨c', calculated', executed⟩ := Position.executed_ok u.execute
    rw [held, same, priced, fills.quantity, calculated, Except.ok.injEq] at calculated'
    subst calculated'
    rw [executed] at net average realized unrealized
    exact ⟨(ranged.kept _).symm.trans net, (ranged.kept _).symm.trans average,
      (ranged.kept _).symm.trans realized, marked ▸ (ranged.kept _).symm.trans unrealized⟩

include grid ranged in
theorem leaves_filled_iff (encoded : db.Encoded) (marks : db.fillMarks = db.appliedFillMarks)
    (fills : FillsRest db o event) :
    Leaves num db event .filled ↔ db.Backs o ∧ db.Unexecuted event ∧ db.FitsRest num o := by
  constructor
  · rintro ⟨db', order, ran, -⟩
    have texts := sentTexts_of_return ran
    rw [processEvent_run_encoded encoded texts num] at ran
    obtain ⟨-, u, -⟩ := (h.attempt fills).effect (wp_ok _ (processEvent_spec sound) ran)
    obtain ⟨backed, ⟨short, unused⟩, fits⟩ := h.filled_needs ranged fills u
    exact ⟨backed, ⟨short, texts.fill u.toFillAttempt, unused⟩, fits⟩
  · rintro ⟨backed, unexecuted, fits⟩
    have unguarded := processEvent_run_encoded encoded (fills.sentTexts unexecuted) num
    cases ran : (processEvent event).run (postgres num) db with
    | error f =>
      exact (h.fills_not_failed grid ranged sound marks fills backed unexecuted fits
        (wp_error _ (processEvent_spec sound) ran)).elim
    | ok result =>
      obtain ⟨applied, db'⟩ := result
      obtain ⟨rfl, u, rfl⟩ := (h.attempt fills).effect (wp_ok _ (processEvent_spec sound) ran)
      obtain ⟨rest, -⟩ := h.filled_checked grid ranged sound u.toFillAttempt fills u.book
      have key : u.final.id = event.orderId :=
        u.frozen.id.trans ((h.filled_order u.toFillAttempt fills).1 ▸ fills.orderId.symm)
      refine ⟨_, u.final.stored num, unguarded.trans ran, ?_,
        congrArg Order.status (u.conclude.whole rest).1⟩
      rw [← key]
      exact Table.find_put_self _ _

end Holding

end Drain

section Runs

variable {S : Deployment} {db : Db}

/-- The states of a run, whatever the columns make of its numbers. -/
structure Db.Settled (num : Numeric) (db : Db) : Prop where
  sound : db.Sound num
  decided : db.Decided
  owned : ∀ o ∈ db.orders.rows, (db.accounts.find o.accountId).isSome
  marks : db.fillMarks = db.appliedFillMarks

theorem Db.Fresh.settled {num : Numeric} (fresh : db.Fresh num) : db.Settled num where
  sound := fresh.sound
  decided := by simp [Db.Decided, fresh.orders]
  owned := by simp [fresh.orders]
  marks := by simp [Db.fillMarks, Db.appliedFillMarks, fresh.fills, fresh.processed]

theorem Db.Settled.step (h : db.Settled S.num) (op : Op) : (step S db op).Settled S.num := by
  have change := step_change S h.sound op
  exact ⟨change.sound h.sound, change.decided h.decided, change.owned h.owned,
    change.fillMarks h.marks⟩

theorem run_settled (settled : db.Settled S.num) (ops : List Op) :
    (run (OrderManagement.step S) db ops).Settled S.num :=
  run_invariant (Db.Settled S.num) (fun _ op h => h.step op) settled

theorem run_reserved_unrounded (grid : S.num.Grid) (fresh : db.Fresh S.num) {ops : List Op}
    (whole : Along (OrderManagement.step S) (fun db op => op.Unrounded S.num db) db ops) :
    (run (OrderManagement.step S) db ops).Reserved := by
  have start : db.Settled S.num ∧ db.Reserved ∧ db.Unrounded S.num := by
    refine ⟨fresh.settled, fun a mem => ?_, by simp [Db.Unrounded, fresh.orders]⟩
    rw [fresh.unreserved a mem, Table.total_eq_zero]
    simp [fresh.orders]
  refine (run_invariant_along
    (fun db => db.Settled S.num ∧ db.Reserved ∧ db.Unrounded S.num) ?_ start whole).2.1
  rintro db op ⟨settled, reserved, kept⟩ unrounded
  obtain ⟨⟨k, -, balanced⟩, kept'⟩ :=
    (step_change S settled.sound op).balanced_unrounded grid settled.sound settled.decided kept
      unrounded
  exact ⟨settled.step op, balanced.reserved reserved, kept'⟩

end Runs

/-! An order of 0.00000001 at 0.4 reserves less than the column keeps. -/

def dustBuy : OrderCreate :=
  { limitBuy with
    quantity := 1 / 100000000
    price := 2 / 5
    quantity_pos := by norm_num
    quantity_places := by decide +kernel
    price_pos := by norm_num
    price_places := by decide +kernel }

def cancelledOrder : BrokerExecutionEvent where
  eventId := 3
  eventType := .cancelled
  orderId := 2
  timestamp := 0
  validateFillPayload isFill := by cases isFill

def dustFill : BrokerExecutionEvent where
  eventId := 3
  eventType := .fullFill
  orderId := 2
  timestamp := 0
  filledQuantity := 1 / 100000000
  fillPrice := some (2 / 5)
  executionId := some "execution-1"
  validateFillPayload _ :=
    ⟨by norm_num, ⟨2 / 5, rfl, by norm_num⟩, ⟨"execution-1", rfl, by decide⟩⟩

end OrderManagement
