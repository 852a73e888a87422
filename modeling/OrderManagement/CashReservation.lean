import OrderManagement.OrderRuns

/-! Reserved cash of an account is what its working BUY orders may still spend.
Every operation changes the reservation of at most one order and the reserved cash
of its account by the same amount. -/

namespace OrderManagement

open Program TransitionRuns

@[simp] theorem Deployment.exact_num (settings : Settings) (upper : String → String) :
    (Deployment.exact settings upper).num = .exact := rfl

def Order.reservation (o : Order) : ℚ :=
  if o.side = .buy ∧ o.status ∈ workingStatuses then o.remainingQuantity * o.price else 0

def Order.reservationIn (accountId : UUID) (o : Order) : ℚ :=
  if o.accountId = accountId then o.reservation else 0

def Db.reservationOf (db : Db) (k : UUID) : ℚ := (db.orders.find k).elim 0 Order.reservation

def Db.Reserved (db : Db) : Prop :=
  ∀ a ∈ db.accounts.rows, a.reservedCash = db.orders.total (Order.reservationIn a.id)

theorem Order.reservation_of_done {o : Order} (h : o.status ∉ workingStatuses) :
    o.reservation = 0 := by simp [reservation, h]

theorem Order.reservation_moved {target : OrderStatus} (h : target ∉ workingStatuses) (o : Order) :
    (o.moved target).reservation = 0 := reservation_of_done h

theorem Order.reservation_of_sell {o : Order} (h : o.side = .sell) : o.reservation = 0 := by
  simp [reservation, h]

theorem Order.reservation_of_buy {o : Order} (buy : o.side = .buy)
    (working : o.status ∈ workingStatuses) : o.reservation = o.remainingQuantity * o.price := by
  simp [reservation, buy, working]

theorem Order.reservation_moved_working {o : Order} {target : OrderStatus}
    (before : o.status ∈ workingStatuses) (after : target ∈ workingStatuses) :
    (o.moved target).reservation = o.reservation := by
  simp [reservation, moved, before, after]

theorem Order.reservation_nonneg {o : Order} (remaining : 0 ≤ o.remainingQuantity)
    (price : 0 ≤ o.price) : 0 ≤ o.reservation := by
  unfold reservation
  split_ifs
  · exact mul_nonneg remaining price
  · exact le_refl 0

/-- What a change does to orders and accounts: nothing, one order whose reservation
stays, or one order and its account, whose reserved cash moves with the reservation. -/
inductive Balanced (db db' : Db) : Option UUID → Prop
  | untouched (orders : db'.orders = db.orders) (accounts : db'.accounts = db.accounts) :
      Balanced db db' none
  | order {o o' : Order} (found : db.orders.find o'.id = some o)
      (orders : db'.orders = db.orders.put o') (accounts : db'.accounts = db.accounts)
      (accountId : o'.accountId = o.accountId) (reservation : o'.reservation = o.reservation) :
      Balanced db db' (some o'.id)
  | both {o' : Order} {a a' : Account} (found : db.accounts.find o'.accountId = some a)
      (orders : db'.orders = db.orders.put o') (accounts : db'.accounts = db.accounts.put a')
      (owner : ∀ o, db.orders.find o'.id = some o → o.accountId = o'.accountId)
      (id : a'.id = a.id)
      (moves : a'.reservedCash = a.reservedCash - db.reservationOf o'.id + o'.reservation)
      (falls : ∀ o, db.orders.find o'.id = some o → o'.reservation ≤ o.reservation) :
      Balanced db db' (some o'.id)

theorem releaseRemainingReservation_reserved {a b : Account} {o : Order}
    (h : releaseRemainingReservation a o = .ok b) (working : o.status ∈ workingStatuses)
    (remaining : 0 ≤ o.remainingQuantity) : b.reservedCash = a.reservedCash - o.reservation := by
  rcases releaseRemainingReservation_ok h with ⟨none, rfl⟩ | ⟨buy, -, -, rfl⟩
  · have nothing : o.reservation = 0 := by
      rcases none with sell | empty
      · simp [Order.reservation, sell]
      · have : o.remainingQuantity = 0 := le_antisymm empty remaining
        simp [Order.reservation, this]
    rw [nothing, sub_zero]
  · rw [Order.reservation_of_buy buy working]
    rfl

theorem Account.settleFill_reserved {a b : Account} {o : Order} {q price : ℚ}
    (h : a.settleFill o q price = .ok b) :
    b.reservedCash = a.reservedCash - if o.side = .buy then q * o.price else 0 := by
  rcases Account.settleFill_ok h with ⟨buy, -, -, rfl⟩ | ⟨sell, rfl⟩
  · simp [buy]
  · simp [sell]

section Steps

variable {settings : Settings} {upper : String → String} {db db' : Db}

theorem Db.Sound.remaining_nonneg {num : Numeric} (sound : db.Sound num) {o : Order}
    (mem : o ∈ db.orders.rows) : 0 ≤ o.remainingQuantity := by
  have checked := (sound.orders o mem).2
  unfold Order.violation at checked
  rw [firstFailure_eq_none_iff] at checked
  simpa using checked (0 ≤ o.remainingQuantity, .integrity .ordersRemainingNonnegative) (by simp)

theorem Db.Sound.price_pos {num : Numeric} (sound : db.Sound num) {o : Order}
    (mem : o ∈ db.orders.rows) : 0 < o.price := by
  have checked := (sound.orders o mem).2
  unfold Order.violation at checked
  rw [firstFailure_eq_none_iff] at checked
  simpa using checked (0 < o.price, .integrity .ordersPricePositive) (by simp)

theorem Db.Sound.reservation_nonneg {num : Numeric} (sound : db.Sound num) {o : Order}
    (mem : o ∈ db.orders.rows) : 0 ≤ o.reservation :=
  Order.reservation_nonneg (sound.remaining_nonneg mem) (sound.price_pos mem).le

theorem FillSettled.moves {event : BrokerExecutionEvent} (t : FillSettled db event) :
    t.settled.reservedCash =
      t.account.reservedCash - t.order.reservation + t.booked.reservation := by
  have settled := Account.settleFill_reserved t.settle
  obtain ⟨-, booked⟩ := Order.bookFill_ok t.book
  cases side : t.order.side with
  | sell =>
    have same : t.booked.side = .sell := by rw [booked]; exact side
    rw [Order.reservation_of_sell side, Order.reservation_of_sell same, settled]
    simp [side]
  | buy =>
    have same : t.booked.side = .buy := by rw [booked]; exact side
    have working : t.booked.status ∈ workingStatuses := by rw [booked]; exact t.working
    rw [Order.reservation_of_buy side t.working, Order.reservation_of_buy same working, settled,
      booked]
    simp only [side, if_true]
    ring

theorem Concluded.moves {data : EventData} {o o' : Order} {a a' : Account} {es : List OrderEvent}
    (h : Concluded data o a o' a' es) (working : o.status ∈ workingStatuses)
    (remaining : 0 ≤ o.remainingQuantity) :
    a'.reservedCash = a.reservedCash - o.reservation + o'.reservation := by
  cases h with
  | filled done =>
    have before : o.reservation = 0 := by simp [Order.reservation, done]
    rw [before, Order.reservation_moved (by decide)]
    ring
  | ioc rest ioc release =>
    rw [releaseRemainingReservation_reserved release working remaining,
      Order.reservation_moved (by decide)]
    ring
  | first rest resting routed =>
    rw [Order.reservation_moved_working working (by decide)]
    ring
  | further => ring

theorem AppliedFill.moves {num : Numeric} {event : BrokerExecutionEvent}
    (t : AppliedFill num db event) :
    t.finalAccount.reservedCash =
      t.account.reservedCash - t.order.reservation + t.final.reservation := by
  obtain ⟨-, booked⟩ := Order.bookFill_ok t.book
  have working : t.booked.status ∈ workingStatuses := by rw [booked]; exact t.working
  have remaining : 0 ≤ t.booked.remainingQuantity := by
    rw [booked]
    exact sub_nonneg.2 t.covered
  rw [t.conclude.moves working remaining, t.toFillSettled.moves]
  ring

theorem Concluded.falls {data : EventData} {o o' : Order} {a a' : Account} {es : List OrderEvent}
    (h : Concluded data o a o' a' es) (working : o.status ∈ workingStatuses)
    (nonneg : 0 ≤ o.reservation) : o'.reservation ≤ o.reservation := by
  cases h with
  | filled done => rwa [Order.reservation_moved (by decide)]
  | ioc rest ioc release => rwa [Order.reservation_moved (by decide)]
  | first rest resting routed =>
    exact (Order.reservation_moved_working working (by decide)).le
  | further => exact le_refl _

theorem AppliedFill.falls {num : Numeric} {event : BrokerExecutionEvent}
    (t : AppliedFill num db event) (price : 0 ≤ t.order.price) :
    t.final.reservation ≤ t.order.reservation := by
  obtain ⟨-, booked⟩ := Order.bookFill_ok t.book
  have working : t.booked.status ∈ workingStatuses := by rw [booked]; exact t.working
  have remaining : 0 ≤ t.booked.remainingQuantity := by
    rw [booked]
    exact sub_nonneg.2 t.covered
  have priced : 0 ≤ t.booked.price := by rw [booked]; exact price
  refine (t.conclude.falls working (Order.reservation_nonneg remaining priced)).trans ?_
  rw [booked]
  unfold Order.reservation
  dsimp only
  split_ifs
  · exact mul_le_mul_of_nonneg_right (sub_le_self _ t.positive.le) price
  · exact le_refl 0

theorem Released.reservation_eq {event : BrokerExecutionEvent} {o o' : Order} {e : OrderEvent}
    (h : Released event o o' e) : o'.reservation = 0 := by
  cases h <;> exact Order.reservation_moved (by decide) _

theorem Released.moves {event : BrokerExecutionEvent} {o o' : Order} {a a' : Account}
    {e : OrderEvent} (h : Released event o o' e) (remaining : 0 ≤ o.remainingQuantity)
    (release : releaseRemainingReservation a o = .ok a') :
    a'.reservedCash = a.reservedCash - o.reservation + o'.reservation := by
  rw [releaseRemainingReservation_reserved release h.working remaining, h.reservation_eq, add_zero]

theorem Account.refund_reserved {a : Account} {o : Order} (routed : o.status = .routed) :
    (a.refund o).reservedCash = a.reservedCash - o.reservation := by
  unfold Account.refund
  split_ifs with buy
  · rw [Order.reservation_of_buy buy (by simp [routed, workingStatuses])]
    rfl
  · simp [Order.reservation, buy]

theorem Placement.charged_reserved {draw : CreateDraw} {payload : OrderCreate}
    (t : Placement db settings draw payload) :
    t.charged.reservedCash = t.account.reservedCash + t.routed.reservation := by
  unfold Placement.charged Order.reservation Placement.required requiredBuyingPower
  cases side : payload.side with
  | buy => simp [Placement.routed, Placement.order, newOrder, Order.moved, Account.reserve, side,
      workingStatuses]
  | sell => simp [Placement.routed, Placement.order, newOrder, Order.moved, side]

def Op.orderId : Op → Option UUID
  | .createOrder draw _ => some draw.orderId
  | .processEvent event => some event.orderId
  | .requestCancellation orderId _ => some orderId
  | .markRoutingFailure orderId _ => some orderId
  | .applyTick _ _ _ => none

/-- What the operation puts into reserved cash, or takes out of it, is not rounded. -/
def Op.Unrounded (num : Numeric) (db : Db) : Op → Prop
  | .createOrder _ payload => payload.side = .buy → num.Keeps (payload.quantity * payload.price)
  | .processEvent event => event.eventType.isFill = true →
      num.Keeps event.filledQuantity ∧
      ∀ order ∈ db.orders.find event.orderId, order.side = .buy →
        num.Keeps (event.filledQuantity * order.price)
  | _ => True

theorem Op.unrounded_exact (op : Op) : op.Unrounded .exact db := by
  cases op with
  | createOrder => exact fun _ => Numeric.exact_keeps _
  | processEvent => exact fun _ => ⟨Numeric.exact_keeps _, fun _ _ _ => Numeric.exact_keeps _⟩
  | requestCancellation | markRoutingFailure | applyTick => trivial

/-- The columns keep what each order reserves. -/
def Db.Unrounded (num : Numeric) (db : Db) : Prop :=
  ∀ o ∈ db.orders.rows, num.Keeps o.reservation

theorem Order.stored_reservation {num : Numeric} {o : Order}
    (rest : o.status ∈ workingStatuses → num.Keeps o.remainingQuantity)
    (price : num.Keeps o.price) :
    (o.stored num).reservation = o.reservation := by
  unfold Order.reservation
  by_cases working : o.status ∈ workingStatuses
  · rw [show (o.stored num).remainingQuantity = o.remainingQuantity from rest working,
      show (o.stored num).price = o.price from price]
    rfl
  · have : (o.stored num).status ∉ workingStatuses := working
    simp only [working, this, and_false, if_false]

theorem Db.Sound.order_keeps {num : Numeric} (sound : db.Sound num) {o : Order}
    (mem : o ∈ db.orders.rows) : num.Keeps o.price ∧ num.Keeps o.remainingQuantity :=
  ⟨congrArg Order.price (sound.orders o mem).1,
    congrArg Order.remainingQuantity (sound.orders o mem).1⟩

theorem Db.Sound.account_keeps {num : Numeric} (sound : db.Sound num) {a : Account}
    (mem : a ∈ db.accounts.rows) : num.Keeps a.reservedCash :=
  congrArg Account.reservedCash (sound.accounts a mem).1

theorem Concluded.keeps {num : Numeric} {data : EventData} {o o' : Order} {a a' : Account}
    {es : List OrderEvent} (h : Concluded data o a o' a' es) (working : o.status ∈ workingStatuses)
    (rest : num.Keeps o.remainingQuantity) (reservation : num.Keeps o.reservation) :
    num.Keeps o'.remainingQuantity ∧ num.Keeps o'.reservation := by
  cases h with
  | filled done =>
    rw [Order.reservation_moved (by decide)]
    exact ⟨rest, num.keeps_zero⟩
  | ioc =>
    rw [Order.reservation_moved (by decide)]
    exact ⟨num.keeps_zero, num.keeps_zero⟩
  | first =>
    rw [Order.reservation_moved_working working (by decide)]
    exact ⟨rest, reservation⟩
  | further => exact ⟨rest, reservation⟩

theorem AppliedFill.keeps {num : Numeric} {event : BrokerExecutionEvent}
    (t : AppliedFill num db event)
    (grid : num.Grid) (sound : db.Sound num) (whole : db.Unrounded num)
    (keeps : Op.Unrounded num db (.processEvent event)) :
    num.Keeps t.final.remainingQuantity ∧ num.Keeps t.final.reservation := by
  have mem := Table.mem_of_find t.found
  obtain ⟨quantity, notional⟩ := keeps t.isFill
  obtain ⟨-, booked⟩ := Order.bookFill_ok t.book
  have working : t.booked.status ∈ workingStatuses := t.booked_status ▸ t.working
  refine t.conclude.keeps working ?_ ?_
  · rw [booked]
    exact grid.sub (sound.order_keeps mem).2 quantity
  · cases side : t.order.side with
    | sell =>
      have same : t.booked.side = .sell := by rw [booked]; exact side
      exact Order.reservation_of_sell same ▸ num.keeps_zero
    | buy =>
      have same : t.booked.side = .buy := by rw [booked]; exact side
      have before := whole t.order mem
      rw [Order.reservation_of_buy side t.working] at before
      rw [Order.reservation_of_buy same working, booked]
      simp only [sub_mul]
      exact grid.sub before (notional t.order t.found side)

theorem Change.balanced_unrounded {S : Deployment} {op : Op} (h : Change S db op db')
    (grid : S.num.Grid) (sound : db.Sound S.num) (decided : db.Decided) (whole : db.Unrounded S.num)
    (keeps : op.Unrounded S.num db) :
    (∃ k, (k = none ∨ k = op.orderId) ∧ Balanced db db' k) ∧ db'.Unrounded S.num := by
  -- an order `o` with its account `a`, replaced by `o'` and `a'`
  have replaced : ∀ {k : UUID} {o o' : Order} {a a' : Account}, op.orderId = some k →
      db.orders.find k = some o → o.Frozen o' → db.accounts.find o.accountId = some a →
      a'.id = a.id → db'.orders = db.orders.put (o'.stored S.num) →
      db'.accounts = db.accounts.put (a'.stored S.num) →
      a'.reservedCash = a.reservedCash - o.reservation + o'.reservation →
      o'.reservation ≤ o.reservation → S.num.Keeps o'.remainingQuantity →
      S.num.Keeps o'.reservation →
      (∃ k, (k = none ∨ k = op.orderId) ∧ Balanced db db' k) ∧ db'.Unrounded S.num := by
    intro k o o' a a' names found frozen accountFound id orders accounts moves falls rest kept
    have mem := Table.mem_of_find found
    have key : (o'.stored S.num).id = k := frozen.id.trans (Table.find_key found)
    have price : S.num.Keeps o'.price := frozen.price.symm ▸ (sound.order_keeps mem).1
    have same : (o'.stored S.num).reservation = o'.reservation :=
      Order.stored_reservation (fun _ => rest) price
    have only : ∀ p, db.orders.find (o'.stored S.num).id = some p → o = p := fun p hp => by
      rw [key, found] at hp
      exact Option.some.inj hp
    refine ⟨⟨_, Or.inr names.symm, ?_⟩, ?_⟩
    · rw [← key]
      have owner : o'.accountId = o.accountId := frozen.accountId
      refine .both (owner ▸ accountFound) orders accounts (fun p hp => only p hp ▸ owner.symm) id ?_
        fun p hp => only p hp ▸ same.trans_le falls
      have reserved : S.num.Keeps a'.reservedCash := by
        rw [moves]
        exact grid.add
          (grid.sub (sound.account_keeps (Table.mem_of_find accountFound)) (whole o mem))
          kept
      rw [show (a'.stored S.num).reservedCash = a'.reservedCash from reserved, moves, same,
        Db.reservationOf, key, found]
      rfl
    · unfold Db.Unrounded
      rw [orders]
      exact Table.forall_put (same.symm ▸ kept) whole
  -- a new order `o'`, on its account `a`
  have placed : ∀ {draw : CreateDraw} {payload : OrderCreate}
      (t : Placement db S.settings draw payload) {o' : Order} {a' : Account},
      (t.order.stored S.num).refusal S.num db = none → op.orderId = some draw.orderId →
      o'.id = draw.orderId → o'.accountId = payload.accountId → a'.id = t.account.id →
      db'.orders = db.orders.put (o'.stored S.num) →
      db'.accounts = db.accounts.put (a'.stored S.num) →
      a'.reservedCash = t.account.reservedCash + o'.reservation →
      (o'.status ∈ workingStatuses → S.num.Keeps o'.remainingQuantity) → S.num.Keeps o'.price →
      S.num.Keeps o'.reservation →
      (∃ k, (k = none ∨ k = op.orderId) ∧ Balanced db db' k) ∧ db'.Unrounded S.num := by
    intro draw payload t o' a' inserted names key owner id orders accounts moves rest price kept
    have unplaced := t.unplaced inserted
    have same : (o'.stored S.num).reservation = o'.reservation :=
      Order.stored_reservation rest price
    refine ⟨⟨_, Or.inr names.symm, ?_⟩, ?_⟩
    · rw [← key] at unplaced ⊢
      refine @Balanced.both _ _ (o'.stored S.num) _ _ (owner ▸ t.accountFound) orders accounts
        (fun p hp => absurd (unplaced.symm.trans hp) (by simp)) id ?_
        (fun p hp => absurd (unplaced.symm.trans hp) (by simp))
      have reserved : S.num.Keeps a'.reservedCash := by
        rw [moves]
        exact grid.add (sound.account_keeps (Table.mem_of_find t.accountFound)) kept
      rw [show (a'.stored S.num).reservedCash = a'.reservedCash from reserved, moves, same,
        Db.reservationOf, Order.stored_id, unplaced, Option.elim_none, sub_zero]
    · unfold Db.Unrounded
      rw [orders]
      exact Table.forall_put (same.symm ▸ kept) whole
  cases h with
  | unchanged | ignored => exact ⟨⟨none, Or.inl rfl, .untouched rfl rfl⟩, whole⟩
  | ticked => exact ⟨⟨none, Or.inl rfl, .untouched rfl rfl⟩, whole⟩
  | @refused draw payload t inserted short =>
    have nothing : t.rejected.reservation = 0 := Order.reservation_moved (by decide) _
    refine placed t inserted rfl rfl rfl rfl (by simp) (by simp) ?_ ?_
      (grid.places payload.price_places) (nothing ▸ S.num.keeps_zero)
    · rw [nothing, add_zero]
    · intro working
      exact absurd (show OrderStatus.rejected ∈ workingStatuses from working) (by decide)
  | @routed draw payload t inserted covered kept =>
    refine placed t inserted rfl rfl rfl t.charged_id (by simp) (by simp) t.charged_reserved
      (fun _ => grid.places payload.quantity_places) (grid.places payload.price_places) ?_
    cases side : payload.side with
    | sell =>
      exact Order.reservation_of_sell (show t.routed.side = .sell from side) ▸ S.num.keeps_zero
    | buy =>
      rw [Order.reservation_of_buy (show t.routed.side = .buy from side)
        (show OrderStatus.routed ∈ workingStatuses by decide)]
      exact keeps side
  | filled t =>
    obtain ⟨rest, kept⟩ := t.keeps grid sound whole keeps
    exact replaced rfl t.found t.frozen t.accountFound
      ((t.conclude.account_id).trans (Account.settleFill_id t.settle)) (by simp [AppliedFill.after])
      (by simp [AppliedFill.after]) t.moves
      (t.falls (sound.price_pos (Table.mem_of_find t.found)).le) rest kept
  | @released event order final account left record found unprocessed accountFound becomes release
      accepted =>
    have rest : S.num.Keeps final.remainingQuantity := by
      cases becomes with
      | rejected => exact (sound.order_keeps (Table.mem_of_find found)).2
      | cancelled => exact S.num.keeps_zero
    exact replaced rfl found becomes.frozen accountFound (releaseRemainingReservation_id release)
      (by simp) (by simp)
      (becomes.moves (sound.remaining_nonneg (Table.mem_of_find found)) release)
      (becomes.reservation_eq ▸ sound.reservation_nonneg (Table.mem_of_find found)) rest
      (becomes.reservation_eq ▸ S.num.keeps_zero)
  | @cancelRequested orderId reason order found cancellable =>
    have key : order.id = orderId := Table.find_key found
    have mem := Table.mem_of_find found
    have working := decided.working mem cancellable
    have here : db.orders.find ((order.moved .cancelPending).stored S.num).id = some order :=
      (congrArg db.orders.find key).trans found
    have same : ((order.moved .cancelPending).stored S.num).reservation = order.reservation := by
      rw [Order.stored_reservation (o := order.moved .cancelPending)
        (fun _ => (sound.order_keeps mem).2) (sound.order_keeps mem).1]
      exact Order.reservation_moved_working working (by decide)
    refine ⟨⟨some ((order.moved .cancelPending).stored S.num).id, Or.inr (congrArg some key),
      .order here (by simp [Db.logged, Db.flushed, Instance.of]) rfl rfl same⟩, ?_⟩
    exact Table.forall_put (same.symm ▸ whole order mem) whole
  | @routingFailed orderId reason order account found wasRouted accountFound kept =>
    have frozen : order.Frozen ((order.unroutable reason).moved .rejected) :=
      ⟨rfl, rfl, rfl, rfl, rfl, rfl, rfl, rfl, rfl, rfl⟩
    have nothing : ((order.unroutable reason).moved .rejected).reservation = 0 :=
      Order.reservation_moved (by decide) _
    refine replaced rfl found frozen accountFound (account.refund_id order) (by simp)
      (by simp) ?_ ?_
      (sound.order_keeps (Table.mem_of_find found)).2 (nothing ▸ S.num.keeps_zero)
    · rw [Account.refund_reserved wasRouted, nothing, add_zero]
    · rw [nothing]
      exact sound.reservation_nonneg (Table.mem_of_find found)

theorem Change.balanced {op : Op} (h : Change (.exact settings upper) db op db')
    (sound : db.Sound .exact) (decided : db.Decided) :
    ∃ k, (k = none ∨ k = op.orderId) ∧ Balanced db db' k :=
  (h.balanced_unrounded Numeric.exact_grid sound decided (fun _ _ => Numeric.exact_keeps _)
    op.unrounded_exact).1

theorem Balanced.reserved {k : Option UUID} (h : Balanced db db' k) (reserved : db.Reserved) :
    db'.Reserved := by
  cases h with
  | untouched orders accounts =>
    unfold Db.Reserved
    rw [orders, accounts]
    exact reserved
  | @order o o' found orders accounts accountId reservation =>
    intro a ha
    rw [accounts] at ha
    have same : o'.reservationIn a.id = o.reservationIn a.id := by
      simp [Order.reservationIn, accountId, reservation]
    rw [orders, Table.total_put_of_find _ found, same, sub_add_cancel]
    exact reserved a ha
  | @both o' a a' found orders accounts owner id moves =>
    intro b hb
    rw [accounts] at hb
    have holder : a.id = o'.accountId := Table.find_key found
    -- the row that `o'` replaces is an order of the same account
    have replaced : (db.orders.find o'.id).elim 0 (Order.reservationIn b.id) =
        if o'.accountId = b.id then db.reservationOf o'.id else 0 := by
      unfold Db.reservationOf
      cases was : db.orders.find o'.id with
      | none => simp
      | some o => simp [Order.reservationIn, owner o was]
    rw [orders, Table.total_put, replaced]
    rcases Table.mem_put.1 hb with rfl | ⟨mem, other⟩
    · have mine : o'.accountId = b.id := holder.symm.trans id.symm
      rw [moves, reserved a (Table.mem_of_find found), id]
      simp [Order.reservationIn, mine, id]
    · have notMine : o'.accountId ≠ b.id :=
        fun mine => other (mine.symm.trans (holder.symm.trans id.symm))
      rw [reserved b mem]
      simp [Order.reservationIn, notMine]

def Db.reservedCash (db : Db) (accountId : UUID) : ℚ :=
  (db.accounts.find accountId).elim 0 Account.reservedCash

/-- The reserved cash that one operation frees in an account on behalf of the order `k`. -/
def released (S : Deployment) (accountId k : UUID) (db : Db) (op : Op) : ℚ :=
  if op.orderId = some k then db.reservedCash accountId - (step S db op).reservedCash accountId
  else 0

def Db.Books (db : Db) (accountId k : UUID) : Prop :=
  ∃ o, db.orders.find k = some o ∧ o.accountId = accountId

theorem Balanced.moved {op : Op} {k id accountId : UUID} (h : Balanced db db' (some id))
    (about : op.orderId = some id) (books : db.Books accountId k) :
    (if op.orderId = some k then db.reservedCash accountId - db'.reservedCash accountId else 0) =
      db.reservationOf k - db'.reservationOf k := by
  obtain ⟨o, found, owner⟩ := books
  have elsewhere : ∀ {o' : Order}, db'.orders = db.orders.put o' → o'.id ≠ k →
      db'.reservationOf k = db.reservationOf k := fun orders other => by
    rw [Db.reservationOf, orders, Table.find_put_of_ne other, Db.reservationOf]
  rw [about]
  cases h with
  | @order p o' was orders accounts accountId' reservation =>
    by_cases key : o'.id = k
    · have after : db'.reservationOf k = o'.reservation := by
        rw [Db.reservationOf, orders, Table.find_put_of_eq key, Option.elim_some]
      have before : db.reservationOf k = p.reservation := by
        rw [Db.reservationOf, ← key, was, Option.elim_some]
      rw [if_pos (congrArg some key), after, before, reservation, Db.reservedCash, Db.reservedCash,
        accounts]
      ring
    · rw [if_neg (by simpa using key), elsewhere orders key, sub_self]
  | @both o' a a' accountFound orders accounts owned same moves =>
    by_cases key : o'.id = k
    · have holder : o'.accountId = accountId := owner ▸ (owned o (key ▸ found)).symm
      have after : db'.reservationOf k = o'.reservation := by
        rw [Db.reservationOf, orders, Table.find_put_of_eq key, Option.elim_some]
      have cash : db'.reservedCash accountId = a'.reservedCash := by
        rw [Db.reservedCash, accounts, Table.find_put_of_eq, Option.elim_some]
        rw [same, Table.find_key accountFound, holder]
      rw [if_pos (congrArg some key), after, cash, moves, Db.reservedCash, ← holder, accountFound,
        Option.elim_some, key]
      ring
    · rw [if_neg (by simpa using key), elsewhere orders key, sub_self]

theorem Balanced.falls {k : UUID} {touched : Option UUID} (h : Balanced db db' touched)
    (exists_ : (db.orders.find k).isSome) : db'.reservationOf k ≤ db.reservationOf k := by
  obtain ⟨o, found⟩ := Option.isSome_iff_exists.1 exists_
  cases h with
  | untouched orders accounts => rw [Db.reservationOf, orders, Db.reservationOf]
  | @order p o' was orders accounts accountId reservation =>
    unfold Db.reservationOf
    rw [orders]
    by_cases key : o'.id = k
    · rw [Table.find_put_of_eq key, ← key, was]
      exact reservation.le
    · rw [Table.find_put_of_ne key]
  | @both o' a a' accountFound orders accounts owned same moves falls =>
    unfold Db.reservationOf
    rw [orders]
    by_cases key : o'.id = k
    · rw [Table.find_put_of_eq key, found]
      exact falls o (key ▸ found)
    · rw [Table.find_put_of_ne key]

theorem Db.Reserved.covers {num : Numeric} (h : db.Reserved) (sound : db.Sound num) {o : Order}
    {a : Account} (mem : o ∈ db.orders.rows)
    (accountFound : db.accounts.find o.accountId = some a) :
    o.reservation ≤ a.reservedCash := by
  have owner := Table.find_key accountFound
  rw [h a (Table.mem_of_find accountFound)]
  have nonneg : ∀ p ∈ db.orders.rows, 0 ≤ p.reservationIn a.id := fun p hp => by
    unfold Order.reservationIn
    split_ifs
    · exact sound.reservation_nonneg hp
    · exact le_refl 0
  have := Table.le_total nonneg mem
  rwa [Order.reservationIn, if_pos owner.symm] at this

/-- The states of a run: sound, reconciled, and with no half-placed order. -/
structure Db.Reconciled (db : Db) : Prop where
  sound : db.Sound .exact
  reserved : db.Reserved
  decided : db.Decided

theorem Db.Fresh.reconciled (fresh : db.Fresh .exact) : db.Reconciled where
  sound := fresh.sound
  reserved a ha := by
    rw [fresh.unreserved a ha, Table.total_eq_zero]
    simp [fresh.orders]
  decided := by simp [Db.Decided, fresh.orders]

theorem Db.Reconciled.step (h : db.Reconciled) (op : Op) :
    (step (.exact settings upper) db op).Reconciled := by
  have change := step_change (.exact settings upper) h.sound op
  obtain ⟨k, -, balanced⟩ := change.balanced h.sound h.decided
  exact ⟨change.sound h.sound, balanced.reserved h.reserved, change.decided h.decided⟩

theorem step_released (h : db.Reconciled) {accountId k : UUID} (books : db.Books accountId k)
    (op : Op) :
    released (.exact settings upper) accountId k db op =
      db.reservationOf k - (step (.exact settings upper) db op).reservationOf k := by
  obtain ⟨touched, names, balanced⟩ :=
    (step_change (.exact settings upper) h.sound op).balanced h.sound h.decided
  unfold released
  cases touched with
  | none =>
    cases balanced with
    | untouched orders accounts =>
      simp only [Db.reservedCash, accounts, sub_self, ite_self, Db.reservationOf, orders]
  | some id =>
    exact balanced.moved (names.resolve_left (by simp)).symm books

theorem step_released_nonneg (h : db.Reconciled) {accountId k : UUID} (books : db.Books accountId k)
    (op : Op) : 0 ≤ released (.exact settings upper) accountId k db op := by
  obtain ⟨touched, -, balanced⟩ :=
    (step_change (.exact settings upper) h.sound op).balanced h.sound h.decided
  rw [step_released h books]
  obtain ⟨o, found, -⟩ := books
  exact sub_nonneg.2 (balanced.falls (by simp [found]))

theorem step_books {S : Deployment} (sound : db.Sound S.num) {accountId k : UUID}
    (books : db.Books accountId k) (op : Op) : (step S db op).Books accountId k := by
  obtain ⟨o, found, owner⟩ := books
  obtain ⟨o', found', frozen⟩ := ((step_change S sound op).amended sound).order_frozen found
  exact ⟨o', found', frozen.accountId.trans owner⟩

theorem routed_reservation {draw : CreateDraw} {payload : OrderCreate} {o : Order}
    (h : db.Reconciled) (unplaced : db.orders.find draw.orderId = none)
    (placed : (step (.exact settings upper) db (.createOrder draw payload)).orders.find
      draw.orderId = some o) (routed : o.status = .routed) :
    o.id = draw.orderId ∧ o.reservation = if o.side = .buy then o.quantity * o.price else 0 := by
  have change := step_change (.exact settings upper) h.sound (.createOrder draw payload)
  generalize step (.exact settings upper) db (.createOrder draw payload) = db' at change placed
  cases change with
  | unchanged => exact absurd (unplaced.symm.trans placed) (by simp)
  | refused t inserted short =>
    have row := Table.find_put_self db.orders t.rejected
    simp only [Db.booked_orders, Deployment.exact_num, Order.stored_exact] at placed
    obtain rfl : t.rejected = o := Option.some.inj (row.symm.trans placed)
    cases routed
  | routed t inserted covered kept =>
    have row := Table.find_put_self db.orders t.routed
    simp only [Db.booked_orders, Deployment.exact_num, Order.stored_exact] at placed
    obtain rfl : t.routed = o := Option.some.inj (row.symm.trans placed)
    refine ⟨rfl, ?_⟩
    have working : t.routed.status ∈ workingStatuses := by
      rw [routed]
      decide
    split_ifs with buy
    · exact Order.reservation_of_buy buy working
    · simp [Order.reservation, buy]

theorem reservationOf_done {k : UUID} {o : Order} (found : db.orders.find k = some o)
    (done : o.status ∈ terminalOrderStatuses) : db.reservationOf k = 0 := by
  rw [Db.reservationOf, found]
  refine Order.reservation_of_done ?_
  revert done
  cases o.status <;> decide

/-- The guards against an inconsistent reservation never fire. -/
theorem EventFailure.consistent {event : BrokerExecutionEvent} {f : Failure} (h : db.Reconciled)
    (failed : EventFailure .exact db event f) :
    f ≠ .domain (.invalidFill "Reserved cash is inconsistent with the order") := by
  have covers : ∀ {o : Order} {a : Account} {k : UUID}, db.orders.find k = some o →
      db.accounts.find o.accountId = some a → o.reservation ≤ a.reservedCash :=
    fun found accountFound => h.reserved.covers h.sound (Table.mem_of_find found) accountFound
  have row : f.isRefusal = true →
      f ≠ .domain (.invalidFill "Reserved cash is inconsistent with the order") := by
    rintro refused rfl
    cases refused
  cases failed with
  | orderNotFound => simp
  | accountNotFound => simp
  | book t error =>
    obtain ⟨-, rfl⟩ := Order.bookFill_error error
    simp
  | bookedRow t book refused => exact row (Order.violation_isRefusal refused)
  | fillRow t refused => exact row (Fill.refusal_isRefusal refused)
  | settle t accountFound error =>
    obtain ⟨buy, ⟨short, -⟩ | ⟨-, rfl⟩⟩ := Account.settleFill_error error
    · have enough := covers t.found accountFound
      rw [Order.reservation_of_buy buy t.working] at enough
      have part := mul_le_mul_of_nonneg_right t.covered
        (h.sound.price_pos (Table.mem_of_find t.found)).le
      exact absurd (part.trans enough) (not_le.2 short)
    · decide
  | settledRow t refused => exact row refused.isRefusal
  | openedRow t refused => exact row (Position.violation_isRefusal refused)
  | execute t error =>
    obtain ⟨r, executed⟩ := t.held.executed_total t.order.side t.price t.mark t.positive
    exact absurd (error.symm.trans executed) (by simp)
  | executedRow t execute refused => exact row refused.isRefusal
  | releaseRest t rest ioc error =>
    obtain ⟨buy, -, short, -⟩ := releaseRemainingReservation_error error
    obtain ⟨-, booked⟩ := Order.bookFill_ok t.book
    have working : t.booked.status ∈ workingStatuses := by rw [booked]; exact t.working
    have enough := covers t.found t.accountFound
    have settled := t.moves
    rw [Order.reservation_of_buy buy working] at settled
    exact absurd short (not_lt.2 (by linarith))
  | concludedRow t execute conclude refused => exact row refused.isRefusal
  | release found unprocessed accountFound becomes error =>
    obtain ⟨buy, -, short, -⟩ := releaseRemainingReservation_error error
    have enough := covers found accountFound
    rw [Order.reservation_of_buy buy becomes.working] at enough
    exact absurd enough (not_le.2 short)
  | releasedRow found unprocessed accountFound becomes release refused =>
    exact row refused.isRefusal

/-- In every run from freshly created accounts, reserved cash is the sum of what the
working BUY orders of the account reserve, no event is refused for an inconsistent
reservation, and what a routed order has reserved is released once. -/
theorem run_reservedCash {db₀ : Db} (fresh : db₀.Fresh .exact) (ops : List Op) :
    let S := Deployment.exact settings upper
    let db := run (step S) db₀ ops
    (∀ a ∈ db.accounts.rows, a.reservedCash = db.orders.total fun o =>
      if o.accountId = a.id then
        if o.side = .buy ∧ o.status ∈ [.routed, .partiallyFilled, .cancelPending] then
          o.remainingQuantity * o.price
        else 0
      else 0) ∧
    (∀ event, (processEvent event).run (postgres .exact) db ≠
      .error (.domain (.invalidFill "Reserved cash is inconsistent with the order"))) ∧
    ∀ draw payload o, db.orders.find draw.orderId = none →
      let placed := step S db (.createOrder draw payload)
      placed.orders.find draw.orderId = some o → o.status = .routed →
      ∀ after, let now := run (step S) placed after
        Along (step S) (fun db op => 0 ≤ released S o.accountId o.id db op) placed after ∧
        flow (step S) (released S o.accountId o.id) placed after + now.reservationOf o.id =
          (if o.side = .buy then o.quantity * o.price else 0) ∧
        ∀ o', now.orders.find o.id = some o' → o'.status ∈ terminalOrderStatuses →
          now.reservationOf o.id = 0 := by
  intro S db
  have reconciled : db.Reconciled :=
    run_invariant Db.Reconciled (fun _ op h => h.step op) fresh.reconciled
  refine ⟨reconciled.reserved, fun event raised => ?_, ?_⟩
  · exact (wp_error _ (processEvent_spec reconciled.sound) raised).consistent reconciled rfl
  intro draw payload o unplaced placed found routed after now
  obtain ⟨id, reservation⟩ := routed_reservation reconciled unplaced found routed
  have start : placed.Reconciled ∧ placed.Books o.accountId o.id :=
    ⟨reconciled.step _, o, id ▸ found, rfl⟩
  have keeps : ∀ db op, db.Reconciled ∧ db.Books o.accountId o.id →
      (step S db op).Reconciled ∧ (step S db op).Books o.accountId o.id :=
    fun db op h => ⟨h.1.step op, step_books h.1.sound h.2 op⟩
  let Inv (db : Db) : Prop := db.Reconciled ∧ db.Books o.accountId o.id
  refine ⟨along_of_invariant Inv keeps (fun db op h => step_released_nonneg h.1 h.2 op) start, ?_,
    fun o' found' done => reservationOf_done found' done⟩
  rw [flow_eq_fall Inv keeps (fun db op h => step_released h.1 h.2 op) start, sub_add_cancel,
    Db.reservationOf, id, found]
  exact reservation

theorem run_reservedCash_limitBuy :
    let db := run (step (.exact {} id)) (traderDb .exact) [.createOrder ⟨2, 0⟩ limitBuy]
    db.reservedCash 1 = 200 ∧ db.Reserved :=
  ⟨by decide +kernel, (run_reservedCash (openAccounts_fresh _ _) _).1⟩

end Steps

end OrderManagement
