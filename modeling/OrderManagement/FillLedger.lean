import OrderManagement.CashReservation

/-! The ledger of fills. The quantities and averages of orders, the cash of accounts
and the net quantities of positions are all sums over the table of fills. -/

namespace OrderManagement

open Program TransitionRuns

/-- Sum over the fills of a quantity of each fill and its order. -/
def Db.fillTotal (db : Db) (weight : Order → Fill → ℚ) : ℚ :=
  db.fills.total fun f => (db.orders.find f.orderId).elim 0 (weight · f)

def bought (accountId : UUID) (o : Order) (f : Fill) : ℚ :=
  if o.accountId = accountId ∧ o.side = .buy then f.quantity * f.price else 0

def sold (accountId : UUID) (o : Order) (f : Fill) : ℚ :=
  if o.accountId = accountId ∧ o.side = .sell then f.quantity * f.price else 0

def exposure (holding : UUID × String) (o : Order) (f : Fill) : ℚ :=
  if (o.accountId, o.symbol) = holding then signedFill o.side f.quantity else 0

def Db.filledOf (db : Db) (k : UUID) : ℚ :=
  db.fills.total fun f => if f.orderId = k then f.quantity else 0

def Db.valueOf (db : Db) (k : UUID) : ℚ :=
  db.fills.total fun f => if f.orderId = k then f.quantity * f.price else 0

def Position.book (p : Position) : ℚ × ℚ × ℚ := (p.netQuantity, p.averageEntryPrice, p.realizedPnl)

/-- A change without a fill: no order, account or position moves in the ledger. -/
structure Quiet (db db' : Db) : Prop where
  fills : db'.fills = db.fills
  orders : ∀ o' ∈ db'.orders.rows,
    (db.orders.find o'.id = none ∧ o'.filledQuantity = 0 ∧ o'.averageFillPrice = none) ∨
    ∃ o ∈ db.orders.rows, o'.id = o.id ∧ o'.filledQuantity = o.filledQuantity ∧
      o'.averageFillPrice = o.averageFillPrice
  accounts : ∀ a' ∈ db'.accounts.rows, ∃ a ∈ db.accounts.rows,
    a'.id = a.id ∧ a'.cashBalance = a.cashBalance
  positions :
    ∀ h, (db'.positions.find h).map Position.book = (db.positions.find h).map Position.book

section Steps

variable {settings : Settings} {upper : String → String} {db db' : Db}

theorem Account.refund_cash (a : Account) (o : Order) :
    (a.refund o).cashBalance = a.cashBalance := by
  unfold Account.refund
  split_ifs <;> rfl

theorem Placement.charged_cash {draw : CreateDraw} {payload : OrderCreate}
    (t : Placement db settings draw payload) : t.charged.cashBalance = t.account.cashBalance := by
  unfold Placement.charged
  split_ifs <;> rfl

theorem markedTable_book {num : Numeric} {price : ℚ} {ps : List Position}
    {t : Table Position Position.holding} (kept : ∀ p ∈ ps, p.stored num = p)
    (found : ∀ p ∈ ps, t.find p.holding = some p) (nodup : (ps.map Position.holding).Nodup)
    (h : UUID × String) :
    ((markedTable num price ps t).find h).map Position.book = (t.find h).map Position.book := by
  rw [find_markedTable nodup found, Option.map_map]
  congr 1
  funext p
  dsimp only [Function.comp_apply]
  split_ifs with mem
  · have book : (p.stored num).book = p.book := congrArg Position.book (kept p mem)
    exact book
  · rfl

theorem Quiet.of_orders {o' : Order} (fills : db'.fills = db.fills)
    (accounts : db'.accounts = db.accounts) (positions : db'.positions = db.positions)
    (orders : db'.orders = db.orders.put o') {o : Order} {k : UUID}
    (found : db.orders.find k = some o) (id : o'.id = o.id)
    (filled : o'.filledQuantity = o.filledQuantity)
    (average : o'.averageFillPrice = o.averageFillPrice) : Quiet db db' where
  fills := fills
  orders := by
    rw [orders]
    exact Table.forall_put (Or.inr ⟨o, Table.mem_of_find found, id, filled, average⟩)
      fun p mem => Or.inr ⟨p, mem, rfl, rfl, rfl⟩
  accounts := by
    rw [accounts]
    exact fun a mem => ⟨a, mem, rfl, rfl⟩
  positions h := by rw [positions]

theorem Order.stored_fills {num : Numeric} {o : Order} (kept : o.stored num = o) (o' : Order)
    (filled : o'.filledQuantity = o.filledQuantity)
    (average : o'.averageFillPrice = o.averageFillPrice) :
    (o'.stored num).filledQuantity = o.filledQuantity ∧
      (o'.stored num).averageFillPrice = o.averageFillPrice :=
  ⟨(congrArg num.round filled).trans (congrArg Order.filledQuantity kept),
    (congrArg (Option.map num.round) average).trans (congrArg Order.averageFillPrice kept)⟩

theorem Quiet.of_booked {num : Numeric} {o' : Order} {a a' : Account} {es : List OrderEvent}
    {k : UUID}
    (order : (db.orders.find o'.id = none ∧ o'.filledQuantity = 0 ∧ o'.averageFillPrice = none) ∨
      ∃ o ∈ db.orders.rows, o'.id = o.id ∧ o.stored num = o ∧ o'.filledQuantity = o.filledQuantity ∧
        o'.averageFillPrice = o.averageFillPrice)
    (found : db.accounts.find k = some a) (kept : a.stored num = a) (id : a'.id = a.id)
    (cash : a'.cashBalance = a.cashBalance) : Quiet db (db.booked num o' a' none es) where
  fills := rfl
  orders := by
    rw [Db.booked_orders]
    refine Table.forall_put ?_ fun p mem => Or.inr ⟨p, mem, rfl, rfl, rfl⟩
    rcases order with ⟨new, filled, average⟩ | ⟨o, mem, id, kept, filled, average⟩
    · refine Or.inl ⟨new, ?_, ?_⟩
      · exact (congrArg num.round filled).trans num.round_zero
      · exact congrArg (Option.map num.round) average
    · exact Or.inr ⟨o, mem, id, Order.stored_fills kept _ filled average⟩
  accounts := by
    rw [Db.booked_accounts]
    refine Table.forall_put ⟨a, Table.mem_of_find found, id, ?_⟩ fun b mem => ⟨b, mem, rfl, rfl⟩
    exact (congrArg num.round cash).trans (congrArg Account.cashBalance kept)
  positions h := rfl

theorem Quiet.of_rows (fills : db'.fills = db.fills) (orders : db'.orders = db.orders)
    (accounts : db'.accounts = db.accounts) (positions : ∀ h,
      (db'.positions.find h).map Position.book = (db.positions.find h).map Position.book) :
    Quiet db db' where
  fills := fills
  orders := by
    rw [orders]
    exact fun o mem => Or.inr ⟨o, mem, rfl, rfl, rfl⟩
  accounts := by
    rw [accounts]
    exact fun a mem => ⟨a, mem, rfl, rfl⟩
  positions := positions

theorem Quiet.recorded (h : Quiet db db') (event : BrokerExecutionEvent) (verdict : Verdict) :
    Quiet db (db'.recorded event verdict) := ⟨h.fills, h.orders, h.accounts, h.positions⟩

theorem Change.quiet_or_filled {S : Deployment} {op : Op} (h : Change S db op db')
    (sound : db.Sound S.num) : Quiet db db' ∨
      ∃ event, ∃ t : AppliedFill S.num db event, op = .processEvent event ∧ db' = t.after := by
  have account : ∀ {k : UUID} {a : Account}, db.accounts.find k = some a → a.stored S.num = a :=
    fun found => (sound.accounts _ (Table.mem_of_find found)).1
  have order : ∀ {k : UUID} {o : Order}, db.orders.find k = some o →
      o ∈ db.orders.rows ∧ o.stored S.num = o :=
    fun found => ⟨Table.mem_of_find found, (sound.orders _ (Table.mem_of_find found)).1⟩
  cases h with
  | unchanged => exact Or.inl (.of_rows rfl rfl rfl fun _ => rfl)
  | refused t inserted short =>
    exact Or.inl (.of_booked (Or.inl ⟨t.unplaced inserted, rfl, rfl⟩) t.accountFound
      (account t.accountFound) rfl rfl)
  | routed t inserted covered kept =>
    exact Or.inl (.of_booked (Or.inl ⟨t.unplaced inserted, rfl, rfl⟩) t.accountFound
      (account t.accountFound) t.charged_id t.charged_cash)
  | ignored => exact Or.inl (.of_rows rfl rfl rfl fun _ => rfl)
  | filled t => exact Or.inr ⟨_, t, rfl, rfl⟩
  | @released event o final a released record found unprocessed accountFound becomes release kept =>
    have row : final.id = o.id ∧ o.stored S.num = o ∧ final.filledQuantity = o.filledQuantity ∧
        final.averageFillPrice = o.averageFillPrice := by
      cases becomes <;> exact ⟨rfl, (order found).2, rfl, rfl⟩
    exact Or.inl ((Quiet.of_booked (Or.inr ⟨o, (order found).1, row⟩) accountFound
      (account accountFound) (releaseRemainingReservation_id release)
      (releaseRemainingReservation_cash release)).recorded _ _)
  | @cancelRequested orderId reason o found cancellable =>
    have orders : (db.logged S.num { order := .of (o.moved .cancelPending) }
        [⟨o.id, .cancelRequested, some o.status, some .cancelPending,
          [("reason", .text reason)]⟩]).orders =
            db.orders.put ((o.moved .cancelPending).stored S.num) := by
      simp [Db.logged, Db.flushed, Instance.of]
    obtain ⟨filled, average⟩ :=
      Order.stored_fills (order found).2 (o.moved .cancelPending) rfl rfl
    exact Or.inl (.of_orders rfl rfl rfl orders found rfl filled average)
  | @routingFailed orderId reason o a found wasRouted accountFound kept =>
    exact Or.inl (.of_booked
      (Or.inr ⟨o, (order found).1, rfl, (order found).2, rfl, rfl⟩) accountFound
      (account accountFound) (a.refund_id o) (a.refund_cash o))
  | ticked kept marks =>
    refine Or.inl (.of_rows rfl rfl rfl
      fun h => markedTable_book (fun p hp => ?_) (fun p hp => ?_) ?_ h)
    · exact (sound.positions p (List.mem_filter.1 hp).1).1
    · exact Table.find_of_mem (List.mem_filter.1 hp).1
    · exact db.positions.nodup.sublist (List.filter_sublist.map _)

/-- A quantity of fills that depends on the written-once columns of their orders. -/
def FrozenWeight (weight : Order → Fill → ℚ) : Prop :=
  ∀ o o' f, o.Frozen o' → weight o' f = weight o f

theorem bought_frozen (accountId : UUID) : FrozenWeight (bought accountId) :=
  fun o o' f h => by simp [bought, h.accountId, h.side]

theorem sold_frozen (accountId : UUID) : FrozenWeight (sold accountId) :=
  fun o o' f h => by simp [sold, h.accountId, h.side]

theorem exposure_frozen (holding : UUID × String) : FrozenWeight (exposure holding) :=
  fun o o' f h => by simp [exposure, h.accountId, h.symbol, h.side]

/-- Orders only change in columns that are not written once. -/
def Db.Evolves (db db' : Db) : Prop :=
  ∀ k o, db.orders.find k = some o → ∃ o', db'.orders.find k = some o' ∧ o.Frozen o'

def Db.Linked (db : Db) : Prop := ∀ f ∈ db.fills.rows, (db.orders.find f.orderId).isSome

/-- Later states of the orders give the fills the same weights. -/
theorem fillTotal_evolves {weight : Order → Fill → ℚ} (frozen : FrozenWeight weight)
    (linked : db.Linked) (evolves : db.Evolves db') :
    (db.fills.total fun f => (db'.orders.find f.orderId).elim 0 (weight · f)) =
      db.fillTotal weight := by
  refine Table.total_congr fun f mem => ?_
  obtain ⟨o, found⟩ := Option.isSome_iff_exists.1 (linked f mem)
  obtain ⟨o', found', same⟩ := evolves _ o found
  rw [found, found', Option.elim_some, Option.elim_some, frozen o o' f same]

section Concluded

variable {data : EventData} {o o' : Order} {a a' : Account} {es : List OrderEvent}

theorem Concluded.averageFillPrice (h : Concluded data o a o' a' es) :
    o'.averageFillPrice = o.averageFillPrice := by
  cases h <;> rfl

theorem Concluded.cashBalance (h : Concluded data o a o' a' es) :
    a'.cashBalance = a.cashBalance := by
  cases h with
  | ioc rest ioc release => exact releaseRemainingReservation_cash release
  | filled | first | further => rfl

end Concluded

namespace AppliedFill

variable {num : Numeric} {event : BrokerExecutionEvent}

theorem unrecorded (t : AppliedFill num db event) : db.fills.find event.eventId = none :=
  (Fill.refusal_eq_none_iff.1 t.fillKept).2.1

section Exact

variable (t : AppliedFill .exact db event)

@[simp] theorem after_fills : t.after.fills = db.fills.put t.fill := by simp [after]

@[simp] theorem after_orders : t.after.orders = db.orders.put t.final := by simp [after]

@[simp] theorem after_accounts : t.after.accounts = db.accounts.put t.finalAccount := by
  simp [after]

@[simp] theorem after_positions : t.after.positions = db.positions.put t.executed := by
  simp [after]

end Exact

variable (t : AppliedFill num db event)

theorem final_id : t.final.id = event.orderId :=
  t.frozen.id.trans (Table.find_key t.found)

theorem final_average : ∃ average, t.final.averageFillPrice = some average ∧
    average * t.final.filledQuantity =
      t.order.averageFillPrice.getD 0 * t.order.filledQuantity +
      event.filledQuantity * t.price := by
  have same : t.final.averageFillPrice = t.booked.averageFillPrice :=
    t.conclude.averageFillPrice
  obtain ⟨nonzero, booked⟩ := Order.bookFill_ok t.book
  rw [t.final_filled, same, booked]
  refine ⟨_, rfl, ?_⟩
  rw [div_mul_cancel₀ _ nonzero]
  ring

theorem final_cash : t.finalAccount.cashBalance =
    t.account.cashBalance - bought t.order.accountId t.order t.fill +
      sold t.order.accountId t.order t.fill := by
  have same : t.finalAccount.cashBalance = t.settled.cashBalance :=
    t.conclude.cashBalance
  rw [same]
  rcases Account.settleFill_ok t.settle with ⟨buy, -, -, settled⟩ | ⟨sell, settled⟩
  · simp [settled, bought, sold, buy, FillAttempt.fill, newFill]
  · simp [settled, bought, sold, sell, FillAttempt.fill, newFill]

theorem finalAccount_id : t.finalAccount.id = t.order.accountId :=
  t.conclude.account_id.trans t.settled_id

theorem executed_net : t.executed.netQuantity =
    t.held.netQuantity + signedFill t.order.side event.filledQuantity := by
  obtain ⟨c, calculated, executed⟩ := Position.executed_ok t.execute
  rw [executed]
  exact calculatePositionAfterFill_net calculated

theorem executed_holding : t.executed.holding = (t.order.accountId, t.order.symbol) :=
  (Position.executed_holding t.execute).trans t.held_holding

theorem fills_after (kept : t.fill.stored num = t.fill) : t.after.fills = db.fills.put t.fill :=
  congrArg db.fills.put kept

theorem fillTotal_after {weight : Order → Fill → ℚ} (kept : t.fill.stored num = t.fill)
    (frozen : FrozenWeight weight) (linked : db.Linked) (evolves : db.Evolves t.after) :
    t.after.fillTotal weight = db.fillTotal weight + weight t.order t.fill := by
  have new : db.fills.find t.fill.brokerEventId = none := t.unrecorded
  unfold Db.fillTotal
  rw [t.fills_after kept, Table.total_put_of_new _ new, fillTotal_evolves frozen linked evolves]
  obtain ⟨o', here, later⟩ := evolves t.fill.orderId t.order
    ((congrArg db.orders.find (Table.find_key t.found)).trans t.found)
  rw [here, Option.elim_some, frozen _ _ _ later]
  rfl

theorem filledOf_after (kept : t.fill.stored num = t.fill) (k : UUID) : t.after.filledOf k =
    db.filledOf k + if t.order.id = k then event.filledQuantity else 0 := by
  have new : db.fills.find t.fill.brokerEventId = none := t.unrecorded
  unfold Db.filledOf
  rw [t.fills_after kept, Table.total_put_of_new _ new]
  rfl

theorem valueOf_after (kept : t.fill.stored num = t.fill) (k : UUID) : t.after.valueOf k =
    db.valueOf k + if t.order.id = k then event.filledQuantity * t.price else 0 := by
  have new : db.fills.find t.fill.brokerEventId = none := t.unrecorded
  unfold Db.valueOf
  rw [t.fills_after kept, Table.total_put_of_new _ new]
  rfl

end AppliedFill

structure Ledger (db₀ db : Db) : Prop where
  linked : db.Linked
  orders : ∀ o ∈ db.orders.rows, o.filledQuantity = db.filledOf o.id ∧
    o.averageFillPrice.getD 0 * o.filledQuantity = db.valueOf o.id ∧
    (o.averageFillPrice = none ↔ ∀ f ∈ db.fills.rows, f.orderId ≠ o.id)
  cash : ∀ a ∈ db.accounts.rows, ∃ a₀ ∈ db₀.accounts.rows, a₀.id = a.id ∧
    a.cashBalance = a₀.cashBalance - db.fillTotal (bought a.id) + db.fillTotal (sold a.id)
  held : ∀ h, (db.positions.find h).isSome ↔ ∃ f ∈ db.fills.rows, ∃ o,
    db.orders.find f.orderId = some o ∧ (o.accountId, o.symbol) = h
  net : ∀ p ∈ db.positions.rows, p.netQuantity = db.fillTotal (exposure p.holding)

variable {db₀ : Db}

/-- Whether a fill of some position is on the books does not change as orders evolve. -/
theorem Db.Evolves.fill_holding (evolves : db.Evolves db') (linked : db.Linked) {f : Fill}
    (mem : f ∈ db.fills.rows) (h : UUID × String) :
    (∃ o, db'.orders.find f.orderId = some o ∧ (o.accountId, o.symbol) = h) ↔
      ∃ o, db.orders.find f.orderId = some o ∧ (o.accountId, o.symbol) = h := by
  obtain ⟨o, found⟩ := Option.isSome_iff_exists.1 (linked f mem)
  obtain ⟨o', found', same⟩ := evolves _ o found
  simp [found, found', same.accountId, same.symbol]

theorem Ledger.quiet (ledger : Ledger db₀ db) (h : Quiet db db') (evolves : db.Evolves db') :
    Ledger db₀ db' := by
  have totals : ∀ {weight}, FrozenWeight weight → db'.fillTotal weight = db.fillTotal weight :=
    fun frozen => by
      rw [← fillTotal_evolves frozen ledger.linked evolves, Db.fillTotal, h.fills]
  have filledOf : ∀ k, db'.filledOf k = db.filledOf k := fun k => by
    rw [Db.filledOf, h.fills, Db.filledOf]
  have valueOf : ∀ k, db'.valueOf k = db.valueOf k := fun k => by
    rw [Db.valueOf, h.fills, Db.valueOf]
  refine ⟨fun f mem => ?_, fun o' mem => ?_, fun a' mem => ?_, fun k => ?_, fun p' mem => ?_⟩
  · rw [h.fills] at mem
    obtain ⟨o, found⟩ := Option.isSome_iff_exists.1 (ledger.linked f mem)
    obtain ⟨o', found', -⟩ := evolves _ o found
    simp [found']
  · rw [filledOf, valueOf, h.fills]
    rcases h.orders o' mem with ⟨new, filled, average⟩ | ⟨o, was, id, filled, average⟩
    · have none_ : ∀ f ∈ db.fills.rows, f.orderId ≠ o'.id := fun f hf same => by
        have := ledger.linked f hf
        rw [same, new] at this
        cases this
      rw [Db.filledOf, Db.valueOf, Table.total_eq_zero, Table.total_eq_zero]
      · simpa [filled, average] using none_
      · exact fun f hf => if_neg (none_ f hf)
      · exact fun f hf => if_neg (none_ f hf)
    · rw [id, filled, average]
      exact ledger.orders o was
  · obtain ⟨a, was, id, cash⟩ := h.accounts a' mem
    rw [totals (bought_frozen _), totals (sold_frozen _), cash, id]
    exact ledger.cash a was
  · rw [← Option.isSome_map, h.positions, Option.isSome_map, ledger.held, h.fills]
    exact exists_congr fun f => and_congr_right fun hf =>
      (evolves.fill_holding ledger.linked hf k).symm
  · have books := h.positions p'.holding
    rw [Table.find_of_mem mem, Option.map_some, eq_comm, Option.map_eq_some_iff] at books
    obtain ⟨p, found, same⟩ := books
    have net : p.netQuantity = p'.netQuantity := congrArg Prod.fst same
    rw [totals (exposure_frozen _), ← net, ← Table.find_key found]
    exact ledger.net p (Table.mem_of_find found)

theorem Ledger.fillTotal_unheld (ledger : Ledger db₀ db) {h : UUID × String}
    (unheld : db.positions.find h = none) : db.fillTotal (exposure h) = 0 := by
  refine Table.total_eq_zero fun f mem => ?_
  obtain ⟨o, found⟩ := Option.isSome_iff_exists.1 (ledger.linked f mem)
  have other : (o.accountId, o.symbol) ≠ h := fun same => by
    have := (ledger.held h).2 ⟨f, mem, o, found, same⟩
    rw [unheld] at this
    cases this
  simp [found, exposure, other]

theorem Ledger.filled {event : BrokerExecutionEvent} (ledger : Ledger db₀ db)
    (t : AppliedFill .exact db event) (evolves : db.Evolves t.after) : Ledger db₀ t.after := by
  have totals : ∀ {weight}, FrozenWeight weight →
      t.after.fillTotal weight = db.fillTotal weight + weight t.order t.fill :=
    fun frozen => t.fillTotal_after t.fill.stored_exact frozen ledger.linked evolves
  have key : t.order.id = event.orderId := Table.find_key t.found
  refine ⟨?_, ?_, ?_, fun k => ?_, ?_⟩
  · unfold Db.Linked
    rw [t.after_fills, t.after_orders]
    refine Table.forall_put ?_ fun f mem => Table.find_put_isSome _ (ledger.linked f mem)
    rw [Table.find_put_of_eq (show t.final.id = t.fill.orderId from t.frozen.id)]
    rfl
  · rw [t.after_orders]
    have booked := ledger.orders t.order (Table.mem_of_find t.found)
    intro o mem
    rw [t.filledOf_after t.fill.stored_exact, t.valueOf_after t.fill.stored_exact, t.after_fills]
    rcases Table.mem_put.1 mem with rfl | ⟨was, other⟩
    · obtain ⟨average, priced, value⟩ := t.final_average
      rw [t.frozen.id, if_pos rfl, if_pos rfl]
      refine ⟨by rw [t.final_filled, booked.1],
        by rw [priced, Option.getD_some, value, booked.2.1], ?_⟩
      simp only [priced, reduceCtorEq, false_iff, not_forall]
      exact ⟨t.fill, Table.mem_put_self _ _, fun ne => ne rfl⟩
    · have notHere : t.order.id ≠ o.id := fun same => other (same.symm.trans t.frozen.id.symm)
      rw [if_neg notHere, if_neg notHere, add_zero, add_zero]
      obtain ⟨filled, value, priced⟩ := ledger.orders o was
      refine ⟨filled, value, priced.trans ⟨fun none_ => ?_, fun none_ f hf => ?_⟩⟩
      · exact Table.forall_put notHere none_
      · by_cases same : f.brokerEventId = t.fill.brokerEventId
        · have new : db.fills.find t.fill.brokerEventId = none := t.unrecorded
          exact absurd same (Table.find_eq_none_iff.1 new f hf)
        · exact none_ f (Table.mem_put.2 (Or.inr ⟨hf, same⟩))
  · rw [t.after_accounts]
    intro a mem
    rw [totals (bought_frozen _), totals (sold_frozen _)]
    rcases Table.mem_put.1 mem with rfl | ⟨was, other⟩
    · obtain ⟨a₀, start, id, before⟩ := ledger.cash t.account (Table.mem_of_find t.accountFound)
      rw [Table.find_key t.accountFound] at id before
      refine ⟨a₀, start, id.trans t.finalAccount_id.symm, ?_⟩
      rw [t.final_cash, t.finalAccount_id, before]
      ring
    · have notMine : t.order.accountId ≠ a.id := fun same =>
        other (same.symm.trans t.finalAccount_id.symm)
      obtain ⟨a₀, start, id, before⟩ := ledger.cash a was
      exact ⟨a₀, start, id, by simp [before, bought, sold, notMine]⟩
  · have here : t.after.orders.find t.fill.orderId = some t.final := by
      rw [t.after_orders]
      exact Table.find_put_of_eq t.frozen.id
    have new : db.fills.find t.fill.brokerEventId = none := t.unrecorded
    have kept : ∀ f ∈ db.fills.rows, f ∈ (db.fills.put t.fill).rows := fun f mem =>
      Table.mem_put.2 (Or.inr ⟨mem, fun same => Table.find_eq_none_iff.1 new f mem same⟩)
    rw [t.after_positions, t.after_fills, Table.find_put, t.executed_holding]
    split_ifs with mine
    · refine iff_of_true rfl ⟨t.fill, Table.mem_put_self _ _, t.final, here, ?_⟩
      rw [t.frozen.accountId, t.frozen.symbol, mine]
    · rw [ledger.held]
      constructor
      · rintro ⟨f, mem, h⟩
        exact ⟨f, kept f mem, (evolves.fill_holding ledger.linked mem k).2 h⟩
      · rintro ⟨f, mem, h⟩
        rcases Table.mem_put.1 mem with rfl | ⟨was, -⟩
        · obtain ⟨o, found, holding⟩ := h
          rw [here, Option.some_inj] at found
          rw [← found, t.frozen.accountId, t.frozen.symbol] at holding
          exact absurd holding mine
        · exact ⟨f, was, (evolves.fill_holding ledger.linked was k).1 h⟩
  · rw [t.after_positions]
    intro p mem
    rw [totals (exposure_frozen _)]
    rcases Table.mem_put.1 mem with rfl | ⟨was, other⟩
    · have before : t.held.netQuantity =
          db.fillTotal (exposure (t.order.accountId, t.order.symbol)) := by
        rw [FillAttempt.held]
        cases found : db.positions.find (t.order.accountId, t.order.symbol) with
        | some p => exact Table.find_key found ▸ ledger.net p (Table.mem_of_find found)
        | none => exact (ledger.fillTotal_unheld found).symm
      rw [t.executed_net, t.executed_holding, before]
      simp [exposure, FillAttempt.fill, newFill]
    · have elsewhere : (t.order.accountId, t.order.symbol) ≠ p.holding := fun same =>
        other (same.symm.trans t.executed_holding.symm)
      rw [ledger.net p was]
      simp [exposure, elsewhere]

theorem Db.Fresh.ledger (fresh : db.Fresh .exact) :
    Ledger db db where
  linked := by simp [Db.Linked, fresh.fills]
  orders := by simp [fresh.orders]
  cash a mem := ⟨a, mem, rfl, by simp [Db.fillTotal, Table.total, fresh.fills]⟩
  held h := by
    have : db.positions.find h = none := Table.find_eq_none_iff.2 (by simp [fresh.positions])
    simp [this, fresh.fills]
  net := by simp [fresh.positions]

/-- In every run from freshly created accounts, orders, cash and positions are sums
over the table of fills. -/
theorem run_ledger (fresh : db₀.Fresh .exact) (ops : List Op) :
    let db := run (step (.exact settings upper)) db₀ ops
    (∀ o ∈ db.orders.rows,
      o.filledQuantity = (db.fills.total fun f => if f.orderId = o.id then f.quantity else 0) ∧
      o.averageFillPrice.getD 0 * o.filledQuantity =
        (db.fills.total fun f => if f.orderId = o.id then f.quantity * f.price else 0) ∧
      (o.averageFillPrice = none ↔ ∀ f ∈ db.fills.rows, f.orderId ≠ o.id)) ∧
    (∀ a ∈ db.accounts.rows, ∃ a₀ ∈ db₀.accounts.rows, a₀.id = a.id ∧
      a.cashBalance = a₀.cashBalance - db.fillTotal (bought a.id) + db.fillTotal (sold a.id)) ∧
    ∀ accountId symbol,
      ((∃ p ∈ db.positions.rows, p.accountId = accountId ∧ p.symbol = symbol) ↔
        ∃ f ∈ db.fills.rows, ∃ o ∈ db.orders.rows,
          o.id = f.orderId ∧ o.accountId = accountId ∧ o.symbol = symbol) ∧
      ∀ p ∈ db.positions.rows, p.accountId = accountId → p.symbol = symbol →
        p.netQuantity = db.fillTotal (exposure (accountId, symbol)) ∧
        ∀ q ∈ db.positions.rows, q.accountId = accountId → q.symbol = symbol → q = p := by
  intro db
  have ledger : Ledger db₀ db := by
    refine run_induction (.exact settings upper) (Ledger db₀) fresh.sound
      (fun db op db' sound ledger change => ?_) fresh.ledger
    have evolves : db.Evolves db' := fun k o found => (change.amended sound).order_frozen found
    rcases change.quiet_or_filled sound with quiet | ⟨event, t, -, rfl⟩
    · exact ledger.quiet quiet evolves
    · exact ledger.filled t evolves
  refine ⟨ledger.orders, ledger.cash, fun accountId symbol => ⟨?_, fun p mem account same => ?_⟩⟩
  · have held := ledger.held (accountId, symbol)
    rw [← Table.mem_keys_iff, List.mem_map] at held
    simpa [Position.holding, Table.find_eq_some_iff, and_assoc] using held
  · have holding : p.holding = (accountId, symbol) := Prod.ext account same
    refine ⟨holding ▸ ledger.net p mem, fun q qmem qaccount qsymbol => ?_⟩
    have key : q.holding = p.holding :=
      Prod.ext (qaccount.trans account.symm) (qsymbol.trans same.symm)
    exact List.inj_on_of_nodup_map db.positions.nodup qmem mem key

theorem run_ledger_partialFill :
    let db := run (step (.exact {} id)) (traderDb .exact)
      [.createOrder ⟨2, 0⟩ limitBuy, .processEvent partialFill]
    db.filledOf 2 = 4 ∧ db.valueOf 2 = 84 ∧
    ∀ o ∈ db.orders.rows, o.filledQuantity = db.filledOf o.id ∧
      o.averageFillPrice.getD 0 * o.filledQuantity = db.valueOf o.id ∧
      (o.averageFillPrice = none ↔ ∀ f ∈ db.fills.rows, f.orderId ≠ o.id) :=
  ⟨by decide +kernel, by decide +kernel, (run_ledger (openAccounts_fresh _ _) _).1⟩

end Steps

end OrderManagement
