import OrderManagement.FillGuards

/-! A fill cut into slices. What a fill leaves of an order, an account and a position is a
function of its quantity and price that adds up over slices at one price. -/

namespace OrderManagement

open Program TransitionRuns

def Order.unversioned (o : Order) : Order := { o with version := 0 }

def Account.unversioned (a : Account) : Account := { a with version := 0 }

def Order.afterFill (o : Order) (q price : ℚ) : Order :=
  { o with
    averageFillPrice :=
      some ((o.filledQuantity * o.averageFillPrice.getD 0 + q * price) / (o.filledQuantity + q))
    filledQuantity := o.filledQuantity + q
    remainingQuantity := o.remainingQuantity - q
    status := if o.remainingQuantity - q = 0 then .filled
      else if o.status = .routed then .partiallyFilled else o.status }

def Account.afterFill (a : Account) (o : Order) (q price : ℚ) : Account :=
  if o.side = .buy then
    { a with
      reservedCash := a.reservedCash - q * o.price
      cashBalance := a.cashBalance - q * price }
  else { a with cashBalance := a.cashBalance + q * price }

section Sums

variable {o : Order} {a : Account} {p r : Position} {q q' price mark : ℚ}

theorem Order.afterFill_add (filled : 0 ≤ o.filledQuantity) (hq : 0 < q)
    (rest : q < o.remainingQuantity) :
    (o.afterFill q price).afterFill q' price = o.afterFill (q + q') price := by
  have left : o.remainingQuantity - q ≠ 0 := (sub_pos.2 rest).ne'
  have first : o.filledQuantity + q ≠ 0 := (add_pos_of_nonneg_of_pos filled hq).ne'
  unfold afterFill
  simp only [Order.mk.injEq, Option.getD_some, left, if_false, true_and, and_true, add_assoc,
    sub_sub, Option.some.injEq]
  refine ⟨?_, ?_⟩
  · rw [mul_div_cancel₀ _ first]
    ring
  · split_ifs <;> simp_all

theorem Account.afterFill_add :
    (a.afterFill o q price).afterFill o q' price = a.afterFill o (q + q') price := by
  unfold afterFill
  split_ifs
  · simp only [Account.mk.injEq, true_and, and_true]
    exact ⟨by ring, by ring⟩
  · simp only [Account.mk.injEq, true_and, and_true]
    ring

theorem Position.executed_add {side : OrderSide} (hq : 0 < q) (hq' : 0 < q')
    (h : p.executed side q price mark = .ok r) :
    r.executed side q' price mark = p.executed side (q + q') price mark := by
  obtain ⟨c, hc, rfl⟩ := Position.executed_ok h
  unfold executed
  rw [calculatePositionAfterFill_add hq hq' hc]

end Sums

/-- The price at which a fill of the order marks the position. -/
def Db.markOf (db : Db) (o : Order) (price : ℚ) : ℚ :=
  ((db.marketPrices.find o.symbol).map MarketPrice.price).getD price

def Db.heldBy (db : Db) (o : Order) (price : ℚ) : Position :=
  (db.positions.find (o.accountId, o.symbol)).getD
    (.opened o.accountId o.symbol (db.markOf o price))

/-- `db'` is what a fill of the order leaves of `db`, as far as money and holdings go. -/
structure Filled (db db' : Db) (o : Order) (a : Account) (q price : ℚ) : Prop where
  order : ∃ o', db'.orders.find o.id = some o' ∧
    o'.unversioned = (o.afterFill q price).unversioned
  account : ∃ a', db'.accounts.find o.accountId = some a' ∧
    a'.unversioned = (a.afterFill o q price).unversioned
  position : ∃ r, (db.heldBy o price).executed o.side q price (db.markOf o price) = .ok r ∧
    db'.positions.find (o.accountId, o.symbol) = some r
  prices : db'.marketPrices = db.marketPrices

section Outcome

variable {db mid db' : Db} {o o' : Order} {a a' : Account} {q q' price : ℚ}
  {event : BrokerExecutionEvent}

theorem Concluded.resting {data : EventData} {es : List OrderEvent}
    (h : Concluded data o a o' a' es)
    (resting : o.timeInForce ≠ .ioc) : a' = a ∧
      o'.unversioned = { o with
        version := 0
        status := if o.remainingQuantity = 0 then .filled
          else if o.status = .routed then .partiallyFilled else o.status } := by
  cases h with
  | filled done => simp [Order.unversioned, Order.moved, done]
  | ioc _ ioc => exact absurd ioc resting
  | first rest _ routed => simp [Order.unversioned, Order.moved, rest, routed]
  | further rest _ notRouted => simp [Order.unversioned, rest, notRouted]

theorem Account.settleFill_unversioned {b : Account} (h : a.settleFill o q price = .ok b) :
    b.unversioned = (a.afterFill o q price).unversioned := by
  rcases Account.settleFill_ok h with ⟨buy, -, -, rfl⟩ | ⟨sell, rfl⟩
  · simp [afterFill, unversioned, buy]
  · simp [afterFill, unversioned, sell]

theorem AppliedFill.filled (u : AppliedFill .exact db event)
    (resting : u.order.timeInForce ≠ .ioc) :
    Filled db u.after u.order u.account event.filledQuantity u.price := by
  obtain ⟨-, booked⟩ := Order.bookFill_ok u.book
  obtain ⟨same, final⟩ := u.conclude.resting (by rw [booked]; exact resting)
  refine ⟨⟨u.final, ?_, ?_⟩, ⟨u.finalAccount, ?_, ?_⟩, ⟨u.executed, u.execute, ?_⟩, rfl⟩
  · simp only [AppliedFill.after, Db.recorded_orders, Db.booked_orders, Order.stored_exact]
    exact Table.find_put_of_eq u.frozen.id
  · rw [final, booked]
    rfl
  · simp only [AppliedFill.after, Db.recorded_accounts, Db.booked_accounts, Account.stored_exact]
    exact Table.find_put_of_eq (same ▸ u.settled_id)
  · rw [same]
    exact Account.settleFill_unversioned u.settle
  · simp only [AppliedFill.after, Db.recorded_positions, Db.booked_positions_some,
      Position.stored_exact]
    exact Table.find_put_of_eq ((Position.executed_holding u.execute).trans u.held_holding)

theorem Order.unversioned_afterFill :
    (o.afterFill q price).unversioned = o.unversioned.afterFill q price := rfl

theorem Account.unversioned_afterFill :
    (a.afterFill o q price).unversioned = a.unversioned.afterFill o q price := by
  unfold afterFill
  split_ifs <;> rfl

theorem Account.afterFill_of_order (side : o'.side = o.side) (limit : o'.price = o.price) :
    a.afterFill o' q price = a.afterFill o q price := by
  unfold afterFill
  rw [side, limit]

theorem Filled.trans {p : Order} {b : Account} (first : Filled db mid o a q price)
    (found : mid.orders.find o.id = some p) (accountFound : mid.accounts.find o.accountId = some b)
    (second : Filled mid db' p b q' price) (filled : 0 ≤ o.filledQuantity) (hq : 0 < q)
    (hq' : 0 < q') (rest : q < o.remainingQuantity) : Filled db db' o a (q + q') price := by
  obtain ⟨p', found', eq⟩ := first.order
  obtain rfl := Option.some.inj (found'.symm.trans found)
  obtain ⟨b', accountFound', accountEq⟩ := first.account
  obtain rfl := Option.some.inj (accountFound'.symm.trans accountFound)
  have columns :
      ∀ {β : Type} (f : Order → β), f p'.unversioned = f (o.afterFill q price).unversioned :=
    fun f => congrArg f eq
  have id : p'.id = o.id := columns Order.id
  have owner : p'.accountId = o.accountId := columns Order.accountId
  have symbol : p'.symbol = o.symbol := columns Order.symbol
  have side : p'.side = o.side := columns Order.side
  have limit : p'.price = o.price := columns Order.price
  obtain ⟨⟨o₂, orderFound, order⟩, ⟨a₂, accountFound₂, account⟩, ⟨r₂, execute, positionFound⟩,
    prices⟩ :=
    second
  refine ⟨⟨o₂, id ▸ orderFound, ?_⟩, ⟨a₂, owner ▸ accountFound₂, ?_⟩, ⟨r₂, ?_, ?_⟩,
    prices.trans first.prices⟩
  · rw [order, ← Order.afterFill_add filled hq rest, Order.unversioned_afterFill, eq,
      Order.unversioned_afterFill (o := o.afterFill q price)]
  · rw [account, ← Account.afterFill_add, Account.unversioned_afterFill, accountEq,
      Account.unversioned_afterFill (a := a.afterFill o q price),
      Account.afterFill_of_order side limit]
  · obtain ⟨r, executed, kept⟩ := first.position
    have mark : mid.markOf p' price = db.markOf o price := by
      rw [Db.markOf, Db.markOf, first.prices, symbol]
    have held : mid.heldBy p' price = r := by
      rw [Db.heldBy, owner, symbol, kept]
      rfl
    rw [held, mark, side, Position.executed_add hq hq' executed] at execute
    exact execute
  · rw [← owner, ← symbol]
    exact positionFound

end Outcome

/-- The id under which a fill event is booked. -/
def BrokerExecutionEvent.execution (event : BrokerExecutionEvent) : String :=
  orDefault event.executionId event.eventId.str

/-- Partial fills of one order at one price, with fresh ids that differ from each other. -/
structure Slices (db : Db) (orderId : UUID) (price : ℚ) (slices : List BrokerExecutionEvent) :
    Prop where
  kind : ∀ s ∈ slices, s.eventType = .partialFill
  orderId : ∀ s ∈ slices, s.orderId = orderId
  priced : ∀ s ∈ slices, s.fillPrice = some price
  unprocessed : ∀ s ∈ slices, db.processedBrokerEvents.find s.eventId = none
  unexecuted : ∀ s ∈ slices, db.Unexecuted s
  eventIds : (slices.map BrokerExecutionEvent.eventId).Nodup
  executions : (slices.map BrokerExecutionEvent.execution).Nodup

def sliced (slices : List BrokerExecutionEvent) : ℚ :=
  (slices.map BrokerExecutionEvent.filledQuantity).sum

def AppliesAll : Db → List BrokerExecutionEvent → Db → Prop
  | db, [], db' => db' = db
  | db, event :: events, db' =>
    ∃ mid, (processEvent event).run (postgres .exact) db = .ok (true, mid) ∧
      AppliesAll mid events db'

structure Takes (db : Db) (o : Order) (a : Account) (q price : ℚ) : Prop where
  found : db.orders.find o.id = some o
  working : o.status ∈ workingStatuses
  resting : o.timeInForce ≠ .ioc
  accountFound : db.accounts.find o.accountId = some a
  covered : q ≤ o.remainingQuantity
  funded : o.side = .buy → q * (price - o.price) ≤ a.availableCash

section Slicing

variable {db : Db} {o : Order} {a : Account} {price : ℚ} {s : BrokerExecutionEvent}
  {slices : List BrokerExecutionEvent}

theorem Slices.positive (h : Slices db o.id price (s :: slices)) : 0 < s.filledQuantity :=
  (s.validateFillPayload (by rw [h.kind s (by simp)]; rfl)).1

theorem Slices.sliced_nonneg (h : Slices db o.id price slices) : 0 ≤ sliced slices := by
  refine List.sum_nonneg fun q mem => ?_
  obtain ⟨s, held, rfl⟩ := List.mem_map.1 mem
  exact (s.validateFillPayload (by rw [h.kind s held]; rfl)).1.le

theorem Slices.tail (h : Slices db o.id price (s :: slices)) : Slices db o.id price slices := by
  have tail : ∀ {r : BrokerExecutionEvent}, r ∈ slices → r ∈ s :: slices := List.mem_cons_of_mem _
  exact ⟨fun r mem => h.kind r (tail mem), fun r mem => h.orderId r (tail mem),
    fun r mem => h.priced r (tail mem), fun r mem => h.unprocessed r (tail mem),
    fun r mem => h.unexecuted r (tail mem), (List.nodup_cons.1 h.eventIds).2,
    (List.nodup_cons.1 h.executions).2⟩

theorem Slices.after (h : Slices db o.id price (s :: slices)) (u : AppliedFill .exact db s) :
    Slices u.after o.id price slices where
  kind := h.tail.kind
  orderId := h.tail.orderId
  priced := h.tail.priced
  unprocessed r mem := by
    have other : s.eventId ≠ r.eventId := fun same =>
      (List.nodup_cons.1 h.eventIds).1 (same ▸ List.mem_map_of_mem mem)
    have other' : (processedRow s (true, none)).brokerEventId ≠ r.eventId := other
    simp only [AppliedFill.after, Db.recorded_processed, Db.booked_processed,
      Table.find_put_of_ne other', h.tail.unprocessed r mem]
  unexecuted r mem := by
    have other : s.execution ≠ r.execution := fun same =>
      (List.nodup_cons.1 h.executions).1 (same ▸ List.mem_map_of_mem mem)
    obtain ⟨length, free, unused⟩ := h.tail.unexecuted r mem
    refine ⟨length, free, ?_⟩
    unfold Db.byExecutionId at unused ⊢
    rw [Table.first_eq_none_iff] at unused ⊢
    exact Table.forall_put (fun taken => other (of_decide_eq_true taken)) unused
  eventIds := h.tail.eventIds
  executions := h.tail.executions

theorem Takes.first (ready : db.Ready) (h : Takes db o a (sliced (s :: slices)) price)
    (fresh : Slices db o.id price (s :: slices)) :
    ∃ u : AppliedFill .exact db s, u.order = o ∧ u.account = a ∧ u.price = price ∧
      (processEvent s).run (postgres .exact) db = .ok (true, u.after) := by
  have positive := fresh.positive
  have rest := fresh.tail.sliced_nonneg
  have part : s.filledQuantity ≤ sliced (s :: slices) := by
    simpa [sliced] using rest
  have kind := fresh.kind s (by simp)
  let t : FillAttempt db s :=
    { order := o
      price := price
      found := fresh.orderId s (by simp) ▸ h.found
      unprocessed := fresh.unprocessed s (by simp)
      isFill := by rw [kind]; rfl
      working := h.working
      priced := fresh.priced s (by simp)
      covered := part.trans h.covered
      whole := fun full => by rw [kind] at full; cases full }
  obtain ⟨-, checked⟩ := ready.sound.accounts a (Table.mem_of_find h.accountFound)
  obtain ⟨-, -, -, -, covered⟩ := Account.violation_eq_none_iff.1 checked
  have funded : t.Funded a := fun buy => by
    rcases le_total price o.price with cheap | dear
    · exact (mul_nonpos_of_nonneg_of_nonpos positive.le (sub_nonpos.2 cheap)).trans
        (sub_nonneg.2 covered)
    · exact (mul_le_mul_of_nonneg_right part (sub_nonneg.2 dear)).trans (h.funded buy)
  obtain ⟨length, -, unused⟩ := fresh.unexecuted s (by simp)
  obtain ⟨u, ran⟩ := (t.applies_iff ready h.accountFound).2 ⟨length, unused, funded⟩
  have same := u.unique t
  have order : u.order = o := congrArg FillAttempt.order same
  refine ⟨u, order, ?_, congrArg FillAttempt.price same, ran⟩
  have found := u.accountFound
  rw [order, h.accountFound] at found
  exact (Option.some.inj found).symm

theorem Takes.rest {mid : Db} (h : Takes db o a (sliced (s :: slices)) price)
    (filled : Filled db mid o a s.filledQuantity price) (some_ : 0 < sliced slices) :
    ∃ o' a', mid.orders.find o.id = some o' ∧ mid.accounts.find o.accountId = some a' ∧
    o'.id = o.id ∧
      Takes mid o' a' (sliced slices) price := by
  obtain ⟨o', found, order⟩ := filled.order
  obtain ⟨a', accountFound, account⟩ := filled.account
  have sum : sliced (s :: slices) = s.filledQuantity + sliced slices := by simp [sliced]
  have columns : ∀ {β : Type} (f : Order → β),
      f o'.unversioned = f (o.afterFill s.filledQuantity price).unversioned :=
        fun f => congrArg f order
  have id : o'.id = o.id := columns Order.id
  have owner : o'.accountId = o.accountId := columns Order.accountId
  have side : o'.side = o.side := columns Order.side
  have limit : o'.price = o.price := columns Order.price
  have tif : o'.timeInForce = o.timeInForce := columns Order.timeInForce
  have remaining : o'.remainingQuantity = o.remainingQuantity - s.filledQuantity :=
    columns Order.remainingQuantity
  have left : o.remainingQuantity - s.filledQuantity ≠ 0 := by
    have := h.covered
    rw [sum] at this
    linarith
  have status : o'.status = if o.status = .routed then .partiallyFilled else o.status :=
    (columns Order.status).trans (if_neg left)
  refine ⟨o', a', found, accountFound, id, id ▸ found, ?_, tif ▸ h.resting,
    owner ▸ accountFound, ?_,
    fun buy => ?_⟩
  · rw [status]
    split_ifs
    · decide
    · exact h.working
  · have := h.covered
    rw [remaining]
    linarith
  · have buy := side.symm.trans buy
    have paid := h.funded buy
    have cash : a'.cashBalance = a.cashBalance - s.filledQuantity * price := by
      have := congrArg Account.cashBalance account
      simpa [Account.unversioned, Account.afterFill, buy] using this
    have reserved : a'.reservedCash = a.reservedCash - s.filledQuantity * o.price := by
      have := congrArg Account.reservedCash account
      simpa [Account.unversioned, Account.afterFill, buy] using this
    rw [Account.availableCash, cash, reserved, limit]
    rw [Account.availableCash, sum] at paid
    linarith

/-- By induction on the slices: all of them are applied, and they leave what one fill of
their sum leaves. -/
theorem Takes.appliesAll (ready : db.Ready) (h : Takes db o a (sliced slices) price)
    (fresh : Slices db o.id price slices) (some_ : slices ≠ []) :
    ∃ db', AppliesAll db slices db' ∧ Filled db db' o a (sliced slices) price := by
  induction slices generalizing db o a with
  | nil => exact absurd rfl some_
  | cons s slices ih =>
    obtain ⟨u, rfl, rfl, rfl, ran⟩ := h.first ready fresh
    have filled := u.filled h.resting
    cases slices with
    | nil =>
      refine ⟨u.after, ⟨u.after, ran, rfl⟩, ?_⟩
      simpa [sliced] using filled
    | cons s' slices =>
      have more : 0 < sliced (s' :: slices) := by
        have := fresh.tail.tail.sliced_nonneg
        have := fresh.tail.positive
        simp only [sliced, List.map_cons, List.sum_cons] at *
        linarith
      obtain ⟨o', a', found, accountFound, key, takes⟩ := h.rest filled more
      have next := fresh.after u
      rw [← key] at next
      obtain ⟨db', applied, rest⟩ := ih (ready.processed ran) takes next (by simp)
      have sum : sliced (s :: s' :: slices) = s.filledQuantity + sliced (s' :: slices) := by
        simp [sliced]
      have booked := (Order.violation_eq_none_iff.1
        (ready.sound.orders u.order (Table.mem_of_find h.found)).2).2.2.2.2.2.2.1
      have covered := h.covered
      rw [sum] at covered
      refine ⟨db', ⟨u.after, ran, applied⟩, ?_⟩
      rw [sum]
      exact filled.trans found accountFound rest booked fresh.positive more (by linarith)

theorem AppliedFill.takes {event : BrokerExecutionEvent} (u : AppliedFill .exact db event)
    (sound : db.Sound .exact) (resting : u.order.timeInForce ≠ .ioc) :
    Takes db u.order u.account event.filledQuantity u.price where
  found := (Table.find_key u.found).symm ▸ u.found
  working := u.working
  resting := resting
  accountFound := u.accountFound
  covered := u.covered
  funded := (u.admissible sound).funded

end Slicing

section Claim

variable {db db₁ db₂ : Db} {o : Order} {a : Account} {q price : ℚ}

structure SameOutcome (db₁ db₂ : Db) (o : Order) : Prop where
  order : ∃ o₁ o₂, db₁.orders.find o.id = some o₁ ∧ db₂.orders.find o.id = some o₂ ∧
    o₁.unversioned = o₂.unversioned
  account : ∃ a₁ a₂, db₁.accounts.find o.accountId = some a₁ ∧
    db₂.accounts.find o.accountId = some a₂ ∧ a₁.unversioned = a₂.unversioned
  position : ∃ p, db₁.positions.find (o.accountId, o.symbol) = some p ∧
    db₂.positions.find (o.accountId, o.symbol) = some p

theorem Filled.sameOutcome (first : Filled db db₁ o a q price)
    (second : Filled db db₂ o a q price) :
    SameOutcome db₁ db₂ o := by
  obtain ⟨o₁, found₁, order₁⟩ := first.order
  obtain ⟨o₂, found₂, order₂⟩ := second.order
  obtain ⟨a₁, accountFound₁, account₁⟩ := first.account
  obtain ⟨a₂, accountFound₂, account₂⟩ := second.account
  obtain ⟨p, executed₁, position₁⟩ := first.position
  obtain ⟨p', executed₂, position₂⟩ := second.position
  obtain rfl := Except.ok.inj (executed₁.symm.trans executed₂)
  exact ⟨⟨o₁, o₂, found₁, found₂, order₁.trans order₂.symm⟩,
    ⟨a₁, a₂, accountFound₁, accountFound₂, account₁.trans account₂.symm⟩, ⟨p, position₁, position₂⟩⟩

/-- Slices of an applied fill are all applied, and they leave what the whole fill leaves. -/
theorem slicing_fill {settings : Settings} {upper : String → String} {opened : Db}
    (fresh : opened.Fresh .exact) (ops : List Op) {event : BrokerExecutionEvent} {order : Order}
    {slices : List BrokerExecutionEvent} {whole : Db} :
    let db := run (step (.exact settings upper)) opened ops
    event.eventType.isFill = true → db.orders.find event.orderId = some order →
      order.timeInForce ≠ .ioc →
      (processEvent event).run (postgres .exact) db = .ok (true, whole) →
      event.fillPrice = some price → Slices db order.id price slices →
      sliced slices = event.filledQuantity →
      ∃ parts, AppliesAll db slices parts ∧ SameOutcome parts whole order := by
  intro db isFill found resting ran priced parts sum
  have ready : db.Ready := run_ready fresh.ready ops
  cases wp_ok _ (processEvent_spec ready.sound) ran with
  | released _ _ _ becomes =>
    cases becomes with
    | rejected kind =>
      rw [kind] at isFill
      cases isFill
    | cancelled kind =>
      rw [kind] at isFill
      cases isFill
  | filled u =>
    obtain rfl : u.order = order := Option.some.inj (u.found.symm.trans found)
    obtain rfl : u.price = price := Option.some.inj (u.priced.symm.trans priced)
    have takes := u.takes ready.sound resting
    have nonempty : slices ≠ [] := by
      rintro rfl
      have positive := u.positive
      rw [← sum] at positive
      exact absurd positive (lt_irrefl 0)
    obtain ⟨db', applied, filled⟩ := Takes.appliesAll ready (sum.symm ▸ takes) parts nonempty
    rw [sum] at filled
    exact ⟨db', applied, filled.sameOutcome (u.filled resting)⟩

end Claim

/-! The fill of 4 at 21, cut into 3/2 and 5/2. -/

def partialSlice (eventId : UUID) (executionId : String) (nonempty : executionId ≠ "")
    (quantity : ℚ)
    (positive : 0 < quantity) : BrokerExecutionEvent where
  eventId := eventId
  eventType := .partialFill
  orderId := 2
  timestamp := 0
  filledQuantity := quantity
  fillPrice := some 21
  executionId := some executionId
  validateFillPayload _ := ⟨positive, ⟨21, rfl, by norm_num⟩, ⟨executionId, rfl, nonempty⟩⟩

def twoSlices : List BrokerExecutionEvent :=
  [partialSlice 7 "execution-7" (by decide) (3 / 2) (by norm_num),
    partialSlice 8 "execution-8" (by decide) (5 / 2) (by norm_num)]

theorem slicing_twoSlices :
    let db := run (step (.exact {} id)) (traderDb .exact) [.createOrder ⟨2, 0⟩ limitBuy]
    ∃ whole parts, (processEvent partialFill).run (postgres .exact) db = .ok (true, whole) ∧
      AppliesAll db twoSlices parts ∧ SameOutcome parts whole routedBuy := by
  intro db
  have ran : ((processEvent partialFill).run (postgres .exact) db).map Prod.fst = .ok true := by
    decide +kernel
  cases done : (processEvent partialFill).run (postgres .exact) db with
  | error f =>
    rw [done] at ran
    cases ran
  | ok result =>
    obtain ⟨applied, whole⟩ := result
    rw [done] at ran
    obtain rfl : applied = true := Except.ok.inj ran
    have slicing := @slicing_fill 21 {} id _ (openAccounts_fresh .exact [(1, traderAccount)])
      [.createOrder ⟨2, 0⟩ limitBuy] partialFill routedBuy twoSlices whole
    obtain ⟨parts, applied, same⟩ := slicing rfl (by decide +kernel) (by decide) done rfl
      ⟨by decide, by decide, by decide +kernel, by decide +kernel, by decide +kernel, by decide,
        by decide +kernel⟩ (by decide +kernel)
    exact ⟨whole, parts, rfl, applied, same⟩

end OrderManagement
