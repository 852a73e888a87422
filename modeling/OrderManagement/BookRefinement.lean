import OrderManagement.BrokerageBook
import OrderManagement.FillAdmission
import OrderManagement.FillRecords
import OrderManagement.OrderShape

/-! The database as a brokerage book. The book is made up of the terms, fills and statuses of the
orders alone. Every transaction of the services is a move of it, or none, and what the rows store
of balances, quantities and averages can be read off it. -/

namespace OrderManagement

open BrokerageBook.Book TransitionRuns

/-! The book of a database. -/

def Order.phase (o : Order) : BrokerageBook.Phase :=
  match o.status with
  | .new | .validated | .routed | .partiallyFilled => .working
  | .cancelPending => .revoking
  | .filled => .filled
  | .cancelled => .cancelled
  | .rejected => .rejected

def Order.terms (o : Order) : BrokerageBook.Terms UUID String ℚ where
  account := o.accountId
  instrument := o.symbol
  buys := o.side = .buy
  quantity := o.quantity
  limit := o.price
  rests := o.timeInForce ≠ .ioc

def Fill.execution (f : Fill) : ℚ × ℚ := (f.quantity, f.price)

def bookedStatus (e : BrokerageBook.Entry UUID String ℚ) : OrderStatus :=
  match e.phase with
  | .working => if e.executions = [] then .routed else .partiallyFilled
  | .revoking => .cancelPending
  | .filled => .filled
  | .cancelled => .cancelled
  | .rejected => .rejected

namespace Db

def entry (db : Db) (o : Order) : BrokerageBook.Entry UUID String ℚ where
  terms := o.terms
  executions := (db.fillsOf o.id).map Fill.execution
  phase := o.phase

def book (db : Db) : BrokerageBook.Book UUID String UUID ℚ where
  keys := (db.orders.rows.map Order.id).toFinset
  entry k := (db.orders.find k).map db.entry
  known k := by rw [List.mem_toFinset, Table.mem_keys_iff, Option.isSome_map]

def deposits (db : Db) (a : UUID) : Option ℚ := (db.accounts.find a).map Account.cashBalance

end Db

structure Order.ReadOff (o : Order) (e : BrokerageBook.Entry UUID String ℚ) : Prop where
  status : o.status = bookedStatus e
  filled : o.filledQuantity = e.executed
  cancelled : o.cancelledQuantity =
    if e.phase = .cancelled then e.terms.quantity - e.executed else 0
  remaining : o.remainingQuantity = e.terms.quantity - e.executed - o.cancelledQuantity
  value : o.averageFillPrice.getD 0 * e.executed = e.value
  unpriced : o.averageFillPrice = none ↔ e.executions = []

/-- What the rows store, as the book of a database that started as `db₀` says it. -/
structure Db.ReadOff (db₀ db : Db) : Prop where
  orders : ∀ o ∈ db.orders.rows, o.ReadOff (db.entry o)
  accounts : ∀ a ∈ db.accounts.rows, a.cashBalance = db.book.balance db₀.deposits a.id ∧
    a.reservedCash = db.book.reserved a.id
  positions : ∀ p ∈ db.positions.rows, p.netQuantity = db.book.net p.accountId p.symbol

/-- What holds of the database in all runs from `db₀`. -/
structure Db.Kept (db₀ db : Db) : Prop extends db.Reconciled where
  coupled : ∀ o ∈ db.orders.rows, o.Coupled
  ledger : Ledger db₀ db

section Reading

variable {db₀ db : Db}

theorem Db.sum_book (db : Db) (f : BrokerageBook.Entry UUID String ℚ → ℚ) :
    db.book.sum f = db.orders.total fun o => f (db.entry o) := by
  rw [Table.total_eq_sum_keys]
  refine (List.sum_toFinset _ db.orders.nodup).trans ?_
  congr 1
  refine List.map_congr_left fun k _ => ?_
  change ((db.orders.find k).map db.entry).elim 0 f = _
  cases db.orders.find k <;> rfl

theorem Db.fillTotal_eq (db : Db) (weight : Order → Fill → ℚ) : db.fillTotal weight =
    db.orders.total fun o => ((db.fillsOf o.id).map (weight o)).sum :=
  Table.sum_lookup db.orders Fill.orderId weight db.fills.rows

@[simp] theorem Db.entry_terms (db : Db) (o : Order) : (db.entry o).terms = o.terms := rfl

@[simp] theorem Db.entry_phase (db : Db) (o : Order) : (db.entry o).phase = o.phase := rfl

theorem Db.entry_executed (db : Db) (o : Order) : (db.entry o).executed = db.filledOf o.id := by
  rw [Db.filledOf_eq_sum, BrokerageBook.Entry.executed, Db.entry, List.map_map]
  rfl

theorem Db.entry_value (db : Db) (o : Order) : (db.entry o).value = db.valueOf o.id := by
  have total := Table.total_ite db.fills (fun f => decide (f.orderId = o.id))
    fun f => f.quantity * f.price
  simp only [decide_eq_true_eq] at total
  rw [Db.valueOf, total, BrokerageBook.Entry.value, Db.entry, List.map_map]
  rfl

theorem Order.phase_isOpen {o : Order} (decided : o.status ≠ .new ∧ o.status ≠ .validated) :
    o.phase.isOpen = true ↔ o.status ∈ workingStatuses := by
  revert decided
  unfold Order.phase
  cases o.status <;> decide

namespace Db.Kept

variable {o : Order}

theorem executed (h : db₀.Kept db) (mem : o ∈ db.orders.rows) :
    (db.entry o).executed = o.filledQuantity :=
  (db.entry_executed o).trans (h.ledger.orders o mem).1.symm

theorem executions_eq_nil_iff (h : db₀.Kept db) (mem : o ∈ db.orders.rows) :
    (db.entry o).executions = [] ↔ o.filledQuantity = 0 := by
  have sum := (h.ledger.orders o mem).1
  rw [Db.filledOf_eq_sum] at sum
  rw [sum, Db.entry, List.map_eq_nil_iff]
  refine ⟨fun none_ => by simp [none_], fun zero => ?_⟩
  by_contra some_
  refine absurd zero (List.sum_pos _ (fun q there => ?_) (by simpa using some_)).ne'
  obtain ⟨f, filled, rfl⟩ := List.mem_map.1 there
  exact Fill.quantity_pos (h.sound.fills f (List.mem_of_mem_filter filled)).2

theorem unexecuted (h : db₀.Kept db) (mem : o ∈ db.orders.rows) (routed : o.status = .routed) :
    (db.entry o).executions = [] :=
  (h.executions_eq_nil_iff mem).2 ((h.coupled o mem).unfilled (Or.inl routed)).1

theorem uncancelled (h : db₀.Kept db) (mem : o ∈ db.orders.rows) (status : o.status ≠ .cancelled) :
    o.cancelledQuantity = 0 := by
  have coupled := h.coupled o mem
  obtain ⟨notNew, notValidated⟩ := coupled.decided
  cases kind : o.status with
  | new => exact absurd kind notNew
  | validated => exact absurd kind notValidated
  | routed => exact (coupled.unfilled (Or.inl kind)).2
  | rejected => exact (coupled.unfilled (Or.inr kind)).2
  | partiallyFilled | cancelPending => exact (coupled.working (by simp [kind, workingStatuses])).2
  | filled => exact (coupled.filled kind).2
  | cancelled => exact absurd kind status

theorem readOff (h : db₀.Kept db) (mem : o ∈ db.orders.rows) : o.ReadOff (db.entry o) := by
  have coupled := h.coupled o mem
  have conserved := h.sound.conserved mem
  have filled := h.executed mem
  obtain ⟨-, value, unpriced⟩ := h.ledger.orders o mem
  refine ⟨?_, filled.symm, ?_, ?_, ?_, ?_⟩
  · obtain ⟨notNew, notValidated⟩ := coupled.decided
    have untouched := h.executions_eq_nil_iff mem
    cases kind : o.status with
    | new => exact absurd kind notNew
    | validated => exact absurd kind notValidated
    | routed =>
      have none_ := untouched.2 (coupled.unfilled (Or.inl kind)).1
      simp [bookedStatus, Order.phase, kind, none_]
    | partiallyFilled =>
      have some_ : (db.entry o).executions ≠ [] := fun none_ =>
        (coupled.partiallyFilled kind).1.ne' (untouched.1 none_)
      simp [bookedStatus, Order.phase, kind, some_]
    | rejected | cancelPending | filled | cancelled =>
      simp [bookedStatus, Order.phase, kind]
  · rw [filled, Db.entry_phase]
    by_cases status : o.status = .cancelled
    · have phase : o.phase = .cancelled := by simp [Order.phase, status]
      obtain ⟨none_, -⟩ := coupled.cancelled status
      rw [if_pos phase]
      change _ = o.quantity - _
      linarith [conserved.sum]
    · have phase : o.phase ≠ .cancelled := by
        revert status
        unfold Order.phase
        cases o.status <;> simp
      rw [if_neg phase, h.uncancelled mem status]
  · rw [filled]
    change _ = o.quantity - _ - _
    linarith [conserved.sum]
  · rwa [filled, db.entry_value o]
  · rw [unpriced, Db.entry, List.map_eq_nil_iff, Db.fillsOf, List.filter_eq_nil_iff]
    simp

theorem earmark (h : db₀.Kept db) (mem : o ∈ db.orders.rows) :
    (db.entry o).earmark = o.reservation := by
  have isOpen := o.phase_isOpen (h.coupled o mem).decided
  have conserved := h.sound.conserved mem
  unfold BrokerageBook.Entry.earmark BrokerageBook.Entry.left Order.reservation
  rw [Db.entry_phase, h.executed mem]
  by_cases working : o.status ∈ workingStatuses
  · obtain ⟨-, uncancelled⟩ := (h.coupled o mem).working working
    have left : o.quantity - o.filledQuantity = o.remainingQuantity := by linarith [conserved.sum]
    simp [isOpen.2 working, working, Order.terms, left]
  · simp [isOpen, working]

theorem readOff_accounts (h : db₀.Kept db) {a : Account} (mem : a ∈ db.accounts.rows) :
    a.cashBalance = db.book.balance db₀.deposits a.id ∧
      a.reservedCash = db.book.reserved a.id := by
  constructor
  · obtain ⟨a₀, mem₀, same, cash⟩ := h.ledger.cash a mem
    have deposit : db₀.deposits a.id = some a₀.cashBalance := by
      rw [Db.deposits, ← same, Table.find_of_mem mem₀, Option.map_some]
    have spent : db.fillTotal (bought a.id) =
        db.book.spent a.id + db.fillTotal (sold a.id) := by
      rw [Db.fillTotal_eq, Db.fillTotal_eq, spent, Db.sum_book, ← Table.total_add]
      refine Table.total_congr fun o _ => ?_
      unfold bought sold
      by_cases own : o.accountId = a.id <;> cases side : o.side <;>
        simp [own, side, BrokerageBook.Entry.paid, BrokerageBook.Entry.value,
          Order.terms, Db.entry, Fill.execution, Function.comp_def]
    rw [balance, deposit, Option.getD_some, cash, spent]
    ring
  · rw [h.reserved a mem, reserved, Db.sum_book]
    refine Table.total_congr fun o there => ?_
    rw [h.earmark there]
    rfl

theorem readOff_position (h : db₀.Kept db) {p : Position} (mem : p ∈ db.positions.rows) :
    p.netQuantity = db.book.net p.accountId p.symbol := by
  rw [h.ledger.net p mem, Db.fillTotal_eq, net, Db.sum_book]
  refine Table.total_congr fun o _ => ?_
  unfold exposure signedFill
  by_cases own : o.accountId = p.accountId ∧ o.symbol = p.symbol <;> cases side : o.side <;>
    simp [own, side, Position.holding, BrokerageBook.Entry.net,
      BrokerageBook.Entry.executed, Order.terms, Db.entry, Fill.execution, Function.comp_def,
      List.sum_neg]

theorem opened (h : db₀.Kept db) {k : UUID} {a : Account} (found : db.accounts.find k = some a) :
    (db₀.deposits k).isSome := by
  obtain ⟨a₀, mem₀, same, -⟩ := h.ledger.cash a (Table.mem_of_find found)
  have key : a₀.id = k := same.trans (Table.find_key found)
  rw [Db.deposits, ← key, Table.find_of_mem mem₀]
  rfl

theorem available (h : db₀.Kept db) {k : UUID} {a : Account} (found : db.accounts.find k = some a) :
    db.book.available db₀.deposits k = a.availableCash := by
  obtain ⟨cash, reservedCash⟩ := h.readOff_accounts (Table.mem_of_find found)
  obtain rfl : a.id = k := Table.find_key found
  rw [BrokerageBook.Book.available, ← cash, ← reservedCash]
  rfl

theorem readOff_all (h : db₀.Kept db) : db₀.ReadOff db :=
  ⟨fun _ mem => h.readOff mem, fun _ mem => h.readOff_accounts mem,
    fun _ mem => h.readOff_position mem⟩

end Db.Kept

end Reading

/-! Transactions as moves of the book. -/

section Refinement

variable {settings : Settings} {upper : String → String} {db₀ db db' : Db} {op : Op}

theorem Db.book_congr (orders : db'.orders = db.orders) (fills : db'.fills = db.fills) :
    db'.book = db.book := by
  refine ext_entry (funext fun k => ?_)
  simp only [Db.book, orders]
  refine Option.map_congr fun o _ => ?_
  simp only [Db.entry, Db.fillsOf, fills]

theorem Db.book_put {o' : Order} (orders : db'.orders = db.orders.put o')
    (fills : ∀ k, k ≠ o'.id → db'.fillsOf k = db.fillsOf k) :
    db'.book = db.book.set o'.id (db'.entry o') := by
  refine ext_entry (funext fun k => ?_)
  by_cases own : o'.id = k
  · subst own
    simp [Db.book, BrokerageBook.Book.set, orders, Table.find_put_of_eq rfl]
  · have other : k ≠ o'.id := fun same => own same.symm
    simp only [Db.book, BrokerageBook.Book.set, orders, Table.find_put_of_ne own,
      Function.update_of_ne other]
    refine Option.map_congr fun o found => ?_
    have key : o.id = k := Table.find_key found
    simp only [Db.entry, key, fills k other]

theorem Db.book_entry {k : UUID} {o : Order} (found : db.orders.find k = some o) :
    db.book.entry o.id = some (db.entry o) := by
  simp [Db.book, Table.find_of_mem (Table.mem_of_find found)]

theorem Order.Frozen.terms {o o' : Order} (h : o.Frozen o') : o'.terms = o.terms := by
  simp [Order.terms, h.accountId, h.symbol, h.side, h.quantity, h.price, h.timeInForce]

theorem Db.moves_phase {o o' : Order} (orders : db'.orders = db.orders.put o')
    (fills : db'.fills = db.fills) (frozen : o.Frozen o')
    (moves : db.book.Moves db₀.deposits (db.book.set o.id ((db.entry o).inPhase o'.phase))) :
    db.book.Moves db₀.deposits db'.book := by
  have entry : db'.entry o' = (db.entry o).inPhase o'.phase := by
    simp only [Db.entry, BrokerageBook.Entry.inPhase, Db.fillsOf, fills, frozen.terms, frozen.id]
  rw [← entry, ← frozen.id] at moves
  rwa [Db.book_put orders fun k _ => by simp only [Db.fillsOf, fills]]

theorem Db.book_new {k : UUID} (new : db.orders.find k = none) : db.book.entry k = none := by
  simp [Db.book, new]

theorem Db.Kept.moves_new (h : db₀.Kept db) {o : Order} (orders : db'.orders = db.orders.put o)
    (fills : db'.fills = db.fills) (new : db.orders.find o.id = none)
    (moves : db.book.Moves db₀.deposits (db.book.set o.id ⟨o.terms, [], o.phase⟩)) :
    db.book.Moves db₀.deposits db'.book := by
  have unfilled : db.fillsOf o.id = [] := h.ledger.linked.fillsOf new
  have entry : db'.entry o = ⟨o.terms, [], o.phase⟩ := by
    simp only [Db.fillsOf] at unfilled
    simp only [Db.entry, Db.fillsOf, fills, unfilled, List.map_nil]
  rw [← entry] at moves
  rwa [Db.book_put orders fun k _ => by simp only [Db.fillsOf, fills]]

theorem keepsRemainder_exact (op : Op) : op.keepsRemainder .exact db = true := by
  unfold Op.keepsRemainder
  cases op with
  | processEvent event =>
    simp only [roundsAway]
    cases db.orders.find event.orderId with
    | none => rfl
    | some o =>
      simp only [Numeric.exact, sub_eq_zero, id_eq]
      grind
  | _ => rfl

theorem kept_run (fresh : db₀.Fresh .exact) (ops : List Op) :
    db₀.Kept (run (step (.exact settings upper)) db₀ ops) := by
  have kept : (run (step (.exact settings upper)) db₀ ops).Reconciled ∧
      ∀ o ∈ (run (step (.exact settings upper)) db₀ ops).orders.rows, o.Coupled :=
    run_invariant (fun db : Db => db.Reconciled ∧ ∀ o ∈ db.orders.rows, o.Coupled)
      (fun db op h => ⟨h.1.step op, (step_change (.exact settings upper) h.1.sound op).coupled
        h.1.sound h.2 (keepsRemainder_exact op)⟩)
      ⟨fresh.reconciled, by simp [fresh.orders]⟩
  exact ⟨kept.1, kept.2, run_ledger_kept fresh ops⟩

theorem Concluded.phase {data : EventData} {o o' : Order} {a a' : Account} {es : List OrderEvent}
    (h : Concluded data o a o' a' es) : o'.phase =
      if o.remainingQuantity = 0 then .filled
      else if o.timeInForce ≠ .ioc then o.phase else .cancelled := by
  cases h with
  | filled done => simp [Order.phase, Order.moved, done]
  | ioc rest ioc release => simp [Order.phase, Order.moved, rest, ioc]
  | first rest resting routed => simp [Order.phase, Order.moved, rest, resting, routed]
  | further rest resting notRouted => simp [rest, resting]

theorem Placement.earmark {draw : CreateDraw} {payload : OrderCreate}
    (t : Placement db settings draw payload) {e : BrokerageBook.Entry UUID String ℚ}
    (terms : e.terms = t.order.terms) (unexecuted : e.executions = [])
    (isOpen : e.phase.isOpen = true) : e.earmark = t.required := by
  cases side : payload.side <;>
    simp [BrokerageBook.Entry.earmark, BrokerageBook.Entry.left, BrokerageBook.Entry.executed,
      isOpen, unexecuted, terms, Order.terms, Placement.order, newOrder, Placement.required,
      requiredBuyingPower, side]

theorem AppliedFill.entry_after {event : BrokerExecutionEvent} (t : AppliedFill .exact db event)
    (h : db₀.Kept db) :
    t.after.entry t.final = (db.entry t.order).execute event.filledQuantity t.price := by
  have mem := Table.mem_of_find t.found
  obtain ⟨-, uncancelled⟩ := (h.coupled _ mem).working t.working
  have conserved := h.sound.conserved mem
  have booked := (Order.bookFill_ok t.book).2
  have done : t.booked.remainingQuantity = 0 ↔
      (db.entry t.order).executed + event.filledQuantity = t.order.quantity := by
    rw [booked, h.executed mem]
    constructor <;> intro eq <;> dsimp only at * <;> linarith [conserved.sum]
  have phase := t.conclude.phase
  have same : t.booked.timeInForce = t.order.timeInForce ∧ t.booked.phase = t.order.phase := by
    rw [booked]
    exact ⟨rfl, rfl⟩
  rw [same.1, same.2] at phase
  have executions : t.after.fillsOf t.final.id = db.fillsOf t.order.id ++ [t.fill] := by
    have key : t.order.id = event.orderId := Table.find_key t.found
    rw [t.final_id, key]
    have after := AppliedFill.fillsOf_after (S := .exact {} id) t event.orderId
    rwa [if_pos rfl] at after
  have rests : t.order.terms.rests = true ↔ t.order.timeInForce ≠ .ioc := by simp [Order.terms]
  have quantity : (db.entry t.order).terms.quantity = t.order.quantity := rfl
  unfold BrokerageBook.Entry.execute
  rw [quantity, ← if_congr done rfl rfl]
  simp only [Db.entry, executions, t.frozen.terms, phase, rests, List.map_append]
  rfl

theorem AppliedFill.moves_book {event : BrokerExecutionEvent} (t : AppliedFill .exact db event)
    (h : db₀.Kept db) (h' : db₀.Kept t.after) :
    db.book.Moves db₀.deposits t.after.book := by
  have mem := Table.mem_of_find t.found
  obtain ⟨-, uncancelled⟩ := (h.coupled _ mem).working t.working
  have key : t.final.id = t.order.id := t.frozen.id
  have isOpen : (db.entry t.order).phase.isOpen = true :=
    (Order.phase_isOpen (h.coupled _ mem).decided).2 t.working
  have book : t.after.book = db.book.set t.order.id
      ((db.entry t.order).execute event.filledQuantity t.price) := by
    rw [← t.entry_after h, ← key]
    refine Db.book_put t.after_orders fun k other => ?_
    have after := AppliedFill.fillsOf_after (S := .exact {} id) t k
    have elsewhere : event.orderId ≠ k := fun same => other (same.symm.trans t.final_id.symm)
    rwa [if_neg elsewhere, List.append_nil] at after
  have account : t.after.accounts.find t.order.accountId = some t.finalAccount := by
    rw [t.after_accounts]
    exact Table.find_put_of_eq t.finalAccount_id
  have covered : 0 ≤ t.after.book.available db₀.deposits t.order.accountId := by
    rw [h'.available account]
    have checked := (h'.sound.accounts _ (Table.mem_of_find account)).2
    exact sub_nonneg.2 (Account.violation_eq_none_iff.1 checked).2.2.2.2
  rw [book] at covered ⊢
  refine .executed (Db.book_entry t.found) isOpen t.positive t.price_pos ?_ covered
  rw [BrokerageBook.Entry.left_of_open isOpen, h.executed mem]
  change _ ≤ t.order.quantity - _
  linarith [t.covered, (h.sound.conserved mem).sum]

/-- What the services write is a move of the book, or nothing the book tells of. -/
theorem Change.moves_book (change : Change (.exact settings upper) db op db') (h : db₀.Kept db)
    (h' : db₀.Kept db') : db'.book = db.book ∨ db.book.Moves db₀.deposits db'.book := by
  cases change with
  | unchanged | ignored | ticked => exact Or.inl (Db.book_congr rfl rfl)
  | @refused draw payload t inserted short =>
    refine Or.inr (h.moves_new (congrArg db.orders.put (Order.stored_exact t.rejected)) rfl
      (t.unplaced inserted) (.refused (Db.book_new (t.unplaced inserted)) (h.opened t.accountFound)
        payload.quantity_pos payload.price_pos rfl rfl ?_))
    refine (h.available t.accountFound).trans_lt ?_
    rwa [t.earmark rfl rfl rfl]
  | @routed draw payload t inserted covered kept =>
    refine Or.inr (h.moves_new (congrArg db.orders.put (Order.stored_exact t.routed)) rfl
      (t.unplaced inserted) (.placed (Db.book_new (t.unplaced inserted)) (h.opened t.accountFound)
        payload.quantity_pos payload.price_pos rfl rfl ?_))
    refine le_of_le_of_eq ?_ (h.available t.accountFound).symm
    rwa [t.earmark rfl rfl rfl]
  | filled t => exact Or.inr (t.moves_book h h')
  | @released event order final account released record found unprocessed accountFound becomes
      release accepted =>
    right
    have isOpen : (db.entry order).phase.isOpen = true :=
      (Order.phase_isOpen (h.coupled _ (Table.mem_of_find found)).decided).2 becomes.working
    refine Db.moves_phase (congrArg db.orders.put (Order.stored_exact final)) rfl becomes.frozen ?_
    cases becomes with
    | rejected rejection routed =>
      exact .rejected (Db.book_entry found) (by simp [Order.phase, routed])
        (h.unexecuted (Table.mem_of_find found) routed)
    | cancelled cancellation working => exact .cancelled (Db.book_entry found) isOpen
  | @cancelRequested orderId reason order found cancellable =>
    right
    have phase : order.phase = .working := by
      revert cancellable
      unfold Order.phase
      cases order.status <;> decide
    refine Db.moves_phase (congrArg db.orders.put (Order.stored_exact (order.moved .cancelPending)))
      rfl (show order.Frozen _ from ⟨rfl, rfl, rfl, rfl, rfl, rfl, rfl, rfl, rfl, rfl⟩) ?_
    exact .revoked (Db.book_entry found) phase
  | @routingFailed orderId reason order account found wasRouted accountFound kept =>
    right
    refine Db.moves_phase
      (congrArg db.orders.put (Order.stored_exact ((order.unroutable reason).moved .rejected)))
      rfl (show order.Frozen _ from ⟨rfl, rfl, rfl, rfl, rfl, rfl, rfl, rfl, rfl, rfl⟩) ?_
    exact .rejected (Db.book_entry found) (by simp [Order.phase, wasRouted])
      (h.unexecuted (Table.mem_of_find found) wasRouted)

theorem run_moves (fresh : db₀.Fresh .exact) (before after : List Op) :
    Relation.ReflTransGen (Moves db₀.deposits)
      (run (step (.exact settings upper)) db₀ before).book
      (run (step (.exact settings upper)) db₀ (before ++ after)).book := by
  induction after generalizing before with
  | nil => rw [List.append_nil]
  | cons op after ih =>
    have first : db₀.Kept (run (step (.exact settings upper)) db₀ before) := kept_run fresh before
    have next : db₀.Kept (run (step (.exact settings upper)) db₀ (before ++ [op])) :=
      kept_run fresh (before ++ [op])
    have rest := ih (before ++ [op])
    rw [List.append_assoc, List.singleton_append] at rest
    rw [run_append _ _ before [op], run_cons, run_nil] at next rest
    have change := step_change (.exact settings upper) first.sound op
    rcases change.moves_book first next with same | moved
    · rwa [same] at rest
    · exact .head moved rest

theorem Db.Fresh.book (fresh : db₀.Fresh .exact) :
    db₀.book.Sound ∧ db₀.book.Solvent db₀.deposits := by
  have missing : ∀ k, db₀.orders.find k = none := fun k =>
    Table.find_eq_none_iff.2 (by simp [fresh.orders])
  refine ⟨fun k e found => by simp [Db.book_new (missing k)] at found, fun a => ?_⟩
  have none_ : ∀ f, db₀.book.sum f = 0 := fun f => by
    rw [Db.sum_book, Table.total, fresh.orders, List.map_nil, List.sum_nil]
  rw [BrokerageBook.Book.available, balance, spent, reserved, none_, none_, sub_zero, sub_zero]
  unfold Db.deposits
  cases found : db₀.accounts.find a with
  | none => exact le_refl _
  | some account =>
    have checked := (fresh.sound.accounts _ (Table.mem_of_find found)).2
    exact (Account.violation_eq_none_iff.1 checked).2.2.1

/-- Runs of the services are runs of the book, which keeps every order within its terms and every
account solvent; and all that the rows store of them is in the book. -/
theorem run_book (fresh : db₀.Fresh .exact) (before after : List Op) :
    let db := run (step (.exact settings upper)) db₀ before
    let db' := run (step (.exact settings upper)) db after
    Relation.ReflTransGen (Moves db₀.deposits) db.book db'.book ∧ db.book.Extends db'.book ∧
      db'.book.Sound ∧ db'.book.Solvent db₀.deposits ∧ db₀.ReadOff db' := by
  intro db db'
  have same : db' = run (step (.exact settings upper)) db₀ (before ++ after) :=
    (run_append _ _ _ _).symm
  obtain ⟨sound₀, solvent₀⟩ := fresh.book
  have start : Relation.ReflTransGen (Moves db₀.deposits) db₀.book db.book :=
    run_moves fresh [] before
  have moves : Relation.ReflTransGen (Moves db₀.deposits) db.book db'.book := by
    rw [same]
    exact run_moves fresh before after
  obtain ⟨sound, solvent, -⟩ := moves_run start sound₀ solvent₀
  obtain ⟨sound', solvent', further⟩ := moves_run moves sound solvent
  refine ⟨moves, further, sound', solvent', ?_⟩
  rw [same]
  exact (kept_run fresh (before ++ after)).readOff_all

end Refinement

theorem run_book_partialFill :
    let db := run (step (.exact {} id)) (traderDb .exact) [.createOrder ⟨2, 0⟩ limitBuy]
    let db' := run (step (.exact {} id)) db [.processEvent partialFill]
    ((db.book.entry 2).map fun e => (e.earmark, e.executions)) = some (200, []) ∧
      ((db'.book.entry 2).map fun e => (e.earmark, e.executions)) = some (120, [(4, 21)]) ∧
      Relation.ReflTransGen (Moves (traderDb .exact).deposits) db.book db'.book ∧
      (traderDb .exact).ReadOff db' := by
  intro db db'
  have refined : Relation.ReflTransGen (Moves _) db.book db'.book ∧ _ :=
    run_book (openAccounts_fresh .exact [(1, traderAccount)]) [.createOrder ⟨2, 0⟩ limitBuy]
      [.processEvent partialFill]
  exact ⟨by decide +kernel, by decide +kernel, refined.1, refined.2.2.2.2⟩

end OrderManagement
