import OrderManagement.OrderTables
import OrderManagement.TransactionProgram

/-! The database and the SQL statements the repositories send to it. A statement
answers a query or writes rows; the constraints of the schema are checked when a
row is written, on the values its columns keep. -/

namespace OrderManagement

/-- `uq_positions_account_symbol` -/
def Position.holding (p : Position) : UUID × String := (p.accountId, p.symbol)

structure Db where
  accounts : Table Account Account.id
  orders : Table Order Order.id
  fills : Table Fill Fill.brokerEventId
  positions : Table Position Position.holding
  marketPrices : Table MarketPrice MarketPrice.symbol
  processedBrokerEvents : Table ProcessedBrokerEvent ProcessedBrokerEvent.brokerEventId
  orderEvents : List OrderEvent

@[ext] theorem Db.ext {d e : Db} (accounts : d.accounts = e.accounts) (orders : d.orders = e.orders)
    (fills : d.fills = e.fills) (positions : d.positions = e.positions)
    (marketPrices : d.marketPrices = e.marketPrices)
    (processed : d.processedBrokerEvents = e.processedBrokerEvents)
    (events : d.orderEvents = e.orderEvents) : d = e := by
  cases d
  cases e
  simp_all

def Db.empty : Db where
  accounts := .empty _
  orders := .empty _
  fills := .empty _
  positions := .empty _
  marketPrices := .empty _
  processedBrokerEvents := .empty _
  orderEvents := []

/-- A row version left by a statement. -/
inductive Write
  | insertAccount (row : Account)
  | updateAccount (row : Account)
  | insertOrder (row : Order)
  | updateOrder (row : Order)
  | insertFill (row : Fill)
  | insertPosition (row : Position)
  | updatePosition (row : Position)
  | insertMarketPrice (row : MarketPrice)
  | updateMarketPrice (row : MarketPrice)
  | insertProcessed (row : ProcessedBrokerEvent)
  | insertOrderEvent (row : OrderEvent)

def Db.apply (db : Db) : Write → Db
  | .insertAccount row | .updateAccount row => { db with accounts := db.accounts.put row }
  | .insertOrder row | .updateOrder row => { db with orders := db.orders.put row }
  | .insertFill row => { db with fills := db.fills.put row }
  | .insertPosition row | .updatePosition row => { db with positions := db.positions.put row }
  | .insertMarketPrice row | .updateMarketPrice row =>
    { db with marketPrices := db.marketPrices.put row }
  | .insertProcessed row =>
    { db with processedBrokerEvents := db.processedBrokerEvents.put row }
  | .insertOrderEvent row => { db with orderEvents := db.orderEvents ++ [row] }

/-- SQL statements with the type of their answer. An UPDATE carries the attribute
values last loaded or flushed and the current ones. -/
inductive Stmt : Type → Type
  | accountForUpdate (id : UUID) : Stmt (Option Account)
  | accountByUserId (userId : String) : Stmt (Option Account)
  | insertAccount (row : Account) : Stmt Unit
  | updateAccount (loaded current : Account) : Stmt Unit
  | orderForUpdate (id : UUID) : Stmt (Option Order)
  | orderByIdempotencyKey (accountId : UUID) (idempotencyKey : String) : Stmt (Option Order)
  | orderByClientOrderId (accountId : UUID) (clientOrderId : String) : Stmt (Option Order)
  | insertOrder (row : Order) : Stmt Unit
  | updateOrder (loaded current : Order) : Stmt Unit
  | insertFill (row : Fill) : Stmt Unit
  | positionForUpdate (accountId : UUID) (symbol : String) : Stmt (Option Position)
  | positionsBySymbolForUpdate (symbol : String) : Stmt (List Position)
  | insertPosition (row : Position) : Stmt Unit
  | updatePosition (loaded current : Position) : Stmt Unit
  | marketPrice (symbol : String) : Stmt (Option MarketPrice)
  | insertMarketPrice (row : MarketPrice) : Stmt Unit
  | updateMarketPrice (loaded current : MarketPrice) : Stmt Unit
  | processedByEventId (eventId : UUID) : Stmt (Option ProcessedBrokerEvent)
  | insertProcessed (row : ProcessedBrokerEvent) : Stmt Unit
  | insertOrderEvent (row : OrderEvent) : Stmt Unit

def writeUnless (failure : Option Failure) (row : Write) : Except Failure (Unit × List Write) :=
  match failure with
  | none => .ok ((), [row])
  | some f => .error f

/-- An UPDATE is only sent when some attribute changed, and must hit its row. -/
def updateRow {α : Type} [DecidableEq α] (loaded current : α) (found : Option α)
    (patch : α → α) (violation : α → Option Failure) (write : α → Write) :
    Except Failure (Unit × List Write) :=
  if current = loaded then .ok ((), [])
  else match found with
    | none => .error .stale
    | some row => writeUnless (violation (patch row)) (write (patch row))

theorem writeUnless_eq_ok {failure : Option Failure} {row : Write} {u : Unit} {vs : List Write} :
    writeUnless failure row = .ok (u, vs) ↔ failure = none ∧ vs = [row] := by
  cases failure <;> simp [writeUnless, eq_comm]

theorem updateRow_eq_ok {α : Type} [DecidableEq α] {loaded current : α} {found : Option α}
    {patch : α → α} {violation : α → Option Failure} {write : α → Write} {u : Unit}
    {vs : List Write} (h : updateRow loaded current found patch violation write = .ok (u, vs)) :
    vs = [] ∨ current ≠ loaded ∧ ∃ row, found = some row ∧ vs = [write (patch row)] := by
  unfold updateRow at h
  split_ifs at h with same
  · exact Or.inl (congrArg Prod.snd (Except.ok.inj h)).symm
  · cases found with
    | none => cases h
    | some row => exact Or.inr ⟨same, row, rfl, (writeUnless_eq_ok.1 h).2⟩

def conflict (taken : Bool) (violated : Constraint) : Option Failure :=
  if taken then some (.integrity violated) else none

theorem conflict_isRefusal {taken : Bool} {violated : Constraint} {f : Failure}
    (h : conflict taken violated = some f) : f.isRefusal = true := by
  unfold conflict at h
  split_ifs at h
  exact Option.some.inj h ▸ rfl

@[simp] theorem conflict_eq_none_iff {α : Type} {found : Option α} {violated : Constraint} :
    conflict found.isSome violated = none ↔ found = none := by
  cases found <;> simp [conflict]

section Inserts

variable (num : Numeric) (db : Db)

def Account.refusal (a : Account) : Option Failure :=
  (a.violation num).or <| (conflict (db.accounts.find a.id).isSome .accountsPkey).or <|
    conflict (db.accounts.first fun b => b.userId = a.userId).isSome .accountsUserId

def Db.byClientOrderId (accountId : UUID) (clientOrderId : String) : Option Order :=
  db.orders.first fun o => o.accountId = accountId ∧ o.clientOrderId = clientOrderId

def Db.byIdempotencyKey (accountId : UUID) (idempotencyKey : String) : Option Order :=
  db.orders.first fun o => o.accountId = accountId ∧ o.idempotencyKey = idempotencyKey

def Order.refusal (o : Order) : Option Failure :=
  (o.violation num).or <| (conflict (db.orders.find o.id).isSome .ordersPkey).or <|
    (conflict (db.byClientOrderId o.accountId o.clientOrderId).isSome
      .ordersAccountClientOrder).or <|
    conflict (db.byIdempotencyKey o.accountId o.idempotencyKey).isSome .ordersAccountIdempotencyKey

def Db.byExecutionId (executionId : String) : Option Fill :=
  db.fills.first fun f => f.executionId = executionId

def Fill.refusal (f : Fill) : Option Failure :=
  (f.violation num).or <|
    (conflict (db.fills.find f.brokerEventId).isSome .fillsBrokerEventId).or <|
    conflict (db.byExecutionId f.executionId).isSome .fillsExecutionId

theorem Fill.refusal_isRefusal {num : Numeric} {db : Db} {r : Fill} {f : Failure}
    (h : r.refusal num db = some f) : f.isRefusal = true := by
  unfold Fill.refusal at h
  rcases Option.or_eq_some_iff.1 h with h | ⟨-, h⟩
  · exact Fill.violation_isRefusal h
  rcases Option.or_eq_some_iff.1 h with h | ⟨-, h⟩ <;> exact conflict_isRefusal h

theorem Order.refusal_isRefusal {num : Numeric} {db : Db} {o : Order} {f : Failure}
    (h : o.refusal num db = some f) : f.isRefusal = true := by
  unfold Order.refusal at h
  rcases Option.or_eq_some_iff.1 h with h | ⟨-, h⟩
  · exact Order.violation_isRefusal h
  rcases Option.or_eq_some_iff.1 h with h | ⟨-, h⟩
  · exact conflict_isRefusal h
  rcases Option.or_eq_some_iff.1 h with h | ⟨-, h⟩ <;> exact conflict_isRefusal h

theorem Order.refusal_eq_none_iff {num : Numeric} {db : Db} {o : Order} :
    o.refusal num db = none ↔ o.violation num = none ∧ db.orders.find o.id = none ∧
      db.byClientOrderId o.accountId o.clientOrderId = none ∧
      db.byIdempotencyKey o.accountId o.idempotencyKey = none := by
  simp [Order.refusal]

theorem Fill.refusal_eq_none_iff {num : Numeric} {db : Db} {f : Fill} :
    f.refusal num db = none ↔ f.violation num = none ∧ db.fills.find f.brokerEventId = none ∧
      db.byExecutionId f.executionId = none := by
  simp [Fill.refusal]

def Position.refusal (p : Position) : Option Failure :=
  (p.violation num).or <| conflict (db.positions.find p.holding).isSome .positionsAccountSymbol

def MarketPrice.refusal (m : MarketPrice) : Option Failure :=
  (m.violation num).or <| conflict (db.marketPrices.find m.symbol).isSome .marketPricesPkey

def ProcessedBrokerEvent.refusal (r : ProcessedBrokerEvent) : Option Failure :=
  conflict (db.processedBrokerEvents.find r.brokerEventId).isSome .processedBrokerEventId

end Inserts

def exec (num : Numeric) {β : Type} : Stmt β → Db → Except Failure (β × List Write)
  | .accountForUpdate id, db => .ok (db.accounts.find id, [])
  | .accountByUserId userId, db => .ok (db.accounts.first fun a => a.userId = userId, [])
  | .insertAccount a, db =>
    writeUnless ((a.stored num).refusal num db) (.insertAccount (a.stored num))
  | .updateAccount loaded current, db =>
    updateRow loaded current (db.accounts.find loaded.id) (Account.patch num loaded current)
      (Account.violation num) .updateAccount
  | .orderForUpdate id, db => .ok (db.orders.find id, [])
  | .orderByIdempotencyKey accountId key, db => .ok (db.byIdempotencyKey accountId key, [])
  | .orderByClientOrderId accountId clientOrderId, db =>
    .ok (db.byClientOrderId accountId clientOrderId, [])
  | .insertOrder o, db => writeUnless ((o.stored num).refusal num db) (.insertOrder (o.stored num))
  | .updateOrder loaded current, db =>
    updateRow loaded current (db.orders.find loaded.id) (Order.patch num loaded current)
      (Order.violation num) .updateOrder
  | .insertFill f, db => writeUnless ((f.stored num).refusal num db) (.insertFill (f.stored num))
  | .positionForUpdate accountId symbol, db => .ok (db.positions.find (accountId, symbol), [])
  | .positionsBySymbolForUpdate symbol, db =>
    .ok (db.positions.rows.filter fun p => p.symbol = symbol, [])
  | .insertPosition p, db =>
    writeUnless ((p.stored num).refusal num db) (.insertPosition (p.stored num))
  | .updatePosition loaded current, db =>
    updateRow loaded current (db.positions.find loaded.holding) (Position.patch num loaded current)
      (Position.violation num) .updatePosition
  | .marketPrice symbol, db => .ok (db.marketPrices.find symbol, [])
  | .insertMarketPrice m, db =>
    writeUnless ((m.stored num).refusal num db) (.insertMarketPrice (m.stored num))
  | .updateMarketPrice loaded current, db =>
    updateRow loaded current (db.marketPrices.find loaded.symbol)
      (MarketPrice.patch num loaded current) (MarketPrice.violation num) .updateMarketPrice
  | .processedByEventId eventId, db => .ok (db.processedBrokerEvents.find eventId, [])
  | .insertProcessed r, db => writeUnless (r.refusal db) (.insertProcessed r)
  | .insertOrderEvent e, _ => .ok ((), [.insertOrderEvent e])

def postgres (num : Numeric) : Engine Stmt Failure Db Write where
  apply := Db.apply
  exec := exec num

abbrev Txn := Program Stmt Failure

section Rules

variable {num : Numeric} {X : Failure → Prop} {db : Db}

open Program

@[simp] theorem wp_accountForUpdate {Q : Option Account → Db → Prop} (id : UUID) :
    (issue (Stmt.accountForUpdate id) : Txn _).wp (postgres num) Q X db ↔
      Q (db.accounts.find id) db := Iff.rfl

@[simp] theorem wp_orderForUpdate {Q : Option Order → Db → Prop} (id : UUID) :
    (issue (Stmt.orderForUpdate id) : Txn _).wp (postgres num) Q X db ↔
      Q (db.orders.find id) db := Iff.rfl

@[simp] theorem wp_orderByIdempotencyKey {Q : Option Order → Db → Prop} (a : UUID) (k : String) :
    (issue (Stmt.orderByIdempotencyKey a k) : Txn _).wp (postgres num) Q X db ↔
      Q (db.byIdempotencyKey a k) db := Iff.rfl

@[simp] theorem wp_orderByClientOrderId {Q : Option Order → Db → Prop} (a : UUID) (c : String) :
    (issue (Stmt.orderByClientOrderId a c) : Txn _).wp (postgres num) Q X db ↔
      Q (db.byClientOrderId a c) db := Iff.rfl

@[simp] theorem wp_positionForUpdate {Q : Option Position → Db → Prop} (a : UUID) (s : String) :
    (issue (Stmt.positionForUpdate a s) : Txn _).wp (postgres num) Q X db ↔
      Q (db.positions.find (a, s)) db := Iff.rfl

@[simp] theorem wp_marketPrice {Q : Option MarketPrice → Db → Prop} (s : String) :
    (issue (Stmt.marketPrice s) : Txn _).wp (postgres num) Q X db ↔
      Q (db.marketPrices.find s) db := Iff.rfl

@[simp] theorem wp_positionsBySymbolForUpdate {Q : List Position → Db → Prop} (s : String) :
    (issue (Stmt.positionsBySymbolForUpdate s) : Txn _).wp (postgres num) Q X db ↔
      Q (db.positions.rows.filter fun p => p.symbol = s) db := Iff.rfl

@[simp] theorem wp_accountByUserId {Q : Option Account → Db → Prop} (u : String) :
    (issue (Stmt.accountByUserId u) : Txn _).wp (postgres num) Q X db ↔
      Q (db.accounts.first fun a => a.userId = u) db := Iff.rfl

@[simp] theorem wp_processedByEventId {Q : Option ProcessedBrokerEvent → Db → Prop} (e : UUID) :
    (issue (Stmt.processedByEventId e) : Txn _).wp (postgres num) Q X db ↔
      Q (db.processedBrokerEvents.find e) db := Iff.rfl

@[simp] theorem wp_insertOrderEvent {Q : Unit → Db → Prop} (e : OrderEvent) :
    (issue (Stmt.insertOrderEvent e) : Txn _).wp (postgres num) Q X db ↔
      Q () { db with orderEvents := db.orderEvents ++ [e] } := Iff.rfl

theorem wp_writeUnless {Q : Unit → Db → Prop} {s : Stmt Unit} {failure : Option Failure}
    (row : Write) (h : exec num s db = writeUnless failure row) :
    (issue s : Txn _).wp (postgres num) Q X db ↔
      (∀ f, failure = some f → X f) ∧ (failure = none → Q () (db.apply row)) := by
  cases failure with
  | none =>
    have ok : (postgres num).exec s db = .ok ((), [row]) := h
    rw [wp_issue_of_ok _ ok]
    simp [postgres]
  | some f =>
    have error : (postgres num).exec s db = .error f := h
    rw [issue, wp_request_of_error _ error]
    simp

theorem wp_insertOrder {Q : Unit → Db → Prop} (o : Order) :
    (issue (Stmt.insertOrder o) : Txn _).wp (postgres num) Q X db ↔
      (∀ f, (o.stored num).refusal num db = some f → X f) ∧
      ((o.stored num).refusal num db = none →
        Q () { db with orders := db.orders.put (o.stored num) }) :=
  wp_writeUnless (.insertOrder (o.stored num)) rfl

theorem wp_insertAccount {Q : Unit → Db → Prop} (a : Account) :
    (issue (Stmt.insertAccount a) : Txn _).wp (postgres num) Q X db ↔
      (∀ f, (a.stored num).refusal num db = some f → X f) ∧
      ((a.stored num).refusal num db = none →
        Q () { db with accounts := db.accounts.put (a.stored num) }) :=
  wp_writeUnless (.insertAccount (a.stored num)) rfl

theorem wp_insertMarketPrice {Q : Unit → Db → Prop} (m : MarketPrice) :
    (issue (Stmt.insertMarketPrice m) : Txn _).wp (postgres num) Q X db ↔
      (∀ f, (m.stored num).refusal num db = some f → X f) ∧
      ((m.stored num).refusal num db = none →
        Q () { db with marketPrices := db.marketPrices.put (m.stored num) }) :=
  wp_writeUnless (.insertMarketPrice (m.stored num)) rfl

theorem wp_insertFill {Q : Unit → Db → Prop} (f : Fill) :
    (issue (Stmt.insertFill f) : Txn _).wp (postgres num) Q X db ↔
      (∀ e, (f.stored num).refusal num db = some e → X e) ∧
      ((f.stored num).refusal num db = none →
        Q () { db with fills := db.fills.put (f.stored num) }) :=
  wp_writeUnless (.insertFill (f.stored num)) rfl

theorem wp_insertPosition {Q : Unit → Db → Prop} (p : Position) :
    (issue (Stmt.insertPosition p) : Txn _).wp (postgres num) Q X db ↔
      (∀ f, (p.stored num).refusal num db = some f → X f) ∧
      ((p.stored num).refusal num db = none →
        Q () { db with positions := db.positions.put (p.stored num) }) :=
  wp_writeUnless (.insertPosition (p.stored num)) rfl

theorem wp_insertProcessed {Q : Unit → Db → Prop} (r : ProcessedBrokerEvent) :
    (issue (Stmt.insertProcessed r) : Txn _).wp (postgres num) Q X db ↔
      (∀ f, r.refusal db = some f → X f) ∧
      (r.refusal db = none →
        Q () { db with processedBrokerEvents := db.processedBrokerEvents.put r }) :=
  wp_writeUnless (.insertProcessed r) rfl

theorem wp_updateRow {α : Type} [DecidableEq α] {Q : Unit → Db → Prop} {s : Stmt Unit}
    {loaded current row : α} {patch : α → α} {violation : α → Option Failure} {write : α → Write}
    (h : exec num s db = updateRow loaded current (some row) patch violation write)
    (raises : ∀ f, violation (patch row) = some f → X f)
    (same : current = loaded → Q () db)
    (written : violation (patch row) = none → Q () (db.apply (write (patch row)))) :
    (issue s : Txn _).wp (postgres num) Q X db := by
  unfold updateRow at h
  split_ifs at h with eq
  · have ok : (postgres num).exec s db = .ok ((), []) := h
    exact (wp_issue_of_ok _ ok).2 (same eq)
  · exact (wp_writeUnless _ h).2 ⟨raises, written⟩

theorem wp_updateOrder {Q : Unit → Db → Prop} {loaded current : Order}
    (row : db.orders.find loaded.id = some (loaded.stored num))
    (sound : (loaded.stored num).violation num = none) (id : current.id = loaded.id)
    (raises : ∀ f, (current.stored num).violation num = some f → X f)
    (flushed : (current.stored num).violation num = none →
      Q () { db with orders := db.orders.put (current.stored num) }) :
    (issue (Stmt.updateOrder loaded current) : Txn _).wp (postgres num) Q X db := by
  have key : (loaded.stored num).id = loaded.id := rfl
  have patched : Order.patch num loaded current (loaded.stored num) = current.stored num :=
    Order.patch_stored id
  refine wp_updateRow (show exec num _ db = _ by rw [exec, row]) ?_ ?_ ?_
  · rwa [patched]
  · rintro rfl
    have := flushed sound
    rwa [Table.put_self (key ▸ row)] at this
  · rw [patched]
    exact flushed

theorem wp_updateAccount {Q : Unit → Db → Prop} {loaded current : Account}
    (row : db.accounts.find loaded.id = some (loaded.stored num))
    (sound : (loaded.stored num).violation num = none) (id : current.id = loaded.id)
    (raises : ∀ f, (current.stored num).violation num = some f → X f)
    (flushed : (current.stored num).violation num = none →
      Q () { db with accounts := db.accounts.put (current.stored num) }) :
    (issue (Stmt.updateAccount loaded current) : Txn _).wp (postgres num) Q X db := by
  have key : (loaded.stored num).id = loaded.id := rfl
  have patched : Account.patch num loaded current (loaded.stored num) = current.stored num :=
    Account.patch_stored id
  refine wp_updateRow (show exec num _ db = _ by rw [exec, row]) ?_ ?_ ?_
  · rwa [patched]
  · rintro rfl
    have := flushed sound
    rwa [Table.put_self (key ▸ row)] at this
  · rw [patched]
    exact flushed

theorem wp_updatePosition {Q : Unit → Db → Prop} {loaded current : Position}
    (row : db.positions.find loaded.holding = some (loaded.stored num))
    (sound : (loaded.stored num).violation num = none)
    (holding : current.holding = loaded.holding)
    (raises : ∀ f, (current.stored num).violation num = some f → X f)
    (flushed : (current.stored num).violation num = none →
      Q () { db with positions := db.positions.put (current.stored num) }) :
    (issue (Stmt.updatePosition loaded current) : Txn _).wp (postgres num) Q X db := by
  have key : (loaded.stored num).holding = loaded.holding := rfl
  have patched : Position.patch num loaded current (loaded.stored num) = current.stored num :=
    Position.patch_stored (congrArg Prod.fst holding) (congrArg Prod.snd holding)
  refine wp_updateRow (show exec num _ db = _ by rw [exec, row]) ?_ ?_ ?_
  · rwa [patched]
  · rintro rfl
    have := flushed sound
    rwa [Table.put_self (key ▸ row)] at this
  · rw [patched]
    exact flushed

theorem wp_updateMarketPrice {Q : Unit → Db → Prop} {loaded current : MarketPrice}
    (row : db.marketPrices.find loaded.symbol = some (loaded.stored num))
    (sound : (loaded.stored num).violation num = none) (symbol : current.symbol = loaded.symbol)
    (raises : ∀ f, (current.stored num).violation num = some f → X f)
    (flushed : (current.stored num).violation num = none →
      Q () { db with marketPrices := db.marketPrices.put (current.stored num) }) :
    (issue (Stmt.updateMarketPrice loaded current) : Txn _).wp (postgres num) Q X db := by
  have key : (loaded.stored num).symbol = loaded.symbol := rfl
  have patched : MarketPrice.patch num loaded current (loaded.stored num) = current.stored num :=
    MarketPrice.patch_stored symbol
  refine wp_updateRow (show exec num _ db = _ by rw [exec, row]) ?_ ?_ ?_
  · rwa [patched]
  · rintro rfl
    have := flushed sound
    rwa [Table.put_self (key ▸ row)] at this
  · rw [patched]
    exact flushed

end Rules

end OrderManagement
