import OrderManagement.OrderServices
import OrderManagement.ReadCommitted
import OrderManagement.TransactionProtocol

/-! Locks of the statements. A transaction that keeps its locks sees two databases
alike when they agree on what the locks protect, and it changes nothing that the
locks of another transaction protect. -/

namespace OrderManagement

open Program

/-- A row, for whoever selects it for update or writes it, or an entry of another
unique index, for whoever adds it. -/
inductive Lock
  | account (id : UUID)
  | user (userId : String)
  | order (id : UUID)
  | clientOrder (accountId : UUID) (clientOrderId : String)
  | idempotency (accountId : UUID) (idempotencyKey : String)
  | fill (brokerEventId : UUID)
  | execution (executionId : String)
  | position (holding : UUID × String)
  | processed (brokerEventId : UUID)
  | marketPrice (symbol : String)
  deriving DecidableEq

def needsRow {α : Type} (found : Option α) (lock : Lock) : List Lock :=
  if found.isSome then [lock] else []

/-- An UPDATE of no column is not sent. -/
def needsUpdate {α : Type} [DecidableEq α] (loaded current : α) (lock : Lock) : List Lock :=
  if current = loaded then [] else [lock]

def needs {β : Type} : Stmt β → Db → List Lock
  | .accountForUpdate id, db => needsRow (db.accounts.find id) (.account id)
  | .accountByUserId _, _ => []
  | .insertAccount row, _ => [.account row.id, .user row.userId]
  | .updateAccount loaded current, _ => needsUpdate loaded current (.account loaded.id)
  | .orderForUpdate id, db => needsRow (db.orders.find id) (.order id)
  | .orderByIdempotencyKey _ _, _ => []
  | .orderByClientOrderId _ _, _ => []
  | .insertOrder row, _ => [.order row.id, .clientOrder row.accountId row.clientOrderId,
      .idempotency row.accountId row.idempotencyKey]
  | .updateOrder loaded current, _ => needsUpdate loaded current (.order loaded.id)
  | .insertFill row, _ => [.fill row.brokerEventId, .execution row.executionId]
  | .positionForUpdate accountId symbol, db =>
    needsRow (db.positions.find (accountId, symbol)) (.position (accountId, symbol))
  | .positionsBySymbolForUpdate symbol, db =>
    (db.positions.rows.filter fun p => p.symbol = symbol).map fun p => .position p.holding
  | .insertPosition row, _ => [.position row.holding]
  | .updatePosition loaded current, _ => needsUpdate loaded current (.position loaded.holding)
  | .marketPrice _, _ => []
  | .insertMarketPrice row, _ => [.marketPrice row.symbol]
  | .updateMarketPrice loaded current, _ =>
    needsUpdate loaded current (.marketPrice loaded.symbol)
  | .processedByEventId _, _ => []
  | .insertProcessed row, _ => [.processed row.brokerEventId]
  | .insertOrderEvent _, _ => []

def lockingPostgres (num : Numeric) : LockingEngine Stmt Failure Db Write Lock :=
  { postgres num with needs := needs }

/-- What makes an order unique for its account. -/
def Order.submission (o : Order) : UUID × String × String :=
  (o.accountId, o.clientOrderId, o.idempotencyKey)

/-- `y` agrees with the earlier `x` on what the locks `W` protect. The lock on an
account protects its positions too, and which orders it has submitted. -/
structure Db.Agree (W : Lock → Prop) (x y : Db) : Prop where
  accounts : ∀ id, W (.account id) → y.accounts.find id = x.accounts.find id
  orders : ∀ id, W (.order id) → y.orders.find id = x.orders.find id
  submissions : ∀ s : UUID × String × String, W (.account s.1) → ∀ id,
    (y.orders.find id).map Order.submission = some s ↔
      (x.orders.find id).map Order.submission = some s
  positions : ∀ h : UUID × String, W (.account h.1) → y.positions.find h = x.positions.find h
  fills : ∀ e, W (.fill e) → y.fills.find e = x.fills.find e
  executions : ∀ e, W (.execution e) → ∀ k,
    (y.fills.find k).map Fill.executionId = some e ↔
      (x.fills.find k).map Fill.executionId = some e
  processed : ∀ e, W (.processed e) →
    y.processedBrokerEvents.find e = x.processedBrokerEvents.find e
  recorded : ∀ e row, x.processedBrokerEvents.find e = some row →
    y.processedBrokerEvents.find e = some row
  marketPrices : y.marketPrices = x.marketPrices

/-- Statements, with their answers, that only read what the locks `W` protect. -/
def Stmt.Covered (W : Lock → Prop) (β : Type) : Stmt β → β → Prop
  | .accountForUpdate id, _ => W (.account id)
  | .updateAccount loaded current, _ => current = loaded ∨ W (.account loaded.id)
  | .orderForUpdate id, _ => W (.order id)
  | .orderByIdempotencyKey accountId _, found => found = none ∧ W (.account accountId)
  | .orderByClientOrderId accountId _, found => found = none ∧ W (.account accountId)
  | .insertOrder row, _ => W (.order row.id) ∧ W (.account row.accountId)
  | .updateOrder loaded current, _ => current = loaded ∨ W (.order loaded.id)
  | .insertFill row, _ => W (.fill row.brokerEventId) ∧ W (.execution row.executionId)
  | .positionForUpdate accountId _, _ => W (.account accountId)
  | .insertPosition row, _ => W (.account row.accountId)
  | .updatePosition loaded _, _ => W (.account loaded.accountId)
  | .marketPrice _, _ => True
  | .processedByEventId eventId, found => found.isSome ∨ W (.processed eventId)
  | .insertProcessed row, _ => W (.processed row.brokerEventId)
  | .insertOrderEvent _, _ => True
  | .accountByUserId _, _ | .insertAccount _, _ | .positionsBySymbolForUpdate _, _
  | .insertMarketPrice _, _ | .updateMarketPrice _ _, _ => False

section Agree

variable {num : Numeric} {W V : Lock → Prop} {x y : Db}

theorem Db.Agree.refl (W : Lock → Prop) (x : Db) : x.Agree W x :=
  ⟨fun _ _ => rfl, fun _ _ => rfl, fun _ _ _ => Iff.rfl, fun _ _ => rfl, fun _ _ => rfl,
    fun _ _ _ => Iff.rfl, fun _ _ => rfl, fun _ _ h => h, rfl⟩

theorem Table.find_put_congr {α κ : Type} {key : α → κ} [DecidableEq κ] {t u : Table α key}
    (row : α) {k : κ} (same : u.find k = t.find k) : (u.put row).find k = (t.put row).find k := by
  rw [find_put, find_put, same]

theorem Db.Agree.apply (agree : x.Agree W y) (w : Write) : (x.apply w).Agree W (y.apply w) := by
  obtain ⟨accounts, orders, submissions, positions, fills, executions, processed, recorded,
    marketPrices⟩ := agree
  cases w with
  | insertAccount row | updateAccount row =>
    exact ⟨fun id h => Table.find_put_congr row (accounts id h), orders, submissions, positions,
      fills, executions, processed, recorded, marketPrices⟩
  | insertOrder row | updateOrder row =>
    refine ⟨accounts, fun id h => Table.find_put_congr row (orders id h), fun s h id => ?_,
      positions, fills, executions, processed, recorded, marketPrices⟩
    simp only [Db.apply, Table.find_put]
    split_ifs
    · rfl
    · exact submissions s h id
  | insertFill row =>
    refine ⟨accounts, orders, submissions, positions,
      fun e h => Table.find_put_congr row (fills e h), fun e h k => ?_, processed, recorded,
      marketPrices⟩
    simp only [Db.apply, Table.find_put]
    split_ifs
    · rfl
    · exact executions e h k
  | insertPosition row | updatePosition row =>
    exact ⟨accounts, orders, submissions, fun h held => Table.find_put_congr row (positions h held),
      fills, executions, processed, recorded, marketPrices⟩
  | insertMarketPrice row | updateMarketPrice row =>
    exact ⟨accounts, orders, submissions, positions, fills, executions, processed, recorded,
      congrArg (Table.put · row) marketPrices⟩
  | insertProcessed row =>
    refine ⟨accounts, orders, submissions, positions, fills, executions,
      fun e h => Table.find_put_congr row (processed e h), fun e r => ?_, marketPrices⟩
    simp only [Db.apply, Table.find_put]
    split_ifs
    · exact id
    · exact recorded e r
  | insertOrderEvent row =>
    exact ⟨accounts, orders, submissions, positions, fills, executions, processed, recorded,
      marketPrices⟩

theorem Db.Agree.view (agree : x.Agree W y) (ws : List Write) :
    ((postgres num).view x ws).Agree W ((postgres num).view y ws) := by
  induction ws generalizing x y with
  | nil => exact agree
  | cons w ws ih => exact ih (agree.apply w)

theorem Db.byIdempotencyKey_eq_none_iff {db : Db} {a : UUID} {key : String} :
    db.byIdempotencyKey a key = none ↔
      ∀ id c, (db.orders.find id).map Order.submission ≠ some (a, c, key) := by
  unfold Db.byIdempotencyKey
  rw [Table.first_eq_none_iff]
  constructor
  · intro h id c found
    obtain ⟨o, ho, eq⟩ := Option.map_eq_some_iff.1 found
    refine h o (Table.mem_of_find ho) ?_
    simp only [Order.submission, Prod.mk.injEq] at eq
    simp [eq.1, eq.2.2]
  · intro h o mem match'
    simp only [Bool.decide_and, Bool.and_eq_true, decide_eq_true_eq] at match'
    refine h o.id o.clientOrderId ?_
    rw [Table.find_of_mem mem, Option.map_some, Order.submission, match'.1, match'.2]

theorem Db.byClientOrderId_eq_none_iff {db : Db} {a : UUID} {c : String} :
    db.byClientOrderId a c = none ↔
      ∀ id key, (db.orders.find id).map Order.submission ≠ some (a, c, key) := by
  unfold Db.byClientOrderId
  rw [Table.first_eq_none_iff]
  constructor
  · intro h id key found
    obtain ⟨o, ho, eq⟩ := Option.map_eq_some_iff.1 found
    refine h o (Table.mem_of_find ho) ?_
    simp only [Order.submission, Prod.mk.injEq] at eq
    simp [eq.1, eq.2.1]
  · intro h o mem match'
    simp only [Bool.decide_and, Bool.and_eq_true, decide_eq_true_eq] at match'
    refine h o.id o.idempotencyKey ?_
    rw [Table.find_of_mem mem, Option.map_some, Order.submission, match'.1, match'.2]

theorem Db.byExecutionId_eq_none_iff {db : Db} {e : String} :
    db.byExecutionId e = none ↔ ∀ k, (db.fills.find k).map Fill.executionId ≠ some e := by
  unfold Db.byExecutionId
  rw [Table.first_eq_none_iff]
  constructor
  · intro h k found
    obtain ⟨f, hf, eq⟩ := Option.map_eq_some_iff.1 found
    exact h f (Table.mem_of_find hf) (by simpa using eq)
  · intro h f mem match'
    refine h f.brokerEventId ?_
    rw [Table.find_of_mem mem, Option.map_some]
    exact congrArg some (by simpa using match')

theorem Db.Agree.byIdempotencyKey (agree : x.Agree W y) {a : UUID} {key : String}
    (held : W (.account a)) (h : x.byIdempotencyKey a key = none) :
    y.byIdempotencyKey a key = none := by
  rw [Db.byIdempotencyKey_eq_none_iff] at h ⊢
  exact fun id c found => h id c ((agree.submissions _ held id).1 found)

theorem Db.Agree.byClientOrderId (agree : x.Agree W y) {a : UUID} {c : String}
    (held : W (.account a)) (h : x.byClientOrderId a c = none) : y.byClientOrderId a c = none := by
  rw [Db.byClientOrderId_eq_none_iff] at h ⊢
  exact fun id key found => h id key ((agree.submissions _ held id).1 found)

theorem Db.Agree.byExecutionId (agree : x.Agree W y) {e : String} (held : W (.execution e))
    (h : x.byExecutionId e = none) : y.byExecutionId e = none := by
  rw [Db.byExecutionId_eq_none_iff] at h ⊢
  exact fun k found => h k ((agree.executions e held k).1 found)

theorem Db.Agree.exec {β : Type} {s : Stmt β} {r : β} {vs : List Write} (agree : x.Agree W y)
    (covered : Stmt.Covered W β s r) (answer : exec num s x = .ok (r, vs)) :
    exec num s y = .ok (r, vs) := by
  cases s with
  | accountForUpdate id => rwa [OrderManagement.exec, agree.accounts id covered]
  | orderForUpdate id => rwa [OrderManagement.exec, agree.orders id covered]
  | positionForUpdate a symbol =>
    rwa [OrderManagement.exec, agree.positions (a, symbol) covered]
  | marketPrice symbol => rwa [OrderManagement.exec, agree.marketPrices]
  | insertOrderEvent e => exact answer
  | accountByUserId | insertAccount | positionsBySymbolForUpdate | insertMarketPrice
  | updateMarketPrice => exact covered.elim
  | orderByIdempotencyKey a key =>
    obtain ⟨rfl, held⟩ := covered
    simp only [OrderManagement.exec, Except.ok.injEq, Prod.mk.injEq] at answer ⊢
    exact ⟨agree.byIdempotencyKey held answer.1, answer.2⟩
  | orderByClientOrderId a c =>
    obtain ⟨rfl, held⟩ := covered
    simp only [OrderManagement.exec, Except.ok.injEq, Prod.mk.injEq] at answer ⊢
    exact ⟨agree.byClientOrderId held answer.1, answer.2⟩
  | processedByEventId e =>
    simp only [OrderManagement.exec, Except.ok.injEq, Prod.mk.injEq] at answer ⊢
    obtain ⟨rfl, rfl⟩ := answer
    rcases covered with found | held
    · obtain ⟨row, found⟩ := Option.isSome_iff_exists.1 found
      exact ⟨(agree.recorded e row found).trans found.symm, rfl⟩
    · exact ⟨agree.processed e held, rfl⟩
  | updateAccount loaded current =>
    rcases covered with rfl | held
    · simpa only [OrderManagement.exec, updateRow, if_pos] using answer
    · rwa [OrderManagement.exec, agree.accounts _ held]
  | updateOrder loaded current =>
    rcases covered with rfl | held
    · simpa only [OrderManagement.exec, updateRow, if_pos] using answer
    · rwa [OrderManagement.exec, agree.orders _ held]
  | updatePosition loaded current =>
    rwa [OrderManagement.exec, agree.positions loaded.holding covered]
  | insertProcessed row =>
    rwa [OrderManagement.exec, ProcessedBrokerEvent.refusal, agree.processed _ covered]
  | insertPosition row =>
    have same : y.positions.find (row.stored num).holding =
        x.positions.find (row.stored num).holding := agree.positions _ covered
    rwa [OrderManagement.exec, Position.refusal, same]
  | insertOrder row =>
    obtain ⟨order, account⟩ := covered
    simp only [OrderManagement.exec, writeUnless_eq_ok, Order.refusal_eq_none_iff] at answer ⊢
    obtain ⟨⟨kept, newId, newClient, newKey⟩, rfl⟩ := answer
    exact ⟨⟨kept, (agree.orders _ order).trans newId, agree.byClientOrderId account newClient,
      agree.byIdempotencyKey account newKey⟩, rfl⟩
  | insertFill row =>
    obtain ⟨fill, execution⟩ := covered
    simp only [OrderManagement.exec, writeUnless_eq_ok, Fill.refusal_eq_none_iff] at answer ⊢
    obtain ⟨⟨kept, newId, newExecution⟩, rfl⟩ := answer
    exact ⟨⟨kept, (agree.fills _ fill).trans newId,
      agree.byExecutionId execution newExecution⟩, rfl⟩

end Agree

/-- A write on rows that the locks `V` protect, which changes neither what an order
of `db` submitted nor a processed event or a fill of `db`. -/
def Write.Guarded (V : Lock → Prop) (db : Db) : Write → Prop
  | .insertAccount row | .updateAccount row => V (.account row.id)
  | .insertOrder row | .updateOrder row => V (.order row.id) ∧
    (db.orders.find row.id = none → V (.account row.accountId)) ∧
    ∀ o, db.orders.find row.id = some o → row.submission = o.submission
  | .insertFill row => V (.fill row.brokerEventId) ∧ V (.execution row.executionId) ∧
    db.fills.find row.brokerEventId = none
  | .insertPosition row | .updatePosition row => V (.account row.accountId)
  | .insertMarketPrice _ | .updateMarketPrice _ => False
  | .insertProcessed row => V (.processed row.brokerEventId) ∧
    db.processedBrokerEvents.find row.brokerEventId = none
  | .insertOrderEvent _ => True

section Guarded

variable {num : Numeric} {W V : Lock → Prop} {db x y : Db}

theorem Write.Guarded.mono {w : Write} (h : w.Guarded V db) (more : ∀ k, V k → W k) :
    w.Guarded W db := by
  cases w with
  | insertAccount | updateAccount | insertPosition | updatePosition => exact more _ h
  | insertOrder | updateOrder => exact ⟨more _ h.1, fun new => more _ (h.2.1 new), h.2.2⟩
  | insertFill => exact ⟨more _ h.1, more _ h.2.1, h.2.2⟩
  | insertProcessed => exact ⟨more _ h.1, h.2⟩
  | insertMarketPrice | updateMarketPrice | insertOrderEvent => exact h

theorem Write.Guarded.agree {w : Write} (h : w.Guarded V x) (agree : x.Agree V y) :
    w.Guarded V y := by
  cases w with
  | insertAccount | updateAccount | insertPosition | updatePosition => exact h
  | insertOrder | updateOrder => exact ⟨h.1, agree.orders _ h.1 ▸ h.2.1, agree.orders _ h.1 ▸ h.2.2⟩
  | insertFill => exact ⟨h.1, h.2.1, (agree.fills _ h.1).trans h.2.2⟩
  | insertProcessed => exact ⟨h.1, (agree.processed _ h.1).trans h.2⟩
  | insertMarketPrice | updateMarketPrice | insertOrderEvent => exact h

/-- A guarded write changes nothing that locks apart from its own protect. -/
theorem Db.Agree.guarded {w : Write} (agree : db.Agree W x) (guarded : w.Guarded V db)
    (apart : ∀ k, W k → ¬ V k) : db.Agree W (x.apply w) := by
  obtain ⟨accounts, orders, submissions, positions, fills, executions, processed, recorded,
    marketPrices⟩ := agree
  have other : ∀ {k l : Lock}, V k → W l → k ≠ l := fun hv hw eq => apart _ hw (eq ▸ hv)
  cases w with
  | insertAccount row | updateAccount row =>
    refine ⟨fun id h => ?_, orders, submissions, positions, fills, executions, processed, recorded,
      marketPrices⟩
    have ne : row.id ≠ id := fun eq => other guarded h (congrArg Lock.account eq)
    exact (Table.find_put_of_ne ne).trans (accounts id h)
  | insertOrder row | updateOrder row =>
    obtain ⟨order, new, old⟩ := guarded
    refine ⟨accounts, fun id h => ?_, fun s h id => ?_, positions, fills, executions, processed,
      recorded, marketPrices⟩
    · have ne : row.id ≠ id := fun eq => other order h (congrArg Lock.order eq)
      exact (Table.find_put_of_ne ne).trans (orders id h)
    · by_cases key : row.id = id
      · subst key
        simp only [Db.apply, Table.find_put_self, Option.map_some, Option.some_inj]
        cases found : db.orders.find row.id with
        | none =>
          have ne : row.submission ≠ s := fun eq =>
            other (new found) h (congrArg Lock.account (congrArg Prod.fst eq))
          simp [ne]
        | some o => simp [old o found]
      · simp only [Db.apply, Table.find_put_of_ne key]
        exact submissions s h id
  | insertFill row =>
    obtain ⟨fill, execution, new⟩ := guarded
    refine ⟨accounts, orders, submissions, positions, fun e h => ?_, fun e h k => ?_, processed,
      recorded, marketPrices⟩
    · have ne : row.brokerEventId ≠ e := fun eq => other fill h (congrArg Lock.fill eq)
      exact (Table.find_put_of_ne ne).trans (fills e h)
    · by_cases key : row.brokerEventId = k
      · subst key
        have ne : row.executionId ≠ e := fun eq => other execution h (congrArg Lock.execution eq)
        simp [Db.apply, new, ne]
      · simp only [Db.apply, Table.find_put_of_ne key]
        exact executions e h k
  | insertPosition row | updatePosition row =>
    refine ⟨accounts, orders, submissions, fun p h => ?_, fills, executions, processed, recorded,
      marketPrices⟩
    have ne : row.holding ≠ p := fun eq =>
      other guarded h (congrArg Lock.account (congrArg Prod.fst eq))
    exact (Table.find_put_of_ne ne).trans (positions p h)
  | insertMarketPrice | updateMarketPrice => exact guarded.elim
  | insertProcessed row =>
    obtain ⟨held, new⟩ := guarded
    refine ⟨accounts, orders, submissions, positions, fills, executions, fun e h => ?_,
      fun e r found => ?_, marketPrices⟩
    · have ne : row.brokerEventId ≠ e := fun eq => other held h (congrArg Lock.processed eq)
      exact (Table.find_put_of_ne ne).trans (processed e h)
    · have ne : row.brokerEventId ≠ e := by
        rintro rfl
        rw [new] at found
        cases found
      exact (Table.find_put_of_ne ne).trans (recorded e r found)
  | insertOrderEvent row =>
    exact ⟨accounts, orders, submissions, positions, fills, executions, processed, recorded,
      marketPrices⟩

theorem Db.agree_view {ws : List Write} (guarded : ∀ w ∈ ws, w.Guarded V db)
    (apart : ∀ k, W k → ¬ V k) : db.Agree W ((postgres num).view db ws) := by
  suffices h : ∀ (ws : List Write) (x : Db), db.Agree W x → (∀ w ∈ ws, w.Guarded V db) →
      db.Agree W ((postgres num).view x ws) from h ws db (.refl W db) guarded
  intro ws
  induction ws with
  | nil => exact fun x agree _ => agree
  | cons w ws ih =>
    intro x agree guarded
    exact ih _ (agree.guarded (guarded w (by simp)) apart) fun v hv => guarded v (by simp [hv])

end Guarded

end OrderManagement
