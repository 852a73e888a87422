import OrderManagement.AccountStatements
import OrderManagement.OrderRuns

/-! Two runs side by side: one of all operations, and one without those of accounts other
than `B`. The rows of `B` and the market prices stay the same in both. -/

namespace OrderManagement

open Program TransitionRuns

/-- Every row belongs to the account that its ids belong to. -/
structure Db.OwnedBy (own : Owners) (db : Db) : Prop where
  orders : ∀ o ∈ db.orders.rows, own.order o.id = o.accountId
  fills : ∀ f ∈ db.fills.rows, own.execution f.executionId = own.event f.brokerEventId ∧
    own.order f.orderId = own.event f.brokerEventId
  processed : ∀ r ∈ db.processedBrokerEvents.rows, own.order r.orderId = own.event r.brokerEventId

/-- `y` has the rows of `B` that `x` has, and no order or position of another account. -/
structure Db.Isolates (own : Owners) (B : UUID) (x y : Db) : Prop where
  left : x.OwnedBy own
  right : y.OwnedBy own
  onlyOrders : ∀ o ∈ y.orders.rows, o.accountId = B
  onlyPositions : ∀ p ∈ y.positions.rows, p.accountId = B
  accounts : Table.AgreeOn (fun k => k = B) x.accounts y.accounts
  orders : Table.AgreeOn (fun k => own.order k = B) x.orders y.orders
  fills : Table.AgreeOn (fun k => own.event k = B) x.fills y.fills
  positions : Table.AgreeOn (fun k => k.1 = B) x.positions y.positions
  processed :
    Table.AgreeOn (fun k => own.event k = B) x.processedBrokerEvents y.processedBrokerEvents
  marketPrices : x.marketPrices = y.marketPrices
  orderEvents : (x.orderEvents.filter fun e => own.order e.orderId = B) =
    y.orderEvents.filter fun e => own.order e.orderId = B

section Statements

variable {num : Numeric} {own : Owners} {A B : UUID} {x y : Db}

theorem Write.Of.owned {w : Write} (h : w.Of own A) (owned : x.OwnedBy own) :
    (x.apply w).OwnedBy own := by
  obtain ⟨orders, fills, processed⟩ := owned
  cases w with
  | insertOrder row | updateOrder row =>
    exact ⟨Table.forall_put (h.1.trans h.2.symm) orders, fills, processed⟩
  | insertFill row =>
    obtain ⟨order, event, execution⟩ := h
    exact ⟨orders,
      Table.forall_put ⟨execution.trans event.symm, order.trans event.symm⟩ fills, processed⟩
  | insertProcessed row =>
    exact ⟨orders, fills, Table.forall_put (h.1.trans h.2.symm) processed⟩
  | _ => exact ⟨orders, fills, processed⟩

theorem Db.Isolates.apply {w : Write} (h : x.Isolates own B y) (of : w.Of own B) :
    (x.apply w).Isolates own B (y.apply w) := by
  have left := of.owned h.left
  have right := of.owned h.right
  cases w with
  | insertAccount row | updateAccount row =>
    exact { h with left, right, accounts := h.accounts.put row }
  | insertOrder row | updateOrder row =>
    exact { h with
      left, right
      onlyOrders := Table.forall_put of.2 h.onlyOrders
      orders := h.orders.put row }
  | insertFill row => exact { h with left, right, fills := h.fills.put row }
  | insertPosition row | updatePosition row =>
    exact { h with
      left, right
      onlyPositions := Table.forall_put of h.onlyPositions
      positions := h.positions.put row }
  | insertMarketPrice | updateMarketPrice => exact of.elim
  | insertProcessed row => exact { h with left, right, processed := h.processed.put row }
  | insertOrderEvent row =>
    refine { h with left, right, orderEvents := ?_ }
    simp only [Db.apply, List.filter_append, h.orderEvents]

theorem Db.Isolates.apply_other {w : Write} (h : x.Isolates own B y) (of : w.Of own A)
    (other : A ≠ B) :
    (x.apply w).Isolates own B y := by
  have left := of.owned h.left
  cases w with
  | insertAccount row | updateAccount row =>
    exact { h with left, accounts := h.accounts.put_other (by simpa [show row.id = A from of]) }
  | insertOrder row | updateOrder row =>
    exact { h with left, orders := h.orders.put_other (by simpa [of.1]) }
  | insertFill row => exact { h with left, fills := h.fills.put_other (by simpa [of.2.1]) }
  | insertPosition row | updatePosition row =>
    exact { h with
      left
      positions := h.positions.put_other
        (by simpa [Position.holding, show row.accountId = A from of]) }
  | insertMarketPrice | updateMarketPrice => exact of.elim
  | insertProcessed row =>
    exact { h with left, processed := h.processed.put_other (by simpa [of.2]) }
  | insertOrderEvent row =>
    refine { h with left, orderEvents := ?_ }
    have unseen : own.order row.orderId ≠ B :=
      (show own.order row.orderId = A from of).trans_ne other
    simp only [Db.apply, List.filter_append, h.orderEvents, List.filter_cons, unseen, decide_false,
      Bool.false_eq_true, if_false, List.filter_nil, List.append_nil]

variable {β : Type} {s : Stmt β}

theorem Stmt.Of.writes {r : β} {ws : List Write} (of : s.Of own A) (owned : x.OwnedBy own)
    (answer : exec num s x = .ok (r, ws)) :
    (accountProtocol own A).expected s r ∧ ∀ w ∈ ws, w.Of own A := by
  have nothing : ws = [] → ∀ w ∈ ws, w.Of own A := by
    rintro rfl
    simp
  cases s with
  | accountForUpdate id =>
    cases answer
    exact ⟨fun a found => Table.find_key found, by simp⟩
  | orderForUpdate id =>
    cases answer
    refine ⟨fun o found => ⟨Table.find_key found, ?_⟩, by simp⟩
    rw [← owned.orders o (Table.mem_of_find found), Table.find_key found]
    exact of
  | positionForUpdate a symbol =>
    cases answer
    exact ⟨fun p found => congrArg Prod.fst (Table.find_key found), by simp⟩
  | orderByIdempotencyKey | orderByClientOrderId | marketPrice | processedByEventId =>
    cases answer
    exact ⟨trivial, by simp⟩
  | insertOrder row | insertFill row | insertPosition row | insertProcessed row =>
    obtain ⟨-, rfl⟩ := writeUnless_eq_ok.1 answer
    refine ⟨trivial, fun w mem => ?_⟩
    obtain rfl := List.mem_singleton.1 mem
    exact of
  | insertOrderEvent row =>
    cases answer
    refine ⟨trivial, fun w mem => ?_⟩
    obtain rfl := List.mem_singleton.1 mem
    exact of
  | updateAccount loaded current =>
    refine ⟨trivial, ?_⟩
    rcases updateRow_eq_ok answer with none | ⟨-, row, found, rfl⟩
    · exact nothing none
    · intro w mem
      obtain rfl := List.mem_singleton.1 mem
      exact (Table.find_key found).trans of
  | updateOrder loaded current =>
    refine ⟨trivial, ?_⟩
    rcases updateRow_eq_ok answer with none | ⟨-, row, found, rfl⟩
    · exact nothing none
    · intro w mem
      obtain rfl := List.mem_singleton.1 mem
      have key : own.order row.id = A := (congrArg own.order (Table.find_key found)).trans of.1
      refine ⟨key, ?_⟩
      simp only [Order.patch, patchColumn]
      split_ifs
      · exact (owned.orders row (Table.mem_of_find found)).symm.trans key
      · exact of.2
  | updatePosition loaded current =>
    refine ⟨trivial, ?_⟩
    rcases updateRow_eq_ok answer with none | ⟨-, row, found, rfl⟩
    · exact nothing none
    · intro w mem
      obtain rfl := List.mem_singleton.1 mem
      exact (congrArg Prod.fst (Table.find_key found)).trans of
  | accountByUserId | insertAccount | positionsBySymbolForUpdate | insertMarketPrice
  | updateMarketPrice => exact of.elim

theorem Db.Isolates.exec (h : x.Isolates own B y) (of : s.Of own B) :
    exec num s x = exec num s y := by
  have byClient : ∀ c, x.byClientOrderId B c = y.byClientOrderId B c := fun c => by
    refine h.orders.first (fun o mem same => ?_) fun o mem same => ?_
    · rw [h.left.orders o mem]
      simp_all
    · rw [h.right.orders o mem]
      simp_all
  have byKey : ∀ c, x.byIdempotencyKey B c = y.byIdempotencyKey B c := fun c => by
    refine h.orders.first (fun o mem same => ?_) fun o mem same => ?_
    · rw [h.left.orders o mem]
      simp_all
    · rw [h.right.orders o mem]
      simp_all
  have byExecution :
      ∀ e, own.execution e = B → x.byExecutionId e = y.byExecutionId e := fun e he => by
    refine h.fills.first (fun f mem same => ?_) fun f mem same => ?_
    · rw [← (h.left.fills f mem).1, of_decide_eq_true same, he]
      simp
    · rw [← (h.right.fills f mem).1, of_decide_eq_true same, he]
      simp
  cases s with
  | accountForUpdate id | updateAccount loaded current =>
    simp only [OrderManagement.exec, h.accounts.find (decide_eq_true of)]
  | orderForUpdate id =>
    simp only [OrderManagement.exec, h.orders.find (decide_eq_true of)]
  | updateOrder loaded current =>
    simp only [OrderManagement.exec, h.orders.find (decide_eq_true of.1)]
  | orderByIdempotencyKey a key =>
    obtain rfl : a = B := of
    simp only [OrderManagement.exec, byKey]
  | orderByClientOrderId a c =>
    obtain rfl : a = B := of
    simp only [OrderManagement.exec, byClient]
  | insertOrder row =>
    obtain ⟨order, owner⟩ := of
    have found := h.orders.find (k := (row.stored num).id) (decide_eq_true order)
    have owner : (row.stored num).accountId = B := owner
    simp only [OrderManagement.exec, Order.refusal, found, owner, byClient, byKey]
  | insertFill row =>
    obtain ⟨-, event, execution⟩ := of
    have found := h.fills.find (k := (row.stored num).brokerEventId) (decide_eq_true event)
    have unused := byExecution (row.stored num).executionId execution
    simp only [OrderManagement.exec, Fill.refusal, found, unused]
  | positionForUpdate a symbol =>
    simp only [OrderManagement.exec, h.positions.find (k := (a, symbol)) (decide_eq_true of)]
  | insertPosition row =>
    have found := h.positions.find (k := (row.stored num).holding) (decide_eq_true of)
    simp only [OrderManagement.exec, Position.refusal, found]
  | updatePosition loaded current =>
    simp only [OrderManagement.exec, h.positions.find (k := loaded.holding) (decide_eq_true of)]
  | marketPrice symbol => simp only [OrderManagement.exec, h.marketPrices]
  | processedByEventId eventId =>
    simp only [OrderManagement.exec, h.processed.find (decide_eq_true of)]
  | insertProcessed row =>
    simp only [OrderManagement.exec, ProcessedBrokerEvent.refusal,
      h.processed.find (decide_eq_true of.2)]
  | insertOrderEvent row => rfl
  | accountByUserId | insertAccount | positionsBySymbolForUpdate | insertMarketPrice
  | updateMarketPrice => exact of.elim

theorem Db.Isolates.view {ws : List Write} (h : x.Isolates own B y) (of : ∀ w ∈ ws, w.Of own B) :
    ((postgres num).view x ws).Isolates own B ((postgres num).view y ws) := by
  induction ws generalizing x y with
  | nil => exact h
  | cons w ws ih => exact ih (h.apply (of w (by simp))) fun v hv => of v (by simp [hv])

theorem Db.Isolates.view_other {ws : List Write} (h : x.Isolates own B y)
    (of : ∀ w ∈ ws, w.Of own A)
    (other : A ≠ B) : ((postgres num).view x ws).Isolates own B y := by
  induction ws generalizing x with
  | nil => exact h
  | cons w ws ih => exact ih (h.apply_other (of w (by simp)) other) fun v hv => of v (by simp [hv])

variable {α : Type} {Q : α → Prop} {p : Txn α}

theorem Db.Isolates.committed (h : x.Isolates own B y) (confined : Confined own B Q p) :
    (committed num p x).Isolates own B (committed num p y) := by
  unfold OrderManagement.committed
  have outcomes : (∃ e, p.run (postgres num) x = .error e ∧ p.run (postgres num) y = .error e) ∨
      ∃ a x' y', p.run (postgres num) x = .ok (a, x') ∧ p.run (postgres num) y = .ok (a, y') ∧
        x'.Isolates own B y' :=
    run_of_follows (fun _ _ _ _ of h => h.exec of)
      (fun _ _ _ _ _ _ of h answer =>
        have ⟨expected, writes⟩ := Stmt.Of.writes of h.left answer
        ⟨expected, h.view writes⟩) confined h
  rcases outcomes with ⟨e, hx, hy⟩ | ⟨a, x', y', hx, hy, h'⟩
  · simpa only [hx, hy] using h
  · simpa only [hx, hy] using h'

theorem Db.Isolates.committed_other (h : x.Isolates own B y) (confined : Confined own A Q p)
    (other : A ≠ B) : (OrderManagement.committed num p x).Isolates own B y := by
  unfold OrderManagement.committed
  cases ran : p.run (postgres num) x with
  | error f => exact h
  | ok r =>
    obtain ⟨a, x'⟩ := r
    exact invariant_of_follows (E := postgres num) (I := fun x => x.Isolates own B y)
      (fun _ _ _ _ _ of h answer =>
        have ⟨expected, writes⟩ := Stmt.Of.writes of h.left answer
        ⟨expected, h.view_other writes other⟩) confined h ran

end Statements

/-- The positions in the symbol of the accounts that `of` selects take the mark. -/
def Db.TakesMark (num : Numeric) (db : Db) (symbol : String) (price : ℚ)
    (of : UUID → Prop) : Prop :=
  ∀ p ∈ db.positions.rows, p.symbol = symbol → of p.accountId →
    ((markedPosition price p).stored num).violation num = none

/-- If a tick is applied and the positions of `B` take its mark, then so do all others. -/
def Op.MarksAll (S : Deployment) (B : UUID) (db : Db) : Op → Prop
  | .applyTick symbol price observedAt =>
    (MarketPrice.stored S.num ⟨S.upper symbol, price, observedAt⟩).violation S.num = none →
    (∀ found ∈ db.marketPrices.find (S.upper symbol), found.observedAt ≤ observedAt) →
    db.TakesMark S.num (S.upper symbol) price (fun A => A = B) →
      db.TakesMark S.num (S.upper symbol) price fun A => A ≠ B
  | _ => True

instance (num : Numeric) (db : Db) (symbol : String) (price : ℚ) (of : UUID → Prop)
    [DecidablePred of] : Decidable (db.TakesMark num symbol price of) :=
  inferInstanceAs (Decidable (∀ p ∈ db.positions.rows, _))

instance (S : Deployment) (B : UUID) (db : Db) (op : Op) : Decidable (op.MarksAll S B db) :=
  match op with
  | .applyTick _ _ _ => inferInstanceAs (Decidable (_ → _ → _ → _))
  | .createOrder _ _ | .processEvent _ | .requestCancellation _ _ | .markRoutingFailure _ _ =>
    inferInstanceAs (Decidable True)

section Ticks

variable {num : Numeric} {own : Owners} {B : UUID} {x y : Db} {symbol : String} {price : ℚ}

def Stmt.OnPrice {β : Type} : Stmt β → Prop
  | .marketPrice _ | .insertMarketPrice _ | .updateMarketPrice _ _ => True
  | _ => False

theorem upsertMarketPrice_onPrice (symbol : String) (price : ℚ) (observedAt : Timestamp) :
    (upsertMarketPrice symbol price observedAt).Uses Stmt.OnPrice := by
  refine uses_bind (uses_issue trivial) fun found => ?_
  cases found with
  | none => exact uses_bind (uses_issue trivial) fun _ => trivial
  | some found => exact uses_ite (uses_bind (uses_issue trivial) fun _ => trivial) trivial

theorem Db.Isolates.prices (h : x.Isolates own B y) (row : MarketPrice) :
    Db.Isolates own B { x with marketPrices := x.marketPrices.put row }
      { y with marketPrices := y.marketPrices.put row } :=
  { h with
    left := ⟨h.left.orders, h.left.fills, h.left.processed⟩
    right := ⟨h.right.orders, h.right.fills, h.right.processed⟩
    marketPrices := congrArg (·.put row) h.marketPrices }

theorem Db.Isolates.upsert (h : x.Isolates own B y) (num : Numeric) (symbol : String) (price : ℚ)
    (observedAt : Timestamp) :
    (∃ e, (upsertMarketPrice symbol price observedAt).run (postgres num) x = .error e ∧
      (upsertMarketPrice symbol price observedAt).run (postgres num) y = .error e) ∨
    ∃ applied x' y', (upsertMarketPrice symbol price observedAt).run (postgres num) x =
        .ok (applied, x') ∧
      (upsertMarketPrice symbol price observedAt).run (postgres num) y = .ok (applied, y') ∧
      x'.Isolates own B y' := by
  refine run_of_agree (fun s a b on h => ?_) (fun s a b r ws on h answer => ?_)
    (upsertMarketPrice_onPrice symbol price observedAt) h
  · cases s with
    | marketPrice | insertMarketPrice | updateMarketPrice =>
      simp only [postgres, OrderManagement.exec, MarketPrice.refusal, h.marketPrices]
    | _ => exact on.elim
  · cases s with
    | marketPrice =>
      cases answer
      exact h
    | insertMarketPrice row =>
      obtain ⟨-, rfl⟩ := writeUnless_eq_ok.1 answer
      exact h.prices _
    | updateMarketPrice loaded current =>
      rcases updateRow_eq_ok answer with rfl | ⟨-, row, -, rfl⟩
      · exact h
      · exact h.prices _
    | _ => exact on.elim

theorem markedTable_agree {K : UUID × String → Bool} {t u : Table Position Position.holding}
    (h : Table.AgreeOn K t u) (ps : List Position) :
    Table.AgreeOn K (markedTable num price ps t)
      (markedTable num price (ps.filter fun p => K p.holding) u) := by
  induction ps generalizing t u with
  | nil => exact h
  | cons p ps ih =>
    cases k : K p.holding with
    | true =>
      rw [List.filter_cons_of_pos (by simpa using k)]
      exact ih (h.put _)
    | false =>
      rw [List.filter_cons_of_neg (by simp [k])]
      have unseen : K ((markedPosition price p).stored num).holding = false := k
      exact ih (h.put_other unseen)

theorem Db.Isolates.positions_rows (h : x.Isolates own B y) :
    y.positions.rows = x.positions.rows.filter fun p => p.accountId = B := by
  have all : (y.positions.rows.filter fun p => p.accountId = B) = y.positions.rows :=
    List.filter_eq_self.2 fun p mem => decide_eq_true (h.onlyPositions p mem)
  rw [← all]
  exact h.positions.symm

theorem Db.Isolates.takesMark (h : x.Isolates own B y) :
    y.TakesMark num symbol price (fun _ => True) ↔ x.TakesMark num symbol price fun A => A = B := by
  unfold Db.TakesMark
  simp only [h.positions_rows, List.mem_filter, decide_eq_true_eq, forall_const]
  exact ⟨fun marks p mem same of => marks p ⟨mem, of⟩ same,
    fun marks p mem same => marks p mem.1 same mem.2⟩

theorem markSymbol_run (sound : ∀ p ∈ x.positions.rows, p.stored num = p ∧ p.violation num = none)
    (symbol : String) (price : ℚ) :
    (∃ f, (issue (Stmt.positionsBySymbolForUpdate symbol) >>= markPositions price : Txn Unit).run
        (postgres num) x = .error f ∧ ¬ x.TakesMark num symbol price fun _ => True) ∨
    ((issue (Stmt.positionsBySymbolForUpdate symbol) >>= markPositions price : Txn Unit).run
        (postgres num) x = .ok ((), { x with
          positions := markedTable num price
            (x.positions.rows.filter fun p => p.symbol = symbol) x.positions }) ∧
      x.TakesMark num symbol price fun _ => True) := by
  have spec : (issue (Stmt.positionsBySymbolForUpdate symbol) >>= markPositions price : Txn Unit).wp
      (postgres num)
      (fun _ x' => x' = { x with
          positions := markedTable num price
            (x.positions.rows.filter fun p => p.symbol = symbol) x.positions } ∧
        x.TakesMark num symbol price fun _ => True)
      (fun _ => ¬ x.TakesMark num symbol price fun _ => True) x :=
    markSymbol_spec symbol sound
      (fun p mem same f refused marks => by
        rw [marks p mem same trivial] at refused
        cases refused)
      fun marked => ⟨rfl, fun p mem same _ => marked p mem same⟩
  cases ran :
    (issue (Stmt.positionsBySymbolForUpdate symbol) >>= markPositions price : Txn Unit).run
      (postgres num) x with
  | error f =>
    have refused := wp_error _ spec ran
    exact Or.inl ⟨f, rfl, refused⟩
  | ok r =>
    obtain ⟨u, x'⟩ := r
    obtain ⟨rfl, marks⟩ := wp_ok _ spec ran
    exact Or.inr ⟨rfl, marks⟩

theorem Db.Isolates.marked (h : x.Isolates own B y)
    (sound : ∀ p ∈ x.positions.rows, p.stored num = p ∧ p.violation num = none)
    (sound' : ∀ p ∈ y.positions.rows, p.stored num = p ∧ p.violation num = none)
    (others : x.TakesMark num symbol price (fun A => A = B) →
      x.TakesMark num symbol price fun A => A ≠ B) :
    let marking : Txn Unit := issue (Stmt.positionsBySymbolForUpdate symbol) >>= markPositions price
    (∃ e e', marking.run (postgres num) x = .error e ∧ marking.run (postgres num) y = .error e') ∨
      ∃ x' y', marking.run (postgres num) x = .ok ((), x') ∧
        marking.run (postgres num) y = .ok ((), y') ∧ x'.Isolates own B y' := by
  intro marking
  have both : x.TakesMark num symbol price (fun _ => True) ↔
      y.TakesMark num symbol price fun _ => True := by
    rw [h.takesMark]
    refine ⟨fun all p mem same _ => all p mem same trivial, fun mine p mem same _ => ?_⟩
    by_cases of : p.accountId = B
    · exact mine p mem same of
    · exact others mine p mem same of
  rcases markSymbol_run sound symbol price with ⟨f, ranx, refused⟩ | ⟨ranx, taken⟩
  · rcases markSymbol_run sound' symbol price with ⟨f', rany, -⟩ | ⟨-, taken'⟩
    · exact Or.inl ⟨f, f', ranx, rany⟩
    · exact absurd (both.2 taken') refused
  · rcases markSymbol_run sound' symbol price with ⟨f', -, refused'⟩ | ⟨rany, -⟩
    · exact absurd (both.1 taken) refused'
    · refine Or.inr ⟨_, _, ranx, rany, { h with
        left := ⟨h.left.orders, h.left.fills, h.left.processed⟩
        right := ⟨h.right.orders, h.right.fills, h.right.processed⟩
        onlyPositions := ?_, positions := ?_ }⟩
      · exact markedTable_forall h.onlyPositions fun p mem =>
          h.onlyPositions p (List.mem_filter.1 mem).1
      · have rows : (y.positions.rows.filter fun p => p.symbol = symbol) =
            (x.positions.rows.filter fun p => p.symbol = symbol).filter
              fun p => p.holding.1 = B := by
          rw [h.positions_rows, List.filter_comm]
          rfl
        simp only [rows]
        exact markedTable_agree h.positions _

theorem Db.Isolates.ticked {S : Deployment} {observedAt : Timestamp} (h : x.Isolates own B y)
    (sound : x.Sound S.num) (sound' : y.Sound S.num)
    (marks : Op.MarksAll S B x (.applyTick symbol price observedAt)) :
    (step S x (.applyTick symbol price observedAt)).Isolates own B
      (step S y (.applyTick symbol price observedAt)) := by
  simp only [step, OrderManagement.committed, applyTick, run_bind]
  rcases h.upsert S.num (S.upper symbol) price observedAt with
    ⟨e, hx, hy⟩ | ⟨applied, x', y', hx, hy, h'⟩
  · simpa only [hx, hy] using h
  · simp only [hx, hy]
    have effect := wp_ok _ (upsertMarketPrice_spec sound) hx
    have effect' := wp_ok _ (upsertMarketPrice_spec sound') hy
    cases effect with
    | outdated =>
      simp only [Bool.false_eq_true, if_false]
      exact h'
    | stored kept newest =>
      cases effect' with
      | stored =>
        simp only [if_true]
        rcases h'.marked sound.positions sound'.positions (marks kept newest) with
          ⟨e, e', ranx, rany⟩ | ⟨x'', y'', ranx, rany, h''⟩
        · rw [ranx, rany]
          exact h
        · rw [ranx, rany]
          exact h''

end Ticks

def Db.ownerOf (db : Db) (orderId : UUID) : Option UUID :=
  (db.orders.find orderId).map Order.accountId

def Op.account (db : Db) : Op → Option UUID
  | .createOrder _ payload => some payload.accountId
  | .processEvent event => db.ownerOf event.orderId
  | .requestCancellation orderId _ | .markRoutingFailure orderId _ => db.ownerOf orderId
  | .applyTick _ _ _ => none

def Op.concerns (B : UUID) (db : Db) (op : Op) : Bool := (op.account db).all fun A => A = B

def Op.OwnedBy (own : Owners) (db : Db) : Op → Prop
  | .createOrder draw payload => own.order draw.orderId = payload.accountId
  | .processEvent event => ∀ A ∈ db.ownerOf event.orderId, own.event event.eventId = A ∧
      (event.eventType.isFill = true →
        own.execution (orDefault event.executionId event.eventId.str) = A)
  | _ => True

section Operations

variable {S : Deployment} {own : Owners} {A B : UUID} {x y : Db} {op : Op}

theorem Db.OwnedBy.order (owned : x.OwnedBy own) {k : UUID} (found : x.ownerOf k = some A) :
    own.order k = A := by
  obtain ⟨o, held, rfl⟩ := Option.map_eq_some_iff.1 found
  rw [← owned.orders o (Table.mem_of_find held), Table.find_key held]

theorem Op.confined (S : Deployment) (owned : x.OwnedBy own) (belongs : op.OwnedBy own x)
    (account : op.account x = some A) :
    ∃ (α : Type) (p : Txn α), Confined own A (fun _ => True) p ∧
      ∀ db, step S db op = committed S.num p db := by
  cases op with
  | createOrder draw payload =>
    obtain rfl := Option.some.inj account
    exact ⟨_, _, createOrder_confined belongs rfl, fun _ => rfl⟩
  | processEvent event =>
    obtain ⟨eventId, executionId⟩ := belongs A account
    exact ⟨_, _, processEvent_confined ⟨owned.order account, eventId, executionId⟩, fun _ => rfl⟩
  | requestCancellation orderId reason =>
    exact ⟨_, _, requestCancellation_confined (owned.order account) reason, fun _ => rfl⟩
  | markRoutingFailure orderId reason =>
    exact ⟨_, _, markRoutingFailure_confined (owned.order account) reason, fun _ => rfl⟩
  | applyTick => cases account

/-- An operation on an order that does not exist changes nothing. -/
theorem step_unknown (account : op.account x = none)
    (tick : ∀ symbol price observedAt, op ≠ .applyTick symbol price observedAt) :
    step S x op = x := by
  cases op with
  | createOrder => cases account
  | processEvent event =>
    have missing := Option.map_eq_none_iff.1 account
    refine committed_of_wp (P := (· = x)) (Q := fun _ _ => False) (X := fun _ => True) ?_ rfl
      fun _ _ h => h.elim
    unfold processEvent
    simp only [wp_bind, wp_orderForUpdate, missing]
    trivial
  | requestCancellation orderId reason =>
    have missing := Option.map_eq_none_iff.1 account
    refine committed_of_wp (P := (· = x)) (Q := fun _ _ => False) (X := fun _ => True) ?_ rfl
      fun _ _ h => h.elim
    unfold requestCancellation
    simp only [wp_bind, wp_orderForUpdate, missing]
    trivial
  | markRoutingFailure orderId reason =>
    have missing := Option.map_eq_none_iff.1 account
    refine committed_of_wp (P := (· = x)) (Q := fun _ x' => x' = x) (X := fun _ => True) ?_ rfl
      fun _ _ h => h
    unfold markRoutingFailure
    simp only [wp_bind, wp_orderForUpdate, missing]
    trivial
  | applyTick symbol price observedAt => exact absurd rfl (tick symbol price observedAt)

theorem Db.Isolates.ownerOf (h : x.Isolates own B y) {k : UUID} (missing : x.ownerOf k = none) :
    y.ownerOf k = none := by
  unfold Db.ownerOf at *
  rw [Option.map_eq_none_iff] at *
  by_contra found
  obtain ⟨o, held⟩ := Option.ne_none_iff_exists'.1 found
  have mem := Table.mem_of_find held
  have mine : own.order k = B := by
    rw [← Table.find_key held, h.right.orders o mem, h.onlyOrders o mem]
  rw [h.orders.find (decide_eq_true mine), held] at missing
  cases missing

theorem Db.Isolates.dropped (h : x.Isolates own B y) (belongs : op.OwnedBy own x)
    (other : op.concerns B x = false) : (step S x op).Isolates own B y := by
  unfold Op.concerns at other
  cases account : op.account x with
  | none => simp [account] at other
  | some A =>
    obtain ⟨α, p, confined, same⟩ := Op.confined S h.left belongs account
    rw [same]
    exact h.committed_other confined (by simpa [account] using other)

theorem Db.Isolates.selected (h : x.Isolates own B y) (sound : x.Sound S.num)
    (sound' : y.Sound S.num)
    (belongs : op.OwnedBy own x) (marks : op.MarksAll S B x) (mine : op.concerns B x = true) :
    (step S x op).Isolates own B (step S y op) := by
  unfold Op.concerns at mine
  cases account : op.account x with
  | some A =>
    obtain rfl : A = B := by simpa [account] using mine
    obtain ⟨α, p, confined, same⟩ := Op.confined S h.left belongs account
    rw [same, same]
    exact h.committed confined
  | none =>
    have unknown : op.account y = none →
        (∀ symbol price observedAt, op ≠ .applyTick symbol price observedAt) →
          (step S x op).Isolates own B (step S y op) := by
      intro account' tick
      rw [step_unknown account tick, step_unknown account' tick]
      exact h
    cases op with
    | createOrder => cases account
    | applyTick symbol price observedAt => exact h.ticked sound sound' marks
    | processEvent | requestCancellation | markRoutingFailure =>
      exact unknown (h.ownerOf account) (by simp)

end Operations

end OrderManagement
