import OrderManagement.FixedPointTexts
import OrderManagement.IdempotentSubmission
import OrderManagement.PayloadStorage

/-! Orders and fills as the API shows them, with their numbers as texts. From the columns of the
schema the texts lose nothing, so that a client can submit an order again as it was shown. -/

namespace OrderManagement

open DecimalNumerals TransitionRuns

def serializeDecimal (value : ℚ) : String := String.ofList (fixedPoint 8 value)

structure OrderResponse where
  id : UUID
  clientOrderId : String
  accountId : UUID
  symbol : String
  side : OrderSide
  orderType : OrderType
  timeInForce : TimeInForce
  quantity : String
  price : String
  filledQuantity : String
  cancelledQuantity : String
  remainingQuantity : String
  averageFillPrice : Option String
  status : OrderStatus
  rejectionReason : Option String
  expiresAt : Option Timestamp
  deriving DecidableEq, Repr

def OrderResponse.modelValidate (order : Order) : OrderResponse where
  id := order.id
  clientOrderId := order.clientOrderId
  accountId := order.accountId
  symbol := order.symbol
  side := order.side
  orderType := order.orderType
  timeInForce := order.timeInForce
  quantity := serializeDecimal order.quantity
  price := serializeDecimal order.price
  filledQuantity := serializeDecimal order.filledQuantity
  cancelledQuantity := serializeDecimal order.cancelledQuantity
  remainingQuantity := serializeDecimal order.remainingQuantity
  averageFillPrice := order.averageFillPrice.map serializeDecimal
  status := order.status
  rejectionReason := order.rejectionReason
  expiresAt := order.expiresAt

structure FillResponse where
  orderId : UUID
  brokerEventId : UUID
  executionId : String
  quantity : String
  price : String
  executedAt : Timestamp
  deriving DecidableEq, Repr

def FillResponse.modelValidate (fill : Fill) : FillResponse where
  orderId := fill.orderId
  brokerEventId := fill.brokerEventId
  executionId := fill.executionId
  quantity := serializeDecimal fill.quantity
  price := serializeDecimal fill.price
  executedAt := fill.executedAt

def readDecimal (u : Digits) (value : String) : Option ℚ :=
  match u.ofText (text value) with
  | some (.finite number) => some number
  | _ => none

example : serializeDecimal (-5 / 2) = "-2.50000000" := by decide +kernel

/-- The row behind a response, given the columns that it does not show. -/
def OrderResponse.row (u : Digits) (idempotencyKey : String) (version : ℕ) (r : OrderResponse) :
    Option Order := do
  let quantity ← readDecimal u r.quantity
  let price ← readDecimal u r.price
  let filledQuantity ← readDecimal u r.filledQuantity
  let cancelledQuantity ← readDecimal u r.cancelledQuantity
  let remainingQuantity ← readDecimal u r.remainingQuantity
  let averageFillPrice ← r.averageFillPrice.mapM (readDecimal u)
  return {
    id := r.id
    clientOrderId := r.clientOrderId
    idempotencyKey
    accountId := r.accountId
    symbol := r.symbol
    side := r.side
    orderType := r.orderType
    timeInForce := r.timeInForce
    quantity, price, filledQuantity, cancelledQuantity, remainingQuantity, averageFillPrice
    status := r.status
    rejectionReason := r.rejectionReason
    expiresAt := r.expiresAt
    version }

def FillResponse.row (u : Digits) (r : FillResponse) : Option Fill := do
  let quantity ← readDecimal u r.quantity
  let price ← readDecimal u r.price
  return {
    orderId := r.orderId
    brokerEventId := r.brokerEventId
    executionId := r.executionId
    quantity, price
    executedAt := r.executedAt }

/-- The submission of a shown order, under a key of the client's. -/
def OrderResponse.resubmission (u : Digits) (idempotencyKey : String) (r : OrderResponse) :
    Option RawOrder := do
  let quantity ← readDecimal u r.quantity
  let price ← readDecimal u r.price
  return {
    clientOrderId := r.clientOrderId
    idempotencyKey
    accountId := r.accountId
    symbol := r.symbol
    side := r.side
    orderType := r.orderType
    timeInForce := r.timeInForce
    quantity, price }

structure Columnar (x : ℚ) : Prop where
  kept : (Numeric.column 24 8).round x = x
  fits : (Numeric.column 24 8).fits x = true

theorem Columnar.units {x : ℚ} (h : Columnar x) :
    ∃ k : ℤ, x * 10 ^ 8 = k ∧ k.natAbs < 10 ^ 24 := by
  obtain ⟨k, units⟩ :=
    Numeric.onGrid_iff.1 (h.kept ▸ Numeric.roundTo_onGrid 8 x : Numeric.OnGrid 8 x)
  have size : |x| < 10 ^ 16 := by
    have fits : |(Numeric.column 24 8).round x| < 10 ^ 16 := of_decide_eq_true h.fits
    rwa [h.kept] at fits
  have bound : (k.natAbs : ℚ) < 10 ^ 24 := by
    rw [Nat.cast_natAbs, Int.cast_abs, ← units, abs_mul,
      abs_of_pos (by positivity : (0 : ℚ) < 10 ^ 8)]
    linarith
  exact ⟨k, units, by exact_mod_cast bound⟩

section Texts

variable {u : Digits} (plain : u.Plain)

include plain in
theorem readDecimal_serializeDecimal {x : ℚ} (h : Columnar x) :
    readDecimal u (serializeDecimal x) = some x := by
  obtain ⟨k, units, small⟩ := h.units
  have range : InRange k.natAbs (-((8 : ℕ) : ℤ)) := by
    have log : Nat.log 10 k.natAbs < 24 := Nat.log_lt_of_lt_pow' (by decide) small
    unfold InRange
    omega
  have read : u.ofText (text (serializeDecimal x)) = some (.finite x) := by
    rw [text, serializeDecimal, String.toList_ofList]
    exact ofText_fixedPoint_exact plain (by decide) units range
  rw [readDecimal, read]

structure Order.Columnar (o : Order) : Prop where
  quantity : OrderManagement.Columnar o.quantity
  price : OrderManagement.Columnar o.price
  filledQuantity : OrderManagement.Columnar o.filledQuantity
  cancelledQuantity : OrderManagement.Columnar o.cancelledQuantity
  remainingQuantity : OrderManagement.Columnar o.remainingQuantity
  averageFillPrice : ∀ price ∈ o.averageFillPrice, OrderManagement.Columnar price

theorem Order.columnar {o : Order} (kept : o.stored (.column 24 8) = o)
    (checked : o.violation (.column 24 8) = none) : o.Columnar := by
  rw [Order.violation, firstFailure_eq_none_iff] at checked
  simp only [List.forall_mem_cons, Bool.and_eq_true, Option.all_eq_true] at checked
  obtain ⟨-, -, -, ⟨⟨⟨⟨⟨quantity, price⟩, filled⟩, cancelled⟩, remaining⟩, average⟩, -⟩ := checked
  exact
    { quantity := ⟨congrArg Order.quantity kept, quantity⟩
      price := ⟨congrArg Order.price kept, price⟩
      filledQuantity := ⟨congrArg Order.filledQuantity kept, filled⟩
      cancelledQuantity := ⟨congrArg Order.cancelledQuantity kept, cancelled⟩
      remainingQuantity := ⟨congrArg Order.remainingQuantity kept, remaining⟩
      averageFillPrice := fun price mem => by
        have same : o.averageFillPrice.map (Numeric.column 24 8).round = o.averageFillPrice :=
          congrArg Order.averageFillPrice kept
        rw [Option.mem_def.1 mem, Option.map_some, Option.some.injEq] at same
        exact ⟨same, average price mem⟩ }

include plain in
theorem row_modelValidate {o : Order} (h : o.Columnar) :
    (OrderResponse.modelValidate o).row u o.idempotencyKey o.version = some o := by
  have average : (o.averageFillPrice.map serializeDecimal).mapM (readDecimal u) =
      some o.averageFillPrice := by
    cases eq : o.averageFillPrice with
    | none => rfl
    | some price => simp [readDecimal_serializeDecimal plain (h.averageFillPrice price eq)]
  simp only [OrderResponse.row, OrderResponse.modelValidate,
    readDecimal_serializeDecimal plain h.quantity, readDecimal_serializeDecimal plain h.price,
    readDecimal_serializeDecimal plain h.filledQuantity,
    readDecimal_serializeDecimal plain h.cancelledQuantity,
    readDecimal_serializeDecimal plain h.remainingQuantity, average]
  rfl

theorem row_version {r : OrderResponse} {key : String} {version : ℕ} {o : Order}
    (read : r.row u key version = some o) (other : ℕ) :
    r.row u key other = some { o with version := other } := by
  simp only [OrderResponse.row, Option.bind_eq_bind, Option.bind_eq_some_iff, Option.pure_def,
    Option.some.injEq] at read ⊢
  obtain ⟨a, ha, b, hb, c, hc, d, hd, e, he, f, hf, rfl⟩ := read
  exact ⟨a, ha, b, hb, c, hc, d, hd, e, he, f, hf, rfl⟩

include plain in
theorem fill_row_modelValidate {f : Fill} (kept : f.stored (.column 24 8) = f)
    (checked : f.violation (.column 24 8) = none) :
    (FillResponse.modelValidate f).row u = some f := by
  rw [Fill.violation, firstFailure_eq_none_iff] at checked
  simp only [List.forall_mem_cons, Bool.and_eq_true] at checked
  obtain ⟨-, ⟨quantity, price⟩, -⟩ := checked
  simp only [FillResponse.row, FillResponse.modelValidate,
    readDecimal_serializeDecimal plain ⟨congrArg Fill.quantity kept, quantity⟩,
    readDecimal_serializeDecimal plain ⟨congrArg Fill.price kept, price⟩]
  rfl

include plain in
theorem resubmission_modelValidate {o : Order} (h : o.Columnar) (key : String) :
    (OrderResponse.modelValidate o).resubmission u key =
      some ⟨o.clientOrderId, key, o.accountId, o.symbol, o.side, o.orderType, o.timeInForce,
        o.quantity, o.price⟩ := by
  simp only [OrderResponse.resubmission, OrderResponse.modelValidate,
    readDecimal_serializeDecimal plain h.quantity, readDecimal_serializeDecimal plain h.price]
  rfl

end Texts

section Runs

variable {u : Digits} (plain : u.Plain) {settings : Settings} {upper : String → String}
  {opened : Db}

theorem run_columnar (fresh : opened.Fresh (.column 24 8)) (ts : List Transaction) :
    (run (transact (.columns settings upper)) opened ts).Sound (.column 24 8) :=
  (run_distinct (S := .columns settings upper) fresh ts).1

include plain in
/-- After every run the responses show the rows of orders and fills without loss, and two
responses of an order that are equal come from rows that differ in their version at most. -/
theorem responses_exact (fresh : opened.Fresh (.column 24 8)) (ts more : List Transaction) :
    let db := run (transact (.columns settings upper)) opened ts
    let db' := run (transact (.columns settings upper)) db more
    (∀ o ∈ db.orders.rows,
      (OrderResponse.modelValidate o).row u o.idempotencyKey o.version = some o) ∧
    (∀ f ∈ db.fills.rows, (FillResponse.modelValidate f).row u = some f) ∧
    ∀ k o o', db.orders.find k = some o → db'.orders.find k = some o' →
      OrderResponse.modelValidate o' = OrderResponse.modelValidate o →
        o' = { o with version := o'.version } := by
  intro db db'
  have sound : db.Sound (.column 24 8) := run_columnar fresh ts
  have sound' : db'.Sound (.column 24 8) := by
    have whole :
        (run (transact (.columns settings upper)) opened (ts ++ more)).Sound (.column 24 8) :=
      run_columnar fresh (ts ++ more)
    rwa [run_append] at whole
  have columnar : ∀ {db : Db} {o : Order}, db.Sound (.column 24 8) → o ∈ db.orders.rows →
      o.Columnar := fun sound mem => Order.columnar (sound.orders _ mem).1 (sound.orders _ mem).2
  refine ⟨fun o mem => row_modelValidate plain (columnar sound mem),
    fun f mem => fill_row_modelValidate plain (sound.fills f mem).1 (sound.fills f mem).2, ?_⟩
  intro k o o' found found' same
  obtain ⟨p, foundP, frozen⟩ := (run_amended (.columns settings upper)
    (fun db => ∃ p, db.orders.find k = some p ∧ o.Frozen p) sound
    (fun _ _ => by
      rintro ⟨p, there, frozen⟩ amended
      obtain ⟨q, there', frozen'⟩ := amended.order_frozen there
      exact ⟨q, there', frozen.trans frozen'⟩) ⟨o, found, .refl o⟩ more).2
  obtain rfl : p = o' := Option.some.inj (foundP.symm.trans found')
  have read := row_modelValidate plain (columnar sound (Table.mem_of_find found))
  have read' := row_modelValidate plain (columnar sound' (Table.mem_of_find found'))
  rw [same, frozen.idempotencyKey, row_version read] at read'
  exact (Option.some.inj read').symm

def RawOrder.shown (c : CharTable) (raw : RawOrder) : RawOrder :=
  { raw with symbol := normalizeSymbol c raw.symbol }

theorem payload_shown (c : CharTable) {raw : RawOrder} (accepted : raw.Accepted)
    (again : (raw.shown c).Accepted) : (raw.shown c).payload c again = raw.payload c accepted := by
  simp only [RawOrder.payload, RawOrder.shown, normalizeSymbol_normalizeSymbol]

theorem Order.symbol_length {num : Numeric} {o : Order} (checked : o.violation num = none) :
    o.symbol.length ≤ 32 := by
  rw [Order.violation, firstFailure_eq_none_iff] at checked
  simp only [List.forall_mem_cons, decide_eq_true_eq] at checked
  exact checked.2.2.1

theorem shown_accepted_iff (c : CharTable) {raw : RawOrder} (accepted : raw.Accepted)
    (width : (normalizeSymbol c raw.symbol).length ≤ 32) :
    (raw.shown c).Accepted ↔ ∃ char ∈ raw.symbol.toList, c.isSpace char = false := by
  refine Iff.trans ⟨fun again => ?_, fun visible => ?_⟩ (one_le_width_iff c raw)
  · rw [← length_normalizeSymbol]
    exact again.symbol.1
  · rw [← length_normalizeSymbol] at visible
    -- the other fields are those of `raw`
    constructor <;> dsimp only [RawOrder.shown]
    · exact accepted.clientOrderId
    · exact accepted.idempotencyKey
    · exact ⟨visible, width⟩
    · exact accepted.quantity
    · exact accepted.price

include plain in
/-- An order that is submitted again as any later response shows it, under its own key, is
returned with nothing written; the schema refuses this only for a symbol of nothing but
whitespace. -/
theorem resubmission_idempotent (c : CharTable) (fresh : opened.Fresh (.column 24 8))
    (before : List Transaction) {raw : RawOrder} (accepted : raw.Accepted) (draw : CreateDraw)
    {o : Order} :
    let S := Deployment.columns settings upper
    let db := run (transact S) opened before
    let placed := step S db (.createOrder draw (raw.payload c accepted))
    db.orders.find draw.orderId = none → placed.orders.find draw.orderId = some o →
    ∀ after, let db' := run (transact S) placed after
    ∃ o', db'.orders.find draw.orderId = some o' ∧
      (OrderResponse.modelValidate o').resubmission u raw.idempotencyKey = some (raw.shown c) ∧
      ((raw.shown c).Accepted ↔ ∃ char ∈ raw.symbol.toList, c.isSpace char = false) ∧
      ∀ (again : (raw.shown c).Accepted) draw', ∃ account,
        (createOrder S.settings draw' ((raw.shown c).payload c again)).run (postgres S.num) db' =
          .ok (⟨{ order := .of o', account := some (.of account) }, false⟩, db') := by
  intro S db placed new found after db'
  have sound : db.Sound S.num := run_columnar fresh before
  have made := made_of_change (fun _ => column_keeps) new (step_change S sound _) found
  obtain ⟨o', id, made'⟩ := made.run (step_sound sound _) after
  have key : o.id = draw.orderId := Table.find_key found
  obtain ⟨sound', distinct'⟩ := run_distinct (S := S) fresh
    (before ++ .op (.createOrder draw (raw.payload c accepted)) :: after)
  rw [run_append] at sound' distinct'
  have row := sound'.orders o' (Table.mem_of_find made'.found)
  obtain ⟨account, client, symbol, side, type, force, quantity, price⟩ :=
    orderMatchesRequest_iff.1 made'.same
  refine ⟨o', by rw [← key, ← id]; exact made'.found, ?_, ?_, fun again draw' => ?_⟩
  · rw [resubmission_modelValidate plain (Order.columnar row.1 row.2), account, client,
      symbol, side,
      type, force, quantity, price]
    rfl
  · have width := Order.symbol_length row.2
    rw [symbol] at width
    exact shown_accepted_iff c accepted width
  · rw [payload_shown c accepted again]
    exact createOrder_again sound' made'.account (made'.byIdempotencyKey distinct') made'.same

end Runs

/-! The trader's order after a partial fill. -/

def asciiDigits : Digits := ⟨fun c => c = codePoint ' ', fun _ => none⟩

theorem asciiDigits_plain : asciiDigits.Plain := fun c numeral => by
  refine decide_eq_false fun same => ?_
  have value : c.toNat = 32 := congrArg Fin.val same
  have range := numeral.bounds
  omega

def tradedTransactions : List Transaction :=
  [.op (.createOrder ⟨2, 0⟩ limitBuy), .op (.processEvent partialFill)]

theorem responses_exact_partialFill :
    let db := run (transact (.columns {} id)) (traderDb (.column 24 8)) tradedTransactions
    (∃ o ∈ db.orders.rows, (OrderResponse.modelValidate o).filledQuantity = "4.00000000") ∧
    ∀ o ∈ db.orders.rows,
      (OrderResponse.modelValidate o).row asciiDigits o.idempotencyKey o.version = some o := by
  intro db
  have shown : ∃ o ∈ db.orders.rows,
      (OrderResponse.modelValidate o).filledQuantity = "4.00000000" := by decide +kernel
  exact ⟨shown,
    (responses_exact asciiDigits_plain (openAccounts_fresh _ _) tradedTransactions []).1⟩

/-- A submission with blanks around its symbol. -/
theorem resubmission_idempotent_padded :
    let raw := rawOrder " aa "
    let S := Deployment.columns {} id
    let placed := step S (traderDb S.num) (.createOrder ⟨2, 0⟩
      (raw.payload sharpS (rawOrder_accepted (by decide))))
    ∃ o, placed.orders.find 2 = some o ∧ (OrderResponse.modelValidate o).symbol = "AA" ∧
      (OrderResponse.modelValidate o).resubmission asciiDigits "idempotency-7" =
        some (raw.shown sharpS) := by
  intro raw S placed
  have there : (placed.orders.find 2).map Order.symbol = some "AA" := by decide +kernel
  obtain ⟨o, found, symbol⟩ := Option.map_eq_some_iff.1 there
  obtain ⟨o', found', shown, -⟩ := resubmission_idempotent asciiDigits_plain sharpS
    (openAccounts_fresh (.column 24 8) [(1, traderAccount)]) [] (rawOrder_accepted (by decide))
    ⟨2, 0⟩ (by decide +kernel) found []
  obtain rfl : o = o' := Option.some.inj (found.symm.trans found')
  exact ⟨o, found, symbol, shown⟩

end OrderManagement
