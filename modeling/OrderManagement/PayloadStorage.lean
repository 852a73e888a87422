import OrderManagement.OrderRuns
import OrderManagement.TextCase
import OrderManagement.TextColumns

/-! Whether an accepted submission can be stored. The schema checks the symbol before it is
stripped and upper-cased, and bounds no number; the columns bound all three. -/

namespace OrderManagement

open Program TransitionRuns

/-- A submission as it is sent, before the validators of `OrderCreate`. -/
structure RawOrder where
  clientOrderId : String
  idempotencyKey : String
  accountId : UUID
  symbol : String
  side : OrderSide
  orderType : OrderType
  timeInForce : TimeInForce
  quantity : ℚ
  price : ℚ

structure RawOrder.Accepted (raw : RawOrder) : Prop where
  clientOrderId : 1 ≤ raw.clientOrderId.length ∧ raw.clientOrderId.length ≤ 100
  idempotencyKey : 8 ≤ raw.idempotencyKey.length ∧ raw.idempotencyKey.length ≤ 100
  symbol : 1 ≤ raw.symbol.length ∧ raw.symbol.length ≤ 32
  quantity : 0 < raw.quantity ∧ Numeric.OnGrid 8 raw.quantity
  price : 0 < raw.price ∧ Numeric.OnGrid 8 raw.price

def normalizeSymbol (u : CharTable) (value : String) : String := u.upperCase (u.strip value)

def RawOrder.payload (u : CharTable) (raw : RawOrder) (accepted : raw.Accepted) : OrderCreate where
  clientOrderId := raw.clientOrderId
  idempotencyKey := raw.idempotencyKey
  accountId := raw.accountId
  symbol := normalizeSymbol u raw.symbol
  side := raw.side
  orderType := raw.orderType
  timeInForce := raw.timeInForce
  quantity := raw.quantity
  price := raw.price
  clientOrderId_length := accepted.clientOrderId
  idempotencyKey_length := accepted.idempotencyKey
  quantity_pos := accepted.quantity.1
  quantity_places := accepted.quantity.2
  price_pos := accepted.price.1
  price_places := accepted.price.2

/-- `NUMERIC(24, 8)`, the type of all numbers. -/
def numeric : Numeric := .column 24 8

section Numbers

theorem numeric_round {x : ℚ} (places : Numeric.OnGrid 8 x) : numeric.round x = x :=
  Numeric.roundTo_of_onGrid places

theorem numeric_fits_iff {x : ℚ} (nonneg : 0 ≤ x) :
    numeric.fits x = true ↔ numeric.round x < 10 ^ 16 := by
  have same : |numeric.round x| = numeric.round x := abs_of_nonneg (numeric.round_nonneg nonneg)
  change decide (|numeric.round x| < 10 ^ 16) = true ↔ _
  rw [same, decide_eq_true_iff]

theorem newOrder_stored_checked_iff (settings : Settings) (draw : CreateDraw)
    {payload : OrderCreate} :
    ((newOrder settings draw payload).stored numeric).violation numeric = none ↔
      payload.symbol.length ≤ 32 ∧ payload.quantity < 10 ^ 16 ∧ payload.price < 10 ^ 16 := by
  have quantity := numeric_round payload.quantity_places
  have price := numeric_round payload.price_places
  have zero : numeric.round 0 = 0 := numeric.round_zero
  have fitsZero : numeric.fits 0 = true := (numeric_fits_iff le_rfl).2 (by rw [zero]; norm_num)
  have fitsQuantity := numeric_fits_iff payload.quantity_pos.le
  have fitsPrice := numeric_fits_iff payload.price_pos.le
  rw [quantity] at fitsQuantity
  rw [price] at fitsPrice
  unfold Order.violation
  rw [firstFailure_eq_none_iff]
  simp [newOrder, Order.stored, quantity, price, zero, fitsZero, fitsQuantity, fitsPrice,
    payload.clientOrderId_length.2, payload.idempotencyKey_length.2, payload.quantity_pos,
    payload.price_pos, payload.quantity_pos.le]
  exact fun _ small _ => small

variable {db : Db} {settings : Settings} {draw : CreateDraw} {payload : OrderCreate}

theorem Placement.charged_checked (sound : db.Sound numeric)
    (t : Placement db settings draw payload) (covered : t.required ≤ t.account.availableCash) :
    (t.charged.stored numeric).violation numeric = none := by
  obtain ⟨kept, checked⟩ := sound.accounts t.account (Table.mem_of_find t.accountFound)
  unfold Placement.charged
  split_ifs with buy
  swap
  · exact kept.symm ▸ checked
  have cash : numeric.round t.account.cashBalance = t.account.cashBalance :=
    congrArg Account.cashBalance kept
  unfold Account.violation at checked ⊢
  rw [firstFailure_eq_none_iff] at checked ⊢
  simp only [List.forall_mem_cons, decide_eq_true_eq, Bool.and_eq_true] at checked ⊢
  obtain ⟨user, currency, ⟨fitsCash, -⟩, nonneg, reserved, -, -⟩ := checked
  have required : 0 ≤ t.required := by
    have product := mul_pos payload.quantity_pos payload.price_pos
    simpa [Placement.required, requiredBuyingPower, buy] using product.le
  have total : 0 ≤ t.account.reservedCash + t.required := add_nonneg reserved required
  have le : t.account.reservedCash + t.required ≤ t.account.cashBalance := by
    unfold Account.availableCash at covered
    linarith
  have rounded : numeric.round (t.account.reservedCash + t.required) ≤ t.account.cashBalance :=
    cash ▸ numeric.round_mono le
  rw [numeric_fits_iff nonneg, cash] at fitsCash
  have cash' :
      ((t.account.reserve t.required).stored numeric).cashBalance = t.account.cashBalance :=
    cash
  have held : ((t.account.reserve t.required).stored numeric).reservedCash =
      numeric.round (t.account.reservedCash + t.required) := rfl
  rw [cash', held]
  have positive := numeric.round_nonneg total
  refine ⟨user, currency, ⟨?_, ?_⟩, nonneg, positive, rounded, by simp⟩
  · rwa [numeric_fits_iff nonneg, cash]
  · rw [numeric_fits_iff positive, numeric.round_round]
    linarith

end Numbers

/-- The call ends by returning an order, with rows that satisfy their columns, or by raising a
domain error. -/
def Answers (settings : Settings) (draw : CreateDraw) (payload : OrderCreate) (db : Db) : Prop :=
  (∃ created db', (createOrder settings draw payload).run (encodedPostgres numeric) db =
    .ok (created, db') ∧ db'.Sound numeric) ∨
  ∃ error, (createOrder settings draw payload).run (encodedPostgres numeric) db =
    .error (.domain error)

/-- What the columns ask of a submission. -/
structure OrderCreate.FitsColumns (payload : OrderCreate) : Prop where
  nulFree : payload.NulFree
  symbol : payload.symbol.length ≤ 32
  quantity : payload.quantity < 10 ^ 16
  price : payload.price < 10 ^ 16

theorem OrderCreate.FitsColumns.answers {db : Db} {settings : Settings} {draw : CreateDraw}
    {payload : OrderCreate} (fits : payload.FitsColumns) (sound : db.Sound numeric)
    (new : db.orders.find draw.orderId = none) : Answers settings draw payload db := by
  have same := createOrder_run_encoded settings draw fits.nulFree numeric db
  have checked := (newOrder_stored_checked_iff settings draw).2
    ⟨fits.symbol, fits.quantity, fits.price⟩
  have spec := @createOrder_spec _ _ settings draw payload sound
  unfold Answers
  rw [same]
  cases ran : (createOrder settings draw payload).run (postgres numeric) db with
  | error f =>
    refine Or.inr ?_
    cases wp_error _ spec ran with
    | accountNotFound | differs | reused => exact ⟨_, rfl⟩
    | refused t refused =>
      have accepted : (t.order.stored numeric).refusal numeric db = none :=
        Order.refusal_eq_none_iff.2 ⟨checked, new, t.newClientOrderId, t.newKey⟩
      rw [accepted] at refused
      cases refused
    | reservation t covered refused =>
      rw [t.charged_checked sound covered] at refused
      cases refused
  | ok answer =>
    obtain ⟨created, db'⟩ := answer
    refine Or.inl ⟨created, db', rfl, ?_⟩
    have stepped : step ⟨numeric, settings, id⟩ db (.createOrder draw payload) = db' := by
      simp only [step, committed, ran]
    exact stepped ▸ step_sound (S := ⟨numeric, settings, id⟩) sound _

/-- An account without orders tells whether a submission fits. -/
theorem OrderCreate.FitsColumns.of_answers {db : Db} {settings : Settings} {draw : CreateDraw}
    {payload : OrderCreate} {account : Account} (sound : db.Sound numeric)
    (found : db.accounts.find payload.accountId = some account) (noOrders : db.orders.rows = [])
    (answers : Answers settings draw payload db) : payload.FitsColumns := by
  have noRefusal : ∀ {f : Failure}, f.isRefusal = true →
      (createOrder settings draw payload).run (encodedPostgres numeric) db ≠ .error f := by
    rintro f refusal ran
    rcases answers with ⟨created, db', eq, -⟩ | ⟨error, eq⟩
    · cases ran.symm.trans eq
    · obtain rfl := Except.error.inj (ran.symm.trans eq)
      cases refusal
  have nulFree : payload.NulFree := by
    by_contra nul
    obtain ⟨f, refusal, ran⟩ := createOrder_refused_of_nul found noOrders nul
    exact noRefusal refusal ran
  have same := createOrder_run_encoded settings draw nulFree numeric db
  have spec := @createOrder_spec _ _ settings draw payload sound
  have byKey : db.byIdempotencyKey payload.accountId payload.idempotencyKey = none :=
    Table.first_eq_none_iff.2 (by simp [noOrders])
  have byClient : db.byClientOrderId payload.accountId payload.clientOrderId = none :=
    Table.first_eq_none_iff.2 (by simp [noOrders])
  suffices checked : ((newOrder settings draw payload).stored numeric).violation numeric = none by
    obtain ⟨symbol, quantity, price⟩ := (newOrder_stored_checked_iff settings draw).1 checked
    exact ⟨nulFree, symbol, quantity, price⟩
  cases ran : (createOrder settings draw payload).run (postgres numeric) db with
  | error f =>
    cases wp_error _ spec ran with
    | accountNotFound missing => simp [found] at missing
    | differs keyed => simp [byKey] at keyed
    | reused _ taken => simp [byClient] at taken
    | refused t refused => exact (noRefusal (Order.refusal_isRefusal refused) (same.trans ran)).elim
    | reservation t covered refused =>
      rw [t.charged_checked sound covered] at refused
      cases refused
  | ok answer =>
    obtain ⟨created, db'⟩ := answer
    cases wp_ok _ spec ran with
    | existing _ keyed => simp [byKey] at keyed
    | rejected t inserted | routed t inserted => exact (Order.refusal_eq_none_iff.1 inserted).1

def RawOrder.width (u : CharTable) (raw : RawOrder) : ℕ :=
  ((u.strip raw.symbol).toList.map fun c => (u.upper c).length).sum

/-- The texts hold no U+0000, the symbol upper-cases to at most 32 characters, and quantity
and price have at most 16 digits before the point. -/
structure RawOrder.Fits (u : CharTable) (raw : RawOrder) : Prop where
  clientOrderId : NulFree raw.clientOrderId
  idempotencyKey : NulFree raw.idempotencyKey
  symbol : NulFree raw.symbol
  width : raw.width u ≤ 32
  quantity : raw.quantity < 10 ^ 16
  price : raw.price < 10 ^ 16

theorem normalizeSymbol_toList (u : CharTable) (value : String) :
    (normalizeSymbol u value).toList = (u.stripped value.toList).flatMap u.upper := by
  simp [normalizeSymbol, CharTable.upperCase, CharTable.strip]

theorem length_normalizeSymbol (u : CharTable) (raw : RawOrder) :
    (normalizeSymbol u raw.symbol).length = raw.width u := by
  rw [← String.length_toList, normalizeSymbol_toList, List.length_flatMap]
  simp [RawOrder.width, CharTable.strip]

theorem normalizeSymbol_normalizeSymbol (u : CharTable) (value : String) :
    normalizeSymbol u (normalizeSymbol u value) = normalizeSymbol u value := by
  refine String.toList_injective ?_
  rw [normalizeSymbol_toList u (normalizeSymbol u value), normalizeSymbol_toList,
    (CharTable.stripped_trimmed _).upper.stripped_eq, CharTable.upper_flatMap]

theorem nulFree_normalizeSymbol_iff (u : CharTable) (value : String) :
    NulFree (normalizeSymbol u value) ↔ NulFree value := by
  unfold NulFree
  rw [normalizeSymbol_toList, List.mem_flatMap, not_iff_not]
  constructor
  · rintro ⟨c, mem, from_⟩
    exact (u.mem_upper_nul c).1 from_ ▸ CharTable.stripped_subset mem
  · intro mem
    exact ⟨_, CharTable.mem_stripped mem u.nul_space, (u.mem_upper_nul _).2 rfl⟩

theorem one_le_width_iff (u : CharTable) (raw : RawOrder) :
    1 ≤ raw.width u ↔ ∃ c ∈ raw.symbol.toList, u.isSpace c = false := by
  rw [← CharTable.stripped_ne_nil_iff, ← length_normalizeSymbol, ← String.length_toList,
    normalizeSymbol_toList]
  cases eq : u.stripped raw.symbol.toList with
  | nil => simp
  | cons c rest =>
    have some_ := List.length_pos_iff.2 (u.upper_ne_nil c)
    simp only [List.flatMap_cons, List.length_append, ne_eq, reduceCtorEq, not_false_eq_true,
      iff_true]
    omega

theorem RawOrder.fits_iff (u : CharTable) (raw : RawOrder) (accepted : raw.Accepted) :
    (raw.payload u accepted).FitsColumns ↔ raw.Fits u := by
  have length := length_normalizeSymbol u raw
  have nul := nulFree_normalizeSymbol_iff u raw.symbol
  constructor
  · intro h
    exact ⟨h.nulFree.clientOrderId, h.nulFree.idempotencyKey, nul.1 h.nulFree.symbol,
      length ▸ h.symbol, h.quantity, h.price⟩
  · intro h
    exact ⟨⟨h.clientOrderId, h.idempotencyKey, nul.2 h.symbol⟩, length.trans_le h.width, h.quantity,
      h.price⟩

/-- The call answers in every reachable database with the account; drawn ids are new. -/
def AlwaysAnswers (payload : OrderCreate) : Prop :=
  ∀ (settings : Settings) (upper : String → String) (db₀ : Db), db₀.Fresh numeric →
    ∀ (ops : List Op) (draw : CreateDraw),
      let db := run (step ⟨numeric, settings, upper⟩) db₀ ops
      (db.accounts.find payload.accountId).isSome → db.orders.find draw.orderId = none →
        Answers settings draw payload db

structure Storable (u : CharTable) (raw : RawOrder) (accepted : raw.Accepted) : Prop where
  symbol : 1 ≤ (normalizeSymbol u raw.symbol).length ∧ (normalizeSymbol u raw.symbol).length ≤ 32
  normalized : normalizeSymbol u (normalizeSymbol u raw.symbol) = normalizeSymbol u raw.symbol
  quantity : raw.quantity < 10 ^ 16
  price : raw.price < 10 ^ 16
  answers : AlwaysAnswers (raw.payload u accepted)

theorem exists_openAccount (id : UUID) :
    ∃ account, (openAccounts numeric [(id, traderAccount)]).accounts.find id = some account := by
  have opened : (createAccount id traderAccount).wp (postgres numeric)
      (fun _ db => ∃ account, db.accounts.find id = some account) (fun _ => False) Db.empty := by
    unfold createAccount
    have unused : (Db.empty.accounts.first fun a => a.userId = traderAccount.userId) = none := rfl
    simp only [wp_bind, wp_accountByUserId, unused, wp_insertAccount]
    have accepted :
        ((newAccount id traderAccount).stored numeric).refusal numeric Db.empty = none := by
      have checked : ((newAccount 0 traderAccount).stored numeric).violation numeric = none := by
        decide +kernel
      have same : ((newAccount id traderAccount).stored numeric).violation numeric = none := checked
      have unheld :
          Db.empty.accounts.find ((newAccount id traderAccount).stored numeric).id = none := rfl
      have unnamed : (Db.empty.accounts.first fun b =>
          b.userId = ((newAccount id traderAccount).stored numeric).userId) = none := rfl
      rw [Account.refusal, same, unheld, unnamed]
      rfl
    rw [accepted]
    exact ⟨fun f refused => absurd refused (by simp), fun _ => ⟨_, Table.find_put_self _ _⟩⟩
  change ∃ account,
    (committed numeric (createAccount id traderAccount) Db.empty).accounts.find id = _
  unfold committed
  cases ran : (createAccount id traderAccount).run (postgres numeric) Db.empty with
  | error f => exact (wp_error _ opened ran).elim
  | ok answer => exact wp_ok _ opened ran

theorem OrderCreate.fitsColumns_iff {payload : OrderCreate} :
    AlwaysAnswers payload ↔ payload.FitsColumns := by
  constructor
  · intro always
    obtain ⟨account, found⟩ := exists_openAccount payload.accountId
    have fresh := openAccounts_fresh numeric [(payload.accountId, traderAccount)]
    have noOrder :
        (openAccounts numeric [(payload.accountId, traderAccount)]).orders.find 0 = none :=
      Table.find_eq_none_iff.2 (by simp [fresh.orders])
    exact .of_answers fresh.sound found fresh.orders
      (always {} id _ fresh [] ⟨0, 0⟩ (by simp [found]) noOrder)
  · intro fits settings upper db₀ fresh ops draw db _ new
    exact fits.answers (run_sound (S := ⟨numeric, settings, upper⟩) fresh.sound ops) new

/-- An accepted submission is always answered exactly if it fits, and it is stored as the columns
and the normalizer promise exactly if moreover its symbol is not all whitespace. -/
theorem storable_iff (u : CharTable) (raw : RawOrder) (accepted : raw.Accepted) :
    (AlwaysAnswers (raw.payload u accepted) ↔ raw.Fits u) ∧
      (Storable u raw accepted ↔ raw.Fits u ∧ ∃ c ∈ raw.symbol.toList, u.isSpace c = false) := by
  have always : AlwaysAnswers (raw.payload u accepted) ↔ raw.Fits u :=
    OrderCreate.fitsColumns_iff.trans (raw.fits_iff u accepted)
  refine ⟨always, ?_⟩
  rw [← one_le_width_iff, ← length_normalizeSymbol]
  constructor
  · intro h
    exact ⟨always.1 h.answers, h.symbol.1⟩
  · rintro ⟨fits, visible⟩
    exact ⟨⟨visible, (length_normalizeSymbol u raw).trans_le fits.width⟩,
      normalizeSymbol_normalizeSymbol u raw.symbol, fits.quantity, fits.price, always.2 fits⟩

/-- Three characters as Unicode has them. -/
def sharpS : CharTable where
  isSpace c := c = ' '
  upper c := if c = 'ß' then ['S', 'S'] else if c = 'a' then ['A'] else [c]
  upper_ne_nil c := by split_ifs <;> simp
  upper_upper c d mem := by
    split_ifs at mem with eszett lower
    · rcases List.mem_pair.1 mem with rfl | rfl <;> decide
    · obtain rfl := List.mem_singleton.1 mem
      decide
    · obtain rfl := List.mem_singleton.1 mem
      simp [eszett, lower]
  upper_space c visible d mem := by
    split_ifs at mem
    · rcases List.mem_pair.1 mem with rfl | rfl <;> decide
    · obtain rfl := List.mem_singleton.1 mem
      decide
    · obtain rfl := List.mem_singleton.1 mem
      exact visible
  nul_space := by decide
  mem_upper_nul c := by
    split_ifs with eszett lower
    · subst eszett
      decide
    · subst lower
      decide
    · simp [eq_comm]

def rawOrder (symbol : String) : RawOrder where
  clientOrderId := "client-7"
  idempotencyKey := "idempotency-7"
  accountId := 1
  symbol := symbol
  side := .sell
  orderType := .limit
  timeInForce := .gtc
  quantity := 23
  price := 29

theorem rawOrder_accepted {symbol : String} (length : 1 ≤ symbol.length ∧ symbol.length ≤ 32) :
    (rawOrder symbol).Accepted where
  clientOrderId := show 1 ≤ "client-7".length ∧ "client-7".length ≤ 100 by decide
  idempotencyKey := show 8 ≤ "idempotency-7".length ∧ "idempotency-7".length ≤ 100 by decide
  symbol := length
  quantity := ⟨by norm_num [rawOrder], show Numeric.OnGrid 8 23 by decide +kernel⟩
  price := ⟨by norm_num [rawOrder], show Numeric.OnGrid 8 29 by decide +kernel⟩

theorem storable_padded : Storable sharpS (rawOrder " aa ") (rawOrder_accepted (by decide)) := by
  refine (storable_iff sharpS (rawOrder " aa ") (rawOrder_accepted (by decide))).2.2
    ⟨?_, 'a', by decide, by decide⟩
  exact ⟨by decide, by decide, by decide, by decide, by norm_num [rawOrder], by norm_num [rawOrder]⟩

/-- A symbol of 32 sharp s has 64 characters in upper case, and is refused by its column. -/
theorem not_storable_sharpS :
    let raw := rawOrder (String.ofList (List.replicate 32 'ß'))
    ∃ accepted : raw.Accepted,
      ¬ Storable sharpS raw accepted ∧ ¬ AlwaysAnswers (raw.payload sharpS accepted) := by
  intro raw
  have accepted : raw.Accepted := rawOrder_accepted (by decide)
  have fixed := storable_iff sharpS raw accepted
  have wide : ¬ raw.width sharpS ≤ 32 := by decide
  exact ⟨accepted, fun storable => wide (fixed.2.1 storable).1.width,
    fun always => wide (fixed.1.1 always).width⟩

end OrderManagement
