import OrderManagement.CashReservation
import OrderManagement.SerializableCalls

/-! The compensation of a failed submission. It runs in the session that placed the
order, whose locking reads return the instances it still holds; an UPDATE then writes
what changed in them over whatever has been committed since. -/

namespace OrderManagement

open Program ReadCommitted TransitionRuns

section Patches

variable {num : Numeric} {db : Db}

theorem Numeric.patch_self (num : Numeric) (loaded row : ℚ) : num.patch loaded loaded row = row :=
  if_pos rfl

theorem Numeric.patchOption_self (num : Numeric) (loaded row : Option ℚ) :
    num.patchOption loaded loaded row = row := if_pos rfl

theorem patchColumn_unchanged {α : Type} [DecidableEq α] (loaded row : α) :
    patchColumn loaded loaded row = row := if_pos rfl

theorem Account.patch_self (num : Numeric) (loaded row : Account) :
    Account.patch num loaded loaded row = row := by
  simp only [patch, Numeric.patch_self, patchColumn_unchanged]

theorem Order.patch_self (num : Numeric) (loaded row : Order) :
    Order.patch num loaded loaded row = row := by
  simp only [patch, Numeric.patch_self, Numeric.patchOption_self, patchColumn_unchanged]

/-- The UPDATE of an instance patches the latest row, whatever the instance was loaded from. -/
theorem wp_patchAccount {Q : Unit → Db → Prop} {loaded current row : Account}
    (found : db.accounts.find loaded.id = some row) (checked : row.violation num = none)
    (patched : (Account.patch num loaded current row).violation num = none →
      Q () { db with accounts := db.accounts.put (Account.patch num loaded current row) }) :
    (issue (Stmt.updateAccount loaded current) : Txn _).wp (postgres num) Q (fun _ => True) db := by
  refine wp_updateRow (show exec num _ db = _ by rw [exec, found]) (fun _ _ => trivial) ?_ patched
  rintro rfl
  have same := patched (by rwa [Account.patch_self])
  rwa [Account.patch_self, Table.put_self ((Table.find_key found).symm ▸ found)] at same

theorem wp_patchOrder {Q : Unit → Db → Prop} {loaded current row : Order}
    (found : db.orders.find loaded.id = some row) (checked : row.violation num = none)
    (patched : (Order.patch num loaded current row).violation num = none →
      Q () { db with orders := db.orders.put (Order.patch num loaded current row) }) :
    (issue (Stmt.updateOrder loaded current) : Txn _).wp (postgres num) Q (fun _ => True) db := by
  refine wp_updateRow (show exec num _ db = _ by rw [exec, found]) (fun _ _ => trivial) ?_ patched
  rintro rfl
  have same := patched (by rwa [Order.patch_self])
  rwa [Order.patch_self, Table.put_self ((Table.find_key found).symm ▸ found)] at same

end Patches

/-- The instance of `row` in a session that holds `held` and has flushed it. -/
def resolved {α κ : Type} [DecidableEq κ] (key : α → κ) (held : Option α) (row : α) : α :=
  match held with
  | some o => if key o = key row then o else row
  | none => row

theorem resolve_eq {α κ : Type} [DecidableEq κ] (key : α → κ) {held : Option (Instance α)}
    (clean : held.map Instance.flushed = held) (row : α) :
    Instance.resolve key held row = .of (resolved key (held.map Instance.attrs) row) := by
  cases held with
  | none => rfl
  | some i =>
    have same : i.flushed = i := Option.some.inj clean
    simp only [Instance.resolve, resolved, Option.map_some]
    split_ifs
    · exact same.symm
    · rfl

theorem resolved_key {α κ : Type} [DecidableEq κ] (key : α → κ) (held : Option α) (row : α) :
    key (resolved key held row) = key row := by
  cases held with
  | none => rfl
  | some o =>
    simp only [resolved]
    split_ifs with same
    · exact same
    · rfl

inductive Compensation (num : Numeric) (db : Db) (s : Session) (orderId : UUID)
    (reason : String) : Db → Prop
  | noEffect (unrouted : ∀ row, db.orders.find orderId = some row →
        (resolved Order.id (some s.order.attrs) row).status ≠ .routed) :
      Compensation num db s orderId reason db
  | failed {row o : Order} {owner a : Account} (found : db.orders.find orderId = some row)
      (order : resolved Order.id (some s.order.attrs) row = o) (routed : o.status = .routed)
      (accountFound : db.accounts.find o.accountId = some owner)
      (account : resolved Account.id (s.account.map Instance.attrs) owner = a)
      (orderKept : (Order.patch num o ((o.unroutable reason).moved .rejected) row).violation num =
        none)
      (accountKept : (Account.patch num a (a.refund o) owner).violation num = none) :
      Compensation num db s orderId reason
        { db with
          accounts := db.accounts.put (Account.patch num a (a.refund o) owner)
          orders := db.orders.put (Order.patch num o ((o.unroutable reason).moved .rejected) row)
          orderEvents := db.orderEvents ++
            [⟨o.id, .orderRejected, some o.status, some .rejected,
              [("reason", .text ("Broker routing failed: " ++ reason))]⟩] }

theorem markRoutingFailure_held {num : Numeric} {db : Db} {s : Session} (orderId : UUID)
    (reason : String) (sound : db.Sound num) (clean : s.Clean) :
    (markRoutingFailure (some s) orderId reason).wp (postgres num)
      (fun _ => Compensation num db s orderId reason) (fun _ => True) db := by
  have cleanOrder : (some s.order).map Instance.flushed = some s.order :=
    congrArg (fun u : Session => some u.order) clean
  have cleanAccount : s.account.map Instance.flushed = s.account := congrArg Session.account clean
  unfold markRoutingFailure
  simp only [wp_bind, wp_orderForUpdate]
  cases found : db.orders.find orderId with
  | none => exact .noEffect (by simp [found])
  | some row =>
    simp only [Option.map_some, Option.bind_some]
    rw [resolve_eq Order.id cleanOrder]
    generalize order : resolved Order.id (some s.order.attrs) row = o
    rw [Option.map_some, order]
    have key : o.id = row.id := order ▸ resolved_key _ _ _
    have attrs : (Instance.of o).attrs = o := rfl
    rw [attrs]
    by_cases routed : o.status = .routed
    swap
    · rw [if_pos routed]
      refine .noEffect fun p hp => ?_
      rw [found, Option.some_inj] at hp
      rwa [← hp, order]
    rw [if_neg (not_not.2 routed)]
    unfold accountForUpdate
    simp only [wp_bind, wp_accountForUpdate, attrs]
    cases accountFound : db.accounts.find o.accountId with
    | none => trivial
    | some owner =>
      simp only [wp_pure]
      rw [resolve_eq Account.id cleanAccount]
      generalize account : resolved Account.id (s.account.map Instance.attrs) owner = a
      have same : a.id = owner.id := account ▸ resolved_key _ _ _
      have refunded : (if o.side = .buy then (Instance.of a).set
          (Account.release · (o.remainingQuantity * o.price)) else .of a) =
            ⟨a, a.refund o⟩ := by
        unfold Account.refund
        split_ifs <;> rfl
      rw [refunded]
      have ownerChecked := (sound.accounts owner (Table.mem_of_find accountFound)).2
      have rowChecked := (sound.orders row (Table.mem_of_find found)).2
      unfold transition appendEvent flush
      simp only [wp_bind]
      refine (wp_liftExcept _ _ _).2 ⟨fun _ _ => ?_, fun _ _ => trivial⟩
      refine wp_patchAccount (same ▸ (Table.find_key accountFound).symm ▸ accountFound)
        ownerChecked fun accountKept => ?_
      refine wp_patchOrder (key ▸ (Table.find_key found).symm ▸ found) rowChecked
        fun orderKept => ?_
      exact .failed found order routed accountFound account orderKept accountKept

section Rows

variable {num : Numeric} {db db' : Db} {s : Session} {orderId : UUID} {reason : String}

theorem Numeric.round_patch {num : Numeric} {loaded attrs row : ℚ} (kept : num.round row = row) :
    num.round (num.patch loaded attrs row) = num.patch loaded attrs row := by
  unfold patch
  split_ifs
  · exact kept
  · exact num.round_round attrs

theorem Order.patch_unroutable (o row : Order) :
    Order.patch num o ((o.unroutable reason).moved .rejected) row =
      { row with
        status := patchColumn o.status .rejected row.status
        rejectionReason :=
          patchColumn o.rejectionReason (some ("Broker routing failed: " ++ reason))
          row.rejectionReason
        version := patchColumn o.version (o.version + 1) row.version } := by
  simp only [patch, moved, unroutable, Numeric.patch_self, Numeric.patchOption_self,
    patchColumn_unchanged]

theorem Compensation.sound (h : Compensation num db s orderId reason db') (sound : db.Sound num) :
    db'.Sound num := by
  cases h with
  | noEffect => exact sound
  | @failed row o owner a found order routed accountFound account orderKept accountKept =>
    obtain ⟨rowKept, -⟩ := sound.orders row (Table.mem_of_find found)
    obtain ⟨ownerKept, -⟩ := sound.accounts owner (Table.mem_of_find accountFound)
    refine ⟨Table.forall_put ⟨?_, accountKept⟩ sound.accounts,
      Table.forall_put ⟨?_, orderKept⟩ sound.orders, sound.fills, sound.positions,
      sound.marketPrices⟩
    · have cash : num.round owner.cashBalance = owner.cashBalance :=
        congrArg Account.cashBalance ownerKept
      have reserved : num.round owner.reservedCash = owner.reservedCash :=
        congrArg Account.reservedCash ownerKept
      simp only [Account.stored, Account.patch, Numeric.round_patch cash,
        Numeric.round_patch reserved]
    · rw [Order.patch_unroutable]
      exact congrArg (fun p : Order => { p with
        status := patchColumn o.status .rejected row.status
        rejectionReason :=
          patchColumn o.rejectionReason (some ("Broker routing failed: " ++ reason))
          row.rejectionReason
        version := patchColumn o.version (o.version + 1) row.version }) rowKept

theorem Compensation.amended (h : Compensation num db s orderId reason db') : db.Amended db' where
  orders := by
    cases h with
    | noEffect => exact Or.inl rfl
    | failed found =>
      refine Or.inr ⟨_, rfl, Or.inr ⟨_, (Table.find_key found).symm ▸ found, ?_⟩⟩
      rw [Order.patch_unroutable]
      exact ⟨rfl, rfl, rfl, rfl, rfl, rfl, rfl, rfl, rfl, rfl⟩
  accounts found := by
    cases h with
    | noEffect => exact found
    | failed => exact Table.find_put_isSome _ found

end Rows

/-- The transactions of the service: the operations, and the routing failures handled in
the session that a submission has left. -/
inductive Transaction
  | op (op : Op)
  | compensation (held : Session) (clean : held.Clean) (orderId : UUID) (reason : String)

def transact (S : Deployment) (db : Db) : Transaction → Db
  | .op op => step S db op
  | .compensation held _ orderId reason =>
    committed S.num (markRoutingFailure (some held) orderId reason) db

section Transactions

variable {S : Deployment} {db : Db}

theorem transact_sound (sound : db.Sound S.num) (t : Transaction) :
    (transact S db t).Sound S.num := by
  cases t with
  | op op => exact step_sound sound op
  | compensation held clean orderId reason =>
    exact committed_of_wp (markRoutingFailure_held orderId reason sound clean) sound
      fun _ _ h => h.sound sound

theorem transact_amended (sound : db.Sound S.num) (t : Transaction) :
    db.Amended (transact S db t) := by
  cases t with
  | op op => exact (step_change S sound op).amended sound
  | compensation held clean orderId reason =>
    exact committed_of_wp (markRoutingFailure_held orderId reason sound clean)
      ⟨Or.inl rfl, fun found => found⟩ fun _ _ h => h.amended

theorem run_amended (S : Deployment) (Inv : Db → Prop) (sound : db.Sound S.num)
    (keeps : ∀ db db', Inv db → db.Amended db' → Inv db') (start : Inv db) (ts : List Transaction) :
    (run (transact S) db ts).Sound S.num ∧ Inv (run (transact S) db ts) :=
  run_invariant (fun db => db.Sound S.num ∧ Inv db)
    (fun _ t h => ⟨transact_sound h.1 t, keeps _ _ h.2 (transact_amended h.1 t)⟩) ⟨sound, start⟩

end Transactions

/-- No update is lost on the order or on the account's reserved cash: the status moves along
an allowed transition, if at all, and the account releases what the order still reserves. -/
def KeepsUpdates (latest after : Db) (orderId : UUID) : Prop :=
  ∃ o o' a a', latest.orders.find orderId = some o ∧ after.orders.find orderId = some o' ∧
    latest.accounts.find o.accountId = some a ∧ after.accounts.find o.accountId = some a' ∧
    (o'.status = o.status ∨ o'.status ∈ allowedTransitions o.status) ∧
    a'.reservedCash = a.reservedCash - o.reservation

/-- The order is as the broker got it or has been rejected, and for the other orders of a
buyer as much cash is reserved as before this one was placed. -/
def Undisturbed (before latest : Db) (orderId : UUID) : Prop :=
  ∃ o a a₀, latest.orders.find orderId = some o ∧ latest.accounts.find o.accountId = some a ∧
    before.accounts.find o.accountId = some a₀ ∧ (o.status = .routed ∨ o.status = .rejected) ∧
    (o.side = .sell ∨ a.reservedCash - o.reservation = a₀.reservedCash)

section Compensation

variable {S : Deployment} {db₀ db₁ db db' : Db} {draw : CreateDraw} {payload : OrderCreate}
  {created : Created} {reason : String}

structure Routed (S : Deployment) (db₀ db : Db) (draw : CreateDraw) (payload : OrderCreate)
    (s : Session) (t : Placement db₀ S.settings draw payload) (row : Order) (owner : Account) :
    Prop where
  found : db.orders.find draw.orderId = some row
  frozen : (t.routed.stored S.num).Frozen row
  ownerFound : db.accounts.find payload.accountId = some owner
  order : s.order.attrs = t.routed
  account : s.account.map Instance.attrs = some t.charged

theorem routed_of_created (sound : db₀.Sound S.num)
    (placed : (createOrder S.settings draw payload).run (postgres S.num) db₀ = .ok (created, db₁))
    (routed : created.shouldRoute = true) (ops : List Op) : ∃ t row owner,
      created.session.Clean ∧ db₁.Sound S.num ∧
      Routed S db₀ (run (step S) db₁ ops) draw payload created.session t row owner := by
  have sound₁ : db₁.Sound S.num := by
    have stepped : step S db₀ (.createOrder draw payload) = db₁ := by
      simp only [step, committed, placed]
    exact stepped ▸ step_sound sound _
  cases wp_ok _ (createOrder_spec sound) placed with
  | existing | rejected => cases routed
  | @routed s t inserted covered kept holds clean =>
    obtain ⟨row, found, frozen⟩ :=
      run_order sound₁ (Table.find_put_self _ (t.routed.stored S.num)) ops
    have owner := run_account sound₁ (k := payload.accountId)
      (Table.find_put_isSome _ (by simp [t.accountFound])) ops
    obtain ⟨owner, ownerFound⟩ := Option.isSome_iff_exists.1 owner
    exact ⟨t, row, owner, clean, sound₁, found, frozen, ownerFound, holds.order, holds.account⟩

/-- The reserved cash that the compensation writes is what the account had reserved before. -/
theorem patched_reserved (sound : db₀.Sound S.num) (t : Placement db₀ S.settings draw payload)
    (owner : Account) :
    (Account.patch S.num t.charged (t.charged.refund t.routed) owner).reservedCash =
      if payload.side = .buy then t.account.reservedCash else owner.reservedCash := by
  have side : t.routed.side = payload.side := rfl
  by_cases buy : payload.side = .buy
  · have charged :
        t.charged.reservedCash = t.account.reservedCash + payload.quantity * payload.price := by
      simp [Placement.charged, buy, Account.reserve, Placement.required, requiredBuyingPower]
    have refunded : (t.charged.refund t.routed).reservedCash = t.account.reservedCash := by
      have back : (t.charged.refund t.routed).reservedCash =
          t.charged.reservedCash - payload.quantity * payload.price := by
        simp only [Account.refund, side, buy, if_true]
        rfl
      rw [back, charged, add_sub_cancel_right]
    have changed : t.account.reservedCash ≠ t.charged.reservedCash := by
      rw [charged]
      have := mul_pos payload.quantity_pos payload.price_pos
      linarith
    have kept : S.num.round t.account.reservedCash = t.account.reservedCash :=
      congrArg Account.reservedCash (sound.accounts _ (Table.mem_of_find t.accountFound)).1
    rw [if_pos buy]
    simp only [Account.patch, Numeric.patch]
    rw [refunded, if_neg changed, kept]
  · have same : t.charged.refund t.routed = t.charged := by
      simp only [Account.refund, side, buy, if_false]
    rw [if_neg buy, same, Account.patch_self]

theorem Routed.keepsUpdates_iff {s : Session} {t : Placement db₀ S.settings draw payload}
    {row : Order} {owner : Account} (r : Routed S db₀ db draw payload s t row owner)
    (sound : db₀.Sound S.num) (decided : row.status ≠ .new ∧ row.status ≠ .validated)
    (h : Compensation S.num db s draw.orderId reason db') :
    KeepsUpdates db db' draw.orderId ↔ Undisturbed db₀ db draw.orderId := by
  have held : ∀ {p : Order}, p.id = draw.orderId →
      resolved Order.id (some s.order.attrs) p = t.routed := fun key => by
    rw [r.order]
    exact if_pos key.symm
  cases h with
  | noEffect unrouted => exact absurd rfl (held (Table.find_key r.found) ▸ unrouted row r.found)
  | @failed row' o owner' a found order routed accountFound account orderKept accountKept =>
    obtain rfl := Option.some.inj (found.symm.trans r.found)
    obtain rfl : t.routed = o := (held (Table.find_key found)).symm.trans order
    obtain rfl := Option.some.inj (accountFound.symm.trans r.ownerFound)
    have key : t.charged.id = owner'.id := by
      rw [t.charged_id, Table.find_key t.accountFound, Table.find_key accountFound]
      rfl
    obtain rfl : t.charged = a := by
      rw [← account, r.account]
      exact (if_pos key).symm
    have buyer : row'.accountId = payload.accountId := r.frozen.accountId
    have side : row'.side = payload.side := r.frozen.side
    have status : (Order.patch S.num t.routed ((t.routed.unroutable reason).moved .rejected)
        row').status = .rejected := by
      rw [Order.patch_unroutable]
      rfl
    have rejectable : (OrderStatus.rejected = row'.status ∨
        OrderStatus.rejected ∈ allowedTransitions row'.status) ↔
          row'.status = .routed ∨ row'.status = .rejected := by
      revert decided
      cases row'.status <;> decide
    have reserved := patched_reserved sound t owner'
    have rowKey : row'.id = draw.orderId := Table.find_key found
    have ownerKey : owner'.id = payload.accountId := Table.find_key accountFound
    have orderAfter : (db.orders.put (Order.patch S.num t.routed
        ((t.routed.unroutable reason).moved .rejected) row')).find draw.orderId = some _ :=
      Table.find_put_of_eq rowKey
    have ownerAfter : (db.accounts.put (Account.patch S.num t.charged
        (t.charged.refund t.routed) owner')).find payload.accountId = some _ :=
      Table.find_put_of_eq ownerKey
    constructor
    · rintro ⟨o, o', a, a', ho, ho', ha, ha', moves, releases⟩
      obtain rfl := Option.some.inj (ho.symm.trans found)
      obtain rfl := Option.some.inj (ho'.symm.trans orderAfter)
      rw [buyer] at ha ha'
      obtain rfl := Option.some.inj (ha.symm.trans accountFound)
      obtain rfl := Option.some.inj (ha'.symm.trans ownerAfter)
      refine ⟨o, a, t.account, found, buyer.symm ▸ accountFound, buyer.symm ▸ t.accountFound,
        rejectable.1 (status ▸ moves), ?_⟩
      rw [reserved] at releases
      split_ifs at releases with buy
      · exact Or.inr releases.symm
      · exact Or.inl (side.trans (OrderSide.sell_of_not_buy buy))
    · rintro ⟨o, a, a₀, ho, ha, ha₀, still, others⟩
      obtain rfl := Option.some.inj (ho.symm.trans found)
      rw [buyer] at ha ha₀
      obtain rfl := Option.some.inj (ha.symm.trans accountFound)
      obtain rfl := Option.some.inj (ha₀.symm.trans t.accountFound)
      refine ⟨o, _, a, _, found, orderAfter, buyer.symm ▸ accountFound, buyer.symm ▸ ownerAfter,
        status.symm ▸ rejectable.2 still, ?_⟩
      rw [reserved]
      rcases others with sell | others
      · rw [if_neg (by simp [← side, sell]), Order.reservation_of_sell sell, sub_zero]
      · split_ifs with buy
        · exact others.symm
        · have sell : o.side = .sell := side.trans (OrderSide.sell_of_not_buy buy)
          rw [Order.reservation_of_sell sell, sub_zero]

/-- A compensation keeps every update that other transactions have committed since the order
was routed exactly if they have left the order and the cash reserved for others alone. -/
theorem compensation_keepsUpdates_iff {ι : Type} [DecidableEq ι] {calls : ι → Call}
    {site : Site Stmt Failure Db Write Lock ι Reply} {opened : Db} (fresh : opened.Fresh S.num)
    (before : List Op)
    (placed : (createOrder S.settings draw payload).run (postgres S.num)
      (run (step S) opened before) = .ok (created, db₁))
    (routed : created.shouldRoute = true)
    (reachable : Reachable (lockingPostgres S.num) db₁ (fun i => (calls i).program S.settings) site)
    (compensated : (markRoutingFailure (some created.session) draw.orderId reason).run
      (postgres S.num) site.db = .ok ((), db')) :
    KeepsUpdates site.db db' draw.orderId ↔
      Undisturbed (run (step S) opened before) site.db draw.orderId := by
  have sound := run_sound fresh.sound before
  obtain ⟨-, -, -, -, sound₁, -⟩ := routed_of_created sound placed routed []
  obtain ⟨ops, later⟩ := reachable_run sound₁ reachable
  obtain ⟨t, row, owner, clean, -, r⟩ := routed_of_created sound placed routed ops
  have stepped : step S (run (step S) opened before) (.createOrder draw payload) = db₁ := by
    simp only [step, committed, placed]
  have whole : run (step S) db₁ ops =
      run (step S) opened (before ++ .createOrder draw payload :: ops) := by
    rw [run_append, run_cons, stepped]
  have decided := run_decided fresh (before ++ .createOrder draw payload :: ops)
  rw [← whole] at decided
  rw [later] at compensated ⊢
  have held := markRoutingFailure_held draw.orderId reason (run_sound sound₁ ops) clean
  have effect := wp_ok _ held compensated
  exact r.keepsUpdates_iff sound (decided row (Table.mem_of_find r.found)) effect

end Compensation

/-! The trader's order whose submission fails after the broker, which had taken the order, has
rejected it or filled a part of it. -/

def brokerRejection : BrokerExecutionEvent where
  eventId := 3
  eventType := .rejected
  orderId := 2
  timestamp := 0
  filledQuantity := 0
  reason := some "no market"
  validateFillPayload h := by cases h

/-- What a failed submission of the trader's order finds after `event`, and leaves. -/
structure FailedSubmission (event : BrokerExecutionEvent) where
  created : Created
  placedDb : Db
  placed : (createOrder {} ⟨2, 0⟩ limitBuy).run (postgres .exact) (traderDb .exact) =
    .ok (created, placedDb)
  routed : created.shouldRoute = true
  site : Site Stmt Failure Db Write Lock Unit Reply
  reachable : Reachable (lockingPostgres .exact) placedDb
    (fun _ => (Call.processEvent event).program {}) site
  compensatedDb : Db
  compensated : (markRoutingFailure (some created.session) 2 "timeout").run (postgres .exact)
    site.db = .ok ((), compensatedDb)

def Db.glance (db : Db) : Option OrderStatus × Option ℚ :=
  ((db.orders.find 2).map Order.status, (db.accounts.find 1).map Account.reservedCash)

def failSubmission (event : BrokerExecutionEvent) (turns : ℕ) : Option (Db × Db) :=
  match (createOrder {} ⟨2, 0⟩ limitBuy).run (postgres .exact) (traderDb .exact) with
  | .error _ => none
  | .ok (created, placedDb) =>
    match schedule (lockingPostgres .exact) (ReadCommitted.start placedDb fun _ : Unit =>
      (Call.processEvent event).program {}) (List.replicate turns ()) with
    | none => none
    | some site =>
      match (markRoutingFailure (some created.session) 2 "timeout").run (postgres .exact)
        site.db with
      | .error _ => none
      | .ok ((), compensatedDb) =>
        if created.shouldRoute then some (site.db, compensatedDb) else none

theorem failedSubmission_exists {event : BrokerExecutionEvent} {turns : ℕ} {dbs : Db × Db}
    (h : failSubmission event turns = some dbs) :
    ∃ t : FailedSubmission event, t.site.db = dbs.1 ∧ t.compensatedDb = dbs.2 := by
  unfold failSubmission at h
  split at h
  · cases h
  rename_i created placedDb placed
  split at h
  · cases h
  rename_i site scheduled
  split at h
  · cases h
  rename_i compensatedDb compensated
  split_ifs at h with routed
  cases h
  exact ⟨⟨created, placedDb, placed, routed, site, schedule_reachable .refl scheduled,
    compensatedDb, compensated⟩, rfl, rfl⟩

theorem not_keepsUpdates_filledBeforeCompensation :
    ∃ t : FailedSubmission partialFill, ¬ KeepsUpdates t.site.db t.compensatedDb 2 := by
  have statuses :
      (failSubmission partialFill 16).map (fun dbs => (dbs.1.glance.1, dbs.2.glance.1)) =
      some (some .partiallyFilled, some .rejected) := by decide +kernel
  obtain ⟨dbs, failed, seen⟩ := Option.map_eq_some_iff.1 statuses
  obtain ⟨t, before, after⟩ := failedSubmission_exists failed
  refine ⟨t, ?_⟩
  rintro ⟨o, o', a, a', ho, ho', -, -, moves, -⟩
  rw [← before, ← after, Db.glance, Db.glance, ho, ho'] at seen
  simp only [Option.map_some, Prod.mk.injEq, Option.some_inj] at seen
  rw [seen.1, seen.2] at moves
  revert moves
  decide

/-- The rejection is committed before the compensation starts. -/
theorem keepsUpdates_compensatedAtOnce : ∃ t : FailedSubmission brokerRejection,
    (t.site.db.orders.find 2).map Order.status = some .rejected ∧
      KeepsUpdates t.site.db t.compensatedDb 2 := by
  have rows : (failSubmission brokerRejection 8).map (fun dbs =>
      ((dbs.1.orders.find 2).map fun o => (o.status, o.accountId, o.reservation),
        (dbs.1.accounts.find 1).map Account.reservedCash)) =
      some (some (.rejected, 1, 0), some 0) := by decide +kernel
  have opened : (traderDb .exact).accounts.find 1 = some (newAccount 1 traderAccount) := by
    decide +kernel
  obtain ⟨dbs, failed, seen⟩ := Option.map_eq_some_iff.1 rows
  obtain ⟨t, before, -⟩ := failedSubmission_exists failed
  obtain ⟨orderSeen, accountSeen⟩ := Prod.mk.inj seen
  rw [← before] at orderSeen accountSeen
  obtain ⟨o, found, terms⟩ := Option.map_eq_some_iff.1 orderSeen
  obtain ⟨a, account, reserved⟩ := Option.map_eq_some_iff.1 accountSeen
  simp only [Prod.mk.injEq] at terms
  obtain ⟨status, owner, reservation⟩ := terms
  refine ⟨t, by rw [found, Option.map_some, status],
    (compensation_keepsUpdates_iff (S := .exact {} id) (openAccounts_fresh .exact _) []
      t.placed t.routed t.reachable t.compensated).2
      ⟨o, a, _, found, owner ▸ account, owner ▸ opened, Or.inr status, Or.inr ?_⟩⟩
  rw [reserved, reservation, sub_zero]
  rfl

end OrderManagement
