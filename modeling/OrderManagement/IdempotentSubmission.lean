import OrderManagement.EncodedRuns
import OrderManagement.RoutingCompensation

/-! Idempotent submission. What an order submitted is written once, so a repeated
submission finds the order it made, whatever has happened to it in between. The lookups by
its keys are queries, which fail on U+0000. -/

namespace OrderManagement

open Program ReadCommitted TransitionRuns

def Order.keyed (o : Order) : UUID × String := (o.accountId, o.idempotencyKey)

def Order.named (o : Order) : UUID × String := (o.accountId, o.clientOrderId)

/-- At most one order for each account and idempotency key, and for each account and
client order id. -/
structure Db.Distinct (db : Db) : Prop where
  keyed : (db.orders.rows.map Order.keyed).Nodup
  named : (db.orders.rows.map Order.named).Nodup

/-- The order that goes to the broker after the transaction of `create_order`. -/
def Created.submitted (c : Created) : List Order :=
  if c.shouldRoute then [c.session.order.attrs] else []

def submittedBy (S : Deployment) (db : Db) : Transaction → List Order
  | .op (.createOrder draw payload) =>
    match (createOrder S.settings draw payload).run (postgres S.num) db with
    | .ok (created, _) => created.submitted
    | .error _ => []
  | .op (.processEvent _) | .op (.requestCancellation _ _) | .op (.markRoutingFailure _ _)
  | .op (.applyTick _ _ _) | .compensation _ _ _ _ => []

def Reply.submitted : Reply → List Order
  | created c => c.submitted
  | processed _ | cancelRequested _ => []

section Distinct

variable {S : Deployment} {db db' : Db}

theorem Order.Frozen.keyed {o o' : Order} (h : o.Frozen o') : o'.keyed = o.keyed :=
  Prod.ext h.accountId h.idempotencyKey

theorem Order.Frozen.named {o o' : Order} (h : o.Frozen o') : o'.named = o.named :=
  Prod.ext h.accountId h.clientOrderId

theorem Db.byIdempotencyKey_of_mem (h : db.Distinct) {o : Order} (mem : o ∈ db.orders.rows) :
    db.byIdempotencyKey o.accountId o.idempotencyKey = some o := by
  refine Table.first_of_unique mem (by simp) fun p hp same => ?_
  simp only [Bool.decide_and, Bool.and_eq_true, decide_eq_true_eq] at same
  exact List.inj_on_of_nodup_map h.keyed hp mem (Prod.ext same.1 same.2)

theorem Db.byClientOrderId_of_mem (h : db.Distinct) {o : Order} (mem : o ∈ db.orders.rows) :
    db.byClientOrderId o.accountId o.clientOrderId = some o := by
  refine Table.first_of_unique mem (by simp) fun p hp same => ?_
  simp only [Bool.decide_and, Bool.and_eq_true, decide_eq_true_eq] at same
  exact List.inj_on_of_nodup_map h.named hp mem (Prod.ext same.1 same.2)

theorem Order.New.keyed {o : Order} (h : o.New db) : o.keyed ∉ db.orders.rows.map Order.keyed := by
  intro mem
  obtain ⟨p, hp, same⟩ := List.mem_map.1 mem
  exact Table.first_eq_none_iff.1 h.idempotencyKey p hp (by simpa [Order.keyed] using same)

theorem Order.New.named {o : Order} (h : o.New db) : o.named ∉ db.orders.rows.map Order.named := by
  intro mem
  obtain ⟨p, hp, same⟩ := List.mem_map.1 mem
  exact Table.first_eq_none_iff.1 h.clientOrderId p hp (by simpa [Order.named] using same)

theorem Db.Amended.distinct (h : db.Amended db') (distinct : db.Distinct) : db'.Distinct where
  keyed := by
    rcases h.order_rows fun _ _ => Order.Frozen.keyed with same | ⟨o, new, rows⟩
    · exact same ▸ distinct.keyed
    · exact rows ▸ List.nodup_append_comm.1 (List.nodup_cons.2 ⟨new.keyed, distinct.keyed⟩)
  named := by
    rcases h.order_rows fun _ _ => Order.Frozen.named with same | ⟨o, new, rows⟩
    · exact same ▸ distinct.named
    · exact rows ▸ List.nodup_append_comm.1 (List.nodup_cons.2 ⟨new.named, distinct.named⟩)

theorem run_distinct {opened : Db} (fresh : opened.Fresh S.num) (ts : List Transaction) :
    (run (transact S) opened ts).Sound S.num ∧ (run (transact S) opened ts).Distinct :=
  run_amended S Db.Distinct fresh.sound (fun _ _ distinct amended => amended.distinct distinct)
    ⟨by simp [fresh.orders], by simp [fresh.orders]⟩ ts

theorem submittedBy_sublist (sound : db.Sound S.num) (t : Transaction) :
    ∃ new, (transact S db t).orders.rows.map Order.keyed = db.orders.rows.map Order.keyed ++ new ∧
      ((submittedBy S db t).map Order.keyed).Sublist new := by
  have nothing : submittedBy S db t = [] → ∃ new, (transact S db t).orders.rows.map Order.keyed =
      db.orders.rows.map Order.keyed ++ new ∧
        ((submittedBy S db t).map Order.keyed).Sublist new := fun none => by
    rw [none]
    rcases (transact_amended sound t).order_rows fun _ _ => Order.Frozen.keyed with
      same | ⟨o, -, rows⟩
    · exact ⟨[], by rw [same, List.append_nil], List.nil_sublist _⟩
    · exact ⟨_, rows, List.nil_sublist _⟩
  match t with
  | .op (.createOrder draw payload) =>
    cases ran : (createOrder S.settings draw payload).run (postgres S.num) db with
    | error f => exact nothing (by simp [submittedBy, ran])
    | ok result =>
      obtain ⟨created, after⟩ := result
      have stepped : transact S db (.op (.createOrder draw payload)) = after := by
        simp only [transact, step, committed, ran]
      cases wp_ok _ (createOrder_spec sound) ran with
      | existing | rejected => exact nothing (by simp [submittedBy, ran, Created.submitted])
      | routed t inserted covered kept holds _ =>
        have new : db.orders.find (t.routed.stored S.num).id = none :=
          (Order.new_of_refusal inserted).id
        refine ⟨[t.routed.keyed], ?_, ?_⟩
        · rw [stepped, Db.booked_orders, Table.rows_put_of_new new, List.map_append]
          rfl
        · simp only [submittedBy, ran, Created.submitted, if_true, holds.order, List.map_cons,
            List.map_nil]
          exact List.Sublist.refl _
  | .op (.processEvent _) | .op (.requestCancellation _ _) | .op (.markRoutingFailure _ _)
  | .op (.applyTick _ _ _) | .compensation _ _ _ _ => exact nothing rfl

/-- For each account and idempotency key the broker gets at most one order. -/
theorem run_submitted {opened : Db} (fresh : opened.Fresh S.num) (ts : List Transaction) :
    ((emitted (transact S) (submittedBy S) opened ts).map Order.keyed).Nodup := by
  obtain ⟨new, rows, sub⟩ := emitted_sublist (Db.Sound S.num)
    (fun db => db.orders.rows.map Order.keyed) (fun _ t h => transact_sound h t)
    (fun _ t sound => submittedBy_sublist sound t) fresh.sound ts
  have distinct := (run_distinct fresh ts).2.keyed
  rw [rows] at distinct
  rw [map_emitted]
  exact (List.Nodup.of_append_right distinct).sublist sub

end Distinct

section Interleaved

variable {ι : Type} {S : Deployment} {calls : ι → Call} {db db' : Db}

theorem Reply.Same.submitted {r r' : Reply} (h : r.Same r') : r.submitted = r'.submitted := by
  cases h with
  | refl => rfl
  | repeated unrouted unrouted' => simp [Reply.submitted, Created.submitted, unrouted, unrouted']

theorem Call.submittedBy_op {call : Call} {reply : Reply}
    (ran : (call.program S.settings).run (postgres S.num) db = .ok (reply, db')) :
    submittedBy S db (.op call.op) = reply.submitted := by
  cases call with
  | createOrder draw payload =>
    obtain ⟨c, created, rfl⟩ := (run_bind_pure_eq_ok _).1 ran
    simp [submittedBy, Call.op, created, Reply.submitted]
  | processEvent event =>
    obtain ⟨b, -, rfl⟩ := (run_bind_pure_eq_ok _).1 ran
    rfl
  | requestCancellation orderId reason =>
    obtain ⟨c, -, rfl⟩ := (run_bind_pure_eq_ok _).1 ran
    rfl

theorem Serial.transact_eq {log : List (ι × Reply)}
    (h : Serial (lockingPostgres S.num) (fun i => (calls i).program S.settings) Reply.Same db
      log db') : db' = run (transact S) db (log.map fun e => .op (calls e.1).op) := by
  have keys : (log.map fun e => Transaction.op (calls e.1).op) =
      (log.map Prod.fst).map fun i => .op (calls i).op := by
    rw [List.map_map]
    rfl
  rw [keys, ← run_map fun i => Transaction.op (calls i).op]
  exact Serial.run_eq h

theorem Serial.submitted {log : List (ι × Reply)}
    (h : Serial (lockingPostgres S.num) (fun i => (calls i).program S.settings) Reply.Same db
      log db') :
    log.flatMap (fun e => e.2.submitted) =
      emitted (transact S) (submittedBy S) db (log.map fun e => .op (calls e.1).op) := by
  induction h with
  | nil => rfl
  | @snoc log db' db'' i a a' before ran same ih =>
    have serial := Serial.transact_eq before
    rw [List.flatMap_append, List.map_append, emitted_append, ← serial, ih]
    simp [emitted, Call.submittedBy_op ran, same.submitted]

end Interleaved

section Later

variable {S : Deployment} {db db' : Db} {draw : CreateDraw} {payload : OrderCreate} {o : Order}

structure Made (db : Db) (payload : OrderCreate) (o : Order) : Prop where
  found : db.orders.find o.id = some o
  account : (db.accounts.find payload.accountId).isSome
  same : orderMatchesRequest o payload = true
  idempotencyKey : o.idempotencyKey = payload.idempotencyKey

theorem made_of_change (keeps : ∀ x, Numeric.OnGrid 8 x → S.num.round x = x)
    (new : db.orders.find draw.orderId = none) (h : Change S db (.createOrder draw payload) db')
    (placed : db'.orders.find draw.orderId = some o) : Made db' payload o := by
  have stored : ∀ {p : Order}, (newOrder S.settings draw payload).Frozen p →
      orderMatchesRequest (p.stored S.num) payload = true := fun frozen => by
    simp [orderMatchesRequest, Order.stored, frozen.accountId, frozen.clientOrderId, frozen.symbol,
      frozen.side, frozen.orderType, frozen.timeInForce, frozen.quantity, frozen.price, newOrder,
      keeps _ payload.quantity_places, keeps _ payload.price_places]
  have row : ∀ {p : Order} {orders : Table Order Order.id}, p.id = draw.orderId →
      (orders.put p).find draw.orderId = some o → p = o := fun key placed => by
    rw [Table.find_put_of_eq key] at placed
    exact Option.some.inj placed
  have key := Table.find_key placed
  cases h with
  | unchanged =>
    rw [new] at placed
    cases placed
  | refused t inserted short =>
    obtain rfl := row rfl placed
    exact ⟨key ▸ placed, Table.find_put_isSome _ (by simp [t.accountFound]),
      stored ⟨rfl, rfl, rfl, rfl, rfl, rfl, rfl, rfl, rfl, rfl⟩, rfl⟩
  | routed t inserted covered kept =>
    obtain rfl := row rfl placed
    exact ⟨key ▸ placed, Table.find_put_isSome _ (by simp [t.accountFound]),
      stored ⟨rfl, rfl, rfl, rfl, rfl, rfl, rfl, rfl, rfl, rfl⟩, rfl⟩

theorem Made.run (made : Made db payload o) (sound : db.Sound S.num) (ts : List Transaction) :
    ∃ o', o'.id = o.id ∧ Made (run (transact S) db ts) payload o' := by
  refine (run_amended S (fun db => ∃ o', o'.id = o.id ∧ Made db payload o') sound ?_
    ⟨o, rfl, made⟩ ts).2
  rintro db db' ⟨p, id, made⟩ amended
  obtain ⟨p', found, frozen⟩ := amended.order_frozen made.found
  exact ⟨p', frozen.id.trans id, by rwa [frozen.id], amended.accounts made.account,
    (orderMatchesRequest_frozen frozen).trans made.same,
    frozen.idempotencyKey.trans made.idempotencyKey⟩

theorem orderMatchesRequest_iff {o : Order} {payload : OrderCreate} :
    orderMatchesRequest o payload = true ↔ o.accountId = payload.accountId ∧
      o.clientOrderId = payload.clientOrderId ∧ o.symbol = payload.symbol ∧
      o.side = payload.side ∧ o.orderType = payload.orderType ∧
      o.timeInForce = payload.timeInForce ∧ o.quantity = payload.quantity ∧
      o.price = payload.price := by
  simp [orderMatchesRequest, and_assoc]

def OrderCreate.terms (p : OrderCreate) :
    String × String × OrderSide × OrderType × TimeInForce × ℚ × ℚ :=
  (p.clientOrderId, p.symbol, p.side, p.orderType, p.timeInForce, p.quantity, p.price)

section Made

variable (made : Made db payload o) (sound : db.Sound S.num) (distinct : db.Distinct)

include made distinct in
theorem Made.byIdempotencyKey :
    db.byIdempotencyKey payload.accountId payload.idempotencyKey = some o := by
  have owner := (orderMatchesRequest_iff.1 made.same).1
  rw [← owner, ← made.idempotencyKey]
  exact Db.byIdempotencyKey_of_mem distinct (Table.mem_of_find made.found)

include made distinct in
theorem Made.byClientOrderId :
    db.byClientOrderId payload.accountId payload.clientOrderId = some o := by
  obtain ⟨owner, name, -⟩ := orderMatchesRequest_iff.1 made.same
  rw [← owner, ← name]
  exact Db.byClientOrderId_of_mem distinct (Table.mem_of_find made.found)

include made sound distinct in
theorem Made.differs {again : CreateDraw} {other : OrderCreate}
    (account : other.accountId = payload.accountId)
    (key : other.idempotencyKey = payload.idempotencyKey) (differs : other.terms ≠ payload.terms) :
    (createOrder S.settings again other).run (postgres S.num) db =
      .error (.domain (.duplicateOrder other.clientOrderId)) := by
  have keyed : db.byIdempotencyKey other.accountId other.idempotencyKey = some o := by
    rw [account, key]
    exact made.byIdempotencyKey distinct
  refine createOrder_duplicate sound (account ▸ made.account) (fun p hp => ?_)
    (Or.inl (by simp [keyed]))
  obtain rfl := Option.some.inj (hp.symm.trans keyed)
  rw [Bool.eq_false_iff]
  intro same
  obtain ⟨-, a, b, c, d, e, f, g⟩ := orderMatchesRequest_iff.1 same
  obtain ⟨-, a', b', c', d', e', f', g'⟩ := orderMatchesRequest_iff.1 made.same
  refine differs ?_
  simp only [OrderCreate.terms, ← a, ← b, ← c, ← d, ← e, ← f, ← g, a', b', c', d', e', f', g']

include made sound distinct in
theorem Made.renamed {again : CreateDraw} {other : OrderCreate}
    (account : other.accountId = payload.accountId)
    (name : other.clientOrderId = payload.clientOrderId)
    (differs : other.idempotencyKey ≠ payload.idempotencyKey) :
    (createOrder S.settings again other).run (postgres S.num) db =
      .error (.domain (.duplicateOrder other.clientOrderId)) := by
  have named : db.byClientOrderId other.accountId other.clientOrderId = some o := by
    rw [account, name]
    exact made.byClientOrderId distinct
  refine createOrder_duplicate sound (account ▸ made.account) (fun p hp => ?_)
    (Or.inr (by simp [named]))
  rw [Bool.eq_false_iff]
  intro same
  -- an order that matched would be the one of this client order id, under its own key
  obtain ⟨owner, client, -⟩ := orderMatchesRequest_iff.1 same
  obtain ⟨mem, hit⟩ := Table.first_eq_some hp
  have there := Db.byClientOrderId_of_mem distinct mem
  rw [owner, client, named] at there
  obtain rfl := Option.some.inj there
  simp only [Bool.decide_and, Bool.and_eq_true, decide_eq_true_eq] at hit
  exact differs (hit.2.symm.trans made.idempotencyKey)

end Made

end Later

section Encoded

variable {S : Deployment} {db db' : Db} {draw : CreateDraw} {payload : OrderCreate} {o : Order}

/-- `transact`, where a text with U+0000 is refused. -/
def encodedTransact (S : Deployment) (db : Db) : Transaction → Db
  | .op op => encodedStep S db op
  | .compensation held _ orderId reason =>
    encodedCommitted S.num (markRoutingFailure (some held) orderId reason) db

def encodedSubmittedBy (S : Deployment) (db : Db) : Transaction → List Order
  | .op (.createOrder draw payload) =>
    match (createOrder S.settings draw payload).run (encodedPostgres S.num) db with
    | .ok (created, _) => created.submitted
    | .error _ => []
  | .op (.processEvent _) | .op (.requestCancellation _ _) | .op (.markRoutingFailure _ _)
  | .op (.applyTick _ _ _) | .compensation _ _ _ _ => []

theorem encodedTransact_cases (S : Deployment) (db : Db) (t : Transaction) :
    (encodedTransact S db t = transact S db t ∧ encodedSubmittedBy S db t = submittedBy S db t) ∨
      (encodedTransact S db t = db ∧ encodedSubmittedBy S db t = []) := by
  have other : ∀ op, encodedSubmittedBy S db (.op op) = [] → submittedBy S db (.op op) = [] →
      (encodedTransact S db (.op op) = transact S db (.op op) ∧
        encodedSubmittedBy S db (.op op) = submittedBy S db (.op op)) ∨
      (encodedTransact S db (.op op) = db ∧ encodedSubmittedBy S db (.op op) = []) :=
    fun op none none' => by
      rw [none, none']
      exact (encodedStep_cases S db op).imp (⟨·, rfl⟩) (⟨·, rfl⟩)
  match t with
  | .op (.createOrder draw payload) =>
    rcases run_encoded_cases S.num (createOrder S.settings draw payload) db with
      same | ⟨β, s, f, -, raised⟩
    · refine Or.inl ⟨encodedCommitted_of_same same, ?_⟩
      simp only [encodedSubmittedBy, submittedBy, same]
    · refine Or.inr ⟨encodedCommitted_of_raised raised, ?_⟩
      simp only [encodedSubmittedBy, raised]
  | .op (.processEvent _) | .op (.requestCancellation _ _) | .op (.markRoutingFailure _ _)
  | .op (.applyTick _ _ _) => exact other _ rfl rfl
  | .compensation _ _ _ _ => exact (encodedCommitted_cases _ _ db).imp (⟨·, rfl⟩) (⟨·, rfl⟩)

theorem encodedTransact_encoded (encoded : db.Encoded) (t : Transaction) :
    (encodedTransact S db t).Encoded := by
  cases t with
  | op op => exact encodedStep_encoded encoded op
  | compensation => exact encodedCommitted_encoded encoded _

theorem encoded_transactions {opened : Db} (fresh : opened.Fresh S.num) (ts : List Transaction) :
    (run (encodedTransact S) opened ts).Sound S.num ∧ (run (encodedTransact S) opened ts).Distinct ∧
      (run (encodedTransact S) opened ts).Encoded := by
  obtain ⟨fewer, same, -⟩ := run_skipping (encodedTransact_cases S) opened ts
  have encoded : (run (encodedTransact S) opened ts).Encoded :=
    run_invariant Db.Encoded (fun _ t h => encodedTransact_encoded h t) fresh.encoded
  obtain ⟨sound, distinct⟩ := run_distinct fresh fewer
  rw [← same] at sound distinct
  exact ⟨sound, distinct, encoded⟩

theorem createOrder_run_found {num : Numeric} {settings : Settings}
    (key : NulFree payload.idempotencyKey)
    (found : (db.byIdempotencyKey payload.accountId payload.idempotencyKey).isSome ∨
      NulFree payload.clientOrderId ∧
        (db.byClientOrderId payload.accountId payload.clientOrderId).isSome) :
    (createOrder settings draw payload).run (encodedPostgres num) db =
      (createOrder settings draw payload).run (postgres num) db := by
  refine run_lookup_encoded rfl rfl ?_
  cases db.accounts.find payload.accountId with
  | none => rfl
  | some account =>
    refine run_lookup_encoded (Stmt.unencodable_of_one rfl key) rfl ?_
    cases keyed : db.byIdempotencyKey payload.accountId payload.idempotencyKey with
    | some existing =>
      dsimp only
      split_ifs <;> rfl
    | none =>
      obtain ⟨client, named⟩ := found.resolve_left (by simp [keyed])
      obtain ⟨taken, held⟩ := Option.isSome_iff_exists.1 named
      refine run_lookup_encoded (Stmt.unencodable_of_one rfl client) rfl ?_
      rw [held]
      rfl

theorem createOrder_run_nul {num : Numeric} {settings : Settings} {account : Account}
    (found : db.accounts.find payload.accountId = some account)
    (nul : ¬ NulFree payload.idempotencyKey) :
    (createOrder settings draw payload).run (encodedPostgres num) db =
      .error (.data .orderIdempotencyKey) := by
  have first : (encodedPostgres num).exec (.accountForUpdate payload.accountId) db =
      .ok (some account, []) := (exec_encoded rfl num db).trans (by simp only [exec, found])
  have refused : (Stmt.orderByIdempotencyKey payload.accountId payload.idempotencyKey).unencodable =
      some (.data .orderIdempotencyKey) := by simp [Stmt.unencodable, Stmt.texts, nul]
  have second : (encodedPostgres num).exec
      (.orderByIdempotencyKey payload.accountId payload.idempotencyKey) db =
        .error (.data .orderIdempotencyKey) := by
    simp only [encodedPostgres, Program.guarded, refused]
  exact (run_request_of_ok _ first).trans (run_request_of_error _ second)

theorem Made.nulFree (made : Made db payload o) (encoded : db.Encoded) :
    NulFree payload.idempotencyKey ∧ NulFree payload.clientOrderId := by
  have texts := encoded o (Table.mem_of_find made.found)
  obtain ⟨-, client, -⟩ := orderMatchesRequest_iff.1 made.same
  exact ⟨made.idempotencyKey ▸ texts.idempotencyKey, client ▸ texts.clientOrderId⟩

end Encoded

def Deployment.columns (settings : Settings) (upper : String → String) : Deployment :=
  ⟨.column 24 8, settings, upper⟩

/-- The submission raises `DuplicateOrder` and changes nothing. -/
def RefusedAsDuplicate (S : Deployment) (db : Db) (draw : CreateDraw)
    (payload : OrderCreate) : Prop :=
  (createOrder S.settings draw payload).run (encodedPostgres S.num) db =
      .error (.domain (.duplicateOrder payload.clientOrderId)) ∧
    encodedStep S db (.createOrder draw payload) = db

/-- What submissions do once `payload` has placed the order `orderId`: the same one returns
the order, others under its key are refused as duplicates, and others under its client order id
exactly if their own key has no U+0000. -/
structure Idempotent (S : Deployment) (db : Db) (payload : OrderCreate) (orderId : UUID) :
    Prop where
  again : ∃ o, db.orders.find orderId = some o ∧ ∀ draw, ∃ account,
    (createOrder S.settings draw payload).run (encodedPostgres S.num) db =
      .ok (⟨{ order := .of o, account := some (.of account) }, false⟩, db)
  differing : ∀ draw (other : OrderCreate), other.accountId = payload.accountId →
    other.idempotencyKey = payload.idempotencyKey → other.terms ≠ payload.terms →
    RefusedAsDuplicate S db draw other
  renamed : ∀ draw (other : OrderCreate), other.accountId = payload.accountId →
    other.clientOrderId = payload.clientOrderId → other.idempotencyKey ≠ payload.idempotencyKey →
    (RefusedAsDuplicate S db draw other ↔ NulFree other.idempotencyKey)

section Claim

variable {S : Deployment} {db : Db}

theorem refusedAsDuplicate_iff {draw : CreateDraw} {payload : OrderCreate} :
    RefusedAsDuplicate S db draw payload ↔
      (createOrder S.settings draw payload).run (encodedPostgres S.num) db =
        .error (.domain (.duplicateOrder payload.clientOrderId)) :=
  ⟨And.left, fun raised => ⟨raised, encodedCommitted_of_raised raised⟩⟩

theorem Made.idempotent {payload : OrderCreate} {o : Order} (made : Made db payload o)
    (sound : db.Sound S.num) (distinct : db.Distinct) (encoded : db.Encoded) :
    Idempotent S db payload o.id where
  again := by
    have byKey := made.byIdempotencyKey distinct
    refine ⟨o, made.found, fun draw => ?_⟩
    rw [createOrder_run_found (made.nulFree encoded).1 (Or.inl (by simp [byKey]))]
    exact createOrder_again sound made.account byKey made.same
  differing draw other account key differs := by
    have byKey : db.byIdempotencyKey other.accountId other.idempotencyKey = some o := by
      rw [account, key]
      exact made.byIdempotencyKey distinct
    rw [refusedAsDuplicate_iff,
      createOrder_run_found (key ▸ (made.nulFree encoded).1) (Or.inl (by simp [byKey]))]
    exact made.differs sound distinct account key differs
  renamed draw other account name differs := by
    have byName : db.byClientOrderId other.accountId other.clientOrderId = some o := by
      rw [account, name]
      exact made.byClientOrderId distinct
    rw [refusedAsDuplicate_iff]
    constructor
    · intro raised
      by_contra nul
      obtain ⟨owner, found⟩ := Option.isSome_iff_exists.1 made.account
      rw [createOrder_run_nul (account ▸ found) nul] at raised
      cases raised
    · intro free
      rw [createOrder_run_found free (Or.inr ⟨name ▸ (made.nulFree encoded).2, by simp [byName]⟩)]
      exact made.renamed sound distinct account name differs

theorem column_keeps {settings : Settings} {upper : String → String} {x : ℚ}
    (h : Numeric.OnGrid 8 x) : (Deployment.columns settings upper).num.round x = x :=
  Numeric.roundTo_of_onGrid h

/-- The statements with their locks, where a text with U+0000 is refused. -/
def encodedLocking (num : Numeric) : LockingEngine Stmt Failure Db Write Lock :=
  ReadCommitted.guarded (lockingPostgres num) Stmt.unencodable

structure SubmittedOnce (S : Deployment) (opened : Db) (before : List Transaction) : Prop where
  distinct : (run (encodedTransact S) opened before).Distinct
  raises : ∀ draw payload f, (createOrder S.settings draw payload).run (encodedPostgres S.num)
    (run (encodedTransact S) opened before) = .error f → f.isOtherThanResubmission
  submitted :
    ((emitted (encodedTransact S) (encodedSubmittedBy S) opened before).map Order.keyed).Nodup
  interleaved : ∀ (ι : Type) [DecidableEq ι] (calls : ι → Call)
    (site : Site Stmt Failure Db Write Lock ι Reply),
    Reachable (encodedLocking S.num) (run (encodedTransact S) opened before)
      (fun i => (calls i).program S.settings) site →
    site.db.Distinct ∧
    (∀ i f, (calls i).submits = true → site.phase i = .failed (some f) →
      f.isOtherThanResubmission) ∧
    ((emitted (encodedTransact S) (encodedSubmittedBy S) opened before ++
      site.log.flatMap fun e => e.2.submitted).map Order.keyed).Nodup

theorem Stmt.unencodable_isOther {β : Type} {s : Stmt β} {f : Failure}
    (h : s.unencodable = some f) : f.isOtherThanResubmission := by
  obtain ⟨t, -, rfl⟩ := Option.map_eq_some_iff.1 h
  exact ⟨by simp, by simp⟩

theorem submitted_once {opened : Db} (fresh : opened.Fresh S.num) (before : List Transaction) :
    SubmittedOnce S opened before := by
  obtain ⟨sound, distinct, -⟩ := encoded_transactions fresh before
  obtain ⟨fewer, same, sent, -⟩ := run_skipping (encodedTransact_cases S) opened before
  refine ⟨distinct, fun draw payload f raised => ?_, sent ▸ run_submitted fresh fewer,
    fun ι _ calls site reachable => ?_⟩
  · rcases run_encoded_cases S.num (createOrder S.settings draw payload)
      (run (encodedTransact S) opened before) with same | ⟨β, s, e, refused, failed⟩
    · exact (wp_error _ (createOrder_spec sound) (same.symm.trans raised)).isOther
    · obtain rfl := Except.error.inj (failed.symm.trans raised)
      exact Stmt.unencodable_isOther refused
  · obtain ⟨site', reachable', db, log, aborts⟩ := Reachable.unguarded reachable
    have consistent := Reachable.consistent (calls_replayable S calls) sound reachable'
    have serial := Serial.transact_eq consistent.serial
    refine ⟨?_, fun i f submits failed => ?_, ?_⟩
    · rw [← db, serial, same, ← run_append]
      exact (run_distinct fresh _).2
    · have ends := aborts i
      rw [failed] at ends
      generalize phase : site'.phase i = q at ends
      cases ends with
      | same => exact consistent.failed phase submits
      | aborted refused => exact Stmt.unencodable_isOther refused
    · rw [← log, Serial.submitted consistent.serial, sent, same, ← emitted_append]
      exact run_submitted fresh _

/-- Submitting is idempotent after every run, up to keys with U+0000, and every order reaches the
broker at most once. -/
theorem idempotent_submission {settings : Settings} {upper : String → String} {opened : Db}
    (fresh : opened.Fresh (.column 24 8)) (before : List Transaction) :
    let S := Deployment.columns settings upper
    let db := run (encodedTransact S) opened before
    SubmittedOnce S opened before ∧
    ∀ draw payload o, db.orders.find draw.orderId = none →
      (encodedStep S db (.createOrder draw payload)).orders.find draw.orderId = some o →
      ∀ after, Idempotent S
        (run (encodedTransact S) (encodedStep S db (.createOrder draw payload)) after) payload
        draw.orderId := by
  intro S db
  refine ⟨submitted_once fresh before, fun draw payload o new placed after => ?_⟩
  obtain ⟨sound, -, -⟩ := encoded_transactions (S := S) fresh before
  obtain ⟨soundAfter, distinctAfter, encodedAfter⟩ :=
    encoded_transactions (S := S) fresh (before ++ .op (.createOrder draw payload) :: after)
  rw [run_append] at soundAfter distinctAfter encodedAfter
  have committed : encodedStep S db (.createOrder draw payload) =
      step S db (.createOrder draw payload) := by
    rcases encodedStep_cases S db (.createOrder draw payload) with same | unchanged
    · exact same
    · rw [unchanged, new] at placed
      cases placed
  have made := made_of_change (fun _ => column_keeps) new
    (committed ▸ step_change S sound (.createOrder draw payload)) placed
  obtain ⟨fewer, same, -⟩ := run_skipping (encodedTransact_cases S)
    (encodedStep S db (.createOrder draw payload)) after
  obtain ⟨o', key, made'⟩ := made.run (S := S) (committed ▸ step_sound sound _) fewer
  rw [← same] at made'
  have idempotent := made'.idempotent soundAfter distinctAfter encodedAfter
  rwa [key, Table.find_key placed] at idempotent

theorem idempotent_submission_partlyFilled :
    let S := Deployment.columns {} id
    Idempotent S (run (encodedTransact S) (traderDb S.num)
      [.op (.createOrder ⟨2, 0⟩ limitBuy), .op (.processEvent partialFill)]) limitBuy 2 := by
  intro S
  have placed :
      ((encodedStep S (traderDb S.num) (.createOrder ⟨2, 0⟩ limitBuy)).orders.find 2).isSome := by
    decide +kernel
  obtain ⟨o, found⟩ := Option.isSome_iff_exists.1 placed
  exact (idempotent_submission (openAccounts_fresh (.column 24 8) _) []).2 ⟨2, 0⟩ limitBuy o
    (by decide +kernel) found [.op (.processEvent partialFill)]

end Claim

/-! The order again, under a key that the database does not take. -/

def nulKey : String := "another-" ++ String.singleton (Char.ofNat 0)

def rekeyedBuy : OrderCreate :=
  { limitBuy with
    idempotencyKey := nulKey
    idempotencyKey_length := by decide }

theorem not_refusedAsDuplicate_rekeyedBuy :
    let S := Deployment.columns {} id
    let db := run (encodedTransact S) (traderDb S.num) [.op (.createOrder ⟨2, 0⟩ limitBuy)]
    (db.orders.find 2).map (orderMatchesRequest · limitBuy) = some true ∧
      rekeyedBuy.accountId = limitBuy.accountId ∧
      rekeyedBuy.clientOrderId = limitBuy.clientOrderId ∧
      rekeyedBuy.idempotencyKey ≠ limitBuy.idempotencyKey ∧
      ¬ RefusedAsDuplicate S db ⟨3, 0⟩ rekeyedBuy := by
  intro S db
  have raised : ((createOrder S.settings ⟨3, 0⟩ rekeyedBuy).run (encodedPostgres S.num) db).map
      (fun _ => ()) = .error (.data .orderIdempotencyKey) := by decide +kernel
  refine ⟨by decide +kernel, rfl, rfl, by decide, fun refused => ?_⟩
  rw [refused.1] at raised
  cases raised

end OrderManagement
