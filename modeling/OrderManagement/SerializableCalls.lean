import OrderManagement.LockDiscipline
import OrderManagement.OrderRuns

/-! Serializability of the order transactions. Whatever the others commit, what a
transaction has done can be done again on the committed rows, so the transactions
that commit do what they would have done one after the other. -/

namespace OrderManagement

open Program ReadCommitted TransitionRuns

inductive Call
  | createOrder (draw : CreateDraw) (payload : OrderCreate)
  | processEvent (event : BrokerExecutionEvent)
  | requestCancellation (orderId : UUID) (reason : String)

inductive Reply
  | created (created : Created)
  | processed (applied : Bool)
  | cancelRequested (requested : CancelRequested)

namespace Call

def program (settings : Settings) : Call → Txn Reply
  | createOrder draw payload =>
    OrderManagement.createOrder settings draw payload >>= fun c => pure (.created c)
  | processEvent event => OrderManagement.processEvent event >>= fun b => pure (.processed b)
  | requestCancellation orderId reason =>
    OrderManagement.requestCancellation orderId reason >>= fun c => pure (.cancelRequested c)

def op : Call → Op
  | createOrder draw payload => .createOrder draw payload
  | processEvent event => .processEvent event
  | requestCancellation orderId reason => .requestCancellation orderId reason

def submits : Call → Bool
  | createOrder _ _ => true
  | processEvent _ | requestCancellation _ _ => false

end Call

theorem committed_bind_pure {α β : Type} (num : Numeric) (p : Txn α) (f : α → β) (db : Db) :
    committed num (p >>= fun a => pure (f a)) db = committed num p db := by
  unfold committed
  rw [run_bind]
  cases p.run (postgres num) db <;> rfl

theorem Call.step_op (S : Deployment) (call : Call) (db : Db) :
    step S db call.op = committed S.num (call.program S.settings) db := by
  cases call <;> exact (committed_bind_pure _ _ _ _).symm

theorem Call.change {S : Deployment} {db db' : Db} (sound : db.Sound S.num) {call : Call}
    {a : Reply}
    (ran : (call.program S.settings).run (postgres S.num) db = .ok (a, db')) :
    Change S db call.op db' := by
  have step := step_change S sound call.op
  rw [call.step_op] at step
  unfold committed at step
  rwa [ran] at step

def Call.Raises (call : Call) (f : Failure) : Prop := call.submits = true → f.isDomain

theorem Call.follows (settings : Settings) (call : Call) :
    (call.program settings).Follows (discipline call.submits) (fun _ g => g.Closed) call.Raises
      (.live none none true) := by
  have returned : ∀ {α : Type} {p : Txn α} {f : α → Reply} {X : Failure → Prop},
      p.Follows (discipline call.submits) (fun _ g => g.Closed) X (.live none none true) →
      (∀ e, X e → call.Raises e) →
      (p >>= fun a => pure (f a)).Follows (discipline call.submits) (fun _ g => g.Closed)
        call.Raises (.live none none true) := fun h raises =>
    (follows_bind _ _ _).2 (follows_mono _ h (fun _ _ closed => closed) raises)
  cases call with
  | createOrder draw payload =>
    exact returned (createOrder_follows settings draw payload) fun e h _ => h
  | processEvent event => exact returned (processEvent_follows event) fun e _ h => by cases h
  | requestCancellation orderId reason =>
    exact returned (requestCancellation_follows orderId reason) fun e _ h => by cases h

inductive Repeated (db : Db) : Call → Reply → Prop
  | existing {draw : CreateDraw} {payload : OrderCreate} {order : Order} {created : Created}
      (accountFound : (db.accounts.find payload.accountId).isSome)
      (keyed : db.byIdempotencyKey payload.accountId payload.idempotencyKey = some order)
      (same : orderMatchesRequest order payload = true) (unrouted : created.shouldRoute = false)
      (id : created.session.order.attrs.id = order.id) :
      Repeated db (.createOrder draw payload) (.created created)

/-- Replies that agree up to the current values of an order returned again. -/
inductive Reply.Same : Reply → Reply → Prop
  | refl (reply : Reply) : Same reply reply
  | repeated {c c' : Created} (unrouted : c.shouldRoute = false)
      (unrouted' : c'.shouldRoute = false)
      (id : c.session.order.attrs.id = c'.session.order.attrs.id) : Same (.created c) (.created c')

section Repeated

variable {S : Deployment} {db db' : Db} {call : Call} {reply : Reply}

theorem orderMatchesRequest_frozen {o o' : Order} {payload : OrderCreate} (frozen : o.Frozen o') :
    orderMatchesRequest o' payload = orderMatchesRequest o payload := by
  unfold orderMatchesRequest
  rw [frozen.accountId, frozen.clientOrderId, frozen.symbol, frozen.side, frozen.orderType,
    frozen.timeInForce, frozen.quantity, frozen.price]

theorem Repeated.change (h : Repeated db call reply) (sound : db.Sound S.num) {op : Op}
    (change : Change S db op db') : Repeated db' call reply := by
  cases h with
  | existing accountFound keyed same unrouted id =>
    obtain ⟨o', keyed', frozen⟩ := (change.amended sound).byIdempotencyKey keyed
    exact .existing ((change.amended sound).accounts accountFound) keyed'
      ((orderMatchesRequest_frozen frozen).trans same) unrouted (id.trans frozen.id.symm)

theorem Repeated.run (h : Repeated db call reply) (sound : db.Sound S.num) :
    ∃ reply', (call.program S.settings).run (postgres S.num) db = .ok (reply', db) ∧
      Reply.Same reply' reply := by
  cases h with
  | existing accountFound keyed same unrouted id =>
    obtain ⟨account, again⟩ := createOrder_again sound accountFound keyed same
    exact ⟨_, (run_bind_pure_eq_ok _).2 ⟨_, again, rfl⟩, .repeated rfl unrouted id.symm⟩

theorem CreateEffect.repeats {num : Numeric} {settings : Settings} {draw : CreateDraw}
    {payload : OrderCreate} {c : Created} (h : CreateEffect num db settings draw payload c db')
    (unplaced : db'.orders.find draw.orderId = db.orders.find draw.orderId) :
    ∃ account order, db.accounts.find payload.accountId = some account ∧
      db.byIdempotencyKey payload.accountId payload.idempotencyKey = some order ∧
      orderMatchesRequest order payload = true ∧
      c = ⟨{ order := .of order, account := some (.of account) }, false⟩ := by
  have placed : ∀ {o : Order} {t : Placement db settings draw payload},
      (t.order.stored num).refusal num db = none → o.id = draw.orderId →
      (db.orders.put (o.stored num)).find draw.orderId ≠ db.orders.find draw.orderId := by
    intro o t inserted key same
    rw [t.unplaced inserted,
      Table.find_put_of_eq (show (o.stored num).id = draw.orderId from key)] at same
    cases same
  cases h with
  | existing accountFound keyed same => exact ⟨_, _, accountFound, keyed, same, rfl⟩
  | rejected t inserted => exact (placed inserted rfl unplaced).elim
  | routed t inserted => exact (placed inserted rfl unplaced).elim

/-- A submission that returned without writing has repeated another. -/
theorem repeated_of_run (sound : db.Sound S.num) (submits : call.submits = true)
    (ran : (call.program S.settings).run (postgres S.num) db = .ok (reply, db)) :
    Repeated db call reply := by
  cases call with
  | processEvent | requestCancellation => cases submits
  | createOrder draw payload =>
    obtain ⟨c, created, rfl⟩ := (run_bind_pure_eq_ok _).1 ran
    obtain ⟨account, order, accountFound, keyed, same, rfl⟩ :=
      (wp_ok _ (createOrder_spec sound) created).repeats rfl
    exact .existing (by simp [accountFound]) keyed same rfl rfl

end Repeated

/-- What a transaction keeps true, by how far it has got. On its way, it could be run
again up to where it is, unless its event has been recorded by another in between. -/
def Kept (S : Deployment) (call : Call) (db : Db) (rest : Txn Reply) (ws : List Write)
    (locks : List Lock) : Stage → Prop
  | .live account pending clean =>
    (∀ a, account = some a → Lock.account a ∈ locks) ∧ (clean = true → ws = []) ∧
    (call.submits = true → pending = none) ∧ (∀ w ∈ ws, w.Guarded (· ∈ locks) db) ∧
    ((∀ e, pending = some e → db.processedBrokerEvents.find e = none) →
      Replays (postgres S.num) (Stmt.Covered (Watched locks pending)) db
        (call.program S.settings) [] rest ws)
  | .replied => ws = [] ∧ ∀ reply, rest = .ret reply → Repeated db call reply
  | .broken => True

def Good (S : Deployment) (call : Call) (db : Db) (rest : Txn Reply) (ws : List Write)
    (locks : List Lock) : Prop :=
  ∃ g, rest.Follows (discipline call.submits) (fun _ g => g.Closed) call.Raises g ∧
    Kept S call db rest ws locks g

section Good

variable {S : Deployment} {db : Db} {call : Call} {ws vs us : List Write} {locks held : List Lock}
  {rest : Txn Reply} {reply : Reply}

theorem good_start (S : Deployment) (call : Call) (db : Db) :
    Good S call db (call.program S.settings) [] [] :=
  ⟨_, call.follows S.settings, by simp, fun _ => rfl, fun _ => rfl, by simp, fun _ => .refl⟩

theorem Good.live {β : Type} {s : Stmt β} {next : β → Txn Reply}
    (h : Good S call db (.request s next) ws locks) : ∃ account pending clean,
      s.Allowed call.submits account pending clean ∧
      (∀ r, (discipline call.submits).expected s r →
        (next r).Follows (discipline call.submits) (fun _ g => g.Closed) call.Raises
          ((Stage.live account pending clean).next s r)) ∧
      Kept S call db (.request s next) ws locks (.live account pending clean) := by
  obtain ⟨g, ⟨allowed, follows⟩, kept⟩ := h
  cases g with
  | live account pending clean => exact ⟨account, pending, clean, allowed, follows, kept⟩
  | replied => exact allowed.elim
  | broken => exact allowed.elim

theorem Good.statement {β : Type} {s : Stmt β} {next : β → Txn Reply} {r : β}
    (sound : db.Sound S.num) (h : Good S call db (.request s next) ws locks)
    (answer : exec S.num s ((postgres S.num).view db ws) = .ok (r, vs)) :
    Good S call db (next r) (ws ++ vs)
      (locks ++ needs s ((postgres S.num).view db ws)) := by
  obtain ⟨account, pending, clean, allowed, follows, owned, untouched, submission, guarded,
    replays⟩ := h.live
  refine ⟨_, follows r (discipline_expected answer), ?_⟩
  cases next' : (Stage.live account pending clean).next s r with
  | broken => trivial
  | live account' pending' clean' =>
    have advances := allowed.advances answer next'
    refine ⟨fun a ha => ?_, fun h => ?_, fun h => advances.submission h (submission h), ?_,
      fun fresh => ?_⟩
    · rcases advances.owner a ha with same | new
      · exact List.mem_append_left _ (owned a same)
      · exact List.mem_append_right _ new
    · obtain ⟨same, none⟩ := advances.untouched h
      rw [untouched same, none, List.append_nil]
    · have before : ∀ w ∈ ws, w.Guarded (· ∈ locks ++ needs s ((postgres S.num).view db ws)) db :=
        fun w hw => (guarded w hw).mono fun _ mem => List.mem_append_left _ mem
      intro w hw
      rcases List.mem_append.1 hw with old | new
      · exact before w old
      · exact allowed.guarded answer (fun a ha => List.mem_append_left _ (owned a ha))
          (fun _ mem => List.mem_append_right _ mem) before w new
    · have unprocessed : ∀ e, pending = some e → db.processedBrokerEvents.find e = none :=
        fun e he => (advances.unprocessed e he).elim (fresh e) (db.none_of_view.2.2 e)
      exact ((replays unprocessed).transfer fun s r ws vs covered answer =>
        ⟨answer, covered.mono (advances.watched locks)⟩).snoc answer (advances.covered locks owned)
  | replied =>
    -- only the lookup of a repeated submission leads here
    have looked : ws = [] ∧ vs = [] ∧ pending = none ∧ call.submits = true := by
      cases s with
      | orderByIdempotencyKey a key =>
        exact ⟨untouched allowed.2.2.2, (congrArg Prod.snd (Except.ok.inj answer)).symm,
          allowed.2.2.1, allowed.1⟩
      | accountForUpdate | orderForUpdate | orderByClientOrderId | processedByEventId =>
        simp only [Stage.next] at next'
        split_ifs at next'
      | _ => cases next'
    obtain ⟨rfl, rfl, rfl, submits⟩ := looked
    refine ⟨rfl, fun reply hr => repeated_of_run sound submits ?_⟩
    have ran := (replays (by simp)).run
    rw [run_request_of_ok _ answer, hr] at ran
    exact ran

theorem Good.commit (sound : db.Sound S.num) (h : Good S call db (.ret reply) ws locks) :
    ((postgres S.num).view db ws).Sound S.num ∧
      ∃ reply', (call.program S.settings).run (postgres S.num) db =
        .ok (reply', (postgres S.num).view db ws) ∧ Reply.Same reply' reply := by
  obtain ⟨g, closed, kept⟩ := h
  have ran : ∃ reply', (call.program S.settings).run (postgres S.num) db =
      .ok (reply', (postgres S.num).view db ws) ∧ Reply.Same reply' reply := by
    cases g with
    | live account pending clean =>
      have none : pending = none := closed
      obtain ⟨-, -, -, -, replays⟩ := kept
      exact ⟨reply, (replays (by simp [none])).run, .refl reply⟩
    | replied =>
      obtain ⟨rfl, repeated⟩ := kept
      exact (repeated reply rfl).run sound
    | broken => exact closed.elim
  obtain ⟨reply', run, same⟩ := ran
  exact ⟨(Call.change sound run).sound sound, reply', run, same⟩

/-- What others commit under locks of their own leaves a transaction replayable. -/
theorem Good.frame {other : Call} {reply' : Reply} (sound : db.Sound S.num)
    (h : Good S call db rest ws locks) (committed : Good S other db (.ret reply) us held)
    (ran : (other.program S.settings).run (postgres S.num) db =
      .ok (reply', (postgres S.num).view db us))
    (apart : ∀ k ∈ locks, k ∉ held) : Good S call ((postgres S.num).view db us) rest ws locks := by
  have agree : db.Agree (· ∈ locks) ((postgres S.num).view db us) := by
    obtain ⟨g, closed, kept⟩ := committed
    cases g with
    | live account pending clean => exact Db.agree_view kept.2.2.2.1 apart
    | replied => rw [kept.1]; exact .refl _ _
    | broken => exact closed.elim
  obtain ⟨g, follows, kept⟩ := h
  refine ⟨g, follows, ?_⟩
  cases g with
  | broken => trivial
  | replied =>
    exact ⟨kept.1, fun reply hr => (kept.2 reply hr).change sound (Call.change sound ran)⟩
  | live account pending clean =>
    obtain ⟨owned, untouched, submission, guarded, replays⟩ := kept
    refine ⟨owned, untouched, submission, fun w hw => (guarded w hw).agree agree, fun fresh => ?_⟩
    have before : ∀ e, pending = some e → db.processedBrokerEvents.find e = none := fun e he => by
      by_contra some
      obtain ⟨row, found⟩ := Option.ne_none_iff_exists'.1 some
      have later := agree.recorded e row found
      rw [fresh e he] at later
      cases later
    have watched : db.Agree (Watched locks pending) ((postgres S.num).view db us) := by
      have locked : ∀ {k : Lock}, (∀ e, k ≠ .processed e) → Watched locks pending k → k ∈ locks :=
        fun other h => h.resolve_right fun ⟨e, _, eq⟩ => other e eq
      exact
        { accounts := fun id h => agree.accounts id (locked (by simp) h)
          orders := fun id h => agree.orders id (locked (by simp) h)
          submissions := fun s h => agree.submissions s (locked (by simp) h)
          positions := fun p h => agree.positions p (locked (by simp) h)
          fills := fun e h => agree.fills e (locked (by simp) h)
          executions := fun e h => agree.executions e (locked (by simp) h)
          processed := fun e h => by
            rcases h with mem | ⟨e', he, eq⟩
            · exact agree.processed e mem
            · cases eq
              rw [fresh e he, before e he]
          recorded := agree.recorded
          marketPrices := agree.marketPrices }
    exact (replays before).transfer fun s r ws vs covered answer =>
      ⟨(watched.view ws).exec covered answer, covered⟩

end Good

/-- An error that the unique indexes on submissions do not raise. -/
def Failure.isOtherThanResubmission (f : Failure) : Prop :=
  f ≠ .integrity .ordersAccountClientOrder ∧ f ≠ .integrity .ordersAccountIdempotencyKey

def Call.Fails (call : Call) (f : Failure) : Prop :=
  call.submits = true → f.isOtherThanResubmission

section Failures

variable {S : Deployment} {db : Db} {call : Call} {ws : List Write} {locks : List Lock}

theorem CreateFailure.isOther {num : Numeric} {settings : Settings} {draw : CreateDraw}
    {payload : OrderCreate} {f : Failure} (h : CreateFailure num db settings draw payload f) :
    f.isOtherThanResubmission := by
  have conflicted : ∀ {taken : Bool} {c : Constraint}, conflict taken c = some f →
      f = .integrity c := fun h => by
    unfold conflict at h
    split_ifs at h
    exact (Option.some.inj h).symm
  cases h with
  | accountNotFound | differs | reused => exact ⟨by simp, by simp⟩
  | refused t refused =>
    unfold Order.refusal at refused
    rcases Option.or_eq_some_iff.1 refused with violated | ⟨-, refused⟩
    · exact firstFailure_forall (P := Failure.isOtherThanResubmission)
        (by simp [Failure.isOtherThanResubmission]) violated
    rcases Option.or_eq_some_iff.1 refused with taken | ⟨-, refused⟩
    · rw [conflicted taken]
      exact ⟨by simp, by simp⟩
    -- both lookups have found the submission new
    rw [show db.byClientOrderId (t.order.stored num).accountId (t.order.stored num).clientOrderId =
        none from t.newClientOrderId,
      show db.byIdempotencyKey (t.order.stored num).accountId (t.order.stored num).idempotencyKey =
        none from t.newKey] at refused
    cases refused
  | reservation t covered refused =>
    exact firstFailure_forall (P := Failure.isOtherThanResubmission)
      (by simp [Failure.isOtherThanResubmission]) refused

theorem Good.refused {β : Type} {s : Stmt β} {next : β → Txn Reply} {f : Failure}
    (sound : db.Sound S.num) (h : Good S call db (.request s next) ws locks)
    (answer : exec S.num s ((postgres S.num).view db ws) = .error f) : call.Fails f := by
  intro submits
  obtain ⟨account, pending, clean, -, -, -, -, submission, -, replays⟩ := h.live
  have ran := (replays (by simp [submission submits])).run
  rw [run_request_of_error _ answer] at ran
  cases call with
  | processEvent | requestCancellation => cases submits
  | createOrder draw payload =>
    have failed := (run_bind_pure_eq_error _).1 ran
    exact (wp_error _ (createOrder_spec sound) failed).isOther

theorem Good.raised {f : Failure} (h : Good S call db (.raise f) ws locks) : call.Fails f := by
  intro submits
  obtain ⟨g, raises, -⟩ := h
  have domain := raises submits
  cases f with
  | domain e => exact ⟨by simp, by simp⟩
  | integrity | data | stale | divisionByZero => exact domain.elim

end Failures

theorem calls_replayable {ι : Type} (S : Deployment) (calls : ι → Call) :
    Replayable (lockingPostgres S.num) (fun i => (calls i).program S.settings) Reply.Same
      (Db.Sound S.num) (fun i => (calls i).Fails) (fun i => Good S (calls i)) where
  start i db _ := good_start S (calls i) db
  statement sound h answer := h.statement sound answer
  refused sound h answer := h.refused sound answer
  raised _ h := h.raised
  commit sound h := h.commit sound
  frame sound h committed ran apart := h.frame sound committed ran apart

section Serializable

variable {ι : Type} {S : Deployment} {calls : ι → Call} {db₀ : Db}

theorem Serial.run_eq {log : List (ι × Reply)} {db : Db}
    (h : Serial (lockingPostgres S.num) (fun i => (calls i).program S.settings) Reply.Same db₀
      log db) :
    db = run (fun db i => step S db (calls i).op) db₀ (log.map Prod.fst) := by
  induction h with
  | nil => rfl
  | @snoc log db' db'' i a a' before ran same ih =>
    rw [List.map_append, run_append, ← ih]
    simp only [List.map_cons, List.map_nil, run_cons, run_nil]
    rw [Call.step_op]
    unfold committed
    rw [show ((calls i).program S.settings).run (postgres S.num) db' = .ok (a', db'') from ran]

theorem reachable_run [DecidableEq ι] (sound : db₀.Sound S.num)
    {site : Site Stmt Failure Db Write Lock ι Reply}
    (reachable : Reachable (lockingPostgres S.num) db₀ (fun i => (calls i).program S.settings)
      site) : ∃ ops, site.db = run (step S) db₀ ops := by
  have serial := (Reachable.consistent (calls_replayable S calls) sound reachable).serial
  exact ⟨_, (Serial.run_eq serial).trans (run_map (fun i => (calls i).op) _)⟩

/-- Whatever the interleaving of their statements, the transactions that commit leave
the database as if they had run one at a time in the order of their commits. -/
theorem serializable_calls [DecidableEq ι] (sound : db₀.Sound S.num)
    {site : Site Stmt Failure Db Write Lock ι Reply}
    (reachable : Reachable (lockingPostgres S.num) db₀ (fun i => (calls i).program S.settings)
      site) :
    site.db = run (fun db i => step S db (calls i).op) db₀ (site.log.map Prod.fst) ∧
    (site.log.map Prod.fst).Nodup ∧
    ∀ i, i ∈ site.log.map Prod.fst ↔ ∃ reply, site.phase i = .committed reply := by
  have consistent := Reachable.consistent (calls_replayable S calls) sound reachable
  refine ⟨Serial.run_eq consistent.serial, consistent.once, fun i => ?_⟩
  simp [← consistent.logged]

/-! A fill of the trader's order beside another submission for the account. -/

def limitSell : OrderCreate where
  clientOrderId := "client-2"
  idempotencyKey := "idempotency-2"
  accountId := 1
  symbol := "AAPL"
  side := .sell
  orderType := .limit
  timeInForce := .gtc
  quantity := 3
  price := 22
  clientOrderId_length := by decide
  idempotencyKey_length := by decide
  quantity_pos := by norm_num
  quantity_places := by decide +kernel
  price_pos := by norm_num
  price_places := by decide +kernel

def fillAndSubmission : Bool → Call
  | true => .processEvent partialFill
  | false => .createOrder ⟨4, 0⟩ limitSell

def routedDb : Db := run (step (.exact {} id)) (traderDb .exact) [.createOrder ⟨2, 0⟩ limitBuy]

/-- The fill starts first, and the submission commits before the fill locks the account. -/
def fillOvertaken : Option (Site Stmt Failure Db Write Lock Bool Reply) :=
  schedule (lockingPostgres .exact)
    (ReadCommitted.start routedDb fun i => (fillAndSubmission i).program {})
    (List.replicate 4 true ++ List.replicate 14 false ++ List.replicate 12 true)

theorem serializable_calls_fillOvertaken : ∃ site, fillOvertaken = some site ∧
    site.log.map Prod.fst = [false, true] ∧
    site.db = run (fun db i => step (.exact {} id) db (fillAndSubmission i).op) routedDb
      [false, true] := by
  have turns : (fillOvertaken.map fun site => site.log.map Prod.fst) = some [false, true] := by
    decide +kernel
  obtain ⟨site, scheduled, log⟩ := Option.map_eq_some_iff.1 turns
  have sound : routedDb.Sound (Deployment.exact {} id).num :=
    run_sound (openAccounts_fresh .exact _).sound _
  have reachable := schedule_reachable .refl scheduled
  exact ⟨site, scheduled, log, log ▸ (serializable_calls sound reachable).1⟩

end Serializable

end OrderManagement
