import OrderManagement.AccountIsolation
import OrderManagement.FillAdmission

/-! What one account sees of a run. Unless the position of another account refuses the
mark of a tick, its rows do not depend on what the other accounts do. -/

namespace OrderManagement

open Program TransitionRuns

def Db.owns (db : Db) (B : UUID) (orderId : UUID) : Bool := db.ownerOf orderId = some B

structure AccountView where
  account : Option Account
  orders : List Order
  fills : List Fill
  orderEvents : List OrderEvent
  processedBrokerEvents : List ProcessedBrokerEvent
  positions : List Position

def Db.viewOf (db : Db) (B : UUID) : AccountView where
  account := db.accounts.find B
  orders := db.orders.rows.filter fun o => o.accountId = B
  fills := db.fills.rows.filter fun f => db.owns B f.orderId
  orderEvents := db.orderEvents.filter fun e => db.owns B e.orderId
  processedBrokerEvents := db.processedBrokerEvents.rows.filter fun r => db.owns B r.orderId
  positions := db.positions.rows.filter fun p => p.accountId = B

structure Db.Attached (db : Db) : Prop where
  fills : ∀ f ∈ db.fills.rows, (db.orders.find f.orderId).isSome
  processed : ∀ r ∈ db.processedBrokerEvents.rows, (db.orders.find r.orderId).isSome
  orderEvents : ∀ e ∈ db.orderEvents, (db.orders.find e.orderId).isSome

section Attached

variable {S : Deployment} {db db' : Db} {op : Op}

theorem Db.Attached.grow (attached : db.Attached) (amended : db.Amended db')
    (fills : ∀ f ∈ db'.fills.rows, f ∈ db.fills.rows ∨ (db'.orders.find f.orderId).isSome)
    (processed : ∀ r ∈ db'.processedBrokerEvents.rows,
      r ∈ db.processedBrokerEvents.rows ∨ (db'.orders.find r.orderId).isSome)
    (orderEvents : ∀ e ∈ db'.orderEvents, e ∈ db.orderEvents ∨ (db'.orders.find e.orderId).isSome) :
    db'.Attached := by
  have kept :
      ∀ {k : UUID}, (db.orders.find k).isSome → (db'.orders.find k).isSome := fun found => by
    obtain ⟨o, held⟩ := Option.isSome_iff_exists.1 found
    obtain ⟨o', held', -⟩ := amended.order_frozen held
    exact Option.isSome_of_eq_some held'
  exact ⟨fun f mem => (fills f mem).elim (fun old => kept (attached.fills f old)) fun new => new,
    fun r mem => (processed r mem).elim (fun old => kept (attached.processed r old)) fun new => new,
    fun e mem =>
      (orderEvents e mem).elim (fun old => kept (attached.orderEvents e old)) fun new => new⟩

theorem Change.attached (h : Change S db op db') (sound : db.Sound S.num) (attached : db.Attached) :
    db'.Attached := by
  have amended := h.amended sound
  -- records of an order that is written along with them
  have logged : ∀ {es : List OrderEvent} {k : UUID}, db'.orderEvents = db.orderEvents ++ es →
      (∀ e ∈ es, e.orderId = k) → (db'.orders.find k).isSome →
      ∀ e ∈ db'.orderEvents, e ∈ db.orderEvents ∨ (db'.orders.find e.orderId).isSome := by
    intro es k events own found e mem
    rw [events, List.mem_append] at mem
    exact mem.imp_right fun new => own e new ▸ found
  have written : ∀ {o : Order}, db'.orders = db.orders.put (o.stored S.num) →
      (db'.orders.find o.id).isSome := fun {o} orders => by
    rw [orders]
    exact Option.isSome_of_eq_some (Table.find_put_self db.orders (o.stored S.num))
  have recorded : ∀ {row : ProcessedBrokerEvent},
      db'.processedBrokerEvents = db.processedBrokerEvents.put row →
      (db'.orders.find row.orderId).isSome →
      ∀ r ∈ db'.processedBrokerEvents.rows,
        r ∈ db.processedBrokerEvents.rows ∨ (db'.orders.find r.orderId).isSome := by
    intro row processed found r mem
    rw [processed, Table.mem_put] at mem
    rcases mem with rfl | ⟨old, -⟩
    · exact Or.inr found
    · exact Or.inl old
  cases h with
  | unchanged | ticked =>
    exact attached.grow amended (fun _ => Or.inl) (fun _ => Or.inl) fun _ => Or.inl
  | refused t =>
    exact attached.grow amended (fun _ => Or.inl) (fun _ => Or.inl)
      (logged rfl (by simp [Placement.created, Placement.rejection]; rfl) (written rfl))
  | routed t =>
    exact attached.grow amended (fun _ => Or.inl) (fun _ => Or.inl)
      (logged rfl (by simp [Placement.created, Placement.validation, Placement.routing]; rfl)
        (written rfl))
  | ignored found unprocessed ignores =>
    have held := Option.isSome_of_eq_some found
    exact attached.grow amended (fun _ => Or.inl) (recorded rfl held)
      (logged rfl (by simp) (Table.find_key found ▸ held))
  | @filled event t =>
    have key : t.final.id = t.order.id := t.frozen.id
    have held : (t.after.orders.find t.order.id).isSome := key ▸ written (o := t.final) rfl
    refine attached.grow amended (fun f mem => ?_) (recorded rfl ?_)
      (logged rfl (fun e mem => ?_) held)
    · rcases Table.mem_put.1 mem with rfl | ⟨old, -⟩
      · exact Or.inr held
      · exact Or.inl old
    · rw [Table.find_key t.found] at held
      exact held
    · exact (t.conclude.log_orderId e mem).trans t.booked_id
  | @released event order final account released record found unprocessed accountFound becomes =>
    have key : final.id = order.id := becomes.frozen.id
    have held := written (o := final) rfl
    rw [key] at held
    refine attached.grow amended (fun _ => Or.inl) (recorded rfl ?_) (logged rfl ?_ held)
    · rw [Table.find_key found] at held
      exact held
    · cases becomes <;> simp
  | @cancelRequested orderId reason order found =>
    exact attached.grow amended (fun _ => Or.inl) (fun _ => Or.inl)
      (logged rfl (by simp; rfl) (written (o := order.moved .cancelPending) rfl))
  | @routingFailed orderId reason order account found =>
    exact attached.grow amended (fun _ => Or.inl) (fun _ => Or.inl)
      (logged rfl (by simp; rfl) (written (o := (order.unroutable reason).moved .rejected) rfl))

end Attached

section Owners

variable {κ : Type} [DecidableEq κ]

def ownerIn (l : List (UUID × κ)) (k : κ) : UUID :=
  ((l.find? fun u => u.2 = k).map Prod.fst).getD 0

/-- No id is listed with two accounts. -/
def Apart (l : List (UUID × κ)) : Prop := l.Pairwise fun u v => u.1 ≠ v.1 → u.2 ≠ v.2

theorem Apart.ownerIn {l : List (UUID × κ)} (apart : Apart l) {A : UUID} {k : κ}
    (mem : (A, k) ∈ l) : ownerIn l k = A := by
  obtain ⟨u, found⟩ : ∃ u, (l.find? fun u => u.2 = k) = some u :=
    Option.isSome_iff_exists.1 (List.find?_isSome.2 ⟨(A, k), mem, by simp⟩)
  have key : u.2 = k := by simpa using List.find?_some found
  have : Std.Symm fun u v : UUID × κ => u.1 ≠ v.1 → u.2 ≠ v.2 :=
    ⟨fun _ _ h differ => Ne.symm (h (Ne.symm differ))⟩
  have same := List.Pairwise.forall_of_forall (fun _ _ h => (h rfl).elim) apart
    (List.mem_of_find?_eq_some found) mem
  unfold OrderManagement.ownerIn
  rw [found]
  by_contra differ
  exact same differ key

end Owners

def Op.drawn : Op → Option (UUID × UUID)
  | .createOrder draw payload => some (payload.accountId, draw.orderId)
  | _ => none

def Op.eventOf (db : Db) : Op → Option (UUID × BrokerExecutionEvent)
  | .processEvent event => (db.ownerOf event.orderId).map fun A => (A, event)
  | _ => none

/-- The ids that a run draws are different for different accounts. -/
structure DrawnApart (S : Deployment) (db : Db) (ops : List Op) : Prop where
  orders : Apart (ops.filterMap Op.drawn)
  events : (emitted (step S) (fun db op => (op.eventOf db).toList) db ops).Pairwise fun u v =>
    u.1 ≠ v.1 → u.2.eventId ≠ v.2.eventId ∧
      (u.2.eventType.isFill = true → v.2.eventType.isFill = true →
      u.2.executionId ≠ v.2.executionId)

theorem Db.Isolates.viewOf {own : Owners} {B : UUID} {x y : Db} (h : x.Isolates own B y)
    (attached : x.Attached) (attached' : y.Attached) : x.viewOf B = y.viewOf B := by
  have owns : ∀ {z : Db}, z.OwnedBy own → ∀ k, (z.orders.find k).isSome →
      z.owns B k = decide (own.order k = B) := by
    intro z owned k found
    obtain ⟨o, held⟩ := Option.isSome_iff_exists.1 found
    have account : z.ownerOf k = some o.accountId := by simp [Db.ownerOf, held]
    unfold Db.owns
    rw [account, ← owned.order account]
    simp
  have orders : ∀ {z : Db}, z.OwnedBy own → (z.orders.rows.filter fun o => o.accountId = B) =
      z.orders.rows.filter fun o => own.order o.id = B := fun owned =>
    List.filter_congr fun o mem => by rw [owned.orders o mem]
  have fills : ∀ {z : Db}, z.OwnedBy own → z.Attached →
      (z.fills.rows.filter fun f => z.owns B f.orderId) =
        z.fills.rows.filter fun f => own.event f.brokerEventId = B := fun owned attached =>
    List.filter_congr fun f mem => by
      rw [owns owned _ (attached.fills f mem), (owned.fills f mem).2]
  have processed : ∀ {z : Db}, z.OwnedBy own → z.Attached →
      (z.processedBrokerEvents.rows.filter fun r => z.owns B r.orderId) =
        z.processedBrokerEvents.rows.filter fun r => own.event r.brokerEventId = B :=
    fun owned attached => List.filter_congr fun r mem => by
      rw [owns owned _ (attached.processed r mem), owned.processed r mem]
  have events : ∀ {z : Db}, z.OwnedBy own → z.Attached →
      (z.orderEvents.filter fun e => z.owns B e.orderId) =
        z.orderEvents.filter fun e => own.order e.orderId = B := fun owned attached =>
    List.filter_congr fun e mem => owns owned _ (attached.orderEvents e mem)
  unfold Db.viewOf
  rw [orders h.left, orders h.right, fills h.left attached, fills h.right attached',
    processed h.left attached, processed h.right attached', events h.left attached,
    events h.right attached',
    h.accounts.find (decide_eq_true rfl), h.orderEvents]
  congr 1
  · exact h.orders
  · exact h.fills
  · exact h.processed
  · exact h.positions

theorem Op.marksAll_of_unbounded {S : Deployment} (unbounded : ∀ x, S.num.fits x = true) {db : Db}
    (sound : db.Sound S.num) (op : Op) (B : UUID) : op.MarksAll S B db := by
  cases op with
  | applyTick symbol price observedAt =>
    intro kept _ _ p mem _ _
    obtain ⟨stored, checked⟩ := sound.positions p mem
    have positive : 0 < S.num.round price := by
      unfold MarketPrice.violation at kept
      simp only [firstFailure_eq_none_iff, List.forall_mem_cons] at kept
      exact of_decide_eq_true kept.2.2.1
    obtain ⟨short, average, -⟩ :=
      Position.violation_eq_none_iff.1 (Position.violation_iff.1 checked).1
    refine Position.violation_iff.2 ⟨Position.violation_eq_none_iff.2 ?_, by simp [unbounded]⟩
    refine ⟨short, S.num.round_nonneg average, fun mark held => ?_⟩
    obtain rfl := Option.some.inj held
    exact positive
  | _ => trivial

section Claim

variable {S : Deployment} {opened : Db} {ops : List Op}

theorem DrawnApart.owners (apart : DrawnApart S opened ops) :
    ∃ own : Owners, Along (step S) (fun db op => op.OwnedBy own db) opened ops := by
  let used := emitted (step S) (fun db op => (op.eventOf db).toList) opened ops
  let executions : List (UUID × String) := (used.filter fun u => u.2.eventType.isFill).map fun u =>
    (u.1, orDefault u.2.executionId u.2.eventId.str)
  have eventIds : Apart (used.map fun u => (u.1, u.2.eventId)) :=
    List.pairwise_map.2 (apart.events.imp fun h differ => (h differ).1)
  have executionIds : Apart executions := by
    refine List.pairwise_map.2 (List.pairwise_filter.2 ?_)
    refine apart.events.imp fun {u v} h uFill vFill differ => ?_
    obtain ⟨-, -, e, he, nonempty⟩ := u.2.validateFillPayload uFill
    obtain ⟨-, -, e', he', nonempty'⟩ := v.2.validateFillPayload vFill
    have other := (h differ).2 uFill vFill
    rw [he, he'] at other
    simpa [orDefault, he, he', nonempty, nonempty'] using other
  refine ⟨⟨ownerIn (ops.filterMap Op.drawn), ownerIn (used.map fun u => (u.1, u.2.eventId)),
    ownerIn executions⟩, ?_⟩
  have drawn :
      Along (step S) (fun _ op => ∀ u, op.drawn = some u → u ∈ ops.filterMap Op.drawn) opened
      ops := along_of_forall fun op mem u h => List.mem_filterMap.2 ⟨op, mem, h⟩
  have brought : Along (step S) (fun db op => ∀ u ∈ (op.eventOf db).toList, u ∈ used) opened ops :=
    along_of_emitted fun _ mem => mem
  refine (drawn.and brought).mono fun db op h => ?_
  obtain ⟨drawn, brought⟩ := h
  cases op with
  | createOrder draw payload => exact apart.orders.ownerIn (drawn _ rfl)
  | processEvent event =>
    intro A found
    have mem : (A, event) ∈ used := brought _ (by simp [Op.eventOf, Option.mem_def.1 found])
    refine ⟨eventIds.ownerIn (List.mem_map.2 ⟨_, mem, rfl⟩), fun isFill => ?_⟩
    exact executionIds.ownerIn (List.mem_map.2 ⟨_, List.mem_filter.2 ⟨mem, isFill⟩, rfl⟩)
  | _ => trivial

/-- If the positions of the other accounts take every mark that those of `B` take, then `B`
sees what it would see alone. -/
theorem run_isolated (fresh : opened.Fresh S.num) (unlogged : opened.orderEvents = []) (B : UUID)
    (apart : DrawnApart S opened ops)
    (marks : Along (step S) (fun db op => op.MarksAll S B db) opened ops) :
    (run (step S) opened ops).viewOf B =
      (run (step S) opened
        (kept (step S) (fun db op => op.concerns B db) opened ops)).viewOf B := by
  obtain ⟨own, owned⟩ := apart.owners
  let R (x y : Db) : Prop :=
    (x.Sound S.num ∧ x.Attached) ∧ (y.Sound S.num ∧ y.Attached) ∧ x.Isolates own B y
  have keeps : ∀ x op, x.Sound S.num ∧ x.Attached → (step S x op).Sound S.num ∧
      (step S x op).Attached :=
    fun x op h => ⟨step_sound h.1 op, (step_change S h.1 op).attached h.1 h.2⟩
  have start : opened.OwnedBy own :=
    ⟨by simp [fresh.orders], by simp [fresh.fills], by simp [fresh.processed]⟩
  have attached : opened.Attached :=
    ⟨by simp [fresh.fills], by simp [fresh.processed], by simp [unlogged]⟩
  have related : R opened opened := ⟨⟨fresh.sound, attached⟩, ⟨fresh.sound, attached⟩,
    { left := start, right := start, onlyOrders := by simp [fresh.orders]
      onlyPositions := by simp [fresh.positions]
      accounts := rfl, orders := rfl, fills := rfl, positions := rfl, processed := rfl
      marketPrices := rfl, orderEvents := rfl }⟩
  obtain ⟨⟨-, attached⟩, ⟨-, attached'⟩, isolates⟩ := run_kept_along R
    (fun x y op h belongs other => ⟨keeps x op h.1, h.2.1, h.2.2.dropped belongs.1 other⟩)
    (fun x y op h belongs mine => ⟨keeps x op h.1, keeps y op h.2.1,
      h.2.2.selected h.1.1 h.2.1.1 belongs.1 belongs.2 mine⟩) (owned.and marks) related
  exact isolates.viewOf attached attached'

end Claim

/-! A trader who holds 10 of a symbol, beside an account that holds 100 trillion of it. -/

def hugeAccount : AccountCreate where
  userId := "institution"
  initialCashBalance := 10 ^ 15
  currency := "USD"
  userId_length := by decide
  initialCashBalance_pos := by norm_num
  initialCashBalance_places := by decide +kernel

def hugeBuy : OrderCreate :=
  { limitBuy with
    accountId := 11
    quantity := 10 ^ 14
    price := 1
    quantity_pos := by norm_num
    quantity_places := by decide +kernel
    price_pos := by norm_num
    price_places := by decide +kernel }

def hugeFill : BrokerExecutionEvent where
  eventId := 13
  eventType := .fullFill
  orderId := 12
  timestamp := 0
  filledQuantity := 10 ^ 14
  fillPrice := some 1
  executionId := some "execution-11"
  validateFillPayload _ :=
    ⟨by norm_num, ⟨1, rfl, by norm_num⟩, ⟨"execution-11", rfl, by decide⟩⟩

def boundedColumns : Deployment := ⟨.column 24 8, {}, id⟩

def bothAccounts : Db := openAccounts (.column 24 8) [(1, traderAccount), (11, hugeAccount)]

def sharedSymbol (mark : ℚ) : List Op :=
  [.createOrder ⟨12, 0⟩ hugeBuy, .createOrder ⟨2, 0⟩ limitBuy, .processEvent hugeFill,
    .processEvent partialFill, .applyTick "AAPL" mark 0]

/-- At 150 the larger position has an unrealized profit of 14 900 trillion, which its column
does not hold: the tick is refused for both. -/
theorem not_isolated_refusedMark :
    let db := run (step boundedColumns) bothAccounts (sharedSymbol 150)
    let alone := run (step boundedColumns) bothAccounts
      (kept (step boundedColumns) (fun db op => op.concerns 1 db) bothAccounts (sharedSymbol 150))
    DrawnApart boundedColumns bothAccounts (sharedSymbol 150) ∧
      (db.viewOf 1).positions.map Position.lastMarkPrice = [some 21] ∧
      (alone.viewOf 1).positions.map Position.lastMarkPrice = [some 150] ∧
      db.viewOf 1 ≠ alone.viewOf 1 := by
  intro db alone
  have marked : (db.viewOf 1).positions.map Position.lastMarkPrice = [some 21] := by decide +kernel
  have markedAlone : (alone.viewOf 1).positions.map Position.lastMarkPrice = [some 150] := by
    decide +kernel
  refine ⟨⟨by unfold Apart; decide +kernel, by decide +kernel⟩, marked, markedAlone, fun same => ?_⟩
  rw [same, markedAlone] at marked
  exact absurd marked (by decide +kernel)

theorem run_isolated_sharedSymbol :
    (run (step boundedColumns) bothAccounts (sharedSymbol 22)).viewOf 1 =
      (run (step boundedColumns) bothAccounts (kept (step boundedColumns)
        (fun db op => op.concerns 1 db) bothAccounts (sharedSymbol 22))).viewOf 1 :=
  run_isolated (openAccounts_fresh (.column 24 8) _) (by decide +kernel) 1
    ⟨by unfold Apart; decide +kernel, by decide +kernel⟩
    ⟨trivial, trivial, trivial, trivial, by decide +kernel, trivial⟩

end OrderManagement
