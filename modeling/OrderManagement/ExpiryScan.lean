import OrderManagement.FillAdmission
import OrderManagement.OrderedPrefix

/-! The worker that cancels DAY orders at session end. A pass scans for expired orders in
open statuses, by expiry and cut at a limit, and requests the cancellation of each. An order
whose cancellation is pending is still open, so it keeps its place in the scan. -/

namespace OrderManagement

open Program TransitionRuns OrderedPrefix

/-- The WHERE clause of `list_expired_day_order_ids`. -/
def Order.ExpiredBy (o : Order) (now : Timestamp) : Prop :=
  o.timeInForce = .day ∧ o.status ∈ openOrderStatuses ∧ o.expiresAt.any (· ≤ now) = true

instance (o : Order) (now : Timestamp) : Decidable (o.ExpiredBy now) :=
  inferInstanceAs (Decidable (_ ∧ _ ∧ _))

def Order.expiry (o : Order) : Timestamp := o.expiresAt.getD 0

def dayOrderScanLimit : ℕ := 100

/-- The answers of `list_expired_day_order_ids`: ORDER BY leaves ties open. -/
def ListsExpiredDayOrderIds (db : Db) (now : Timestamp) (limit : ℕ) (ids : List UUID) : Prop :=
  ∃ rows, Arrangement Order.expiry (db.orders.rows.filter fun o => o.ExpiredBy now) rows ∧
    ids = (rows.take limit).map Order.id

def expiryReason : String := "DAY order expired at session end"

def requestAll (S : Deployment) (reason : String) (db : Db) (ids : List UUID) : Db :=
  run (fun db id => step S db (.requestCancellation id reason)) db ids

/-- The loop of `day_order_expiry_worker` over the ids of one scan. -/
def expiryPass (S : Deployment) : Db → List UUID → Db := requestAll S expiryReason

/-- Passes of the worker at the given times with nothing in between. -/
def Passes (S : Deployment) : List Timestamp → Db → Db → Prop
  | [], db, db' => db' = db
  | now :: times, db, db' => ∃ ids, ListsExpiredDayOrderIds db now dayOrderScanLimit ids ∧
      Passes S times (expiryPass S db ids) db'

def Order.Overdue (o : Order) (now : Timestamp) : Prop :=
  o.ExpiredBy now ∧ (o.status = .routed ∨ o.status = .partiallyFilled)

instance (o : Order) (now : Timestamp) : Decidable (o.Overdue now) :=
  inferInstanceAs (Decidable (_ ∧ (_ ∨ _)))

def Order.asked (o : Order) : Order :=
  if o.status ∈ cancellableOrderStatuses then o.moved .cancelPending else o

namespace Order

variable (o : Order)

@[simp] theorem asked_id : o.asked.id = o.id := by
  unfold asked
  split_ifs <;> rfl

@[simp] theorem asked_asked : o.asked.asked = o.asked := by
  unfold asked
  by_cases cancellable : o.status ∈ cancellableOrderStatuses
  · rw [if_pos cancellable]
    exact if_neg (by simp [moved, cancellableOrderStatuses])
  · rw [if_neg cancellable, if_neg cancellable]

@[simp] theorem asked_expiry : o.asked.expiry = o.expiry := by
  unfold asked
  split_ifs <;> rfl

@[simp] theorem asked_expiredBy (now : Timestamp) : o.asked.ExpiredBy now ↔ o.ExpiredBy now := by
  unfold asked
  split_ifs with cancellable
  · have isOpen : ∀ status ∈ cancellableOrderStatuses, status ∈ openOrderStatuses := by decide
    have before := isOpen _ cancellable
    have after : OrderStatus.cancelPending ∈ openOrderStatuses := by decide
    simp [ExpiredBy, moved, before, after]
  · rfl

theorem asked_not_overdue (now : Timestamp) : ¬ o.asked.Overdue now := by
  rintro ⟨-, status⟩
  unfold asked at status
  split_ifs at status with cancellable
  · simp [moved] at status
  · rcases status with eq | eq <;> simp [eq, cancellableOrderStatuses] at cancellable

variable {o}

theorem expiredBy_iff {now : Timestamp} : o.ExpiredBy now ↔ o.timeInForce = .day ∧
    o.status ∈ openOrderStatuses ∧ o.expiresAt.isSome ∧ o.expiry ≤ now := by
  unfold ExpiredBy expiry
  cases o.expiresAt <;> simp

theorem ExpiredBy.later {now t : Timestamp} (h : o.ExpiredBy now) (le : now ≤ t) :
    o.ExpiredBy t := by
  rw [expiredBy_iff] at h ⊢
  exact ⟨h.1, h.2.1, h.2.2.1, h.2.2.2.trans le⟩

theorem ExpiredBy.earlier {x : Order} {now t : Timestamp} (h : x.ExpiredBy t) (g : o.ExpiredBy now)
    (le : x.expiry ≤ o.expiry) : x.ExpiredBy now := by
  rw [expiredBy_iff] at h g ⊢
  exact ⟨h.1, h.2.1, h.2.2.1, le.trans g.2.2.2⟩

theorem Overdue.asked_status {now : Timestamp} (h : o.Overdue now) :
    o.asked.status = .cancelPending := by
  have cancellable : o.status ∈ cancellableOrderStatuses := by
    rcases h.2 with eq | eq <;> simp [eq, cancellableOrderStatuses]
  rw [asked, if_pos cancellable]
  rfl

end Order

variable {S : Deployment} {db : Db}

theorem orders_requestCancellation (sound : db.Sound S.num) (id : UUID) (reason : String) :
    (step S db (.requestCancellation id reason)).orders.rows =
      db.orders.rows.map fun o => if o.id = id then o.asked else o := by
  have spec := @requestCancellation_spec _ _ id reason sound
  have other : db.orders.find id = none →
      db.orders.rows = db.orders.rows.map fun o => if o.id = id then o.asked else o := by
    intro missing
    refine (List.map_id _).symm.trans (List.map_congr_left fun o mem => ?_)
    exact (if_neg (Table.find_eq_none_iff.1 missing o mem)).symm
  have unasked : ∀ {o : Order}, db.orders.find id = some o →
      o.status ∉ cancellableOrderStatuses →
      db.orders.rows = db.orders.rows.map fun o => if o.id = id then o.asked else o := by
    intro o found notCancellable
    refine (List.map_id _).symm.trans (List.map_congr_left fun p mem => ?_)
    by_cases same : p.id = id
    · have eq : p = o := Option.some.inj ((Table.find_of_mem mem).symm.trans (same ▸ found))
      rw [if_pos same, eq, Order.asked, if_neg notCancellable]
      rfl
    · exact (if_neg same).symm
  change (committed S.num (requestCancellation id reason) db).orders.rows = _
  unfold committed
  cases ran : (requestCancellation id reason).run (postgres S.num) db with
  | error f =>
    cases wp_error _ spec ran with
    | orderNotFound missing => exact other missing
    | notCancellable found _ notCancellable => exact unasked found notCancellable
  | ok answer =>
    obtain ⟨c, db'⟩ := answer
    cases wp_ok _ spec ran with
    | pending found pending =>
      exact unasked found (by simp [pending, cancellableOrderStatuses])
    | @requested order found cancellable =>
      obtain ⟨kept, -⟩ := sound.orders order (Table.mem_of_find found)
      have row : (order.moved .cancelPending).stored S.num = order.asked := by
        rw [Order.asked, if_pos cancellable]
        conv_rhs => rw [← kept]
        rfl
      have key := Table.find_key found
      change (db.orders.put ((order.moved .cancelPending).stored S.num)).rows = _
      rw [row, Table.rows_put_of_find (key ▸ found) order.asked_id, key]

theorem orders_requestAll (sound : db.Sound S.num) (reason : String) (ids : List UUID) :
    (requestAll S reason db ids).orders.rows =
      db.orders.rows.map fun o => if o.id ∈ ids then o.asked else o := by
  induction ids generalizing db with
  | nil => simp [requestAll]
  | cons id ids ih =>
    change (requestAll S reason (step S db (.requestCancellation id reason)) ids).orders.rows = _
    rw [ih (step_sound sound _), orders_requestCancellation sound, List.map_map]
    refine List.map_congr_left fun o _ => ?_
    by_cases first : o.id = id <;> by_cases later : o.id ∈ ids <;> simp_all

theorem expiryPass_sound (sound : db.Sound S.num) (ids : List UUID) :
    (expiryPass S db ids).Sound S.num :=
  run_invariant (Db.Sound S.num) (fun _ _ sound => step_sound sound _) sound

theorem orders_expiryPass (sound : db.Sound S.num) (ids : List UUID) :
    (expiryPass S db ids).orders.rows =
      db.orders.rows.map fun o => if o.id ∈ ids then o.asked else o :=
  orders_requestAll sound expiryReason ids

/-- The pass at `now` asks some overdue order, whatever its scan answers. -/
def Progresses (S : Deployment) (db : Db) (now : Timestamp) : Prop :=
  (∃ o ∈ db.orders.rows, o.Overdue now) →
    ∀ ids, ListsExpiredDayOrderIds db now dayOrderScanLimit ids → ∃ o ∈ db.orders.rows,
      o.Overdue now ∧ ∃ o', (expiryPass S db ids).orders.find o.id = some o' ∧
        o'.status = .cancelPending

/-- So many passes after `now` leave no overdue order. -/
def Clears (S : Deployment) (db : Db) (now : Timestamp) : Prop :=
  ∃ n, ∀ times : List Timestamp, times.length = n → (∀ t ∈ times, now ≤ t) →
    ∀ db', Passes S times db db' → ∀ o ∈ db'.orders.rows, ¬ o.Overdue now

/-- The number of expired orders, asked or not, that a scan may return before `o`. -/
def Db.aheadOf (db : Db) (now : Timestamp) (o : Order) : ℕ :=
  db.orders.rows.countP fun x => x.ExpiredBy now ∧ x.expiry ≤ o.expiry

/-- As many of them for which a pass does nothing. -/
def Db.pendingAheadOf (db : Db) (now : Timestamp) (o : Order) : ℕ :=
  db.orders.rows.countP fun x => (x.ExpiredBy now ∧ ¬ x.Overdue now) ∧ x.expiry ≤ o.expiry

/-- Some overdue order has fewer than `limit` of the pending ones ahead of it. -/
def Db.Unblocked (db : Db) (now : Timestamp) (limit : ℕ) : Prop :=
  (∃ o ∈ db.orders.rows, o.Overdue now) →
    ∃ o ∈ db.orders.rows, o.Overdue now ∧ db.pendingAheadOf now o < limit

/-- Every overdue order is always among the first `limit`. -/
def Db.WithinLimit (db : Db) (now : Timestamp) (limit : ℕ) : Prop :=
  ∀ o ∈ db.orders.rows, o.Overdue now → db.aheadOf now o ≤ limit

variable {now : Timestamp}

theorem ListsExpiredDayOrderIds.mem_iff {limit : ℕ} {rows : List Order} {o : Order}
    (arranged : Arrangement Order.expiry (db.orders.rows.filter fun o => o.ExpiredBy now) rows)
    (mem : o ∈ db.orders.rows) :
    o.id ∈ (rows.take limit).map Order.id ↔ o ∈ rows.take limit := by
  refine ⟨fun listed => ?_, fun listed => List.mem_map_of_mem listed⟩
  obtain ⟨p, first, same⟩ := List.mem_map.1 listed
  have row := List.mem_of_mem_filter (arranged.perm.mem_iff.1 (List.mem_of_mem_take first))
  rwa [← List.inj_on_of_nodup_map db.orders.nodup row mem same]

theorem expiryPass_asks_iff (sound : db.Sound S.num) {o : Order} (mem : o ∈ db.orders.rows)
    (overdue : o.Overdue now) (ids : List UUID) :
    (∃ o', (expiryPass S db ids).orders.find o.id = some o' ∧ o'.status = .cancelPending) ↔
      o.id ∈ ids := by
  have row : (expiryPass S db ids).orders.find o.id = some (if o.id ∈ ids then o.asked else o) := by
    refine Table.find_eq_some_iff.2 ⟨?_, by split_ifs <;> simp⟩
    rw [orders_expiryPass sound]
    exact List.mem_map_of_mem (f := fun o => if o.id ∈ ids then o.asked else o) mem
  rw [row]
  constructor
  · rintro ⟨o', found, status⟩
    by_contra unlisted
    rw [if_neg unlisted, Option.some_inj] at found
    rcases overdue.2 with eq | eq <;> rw [← found, eq] at status <;> cases status
  · intro listed
    exact ⟨o.asked, by rw [if_pos listed], overdue.asked_status⟩

theorem progresses_iff (sound : db.Sound S.num) :
    Progresses S db now ↔ db.Unblocked now dayOrderScanLimit := by
  have counted : ∀ o : Order, ((db.orders.rows.filter fun o => o.ExpiredBy now).countP fun x =>
      ¬ x.Overdue now ∧ x.expiry ≤ o.expiry) = db.pendingAheadOf now o := by
    intro o
    rw [List.countP_filter]
    refine List.countP_congr fun x _ => ?_
    simp only [Bool.and_eq_true, decide_eq_true_eq]
    tauto
  constructor
  · intro progresses some_
    by_contra blocked
    push Not at blocked
    have many : ∀ o ∈ db.orders.rows.filter fun o => o.ExpiredBy now, o.Overdue now →
        dayOrderScanLimit ≤ (db.orders.rows.filter fun o => o.ExpiredBy now).countP fun x =>
          ¬ x.Overdue now ∧ x.expiry ≤ o.expiry := fun o mem overdue => by
      rw [counted]
      exact blocked o (List.mem_of_mem_filter mem) overdue
    obtain ⟨rows, arranged, avoids⟩ := exists_arrangement_avoiding many
    obtain ⟨o, mem, overdue, asked⟩ := progresses some_ _ ⟨rows, arranged, rfl⟩
    rw [expiryPass_asks_iff sound mem overdue,
      ListsExpiredDayOrderIds.mem_iff arranged mem] at asked
    exact avoids o asked overdue
  · rintro unblocked some_ ids ⟨rows, arranged, rfl⟩
    obtain ⟨o, mem, overdue, few⟩ := unblocked some_
    rw [← counted] at few
    have expired : o ∈ db.orders.rows.filter fun o => o.ExpiredBy now :=
      List.mem_filter.2 ⟨mem, decide_eq_true overdue.1⟩
    obtain ⟨p, first, overdue'⟩ := arranged.exists_take expired overdue few
    have mem' := List.mem_of_mem_filter (arranged.perm.mem_iff.1 (List.mem_of_mem_take first))
    exact ⟨p, mem', overdue', (expiryPass_asks_iff sound mem' overdue' _).2
      (List.mem_map_of_mem first)⟩

theorem aheadOf_expiryPass (sound : db.Sound S.num) (ids : List UUID) (o : Order) :
    (expiryPass S db ids).aheadOf now o = db.aheadOf now o := by
  unfold Db.aheadOf
  rw [orders_expiryPass sound, List.countP_map]
  refine List.countP_congr fun x _ => ?_
  by_cases listed : x.id ∈ ids <;> simp [listed]

theorem overdue_expiryPass (sound : db.Sound S.num) {ids : List UUID} {o : Order} :
    o ∈ (expiryPass S db ids).orders.rows ∧ o.Overdue now ↔
      (o ∈ db.orders.rows ∧ o.Overdue now) ∧ o.id ∉ ids := by
  rw [orders_expiryPass sound, List.mem_map]
  constructor
  · rintro ⟨⟨p, mem, rfl⟩, overdue⟩
    by_cases listed : p.id ∈ ids
    · rw [if_pos listed] at overdue
      exact absurd overdue (p.asked_not_overdue now)
    · rw [if_neg listed] at overdue ⊢
      exact ⟨⟨mem, overdue⟩, listed⟩
  · rintro ⟨⟨mem, overdue⟩, unlisted⟩
    exact ⟨⟨o, mem, if_neg unlisted⟩, overdue⟩

theorem countP_expired (o : Order) :
    ((db.orders.rows.filter fun x => x.ExpiredBy now).countP fun x => x.expiry ≤ o.expiry) =
      db.aheadOf now o := by
  rw [List.countP_filter]
  refine List.countP_congr fun x _ => ?_
  simp [and_comm]

/-- An order with too many ahead of it may wait through any number of passes. -/
theorem exists_passes_waiting (sound : db.Sound S.num) {o : Order} (mem : o ∈ db.orders.rows)
    (overdue : o.Overdue now) (many : dayOrderScanLimit < db.aheadOf now o) (n : ℕ) :
    ∃ db', Passes S (List.replicate n now) db db' ∧ o ∈ db'.orders.rows := by
  induction n generalizing db with
  | zero => exact ⟨db, rfl, mem⟩
  | succ n ih =>
    have others : ∀ p ∈ db.orders.rows.filter fun o => o.ExpiredBy now, p = o →
        dayOrderScanLimit ≤ (db.orders.rows.filter fun o => o.ExpiredBy now).countP fun x =>
          ¬ x = o ∧ x.expiry ≤ p.expiry := by
      rintro p - rfl
      have nodup := (List.Nodup.of_map _ db.orders.nodup).filter fun o => o.ExpiredBy now
      have one := countP_others (p := fun x : Order => x.expiry ≤ p.expiry) nodup p
      rw [countP_expired] at one
      omega
    obtain ⟨rows, arranged, avoids⟩ := exists_arrangement_avoiding others
    have unlisted : o.id ∉ (rows.take dayOrderScanLimit).map Order.id := fun listed =>
      avoids o ((ListsExpiredDayOrderIds.mem_iff arranged mem).1 listed) rfl
    have later := (overdue_expiryPass sound).2 ⟨⟨mem, overdue⟩, unlisted⟩
    obtain ⟨db', passes, mem'⟩ := ih (expiryPass_sound sound _) later.1
      ((aheadOf_expiryPass sound _ o).symm ▸ many)
    exact ⟨db', ⟨_, ⟨rows, arranged, rfl⟩, passes⟩, mem'⟩

theorem clears_iff (sound : db.Sound S.num) :
    Clears S db now ↔ db.WithinLimit now dayOrderScanLimit := by
  constructor
  · rintro ⟨n, clear⟩ o mem overdue
    by_contra many
    obtain ⟨db', passes, mem'⟩ := exists_passes_waiting sound mem overdue (not_le.1 many) n
    exact clear _ List.length_replicate (fun t ht => (List.eq_of_mem_replicate ht).ge) db' passes o
      mem' overdue
  · intro within
    refine ⟨1, fun times one later db' passes o mem overdue => ?_⟩
    obtain ⟨t, rfl⟩ := List.length_eq_one_iff.1 one
    obtain ⟨_, ⟨rows, arranged, rfl⟩, rfl⟩ := passes
    obtain ⟨⟨was, -⟩, unlisted⟩ := (overdue_expiryPass sound).1 ⟨mem, overdue⟩
    refine unlisted (List.mem_map_of_mem (arranged.mem_take
      (List.mem_filter.2 ⟨was, decide_eq_true (overdue.1.later (later t (by simp)))⟩) ?_))
    refine Nat.le_trans ?_ (within o was overdue)
    rw [List.countP_filter]
    refine List.countP_mono_left fun x _ ahead => ?_
    simp only [Bool.and_eq_true, decide_eq_true_eq] at ahead ⊢
    exact ⟨ahead.2.earlier overdue.1 ahead.1, ahead.1⟩

instance (limit : ℕ) : Decidable (db.WithinLimit now limit) :=
  inferInstanceAs (Decidable (∀ o ∈ db.orders.rows, o.Overdue now → _))

theorem Db.WithinLimit.unblocked {limit : ℕ} (h : db.WithinLimit now limit) :
    db.Unblocked now limit := by
  rintro ⟨o, mem, overdue⟩
  refine ⟨o, mem, overdue, Nat.lt_of_lt_of_le ?_ (h o mem overdue)⟩
  have own : 0 < (db.orders.rows.filter fun x => x.Overdue now).countP fun x =>
      x.ExpiredBy now ∧ x.expiry ≤ o.expiry :=
    List.countP_pos_iff.2 ⟨o, by simp [mem, overdue], by simp [overdue.1]⟩
  have others : (db.orders.rows.filter fun x => !decide (x.Overdue now)).countP
      (fun x => x.ExpiredBy now ∧ x.expiry ≤ o.expiry) = db.pendingAheadOf now o := by
    rw [List.countP_filter]
    refine List.countP_congr fun x _ => ?_
    simp only [Bool.and_eq_true, decide_eq_true_eq, Bool.not_eq_true', decide_eq_false_iff_not]
    tauto
  have all := List.countP_eq_countP_filter_add db.orders.rows
    (fun x => x.ExpiredBy now ∧ x.expiry ≤ o.expiry) fun x => x.Overdue now
  rw [others] at all
  unfold Db.aheadOf
  omega

/-- In every reachable state and at any time, the worker makes progress and finishes exactly if
no more than a hundred expired orders, asked or not, come before or with any overdue one; a pass
alone makes progress exactly if fewer than a hundred asked ones do for some overdue one. -/
theorem run_expiryScan {db₀ : Db} (fresh : db₀.Fresh S.num) (ops : List Op) (now : Timestamp) :
    let db := run (step S) db₀ ops
    (Progresses S db now ∧ Clears S db now ↔ db.WithinLimit now dayOrderScanLimit) ∧
      (Progresses S db now ↔ db.Unblocked now dayOrderScanLimit) := by
  intro db
  have sound : db.Sound S.num := run_sound fresh.sound ops
  refine ⟨?_, progresses_iff sound⟩
  rw [progresses_iff sound, clears_iff sound]
  exact ⟨fun h => h.2, fun h => ⟨h.unblocked, h⟩⟩

/-- The order of the trader expires after five minutes and the next pass asks for it. -/
theorem run_expiryScan_limitBuy :
    let db := run (step (.exact {} id)) (traderDb .exact) [.createOrder ⟨2, 0⟩ limitBuy]
    (∃ o ∈ db.orders.rows, o.Overdue 300000000) ∧
      Progresses (.exact {} id) db 300000000 ∧ Clears (.exact {} id) db 300000000 :=
  ⟨by decide +kernel, ((run_expiryScan (S := .exact {} id)
    (openAccounts_fresh _ [(1, traderAccount)]) [.createOrder ⟨2, 0⟩ limitBuy] 300000000).1).2
    (by decide +kernel)⟩

/-! A queue of sells. Sells reserve no cash, so any number of them is routed. -/

section Sells

variable {settings : Settings}

def Db.NotPlaced (db : Db) (request : CreateDraw × OrderCreate) : Prop :=
  ∀ o ∈ db.orders.rows, o.id ≠ request.1.orderId ∧
    o.clientOrderId ≠ request.2.clientOrderId ∧ o.idempotencyKey ≠ request.2.idempotencyKey

def routedOrder (settings : Settings) (request : CreateDraw × OrderCreate) : Order :=
  ((newOrder settings request.1 request.2).moved .validated).moved .routed

theorem newOrder_checked {draw : CreateDraw} {payload : OrderCreate}
    (short : payload.symbol.length ≤ 32) :
    (newOrder settings draw payload).violation .exact = none := by
  rw [Order.violation_eq_none_iff]
  exact ⟨payload.clientOrderId_length.2, payload.idempotencyKey_length.2, short, by simp [newOrder],
    payload.quantity_pos, payload.price_pos, le_rfl, le_rfl, payload.quantity_pos.le,
    by simp [newOrder]⟩

theorem step_createOrder_sell (settings : Settings) (upper : String → String)
    (sound : db.Sound .exact) {request : CreateDraw × OrderCreate}
    (account : (db.accounts.find request.2.accountId).isSome) (sell : request.2.side = .sell)
    (short : request.2.symbol.length ≤ 32) (new : db.NotPlaced request) :
    (step (.exact settings upper) db (.createOrder request.1 request.2)).orders.rows =
        db.orders.rows ++ [routedOrder settings request] ∧
      ((step (.exact settings upper) db (.createOrder request.1 request.2)).accounts.find
        request.2.accountId).isSome := by
  have byId : db.orders.find request.1.orderId = none :=
    Table.find_eq_none_iff.2 fun o mem => (new o mem).1
  have byKey : db.byIdempotencyKey request.2.accountId request.2.idempotencyKey = none :=
    Table.first_eq_none_iff.2 fun o mem => by simp [(new o mem).2.2]
  have byClient : db.byClientOrderId request.2.accountId request.2.clientOrderId = none :=
    Table.first_eq_none_iff.2 fun o mem => by simp [(new o mem).2.1]
  have spec := @createOrder_spec _ _ settings request.1 request.2 sound
  have free : ∀ t : Placement db settings request.1 request.2, t.required = 0 := fun t => by
    simp [Placement.required, requiredBuyingPower, sell]
  have uncharged :
      ∀ t : Placement db settings request.1 request.2, t.charged = t.account := fun t => by
    simp [Placement.charged, sell]
  have row : ∀ t : Placement db settings request.1 request.2,
      (t.account.stored .exact).violation .exact = none := fun t => by
    obtain ⟨kept, checked⟩ := sound.accounts t.account (Table.mem_of_find t.accountFound)
    exact kept.symm ▸ checked
  change (committed .exact (createOrder settings request.1 request.2) db).orders.rows = _ ∧
    ((committed .exact (createOrder settings request.1 request.2) db).accounts.find _).isSome
  unfold committed
  cases ran : (createOrder settings request.1 request.2).run (postgres .exact) db with
  | error f =>
    exfalso
    cases wp_error _ spec ran with
    | accountNotFound missing => simp [missing] at account
    | differs keyed => simp [byKey] at keyed
    | reused _ taken => simp [byClient] at taken
    | refused t refused =>
      have accepted : (t.order.stored .exact).refusal .exact db = none :=
        Order.refusal_eq_none_iff.2 ⟨newOrder_checked short, byId, byClient, byKey⟩
      rw [accepted] at refused
      cases refused
    | reservation t _ refused =>
      rw [uncharged t, row t] at refused
      cases refused
  | ok answer =>
    obtain ⟨c, db'⟩ := answer
    cases wp_ok _ spec ran with
    | existing _ keyed => simp [byKey] at keyed
    | rejected t _ poor =>
      have covered := (Account.violation_eq_none_iff.1 (row t)).2.2.2.2
      rw [free t, Account.availableCash] at poor
      simp only [Account.stored_exact] at covered
      linarith
    | routed t =>
      refine ⟨?_, Table.find_put_isSome _ account⟩
      exact Table.rows_put_of_new byId

def SeparatelyKeyed (r q : CreateDraw × OrderCreate) : Prop :=
  r.1.orderId ≠ q.1.orderId ∧ r.2.clientOrderId ≠ q.2.clientOrderId ∧
    r.2.idempotencyKey ≠ q.2.idempotencyKey

theorem run_createOrder_sells (settings : Settings) (upper : String → String)
    (sound : db.Sound .exact)
    {requests : List (CreateDraw × OrderCreate)} {accountId : UUID}
    (account : (db.accounts.find accountId).isSome)
    (sells : ∀ r ∈ requests, r.2.accountId = accountId ∧ r.2.side = .sell ∧ r.2.symbol.length ≤ 32)
    (apart : requests.Pairwise SeparatelyKeyed) (new : ∀ r ∈ requests, db.NotPlaced r) :
    (run (step (.exact settings upper)) db
        (requests.map fun r => .createOrder r.1 r.2)).orders.rows =
      db.orders.rows ++ requests.map (routedOrder settings) := by
  induction requests generalizing db with
  | nil => simp
  | cons r requests ih =>
    obtain ⟨own, sell, short⟩ := sells r (by simp)
    obtain ⟨first, rest⟩ := List.pairwise_cons.1 apart
    obtain ⟨rows, found⟩ := step_createOrder_sell settings upper sound
      (own.symm ▸ account) sell short (new r (by simp))
    rw [List.map_cons, run_cons, ih (step_sound (S := .exact settings upper) sound _) (own ▸ found)
      (fun q mem => sells q (by simp [mem])) rest fun q mem o row => ?_, rows, List.map_cons,
      List.append_assoc]
    · rfl
    · rw [rows, List.mem_append, List.mem_singleton] at row
      rcases row with was | rfl
      · exact new q (by simp [mem]) o was
      · exact first q mem

theorem run_sells_requests (settings : Settings) (upper : String → String) (sound : db.Sound .exact)
    {requests : List (CreateDraw × OrderCreate)} {accountId : UUID}
    (account : (db.accounts.find accountId).isSome)
    (sells : ∀ r ∈ requests, r.2.accountId = accountId ∧ r.2.side = .sell ∧ r.2.symbol.length ≤ 32)
    (apart : requests.Pairwise SeparatelyKeyed) (new : ∀ r ∈ requests, db.NotPlaced r)
    (ids : List UUID)
    (reason : String) :
    (run (step (.exact settings upper)) db ((requests.map fun r => .createOrder r.1 r.2) ++
        ids.map fun id => .requestCancellation id reason)).orders.rows =
      (db.orders.rows ++ requests.map (routedOrder settings)).map fun o =>
        if o.id ∈ ids then o.asked else o := by
  rw [run_append, ← run_map (fun id => Op.requestCancellation id reason),
    ← run_createOrder_sells settings upper sound account sells apart new]
  exact orders_requestAll (S := .exact settings upper) (run_sound sound _) reason ids

end Sells

def queueLabel (i : ℕ) : String :=
  String.ofList (List.replicate i 'a' ++ List.replicate (100 - i) 'b')

theorem queueLabel_length {i : ℕ} (le : i ≤ 100) : (queueLabel i).length = 100 := by
  simp [queueLabel]
  omega

theorem queueLabel_injective {i j : ℕ} (same : queueLabel i = queueLabel j) : i = j := by
  have counts := congrArg (fun s : String => s.toList.count 'a') same
  simpa [queueLabel, List.count_append, List.count_replicate] using counts

/-- A sell of the trader, submitted in microsecond `i`. -/
def queuedSell (i : Fin 101) : CreateDraw × OrderCreate where
  fst := ⟨BitVec.ofNat 128 (1000 + i), i⟩
  snd :=
    { clientOrderId := queueLabel i
      idempotencyKey := queueLabel i
      accountId := 1
      symbol := "MSFT"
      side := .sell
      orderType := .limit
      timeInForce := .day
      quantity := 17
      price := 19
      clientOrderId_length := by rw [queueLabel_length (by omega)]; decide
      idempotencyKey_length := by rw [queueLabel_length (by omega)]; decide
      quantity_pos := by norm_num
      quantity_places := by decide +kernel
      price_pos := by norm_num
      price_places := by decide +kernel }

def queuedSells : List (CreateDraw × OrderCreate) := (List.finRange 101).map queuedSell

def queuedIds : List UUID := (List.range 100).map fun i => BitVec.ofNat 128 (1000 + i)

def queueOps : List Op :=
  (queuedSells.map fun r => .createOrder r.1 r.2) ++
    queuedIds.map fun id => .requestCancellation id "Client requested cancellation"

def queueDb : Db := run (step (.exact {} id)) (traderDb .exact) queueOps

theorem queuedSells_apart : queuedSells.Pairwise SeparatelyKeyed := by
  unfold queuedSells
  rw [List.pairwise_map]
  refine (List.nodup_finRange 101).imp fun {i j} differ => ⟨fun same => ?_, fun same => ?_,
    fun same => ?_⟩
  · have numbers := congrArg BitVec.toNat same
    simp only [queuedSell, BitVec.toNat_ofNat] at numbers
    omega
  · exact differ (Fin.ext (queueLabel_injective same))
  · exact differ (Fin.ext (queueLabel_injective same))

theorem orders_queueDb : queueDb.orders.rows =
    (queuedSells.map (routedOrder {})).map fun o => if o.id ∈ queuedIds then o.asked else o := by
  have fresh : (traderDb .exact).Fresh .exact := openAccounts_fresh _ _
  have sells : ∀ r ∈ queuedSells, r.2.accountId = 1 ∧ r.2.side = .sell ∧
      r.2.symbol.length ≤ 32 := by
    intro r mem
    obtain ⟨i, -, rfl⟩ := List.mem_map.1 mem
    exact ⟨rfl, rfl, show "MSFT".length ≤ 32 by decide⟩
  have rows := run_sells_requests {} id fresh.sound
    (show ((traderDb .exact).accounts.find 1).isSome by decide +kernel) sells queuedSells_apart
    (fun r _ o mem => by simp [fresh.orders] at mem) queuedIds "Client requested cancellation"
  rw [queueDb, queueOps, rows, fresh.orders, List.nil_append]

/-- With a hundred cancellations pending, no pass asks for the last sell. -/
theorem stuck_queueDb :
    ¬ Progresses (.exact {} id) queueDb 400000000 ∧ ¬ Clears (.exact {} id) queueDb 400000000 := by
  have sound : queueDb.Sound (Deployment.exact {} id).num :=
    run_sound (openAccounts_fresh _ _).sound _
  rw [progresses_iff sound, clears_iff sound]
  unfold Db.Unblocked Db.WithinLimit Db.aheadOf Db.pendingAheadOf
  rw [orders_queueDb]
  constructor <;> decide +kernel

end OrderManagement
