import OrderManagement.OrderHistory
import OrderManagement.OrderedPrefix

/-! The list of orders, read page by page while operations run in between. An order moves down
the list as newer ones come in and up as newer ones leave, so a reader misses an order only if
its filter lets one go. -/

namespace OrderManagement

open OrderedPrefix TransitionRuns

structure OrderQuery where
  accountId : Option UUID := none
  status : Option OrderStatus := none
  openOnly : Bool := false

def OrderQuery.selects (q : OrderQuery) (o : Order) : Bool :=
  q.accountId.all (o.accountId = ·) && q.status.all (o.status = ·) &&
    (!q.openOnly || o.status ∈ openOrderStatuses)

/-- `created_at` of an order, the later first. -/
def Order.recency (createdAt : UUID → Timestamp) (o : Order) : Timestampᵒᵈ :=
  OrderDual.toDual (createdAt o.id)

/-- The answers of `list_orders`: ORDER BY leaves ties open. -/
def ListsOrders (createdAt : UUID → Timestamp) (q : OrderQuery) (limit offset : ℕ) (db : Db)
    (rows : List Order) : Prop :=
  ∃ all, Arrangement (Order.recency createdAt) (db.orders.rows.filter q.selects) all ∧
    rows = (all.drop offset).take limit

namespace Db

def Shows (q : OrderQuery) (db : Db) (k : UUID) : Prop :=
  ∃ o, db.orders.find k = some o ∧ q.selects o

def ahead (createdAt : UUID → Timestamp) (q : OrderQuery) (db : Db) (k : UUID) : List UUID :=
  ((db.orders.rows.filter q.selects).filter fun o =>
    createdAt k < createdAt o.id).map Order.id

/-- The store as a reader finds it for one page after the other. -/
def readAt (S : Deployment) (db : Db) (ops : ℕ → List Op) : ℕ → Db
  | 0 => db
  | i + 1 => run (step S) (readAt S db ops i) (ops i)

variable {createdAt : UUID → Timestamp} {q : OrderQuery} {db db' : Db} {k : UUID}

theorem mem_ahead_iff {k' : UUID} :
    k' ∈ db.ahead createdAt q k ↔ db.Shows q k' ∧ createdAt k < createdAt k' := by
  simp only [ahead, List.mem_map, List.mem_filter, decide_eq_true_eq]
  constructor
  · rintro ⟨o, ⟨⟨mem, selected⟩, newer⟩, rfl⟩
    exact ⟨⟨o, Table.find_of_mem mem, selected⟩, newer⟩
  · rintro ⟨⟨o, found, selected⟩, newer⟩
    obtain rfl : o.id = k' := Table.find_key found
    exact ⟨o, ⟨⟨Table.mem_of_find found, selected⟩, newer⟩, rfl⟩

theorem nodup_ahead : (db.ahead createdAt q k).Nodup :=
  db.orders.nodup.sublist ((List.filter_sublist.trans List.filter_sublist).map _)

theorem length_ahead_le (kept : ∀ k', createdAt k < createdAt k' → db.Shows q k' → db'.Shows q k') :
    (db.ahead createdAt q k).length ≤ (db'.ahead createdAt q k).length := by
  refine (nodup_ahead.subperm fun k' mem => ?_).length_le
  rw [mem_ahead_iff] at mem ⊢
  exact ⟨kept k' mem.2 mem.1, mem.2⟩

theorem countP_recency (o : Order) : ((db.orders.rows.filter q.selects).countP
    fun p => p.recency createdAt < o.recency createdAt) = (db.ahead createdAt q o.id).length := by
  rw [List.countP_eq_length_filter, ahead, List.length_map]
  rfl

end Db

section Pages

variable {S : Deployment} {db : Db} {ops : ℕ → List Op} {createdAt : UUID → Timestamp}
  {q : OrderQuery} {limit : ℕ} {k : UUID}

theorem readAt_sound (sound : db.Sound S.num) (i : ℕ) : (db.readAt S ops i).Sound S.num := by
  induction i with
  | zero => exact sound
  | succ i ih => exact run_sound ih _

theorem readAt_later (sound : db.Sound S.num) {i j : ℕ} (le : i ≤ j) :
    (db.readAt S ops i).Later (db.readAt S ops j) := by
  induction j, le using Nat.le_induction with
  | base => exact .refl _
  | succ j _ ih => exact ih.trans (run_later (readAt_sound sound j) _)

theorem ListsOrders.mem_iff {offset : ℕ} {rows : List Order} {o : Order}
    (h : ListsOrders createdAt q limit offset db rows) (found : db.orders.find k = some o)
    (selected : q.selects o)
    (apart : ∀ p ∈ db.orders.rows, createdAt p.id = createdAt k → p.id = k) :
    o ∈ rows ↔ offset ≤ (db.ahead createdAt q k).length ∧
      (db.ahead createdAt q k).length < offset + limit := by
  obtain ⟨all, arranged, rfl⟩ := h
  obtain rfl : o.id = k := Table.find_key found
  rw [← Db.countP_recency]
  refine arranged.mem_page_iff ((List.Nodup.of_map _ db.orders.nodup).filter _)
    (fun p mem same => ?_)
    (List.mem_filter.2 ⟨Table.mem_of_find found, selected⟩)
  have listed := (List.mem_filter.1 mem).1
  have id : p.id = o.id := apart p listed (OrderDual.toDual.injective same)
  exact List.inj_on_of_nodup_map db.orders.nodup listed (Table.mem_of_find found) id

theorem ListsOrders.shows {offset : ℕ} {rows : List Order} {o : Order}
    (h : ListsOrders createdAt q limit offset db rows) (mem : o ∈ rows) :
    db.orders.find o.id = some o ∧ q.selects o := by
  obtain ⟨all, arranged, rfl⟩ := h
  have listed := arranged.perm.mem_iff.1 (List.mem_of_mem_drop (List.mem_of_mem_take mem))
  obtain ⟨row, selected⟩ := List.mem_filter.1 listed
  exact ⟨Table.find_of_mem row, selected⟩

theorem ListsOrders.ahead_lt_of_short {offset : ℕ} {rows : List Order}
    (h : ListsOrders createdAt q limit offset db rows) (short : rows.length < limit)
    (shown : db.Shows q k) : (db.ahead createdAt q k).length < offset + limit := by
  obtain ⟨all, arranged, rfl⟩ := h
  obtain ⟨o, found, selected⟩ := shown
  obtain rfl : o.id = k := Table.find_key found
  have total : all.length ≤ offset + limit := by
    rw [List.length_take, List.length_drop] at short
    omega
  have first : o ∈ all.take (offset + limit) := by
    rw [List.take_of_length_le total]
    exact arranged.perm.mem_iff.2
      (List.mem_filter.2 ⟨Table.mem_of_find found, selected⟩)
  rw [← Db.countP_recency]
  exact arranged.position_lt first

theorem apart_earlier (sound : db.Sound S.num) {i j : ℕ} (le : i ≤ j)
    (apart : ∀ p ∈ (db.readAt S ops j).orders.rows, createdAt p.id = createdAt k → p.id = k) :
    ∀ p ∈ (db.readAt S ops i).orders.rows, createdAt p.id = createdAt k → p.id = k := by
  intro p mem same
  obtain ⟨p', found, -⟩ := (readAt_later sound le).orders (Table.find_of_mem mem)
  have id : p'.id = p.id := Table.find_key found
  exact id.symm.trans (apart p' (Table.mem_of_find found) (by rwa [id]))

/-- An order that is on no page was let go by the filter, or a newer one was. -/
theorem on_page_or_left (sound : db.Sound S.num) {m : ℕ} {pages : ℕ → List Order}
    (lists : ∀ i ≤ m, ListsOrders createdAt q limit (i * limit) (db.readAt S ops i) (pages i))
    (last : (pages m).length < limit) (shown : db.Shows q k)
    (apart : ∀ p ∈ (db.readAt S ops m).orders.rows, createdAt p.id = createdAt k → p.id = k) :
    (∃ i ≤ m, ∃ o ∈ pages i, o.id = k) ∨ ∃ i < m, ∃ k', createdAt k ≤ createdAt k' ∧
      (db.readAt S ops i).Shows q k' ∧ ¬ (db.readAt S ops (i + 1)).Shows q k' := by
  by_contra neither
  push Not at neither
  obtain ⟨missed, stays⟩ := neither
  have shows : ∀ i ≤ m, (db.readAt S ops i).Shows q k := by
    intro i
    induction i with
    | zero => exact fun _ => shown
    | succ i ih => exact fun le => stays i le k (le_refl _) (ih (Nat.le_of_succ_le le))
  have page : ∀ i ≤ m, ¬ (i * limit ≤ ((db.readAt S ops i).ahead createdAt q k).length ∧
      ((db.readAt S ops i).ahead createdAt q k).length < i * limit + limit) := by
    intro i le within
    obtain ⟨o, found, selected⟩ := shows i le
    refine missed i le o (((lists i le).mem_iff found selected ?_).2 within) (Table.find_key found)
    exact apart_earlier sound le apart
  have rises : ∀ i < m, ((db.readAt S ops i).ahead createdAt q k).length ≤
      ((db.readAt S ops (i + 1)).ahead createdAt q k).length := fun i less =>
    Db.length_ahead_le fun k' newer => stays i less k' newer.le
  obtain ⟨i, le, within⟩ := exists_page rises
    ((lists m (le_refl m)).ahead_lt_of_short last (shows m (le_refl m)))
  exact page i le within

theorem Db.Later.shows {db' : Db} (h : db.Later db') (anyStatus : q.status = none)
    (all : q.openOnly = false) (shown : db.Shows q k) : db'.Shows q k := by
  obtain ⟨o, found, selected⟩ := shown
  obtain ⟨o', found', became⟩ := h.orders found
  have same : o'.accountId = o.accountId := by
    rcases became with rfl | precedes
    · rfl
    · exact precedes.frozen.accountId
  refine ⟨o', found', ?_⟩
  simpa [OrderQuery.selects, anyStatus, all, same] using selected

/-- An order on two pages was passed by a newer one that came in. -/
theorem entered_of_two_pages (sound : db.Sound S.num) {i j : ℕ} (less : i < j)
    {first second : List Order} {o o' : Order}
    (lists : ListsOrders createdAt q limit (i * limit) (db.readAt S ops i) first)
    (lists' : ListsOrders createdAt q limit (j * limit) (db.readAt S ops j) second)
    (apart : ∀ p ∈ (db.readAt S ops j).orders.rows, createdAt p.id = createdAt k → p.id = k)
    (mem : o ∈ first) (mem' : o' ∈ second) (id : o.id = k) (id' : o'.id = k) :
    ∃ k', createdAt k < createdAt k' ∧ ¬ (db.readAt S ops i).Shows q k' ∧
      (db.readAt S ops j).Shows q k' := by
  by_contra none_
  push Not at none_
  have here := lists.shows mem
  have there := lists'.shows mem'
  rw [id] at here
  rw [id'] at there
  have before := (lists.mem_iff here.1 here.2 (apart_earlier sound less.le apart)).1 mem
  have after := (lists'.mem_iff there.1 there.2 apart).1 mem'
  have falls : ((db.readAt S ops j).ahead createdAt q k).length ≤
      ((db.readAt S ops i).ahead createdAt q k).length :=
    Db.length_ahead_le fun k' newer shown => by
      by_contra absent
      exact none_ k' newer absent shown
  have next : i * limit + limit ≤ j * limit := by
    rw [← Nat.succ_mul]
    exact Nat.mul_le_mul_right limit less
  omega

/-- Whatever operations run between the pages up to the first that is not full, an order that was
in the list is on one of them unless it or a newer one left the list, so that no order of an account
is missed; and it is on two only if a newer one came in. -/
theorem orders_listed (sound : db.Sound S.num) {m : ℕ} {pages : ℕ → List Order}
    (lists : ∀ i ≤ m, ListsOrders createdAt q limit (i * limit) (db.readAt S ops i) (pages i))
    (last : (pages m).length < limit)
    (apart : ∀ p ∈ (db.readAt S ops m).orders.rows, createdAt p.id = createdAt k → p.id = k) :
    (db.Shows q k → (∃ i ≤ m, ∃ o ∈ pages i, o.id = k) ∨
      ∃ i < m, ∃ k', createdAt k ≤ createdAt k' ∧
        (db.readAt S ops i).Shows q k' ∧ ¬ (db.readAt S ops (i + 1)).Shows q k') ∧
    (db.Shows q k → q.status = none → q.openOnly = false → ∃ i ≤ m, ∃ o ∈ pages i, o.id = k) ∧
    ∀ i j, i < j → j ≤ m → ∀ o ∈ pages i, ∀ o' ∈ pages j, o.id = k → o'.id = k →
      ∃ k', createdAt k < createdAt k' ∧ ¬ (db.readAt S ops i).Shows q k' ∧
        (db.readAt S ops j).Shows q k' := by
  refine ⟨fun shown => on_page_or_left sound lists last shown apart,
    fun shown anyStatus all => ?_, ?_⟩
  · refine (on_page_or_left sound lists last shown apart).resolve_right ?_
    rintro ⟨i, -, k', -, there, left⟩
    exact left ((readAt_later sound (Nat.le_succ i)).shows anyStatus all there)
  · intro i j less le o mem o' mem' id id'
    exact entered_of_two_pages sound less (lists i (less.le.trans le)) (lists j le)
      (apart_earlier sound le apart) mem mem' id id'

end Pages

/-! The trader's order, with another one created while the pages are read. -/

def limitSellOps : ℕ → List Op
  | 0 => [.createOrder ⟨4, 0⟩ limitSell]
  | _ => []

/-- The order is on one of the first three pages, although another one came before it. -/
theorem orders_listed_limitSell : ∃ pages : ℕ → List Order,
    (∀ i ≤ 2, ListsOrders BitVec.toInt { accountId := some 1 } 1 (i * 1)
      (routedDb.readAt (.exact {} id) limitSellOps i) (pages i)) ∧
    (∃ i ≤ 2, ∃ o ∈ pages i, o.id = 2) := by
  have arranged : ∀ i, ∃ all, Arrangement (Order.recency BitVec.toInt)
      ((routedDb.readAt (.exact {} id) limitSellOps i).orders.rows.filter
        (OrderQuery.selects { accountId := some 1 })) all := fun i =>
    (exists_lastOfKey _ (fun _ => True) _).imp fun _ h => h.1
  choose all arranged using arranged
  have sound : routedDb.Sound (Deployment.exact {} id).num :=
    run_sound (openAccounts_fresh .exact _).sound _
  have lists : ∀ i ≤ 2, ListsOrders BitVec.toInt { accountId := some 1 } 1 (i * 1)
      (routedDb.readAt (.exact {} id) limitSellOps i) (((all i).drop (i * 1)).take 1) :=
    fun i _ => ⟨all i, arranged i, rfl⟩
  have two : ((routedDb.readAt (.exact {} id) limitSellOps 2).orders.rows.filter
      (OrderQuery.selects { accountId := some 1 })).length = 2 := by decide +kernel
  have last : (((all 2).drop (2 * 1)).take 1).length < 1 := by
    rw [List.length_take, List.length_drop, (arranged 2).perm.length_eq, two]
    decide
  have there : ((routedDb.orders.find 2).map Order.accountId) = some 1 := by decide +kernel
  obtain ⟨o, found, account⟩ := Option.map_eq_some_iff.1 there
  have shown : routedDb.Shows { accountId := some 1 } 2 :=
    ⟨o, found, by simp [OrderQuery.selects, account]⟩
  have apart : ∀ p ∈ (routedDb.readAt (.exact {} id) limitSellOps 2).orders.rows,
      BitVec.toInt p.id = BitVec.toInt (2 : UUID) → p.id = 2 := fun p _ => BitVec.eq_of_toInt_eq
  exact ⟨_, lists, (orders_listed sound lists last apart).2.1 shown rfl rfl⟩

end OrderManagement
