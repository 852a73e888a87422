import OrderManagement.LockWaits
import OrderManagement.OrderServices

/-! What the statements wait for, in the order in which they take it: rows selected for
update, the row of a market price that is updated, and entries of unique indexes. Every
transaction takes them by increasing rank, ticks the positions in their symbol in any order
under the lock on its market price. -/

namespace OrderManagement

open Program

/-- The row of a market price and its key are waited for alike. -/
inductive Acquisition
  | orderRow (id : UUID)
  | fillKey (brokerEventId : UUID)
  | executionKey (executionId : String)
  | accountRow (id : UUID)
  | orderKey (id : UUID)
  | clientOrderKey (accountId : UUID) (clientOrderId : String)
  | idempotencyKey (accountId : UUID) (idempotencyKey : String)
  | marketPrice (symbol : String)
  | positionRow (holding : UUID × String)
  | positionKey (holding : UUID × String)
  | processedKey (brokerEventId : UUID)
  deriving DecidableEq

namespace Acquisition

def rank : Acquisition → ℕ
  | orderRow _ => 0
  | fillKey _ => 1
  | executionKey _ => 2
  | accountRow _ => 3
  | orderKey _ => 4
  | clientOrderKey _ _ => 5
  | idempotencyKey _ _ => 6
  | marketPrice _ => 7
  | positionRow _ => 8
  | positionKey _ => 9
  | processedKey _ => 10

def gate : Acquisition → Option Acquisition
  | positionRow holding => some (marketPrice holding.2)
  | _ => none

end Acquisition

namespace Stmt

/-- The rows that a statement finds when it begins, and the keys it adds. Other UPDATEs
than that of a market price write rows that their transaction has selected for update or
inserted. -/
def acquisitions {β : Type} : Stmt β → Db → List Acquisition
  | accountForUpdate id, db => ((db.accounts.find id).map fun _ => .accountRow id).toList
  | insertAccount row, _ => [.accountRow row.id]
  | orderForUpdate id, db => ((db.orders.find id).map fun _ => .orderRow id).toList
  | insertOrder row, _ => [.orderKey row.id, .clientOrderKey row.accountId row.clientOrderId,
      .idempotencyKey row.accountId row.idempotencyKey]
  | insertFill row, _ => [.fillKey row.brokerEventId, .executionKey row.executionId]
  | positionForUpdate accountId symbol, db =>
    ((db.positions.find (accountId, symbol)).map fun _ => .positionRow (accountId, symbol)).toList
  | positionsBySymbolForUpdate symbol, db =>
    (db.positions.rows.filter fun p => p.symbol = symbol).map fun p => .positionRow p.holding
  | insertPosition row, _ => [.positionKey row.holding]
  | insertMarketPrice row, _ => [.marketPrice row.symbol]
  | updateMarketPrice loaded current, _ =>
    if current = loaded then [] else [.marketPrice loaded.symbol]
  | insertProcessed row, _ => [.processedKey row.brokerEventId]
  | _, _ => []

def unordered {β : Type} : Stmt β → Bool
  | positionsBySymbolForUpdate _ => true
  | _ => false

def takes {β : Type} (s : Stmt β) (seen : Db) (ks : List Acquisition) : Prop :=
  if s.unordered then ks.Perm (s.acquisitions seen) else ks = s.acquisitions seen

instance {β : Type} (s : Stmt β) (seen : Db) (ks : List Acquisition) :
    Decidable (s.takes seen ks) := by
  unfold takes
  infer_instance

/-- A SELECT reads what it saw when it began. With the locks on the rows that it found then,
a SELECT for update reads them again. -/
def answer (num : Numeric) {β : Type} :
    Stmt β → Db → Db → Except Failure (β × List Write)
  | accountForUpdate id, seen, now =>
    .ok ((seen.accounts.find id).bind fun _ => now.accounts.find id, [])
  | orderForUpdate id, seen, now => .ok ((seen.orders.find id).bind fun _ => now.orders.find id, [])
  | positionForUpdate accountId symbol, seen, now =>
    .ok ((seen.positions.find (accountId, symbol)).bind fun _ =>
      now.positions.find (accountId, symbol), [])
  | positionsBySymbolForUpdate symbol, seen, now =>
    .ok (now.positions.rows.filter fun p =>
      p.symbol = symbol ∧ (seen.positions.find p.holding).isSome, [])
  | accountByUserId userId, seen, _ => exec num (accountByUserId userId) seen
  | orderByIdempotencyKey accountId key, seen, _ =>
    exec num (orderByIdempotencyKey accountId key) seen
  | orderByClientOrderId accountId clientOrderId, seen, _ =>
    exec num (orderByClientOrderId accountId clientOrderId) seen
  | marketPrice symbol, seen, _ => exec num (marketPrice symbol) seen
  | processedByEventId eventId, seen, _ => exec num (processedByEventId eventId) seen
  | s, _, now => exec num s now

end Stmt

def waitingPostgres (num : Numeric) : WaitingEngine Stmt Failure Db Write Acquisition :=
  { postgres num with
    takes := fun s seen ks => s.takes seen ks
    answer := fun s seen now => s.answer num seen now }

instance (num : Numeric) (β : Type) (s : Stmt β) (seen : Db) (ks : List Acquisition) :
    Decidable ((waitingPostgres num).takes s seen ks) :=
  inferInstanceAs (Decidable (s.takes seen ks))

/-- What a transaction holds: nothing that ranks from `floor` on, and locks that it has. -/
structure Grip where
  floor : ℕ
  account : Option UUID
  symbol : Option String

structure Grip.Describes (g : Grip) (held : List Acquisition) : Prop where
  floor : ∀ k ∈ held, k.rank < g.floor
  account : ∀ a ∈ g.account, .accountRow a ∈ held
  symbol : ∀ s ∈ g.symbol, .marketPrice s ∈ held

theorem Grip.describes_nil : Grip.Describes ⟨0, none, none⟩ [] := ⟨by simp, by simp, by simp⟩

/-- The lowest rank of what a statement takes, and one above the highest. -/
def Stmt.band {β : Type} : Stmt β → Option (ℕ × ℕ)
  | .orderForUpdate _ => some (0, 1)
  | .insertFill _ => some (1, 3)
  | .accountForUpdate _ | .insertAccount _ => some (3, 4)
  | .insertOrder _ => some (4, 7)
  | .insertMarketPrice _ | .updateMarketPrice _ _ => some (7, 8)
  | .positionForUpdate _ _ | .positionsBySymbolForUpdate _ => some (8, 9)
  | .insertPosition _ => some (9, 10)
  | .insertProcessed _ => some (10, 11)
  | _ => none

/-- Locks by increasing rank, with the account again where it is held, the positions in a
symbol where its market price is, and no UPDATE that leaves a market price as it is. Reads of
market prices answer with `fresh` rows. -/
def lockOrder (fresh : MarketPrice → Prop) : Protocol Stmt Grip where
  allows
    | g, .accountForUpdate id => g.account = some id ∨ g.floor ≤ 3
    | g, .positionsBySymbolForUpdate symbol => g.floor ≤ 8 ∧ g.symbol = some symbol
    | g, .updateMarketPrice loaded current => g.floor ≤ 7 ∧ current ≠ loaded
    | g, s => ∀ b ∈ s.band, g.floor ≤ b.1
  expected
    | .marketPrice symbol, found => ∀ row ∈ found, row.symbol = symbol ∧ fresh row
    | _, _ => True
  after
    | g, .accountForUpdate id, found =>
      { g with floor := max g.floor 4, account := if found.isSome then some id else g.account }
    | g, .insertMarketPrice row, _ => { g with floor := max g.floor 8, symbol := some row.symbol }
    | g, .updateMarketPrice loaded _, _ =>
      { g with floor := max g.floor 8, symbol := some loaded.symbol }
    | g, s, _ => { g with floor := s.band.elim g.floor fun b => max g.floor b.2 }

namespace Stmt

variable {num : Numeric} {β : Type} {s : Stmt β} {seen now : Db} {ks : List Acquisition}

theorem acquisitions_band {k : Acquisition} (mem : k ∈ s.acquisitions seen) :
    ∃ b ∈ s.band, b.1 ≤ k.rank ∧ k.rank < b.2 := by
  cases s with
  | accountForUpdate | orderForUpdate | positionForUpdate =>
    simp only [acquisitions, Option.mem_toList, Option.map_eq_some_iff] at mem
    obtain ⟨-, -, rfl⟩ := mem
    exact ⟨_, rfl, by simp [Acquisition.rank]⟩
  | positionsBySymbolForUpdate =>
    obtain ⟨p, -, rfl⟩ := List.mem_map.1 mem
    exact ⟨_, rfl, by simp [Acquisition.rank]⟩
  | updateMarketPrice loaded current =>
    simp only [acquisitions] at mem
    split_ifs at mem
    · cases mem
    · obtain rfl := List.mem_singleton.1 mem
      exact ⟨_, rfl, by simp [Acquisition.rank]⟩
  | insertAccount | insertMarketPrice | insertPosition | insertProcessed =>
    obtain rfl := List.mem_singleton.1 mem
    exact ⟨_, rfl, by simp [Acquisition.rank]⟩
  | insertOrder | insertFill =>
    simp only [acquisitions, List.mem_cons, List.not_mem_nil, or_false] at mem
    rcases mem with rfl | rfl | rfl <;> exact ⟨_, rfl, by simp [Acquisition.rank]⟩
  | _ => cases mem

theorem acquisitions_rising (ordered : s.unordered = false) (seen : Db) :
    (s.acquisitions seen).Pairwise (Acquisition.rank · < Acquisition.rank ·) := by
  have option : ∀ o : Option Acquisition,
      o.toList.Pairwise (Acquisition.rank · < Acquisition.rank ·) := by
    intro o
    cases o <;> simp
  cases s with
  | accountForUpdate | orderForUpdate | positionForUpdate => exact option _
  | positionsBySymbolForUpdate => cases ordered
  | insertOrder | insertFill => simp [acquisitions, Acquisition.rank]
  | updateMarketPrice =>
    simp only [acquisitions]
    split_ifs <;> simp
  | _ => simp [acquisitions]

theorem mem_of_takes (order : s.takes seen ks) {k : Acquisition} :
    k ∈ ks ↔ k ∈ s.acquisitions seen := by
  unfold takes at order
  split_ifs at order
  · exact order.mem_iff
  · rw [order]

theorem inOrder_of_allows {fresh : MarketPrice → Prop} {g : Grip} {held : List Acquisition}
    (describes : g.Describes held) (allows : (lockOrder fresh).allows g s)
    (order : s.takes seen ks) :
    LockWaits.InOrder Acquisition.rank Acquisition.gate held ks := by
  have rising : s.unordered = false → (∀ b ∈ s.band, g.floor ≤ b.1) →
      LockWaits.InOrder Acquisition.rank Acquisition.gate held ks := by
    intro ordered low
    refine LockWaits.inOrder_of_rising (fun h mem k taken => ?_) ?_
    · obtain ⟨b, band, above, -⟩ := acquisitions_band ((mem_of_takes order).1 taken)
      have := describes.floor h mem
      have := low b band
      omega
    · have same : ks = s.acquisitions seen := by simpa [takes, ordered] using order
      exact same ▸ acquisitions_rising ordered seen
  cases s with
  | accountForUpdate id =>
    rcases allows with again | low
    · refine LockWaits.inOrder_of_held fun k mem => ?_
      have taken := (mem_of_takes order).1 mem
      simp only [acquisitions, Option.mem_toList, Option.map_eq_some_iff] at taken
      obtain ⟨-, -, rfl⟩ := taken
      exact describes.account id again
    · exact rising rfl (by simpa [band] using low)
  | positionsBySymbolForUpdate symbol =>
    obtain ⟨low, held⟩ := allows
    refine LockWaits.inOrder_of_gate (r := 8) (describes.symbol symbol held)
      (fun h mem => Or.inl ((describes.floor h mem).trans_le low)) fun k mem => ?_
    obtain ⟨p, listed, rfl⟩ := List.mem_map.1 ((mem_of_takes order).1 mem)
    have same : p.symbol = symbol := by simpa using (List.mem_filter.1 listed).2
    exact ⟨rfl, congrArg (fun t => some (Acquisition.marketPrice t)) same⟩
  | updateMarketPrice loaded current => exact rising rfl (by simpa [band] using allows.1)
  | _ => exact rising rfl allows

theorem describes_after {fresh : MarketPrice → Prop} {g : Grip} {held : List Acquisition} {r : β}
    {ws : List Write} (describes : g.Describes held) (allows : (lockOrder fresh).allows g s)
    (order : s.takes seen ks) (answer : s.answer num seen now = .ok (r, ws)) :
    ((lockOrder fresh).after g s r).Describes (ks.reverse ++ held) := by
  have mem : ∀ {k}, k ∈ ks.reverse ++ held ↔ k ∈ s.acquisitions seen ∨ k ∈ held := by
    intro k
    rw [List.mem_append, List.mem_reverse, mem_of_takes order]
  have floor :
      ∀ n, g.floor ≤ n → (∀ b ∈ s.band, b.2 ≤ n) → ∀ k ∈ ks.reverse ++ held, k.rank < n := by
    intro n old new k taken
    rcases mem.1 taken with taken | before
    · obtain ⟨b, band, -, below⟩ := acquisitions_band taken
      exact below.trans_le (new b band)
    · exact (describes.floor k before).trans_le old
  have keeps : ∀ n, g.floor ≤ n → (∀ b ∈ s.band, b.2 ≤ n) →
      Grip.Describes { g with floor := n } (ks.reverse ++ held) := fun n old new =>
    ⟨floor n old new, fun a h => mem.2 (Or.inr (describes.account a h)),
      fun t h => mem.2 (Or.inr (describes.symbol t h))⟩
  have rest : Grip.Describes { g with floor := s.band.elim g.floor fun b => max g.floor b.2 }
      (ks.reverse ++ held) := by
    cases band : s.band with
    | none => exact keeps _ le_rfl (by simp [band])
    | some b => exact keeps _ (le_max_left _ _) (by simp [band])
  cases s with
  | accountForUpdate id =>
    refine { rest with account := fun a h => ?_ }
    change a ∈ (if r.isSome then some id else g.account) at h
    split_ifs at h with found
    · obtain rfl := Option.some.inj h
      have eq : ((seen.accounts.find id).bind fun _ => now.accounts.find id) = r :=
        congrArg Prod.fst (Except.ok.inj answer)
      cases row : seen.accounts.find id with
      | none =>
        rw [row, Option.bind_none] at eq
        rw [← eq] at found
        cases found
      | some _ => exact mem.2 (Or.inl (by simp [acquisitions, row]))
    · exact mem.2 (Or.inr (describes.account a h))
  | insertMarketPrice row =>
    refine { rest with symbol := fun t h => mem.2 (Or.inl ?_) }
    obtain rfl := Option.some.inj h
    simp [acquisitions]
  | updateMarketPrice loaded current =>
    refine { rest with symbol := fun t h => mem.2 (Or.inl ?_) }
    obtain rfl := Option.some.inj h
    simp [acquisitions, allows.2]
  | _ => exact rest

end Stmt

end OrderManagement
