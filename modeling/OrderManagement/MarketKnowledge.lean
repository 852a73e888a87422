import OrderManagement.LockedKnowledge
import OrderManagement.MarketInsight

/-! What ticks and events know of the committed database while they run. Their locks keep it
true: the row of a located position stays as it is, and so does the market price under which
it is being marked, since a tick that changes the price cannot commit before it has locked
every position in its symbol. -/

namespace OrderManagement

open Program LockWaits

/-- Every position in a symbol with a market price is marked at it. -/
def Db.MarkedToMarket (db : Db) : Prop :=
  ∀ m ∈ db.marketPrices.rows, ∀ p ∈ db.positions.rows, p.symbol = m.symbol → p.MarkedAt m.price

instance (db : Db) : Decidable db.MarkedToMarket := by
  unfold Db.MarkedToMarket
  infer_instance

theorem Db.markedToMarket_iff {db : Db} : db.MarkedToMarket ↔ ∀ h : UUID × String,
    ∀ m ∈ db.marketPrices.find h.2, ∀ p ∈ db.positions.find h, p.MarkedAt m.price := by
  constructor
  · intro marked h m price p row
    have symbol : p.symbol = h.2 := congrArg Prod.snd (Table.find_key row)
    exact marked m (Table.mem_of_find price) p (Table.mem_of_find row)
      (symbol.trans (Table.find_key price).symm)
  · intro marked m price p row same
    have found : db.marketPrices.find p.symbol = some m := same ▸ Table.find_of_mem price
    exact marked p.holding m found p (Table.find_of_mem row)

/-- What writes put over the positions and market prices of whatever database. -/
structure Overlays (num : Numeric) (ws : List Write) (pos : UUID × String → Option Position)
    (price : String → Option MarketPrice) : Prop where
  positions :
    ∀ db h, ((postgres num).view db ws).positions.find h = (pos h).or (db.positions.find h)
  prices : ∀ db s,
    ((postgres num).view db ws).marketPrices.find s = (price s).or (db.marketPrices.find s)

def Write.OffMarket : Write → Prop
  | .insertPosition _ | .updatePosition _ | .insertMarketPrice _ | .updateMarketPrice _ => False
  | _ => True

section Overlays

variable {num : Numeric} {ws vs : List Write} {pos : UUID × String → Option Position}
  {price : String → Option MarketPrice} {db : Db} {held : List Acquisition}
  {heard : List (Exchange Stmt)}

theorem overlays_nil : Overlays num [] (fun _ => none) fun _ => none :=
  ⟨fun _ _ => rfl, fun _ _ => rfl⟩

theorem view_off (off : ∀ w ∈ vs, w.OffMarket) (db : Db) :
    ((postgres num).view db vs).positions = db.positions ∧
      ((postgres num).view db vs).marketPrices = db.marketPrices := by
  induction vs generalizing db with
  | nil => exact ⟨rfl, rfl⟩
  | cons w vs ih =>
    simp only [List.mem_cons, forall_eq_or_imp] at off
    obtain ⟨positions, prices⟩ := ih off.2 (db.apply w)
    have here : (db.apply w).positions = db.positions ∧
        (db.apply w).marketPrices = db.marketPrices := by
      cases w <;> first | exact off.1.elim | exact ⟨rfl, rfl⟩
    exact ⟨positions.trans here.1, prices.trans here.2⟩

theorem Overlays.off (h : Overlays num ws pos price) (off : ∀ w ∈ vs, w.OffMarket) :
    Overlays num (ws ++ vs) pos price where
  positions db k := by
    rw [Engine.view_append, (view_off off _).1, h.positions]
  prices db s := by
    rw [Engine.view_append, (view_off off _).2, h.prices]

theorem Overlays.position (h : Overlays num ws pos price) (row : Position) {w : Write}
    (write : w = .insertPosition row ∨ w = .updatePosition row) :
    Overlays num (ws ++ [w]) (Function.update pos row.holding (some row)) price where
  positions db k := by
    have put : ((postgres num).view db (ws ++ [w])).positions =
        ((postgres num).view db ws).positions.put row := by
      rw [Engine.view_append]
      rcases write with rfl | rfl <;> rfl
    rw [put, Table.find_put, Function.update_apply, h.positions]
    by_cases same : row.holding = k
    · rw [if_pos same, if_pos same.symm, Option.some_or]
    · rw [if_neg same, if_neg (Ne.symm same)]
  prices db s := by
    have prices : ((postgres num).view db (ws ++ [w])).marketPrices =
        ((postgres num).view db ws).marketPrices := by
      rw [Engine.view_append]
      rcases write with rfl | rfl <;> rfl
    rw [prices, h.prices]

theorem Overlays.marketPrice (h : Overlays num ws pos price) (row : MarketPrice) {w : Write}
    (write : w = .insertMarketPrice row ∨ w = .updateMarketPrice row) :
    Overlays num (ws ++ [w]) pos (Function.update price row.symbol (some row)) where
  positions db k := by
    have positions : ((postgres num).view db (ws ++ [w])).positions =
        ((postgres num).view db ws).positions := by
      rw [Engine.view_append]
      rcases write with rfl | rfl <;> rfl
    rw [positions, h.positions]
  prices db s := by
    have put : ((postgres num).view db (ws ++ [w])).marketPrices =
        ((postgres num).view db ws).marketPrices.put row := by
      rw [Engine.view_append]
      rcases write with rfl | rfl <;> rfl
    rw [put, Table.find_put, Function.update_apply, h.prices]
    by_cases same : row.symbol = s
    · rw [if_pos same, if_pos same.symm, Option.some_or]
    · rw [if_neg same, if_neg (Ne.symm same)]

/-- What a commit may do to the market under the locks `held`: it writes positions that it
has locked or opened, and a market price only with all positions in its symbol locked. -/
structure Shift (held : List Acquisition) (db db' : Db) : Prop where
  positions : ∀ h, db'.positions.find h ≠ db.positions.find h →
    (.positionRow h ∈ held ∧ (db.positions.find h).isSome) ∨
      .positionKey h ∈ held ∧ db.positions.find h = none
  persists : ∀ h, (db.positions.find h).isSome → (db'.positions.find h).isSome
  prices : ∀ s, db'.marketPrices.find s ≠ db.marketPrices.find s → .marketPrice s ∈ held ∧
    ∀ p ∈ db.positions.rows, p.symbol = s → .positionRow p.holding ∈ held
  newer : ∀ s, ∀ m ∈ db.marketPrices.find s, ∃ m' ∈ db'.marketPrices.find s,
    m.observedAt ≤ m'.observedAt

section Shift

variable {db' : Db} {other : List Acquisition} {h : UUID × String}

theorem Shift.row_eq (shift : Shift other db db') (apart : .positionRow h ∉ other)
    (there : (db.positions.find h).isSome) : db'.positions.find h = db.positions.find h := by
  by_contra changed
  rcases shift.positions h changed with ⟨theirs, -⟩ | ⟨-, none_⟩
  · exact apart theirs
  · rw [none_] at there
    cases there

theorem Shift.key_eq (shift : Shift other db db') (apart : .positionKey h ∉ other)
    (none_ : db.positions.find h = none) : db'.positions.find h = none := by
  by_contra changed
  rcases shift.positions h (fun same => changed (same.trans none_)) with ⟨-, there⟩ | ⟨theirs, -⟩
  · rw [none_] at there
    cases there
  · exact apart theirs

theorem Shift.price_eq {s : String} (shift : Shift other db db') (apart : .marketPrice s ∉ other) :
    db'.marketPrices.find s = db.marketPrices.find s := by
  by_contra changed
  exact apart (shift.prices s changed).1

/-- A locked position keeps the market price in its symbol as it is. -/
theorem Shift.price_eq_of_row {p : Position} (shift : Shift other db db')
    (apart : .positionRow h ∉ other) (row : db.positions.find h = some p) :
    db'.marketPrices.find h.2 = db.marketPrices.find h.2 := by
  by_contra changed
  obtain rfl := Table.find_key row
  exact apart ((shift.prices _ changed).2 p (Table.mem_of_find row) rfl)

end Shift

/-- The market price in `symbol`, or that there is none, where the statement has read it. -/
def LockWaits.Exchange.priceIn (symbol : String) : Exchange Stmt → Option (Option MarketPrice)
  | ⟨.marketPrice s, found⟩ => if s = symbol then some found else none
  | _ => none

/-- What a transaction with the answers `heard` has read of the market price in `symbol`. -/
def pricesRead (symbol : String) (heard : List (Exchange Stmt)) : List (Option MarketPrice) :=
  heard.filterMap (Exchange.priceIn symbol)

/-- Writes that leave no position behind when they are committed to `db`: positions in a symbol
whose price changes are locked, and where one is opened, the market price that was read in its
symbol is still there. -/
structure TimelyCommit (num : Numeric) (heard : List (Exchange Stmt)) (db : Db) (ws : List Write)
    (held : List Acquisition) : Prop where
  listed : ∀ m ∈ ((postgres num).view db ws).marketPrices.rows,
    db.marketPrices.find m.symbol ≠ some m →
      ∀ p ∈ db.positions.rows, p.symbol = m.symbol → .positionRow p.holding ∈ held
  opened : ∀ p ∈ ((postgres num).view db ws).positions.rows, db.positions.find p.holding = none →
    ∀ found ∈ pricesRead p.symbol heard, db.marketPrices.find p.symbol = found

instance (num : Numeric) (heard : List (Exchange Stmt)) (db : Db) (ws : List Write)
    (held : List Acquisition) : Decidable (TimelyCommit num heard db ws held) :=
  decidable_of_iff (_ ∧ _) ⟨fun h => ⟨h.1, h.2⟩, fun h => ⟨h.listed, h.opened⟩⟩

theorem Overlays.shift (overlays : Overlays num ws pos price)
    (timely : TimelyCommit num heard db ws held) (positions : ∀ h row, pos h = some row →
      (.positionRow h ∈ held ∧ (db.positions.find h).isSome) ∨
        .positionKey h ∈ held ∧ db.positions.find h = none)
    (prices : ∀ s row, price s = some row → .marketPrice s ∈ held ∧
      ∀ m ∈ db.marketPrices.find s, m.observedAt ≤ row.observedAt) :
    Shift held db ((postgres num).view db ws) where
  positions h changed := by
    rw [overlays.positions] at changed
    cases written : pos h with
    | none => simp [written] at changed
    | some row => exact positions h row written
  persists h there := by
    rw [overlays.positions, Option.isSome_or, there, Bool.or_true]
  prices s changed := by
    have stored := overlays.prices db s
    cases written : price s with
    | none => simp [stored, written] at changed
    | some row =>
      rw [written, Option.some_or] at stored
      obtain rfl := Table.find_key stored
      rw [stored] at changed
      exact ⟨(prices _ row written).1,
        timely.listed row (Table.mem_of_find stored) (Ne.symm changed)⟩
  newer s m found := by
    rw [overlays.prices]
    cases written : price s with
    | none => exact ⟨m, found, le_rfl⟩
    | some row => exact ⟨row, rfl, (prices s row written).2 m found⟩

theorem Overlays.marked (overlays : Overlays num ws pos price) (marked : db.MarkedToMarket)
    (new : ∀ h row, pos h = some row →
      ∀ m ∈ (price h.2).or (db.marketPrices.find h.2), row.MarkedAt m.price)
    (old : ∀ h row, price h.2 = some row → pos h = none →
      ∀ p ∈ db.positions.find h, p.MarkedAt row.price) :
    ((postgres num).view db ws).MarkedToMarket := by
  rw [Db.markedToMarket_iff] at marked ⊢
  intro h m found p row
  rw [overlays.prices] at found
  rw [overlays.positions] at row
  cases written : pos h with
  | some q =>
    rw [written, Option.some_or] at row
    exact Option.some.inj row ▸ new h q written m found
  | none =>
    rw [written, Option.none_or] at row
    cases stored : price h.2 with
    | some r =>
      rw [stored, Option.some_or] at found
      exact Option.some.inj found ▸ old h r stored written p row
    | none =>
      rw [stored, Option.none_or] at found
      exact marked h m found p row

end Overlays

/-- A tick or an event goes on with a statement that stores what it is given, whatever the
others have committed meanwhile: a tick overwrites no newer price, and marks positions only at
the market price. -/
def Stmt.Timely (num : Numeric) (call : MarketCall) (now : Db) {β : Type} : Stmt β → Prop
  | .insertPosition row => row.stored num = row
  | .updatePosition loaded current => current.stored num = current ∧
      ∀ price ∈ call.price, ∀ m ∈ now.marketPrices.find loaded.symbol, m.price = price
  | .insertMarketPrice row => row.stored num = row
  | .updateMarketPrice loaded current => current = loaded ∨
      ∀ m ∈ now.marketPrices.find loaded.symbol,
        MarketPrice.patch num loaded current m = current ∧ m.observedAt ≤ current.observedAt
  | _ => True

instance (num : Numeric) (call : MarketCall) (now : Db) {β : Type} (s : Stmt β) :
    Decidable (s.Timely num call now) := by
  cases s <;> unfold Stmt.Timely <;> infer_instance

section Answers

variable {num : Numeric} {seen now : Db} {vs : List Write} {u : Unit}

theorem Numeric.patch_kept {loaded current : ℚ} (kept : num.round current = current) :
    num.patch loaded current loaded = current := by
  unfold Numeric.patch
  split_ifs with same
  · exact same.symm
  · exact kept

theorem Position.patch_kept {loaded current : Position} (same : current.holding = loaded.holding)
    (kept : current.stored num = current) : Position.patch num loaded current loaded = current := by
  obtain ⟨account, symbol⟩ := Prod.mk.inj same
  have columns : ∀ {α : Type} (f : Position → α), f (current.stored num) = f current :=
    fun f => congrArg f kept
  have mark : num.patchOption loaded.lastMarkPrice current.lastMarkPrice loaded.lastMarkPrice =
      current.lastMarkPrice := by
    unfold Numeric.patchOption
    split_ifs with same
    · exact same.symm
    · exact columns Position.lastMarkPrice
  unfold Position.patch
  rw [Numeric.patch_kept (columns Position.netQuantity),
    Numeric.patch_kept (columns Position.averageEntryPrice),
    Numeric.patch_kept (columns Position.realizedPnl),
    Numeric.patch_kept (columns Position.unrealizedPnl), mark, ← account, ← symbol]

theorem updatePosition_answer {loaded current : Position}
    (row : now.positions.find loaded.holding = some loaded)
    (same : current.holding = loaded.holding) (kept : current.stored num = current)
    (answer : (Stmt.updatePosition loaded current).answer num seen now = .ok (u, vs)) :
    (current = loaded ∧ vs = []) ∨ vs = [.updatePosition current] := by
  have ran : updateRow loaded current (now.positions.find loaded.holding)
      (Position.patch num loaded current) (Position.violation num) .updatePosition =
        .ok (u, vs) := answer
  by_cases unchanged : current = loaded
  · unfold updateRow at ran
    rw [if_pos unchanged] at ran
    exact Or.inl ⟨unchanged, (congrArg Prod.snd (Except.ok.inj ran)).symm⟩
  · unfold updateRow at ran
    rw [if_neg unchanged, row] at ran
    rw [(writeUnless_eq_ok.1 ran).2, Position.patch_kept same kept]
    exact Or.inr rfl

theorem updateMarketPrice_answer {loaded current : MarketPrice}
    (timely : current = loaded ∨ ∀ m ∈ now.marketPrices.find loaded.symbol,
      MarketPrice.patch num loaded current m = current ∧ m.observedAt ≤ current.observedAt)
    (answer : (Stmt.updateMarketPrice loaded current).answer num seen now = .ok (u, vs)) :
    (current = loaded ∧ vs = []) ∨ current ≠ loaded ∧ vs = [.updateMarketPrice current] ∧
      ∀ m ∈ now.marketPrices.find loaded.symbol, m.observedAt ≤ current.observedAt := by
  have ran : updateRow loaded current (now.marketPrices.find loaded.symbol)
      (MarketPrice.patch num loaded current) (MarketPrice.violation num) .updateMarketPrice =
        .ok (u, vs) := answer
  by_cases unchanged : current = loaded
  · unfold updateRow at ran
    rw [if_pos unchanged] at ran
    exact Or.inl ⟨unchanged, (congrArg Prod.snd (Except.ok.inj ran)).symm⟩
  · have newest := timely.resolve_left unchanged
    refine Or.inr ⟨unchanged, ?_, fun m found => (newest m found).2⟩
    unfold updateRow at ran
    rw [if_neg unchanged] at ran
    cases row : now.marketPrices.find loaded.symbol with
    | none =>
      rw [row] at ran
      cases ran
    | some m =>
      rw [row] at ran
      rw [(writeUnless_eq_ok.1 ran).2, (newest m row).1]

theorem insertPosition_answer {row : Position} (kept : row.stored num = row)
    (answer : (Stmt.insertPosition row).answer num seen now = .ok (u, vs)) :
    now.positions.find row.holding = none ∧ vs = [.insertPosition row] := by
  have ran : writeUnless ((row.stored num).refusal num now) (.insertPosition (row.stored num)) =
      .ok (u, vs) := answer
  rw [kept] at ran
  obtain ⟨none_, rfl⟩ := writeUnless_eq_ok.1 ran
  unfold Position.refusal at none_
  exact ⟨conflict_eq_none_iff.1 (Option.or_eq_none_iff.1 none_).2, rfl⟩

theorem insertMarketPrice_answer {row : MarketPrice} (kept : row.stored num = row)
    (answer : (Stmt.insertMarketPrice row).answer num seen now = .ok (u, vs)) :
    now.marketPrices.find row.symbol = none ∧ vs = [.insertMarketPrice row] := by
  have ran : writeUnless ((row.stored num).refusal num now) (.insertMarketPrice (row.stored num)) =
      .ok (u, vs) := answer
  rw [kept] at ran
  obtain ⟨none_, rfl⟩ := writeUnless_eq_ok.1 ran
  unfold MarketPrice.refusal at none_
  exact ⟨conflict_eq_none_iff.1 (Option.or_eq_none_iff.1 none_).2, rfl⟩

theorem Stmt.OffMarket.writes {β : Type} {s : Stmt β} {r : β} (off : s.OffMarket)
    (answer : s.answer num seen now = .ok (r, vs)) : ∀ w ∈ vs, w.OffMarket := by
  have nothing : vs = [] → ∀ w ∈ vs, w.OffMarket := by
    rintro rfl
    simp
  cases s with
  | accountForUpdate | accountByUserId | orderForUpdate | orderByIdempotencyKey
  | orderByClientOrderId | processedByEventId =>
    exact nothing (congrArg Prod.snd (Except.ok.inj answer)).symm
  | insertAccount | insertOrder | insertFill | insertProcessed =>
    obtain ⟨-, rfl⟩ := writeUnless_eq_ok.1 answer
    simp [Write.OffMarket]
  | insertOrderEvent =>
    obtain rfl := congrArg Prod.snd (Except.ok.inj answer)
    simp [Write.OffMarket]
  | updateAccount | updateOrder =>
    rcases updateRow_eq_ok answer with none_ | ⟨-, row, -, rfl⟩
    · exact nothing none_
    · simp [Write.OffMarket]
  | _ => exact off.elim

end Answers

end OrderManagement
