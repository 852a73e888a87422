import OrderManagement.FillLedger

/-! Profit and loss. What a fill moves in cash it moves back in the cost basis of the
position, so cash plus cost basis never changes; marking positions to market turns
this into the reported total. -/

namespace OrderManagement

open Program TransitionRuns

def Position.cost (p : Position) : ℚ := p.netQuantity * p.averageEntryPrice - p.realizedPnl

def Position.costIn (accountId : UUID) (p : Position) : ℚ :=
  if p.accountId = accountId then p.cost else 0

def Db.Marked (db : Db) : Prop :=
  ∀ p ∈ db.positions.rows, ∃ mark, p.lastMarkPrice = some mark ∧
    p.unrealizedPnl = (mark - p.averageEntryPrice) * p.netQuantity

/-- Cash and cost basis of every account add up to its cash in `db₀`. -/
def Db.Balances (db₀ db : Db) : Prop :=
  ∀ a ∈ db.accounts.rows, ∃ a₀ ∈ db₀.accounts.rows, a₀.id = a.id ∧
    a.cashBalance + db.positions.total (Position.costIn a.id) = a₀.cashBalance

section Steps

variable {settings : Settings} {upper : String → String} {db₀ db db' : Db}

theorem markedPosition_marked (price : ℚ) (p : Position) :
    ∃ mark, (markedPosition price p).lastMarkPrice = some mark ∧
      (markedPosition price p).unrealizedPnl =
        (mark - (markedPosition price p).averageEntryPrice) *
        (markedPosition price p).netQuantity :=
  ⟨price, rfl, calculateUnrealizedPnl_some _ _ _⟩

theorem Position.executed_marked {p r : Position} {side : OrderSide} {q price mark : ℚ}
    (h : p.executed side q price mark = .ok r) :
    r.lastMarkPrice = some mark ∧
      r.unrealizedPnl = (mark - r.averageEntryPrice) * r.netQuantity := by
  obtain ⟨c, -, rfl⟩ := Position.executed_ok h
  exact ⟨rfl, calculateUnrealizedPnl_some _ _ _⟩

theorem Position.executed_cost {p r : Position} {side : OrderSide} {q price mark : ℚ}
    (h : p.executed side q price mark = .ok r) : r.cost = p.cost + signedFill side q * price := by
  obtain ⟨c, calculated, rfl⟩ := Position.executed_ok h
  have := calculatePositionAfterFill_costBasis calculated
  unfold PositionCalculation.costBasis at this
  simp only [Position.cost, this]

theorem AppliedFill.marked {event : BrokerExecutionEvent} (t : AppliedFill .exact db event)
    (marked : db.Marked) : t.after.Marked := by
  unfold Db.Marked
  rw [t.after_positions]
  exact Table.forall_put ⟨_, Position.executed_marked t.execute⟩ marked

theorem Change.marked {op : Op} (h : Change (.exact settings upper) db op db')
    (marked : db.Marked) : db'.Marked := by
  cases h with
  | unchanged | refused | routed | ignored | released | cancelRequested | routingFailed =>
    exact marked
  | filled t => exact AppliedFill.marked t marked
  | @ticked symbol price observedAt kept marks =>
    refine markedTable_forall marked fun p _ => ?_
    rw [Deployment.exact_num, Position.stored_exact]
    exact markedPosition_marked price p

theorem Quiet.balances (h : Quiet db db') (balances : db₀.Balances db) : db₀.Balances db' := by
  intro a' mem
  obtain ⟨a, was, id, cash⟩ := h.accounts a' mem
  obtain ⟨a₀, start, owner, sum⟩ := balances a was
  have same : db'.positions.total (Position.costIn a'.id) =
      db.positions.total (Position.costIn a'.id) := by
    refine Table.total_eq_of_find Position.book h.positions fun p q key books => ?_
    have account : p.accountId = q.accountId := congrArg Prod.fst key
    simp only [Position.book, Prod.mk.injEq] at books
    simp [Position.costIn, Position.cost, account, books.1, books.2.1, books.2.2]
  refine ⟨a₀, start, owner.trans id.symm, ?_⟩
  rw [same, cash, id, sum]

theorem AppliedFill.balances {event : BrokerExecutionEvent} (t : AppliedFill .exact db event)
    (balances : db₀.Balances db) : db₀.Balances t.after := by
  unfold Db.Balances
  rw [t.after_accounts, t.after_positions]
  have holding := t.executed_holding
  have account : t.executed.accountId = t.order.accountId := congrArg Prod.fst holding
  have held : ∀ accountId, (db.positions.find t.executed.holding).elim 0 (Position.costIn accountId)
      = if t.order.accountId = accountId then t.held.cost else 0 := by
    intro accountId
    rw [holding, FillAttempt.held]
    cases found : db.positions.find (t.order.accountId, t.order.symbol) with
    | none => simp [Position.cost, FillAttempt.opened, Position.opened]
    | some p =>
      have owner : p.accountId = t.order.accountId := congrArg Prod.fst (Table.find_key found)
      simp [Position.costIn, owner]
  intro a mem
  rw [Table.total_put, held]
  rcases Table.mem_put.1 mem with rfl | ⟨was, other⟩
  · obtain ⟨a₀, start, id, sum⟩ := balances t.account (Table.mem_of_find t.accountFound)
    have owner := Table.find_key t.accountFound
    refine ⟨a₀, start, id.trans (owner.trans t.finalAccount_id.symm), ?_⟩
    rw [t.finalAccount_id, Position.costIn, if_pos account, if_pos rfl,
      Position.executed_cost t.execute, t.final_cash, ← sum, owner]
    cases side : t.order.side <;>
      simp [bought, sold, side, signedFill, FillAttempt.fill, newFill] <;> ring
  · have notMine : t.order.accountId ≠ a.id := fun same =>
      other (same.symm.trans t.finalAccount_id.symm)
    obtain ⟨a₀, start, id, sum⟩ := balances a was
    refine ⟨a₀, start, id, ?_⟩
    rw [if_neg notMine, Position.costIn, if_neg (account ▸ notMine), sub_zero, add_zero, sum]

theorem Db.Fresh.balances {num : Numeric} (fresh : db.Fresh num) : db.Balances db :=
  fun a mem => ⟨a, mem, rfl, by simp [Table.total, fresh.positions]⟩

theorem sum_positionsOf (db : Db) (accountId : UUID) (f : Position → ℚ) :
    ((db.positionsOf accountId).map f).sum =
      db.positions.total fun p => if p.accountId = accountId then f p else 0 := by
  rw [Db.positionsOf, ← Table.total_ite]
  simp

/-- In every run from freshly created accounts, the reported total is the cash gained
plus the market value of the positions, and cash plus cost basis is constant. -/
theorem run_totalPnl (fresh : db₀.Fresh .exact) (ops : List Op) :
    let db := run (step (.exact settings upper)) db₀ ops
    ∀ a ∈ db.accounts.rows, ∃ a₀ ∈ db₀.accounts.rows, a₀.id = a.id ∧
      (getAccountSummary db a.id).totalPnl = a.cashBalance - a₀.cashBalance +
        ((db.positionsOf a.id).map fun p => p.netQuantity * p.lastMarkPrice.getD 0).sum ∧
      a.cashBalance + ((db.positionsOf a.id).map fun p =>
        p.netQuantity * p.averageEntryPrice).sum -
          ((db.positionsOf a.id).map Position.realizedPnl).sum = a₀.cashBalance := by
  intro db a mem
  obtain ⟨marked, balances⟩ : db.Marked ∧ db₀.Balances db := by
    refine run_induction (.exact settings upper) (fun db => db.Marked ∧ db₀.Balances db)
      fresh.sound (fun db op db' sound inv change => ⟨change.marked inv.1, ?_⟩)
      ⟨by simp [Db.Marked, fresh.positions], fresh.balances⟩
    rcases change.quiet_or_filled sound with quiet | ⟨event, t, -, rfl⟩
    · exact quiet.balances inv.2
    · exact t.balances inv.2
  obtain ⟨a₀, start, id, sum⟩ := balances a mem
  have cost : db.positions.total (Position.costIn a.id) +
      ((db.positionsOf a.id).map Position.realizedPnl).sum =
        ((db.positionsOf a.id).map fun p => p.netQuantity * p.averageEntryPrice).sum := by
    rw [sum_positionsOf, sum_positionsOf, ← Table.total_add]
    refine Table.total_congr fun p _ => ?_
    unfold Position.costIn Position.cost
    split_ifs <;> ring
  have value : ((db.positionsOf a.id).map Position.unrealizedPnl).sum +
      ((db.positionsOf a.id).map fun p => p.netQuantity * p.averageEntryPrice).sum =
        ((db.positionsOf a.id).map fun p => p.netQuantity * p.lastMarkPrice.getD 0).sum := by
    rw [sum_positionsOf, sum_positionsOf, sum_positionsOf, ← Table.total_add]
    refine Table.total_congr fun p hp => ?_
    obtain ⟨mark, last, unrealized⟩ := marked p hp
    rw [last, unrealized, Option.getD_some]
    split_ifs <;> ring
  refine ⟨a₀, start, id, ?_, by linarith⟩
  unfold getAccountSummary
  dsimp only
  linarith

/-- A partial fill at another price than the order's, then a tick. -/
theorem run_totalPnl_partialFill :
    let db := run (step (.exact {} id)) (traderDb .exact)
      [.createOrder ⟨2, 0⟩ limitBuy, .processEvent partialFill, .applyTick "AAPL" 25 1]
    getAccountSummary db 1 = ⟨0, 16, 16⟩ ∧
    ∀ a ∈ db.accounts.rows, ∃ a₀ ∈ (traderDb .exact).accounts.rows, a₀.id = a.id ∧
      (getAccountSummary db a.id).totalPnl = a.cashBalance - a₀.cashBalance +
        ((db.positionsOf a.id).map fun p => p.netQuantity * p.lastMarkPrice.getD 0).sum := by
  refine ⟨by decide +kernel, fun a mem => ?_⟩
  obtain ⟨a₀, start, id, total, -⟩ := run_totalPnl (openAccounts_fresh _ _) _ a mem
  exact ⟨a₀, start, id, total⟩

end Steps

end OrderManagement
