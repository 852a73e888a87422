import OrderManagement.FillAdmission

/-! The guards of `_apply_fill` and the constraints of the account. The guards compare
the notional with the whole cash and the release with the whole reservation; the cash
reserved for other orders is only safe while the price stays within available cash. -/

namespace OrderManagement

open Program TransitionRuns

def Account.Solvent (a : Account) : Prop :=
  0 ≤ a.cashBalance ∧ 0 ≤ a.reservedCash ∧ a.reservedCash ≤ a.cashBalance

section Refusal

variable {db : Db} {event : BrokerExecutionEvent} {account : Account}

/-- An account whose cash and reservation are not negative breaks one constraint only. -/
theorem Account.violation_of_short {a : Account} (user : a.userId.length ≤ 100)
    (currency : a.currency.length ≤ 3) (cash : 0 ≤ a.cashBalance) (reserved : 0 ≤ a.reservedCash)
    {f : Failure} (refused : a.violation .exact = some f) :
    f = .integrity .accountsReservedNotAboveCash := by
  simp only [violation, Numeric.exact_fits, Bool.and_self, user, currency, cash, reserved,
    decide_true, firstFailure, List.find?_cons, Bool.not_true] at refused
  by_cases covered : a.reservedCash ≤ a.cashBalance
  · simp [covered] at refused
  · simpa [covered, eq_comm] using refused

theorem EventFailure.short {f : Failure} (failed : EventFailure .exact db event f)
    (ready : db.Ready)
    (t : FillAttempt db event) {settled : Account}
    (accountFound : db.accounts.find t.order.accountId = some account)
    (settle : account.settleFill t.order event.filledQuantity t.price = .ok settled)
    (fillKept : t.fill.refusal .exact db = none) :
    f = .integrity .accountsReservedNotAboveCash := by
  obtain ⟨-, checked⟩ := ready.sound.accounts account (Table.mem_of_find accountFound)
  obtain ⟨user, currency, cash, -⟩ := Account.violation_eq_none_iff.1 checked
  cases failed.refusal ready t accountFound with
  | fillRow refused => exact absurd (fillKept.symm.trans refused) (by simp)
  | settle error => exact absurd (settle.symm.trans error) (by simp)
  | account ok row refused =>
    obtain rfl := Except.ok.inj (ok.symm.trans settle)
    refine Account.violation_of_short (row.userId ▸ user) (row.currency ▸ currency) ?_ row.reserved
      refused
    rw [row.cash]
    have notional := mul_pos t.positive t.price_pos
    rcases Account.settleFill_ok ok with ⟨-, -, paid, rfl⟩ | ⟨-, rfl⟩
    · exact sub_nonneg.2 paid
    · exact add_nonneg cash notional.le

end Refusal

section Guards

variable {settings : Settings} {upper : String → String} {db₀ : Db} {event : BrokerExecutionEvent}

/-- Past its guards a fill of a BUY order leaves an account that meets its constraints exactly
if the price exceeds the order's by no more than the available cash pays for. -/
theorem fillGuards_solvent_iff (fresh : db₀.Fresh .exact) (ops : List Op) :
    let db := run (step (.exact settings upper)) db₀ ops
    ∀ (t : FillAttempt db event) (account settled : Account), t.order.side = .buy →
      db.accounts.find t.order.accountId = some account →
      account.settleFill t.order event.filledQuantity t.price = .ok settled →
      (settled.Solvent ↔
        event.filledQuantity * (t.price - t.order.price) ≤ account.availableCash) ∧
      (t.fill.refusal .exact db = none →
        ((processEvent event).run (postgres .exact) db =
            .error (.integrity .accountsReservedNotAboveCash) ↔
          ¬ event.filledQuantity * (t.price - t.order.price) ≤ account.availableCash)) := by
  intro db t account settled buy accountFound settle
  have ready : db.Ready := run_ready fresh.ready ops
  obtain ⟨-, checked⟩ := ready.sound.accounts account (Table.mem_of_find accountFound)
  have funded : t.Funded account ↔
      event.filledQuantity * (t.price - t.order.price) ≤ account.availableCash :=
    ⟨fun h => h buy, fun h _ => h⟩
  refine ⟨(FillAttempt.settled_iff settle checked).trans funded, fun kept => ?_⟩
  have admissible : t.Admissible account ↔
      event.filledQuantity * (t.price - t.order.price) ≤ account.availableCash := by
    obtain ⟨row, -, unused⟩ := Fill.refusal_eq_none_iff.1 kept
    exact ⟨fun h => funded.1 h.funded,
      fun h => ⟨(Fill.violation_eq_none_iff.1 row).1, unused, funded.2 h⟩⟩
  rw [← admissible, ← t.applies_iff ready accountFound]
  constructor
  · rintro raised ⟨u, ran⟩
    exact absurd (raised.symm.trans ran) (by simp)
  · intro refused
    cases ran : (processEvent event).run (postgres .exact) db with
    | error f =>
      have failed := wp_error _ (processEvent_spec ready.sound) ran
      rw [failed.short ready t accountFound settle kept]
    | ok result =>
      obtain ⟨applied, db'⟩ := result
      obtain ⟨rfl, u, rfl⟩ := t.effect (wp_ok _ (processEvent_spec ready.sound) ran)
      exact (refused ⟨u, ran⟩).elim

end Guards

/-! The partial fill of the trader's order at 21 instead of 20, alone and beside an order that
reserves the rest of the cash. -/

def restingBuy : OrderCreate :=
  { limitBuy with
    clientOrderId := "client-5"
    idempotencyKey := "idempotency-5"
    symbol := "MSFT"
    timeInForce := .gtc
    quantity := 40
    clientOrderId_length := by decide
    idempotencyKey_length := by decide
    quantity_pos := by norm_num
    quantity_places := by decide +kernel }

def routedBuy : Order := ((newOrder {} ⟨2, 0⟩ limitBuy).moved .validated).moved .routed

def buyingTrader (cash reserved : ℚ) (version : ℕ) : Account :=
  { newAccount 1 traderAccount with cashBalance := cash, reservedCash := reserved, version }

def partialAttempt {db : Db} (found : db.orders.find 2 = some routedBuy)
    (unprocessed : db.processedBrokerEvents.find 3 = none) : FillAttempt db partialFill where
  order := routedBuy
  price := 21
  found := found
  unprocessed := unprocessed
  isFill := rfl
  working := by decide
  priced := rfl
  covered := by decide +kernel
  whole kind := by cases kind

theorem not_solvent_fillAbovePrice :
    let db := run (step (.exact {} id)) (traderDb .exact)
      [.createOrder ⟨2, 0⟩ limitBuy, .createOrder ⟨5, 0⟩ restingBuy]
    ∃ (t : FillAttempt db partialFill) (account settled : Account), t.order.side = .buy ∧
      db.accounts.find t.order.accountId = some account ∧
      account.settleFill t.order partialFill.filledQuantity t.price = .ok settled ∧
      ¬ settled.Solvent ∧
      (processEvent partialFill).run (postgres .exact) db =
        .error (.integrity .accountsReservedNotAboveCash) := by
  intro db
  have raised : ((processEvent partialFill).run (postgres .exact) db).map (fun _ => ()) =
      .error (.integrity .accountsReservedNotAboveCash) := by decide +kernel
  refine ⟨partialAttempt (by decide +kernel) (by decide +kernel), buyingTrader 1000 1000 3,
    buyingTrader 916 920 4, rfl, by decide +kernel, by decide +kernel, ?_, ?_⟩
  · rintro ⟨-, -, covered⟩
    exact absurd covered (by decide +kernel)
  · revert raised
    cases (processEvent partialFill).run (postgres .exact) db with
    | error f => exact fun h => congrArg Except.error (Except.error.inj h)
    | ok r => exact fun h => by cases h

theorem fillGuards_solvent_partialFill :
    let db := run (step (.exact {} id)) (traderDb .exact) [.createOrder ⟨2, 0⟩ limitBuy]
    ∃ account settled : Account, db.accounts.find 1 = some account ∧
      account.settleFill routedBuy 4 21 = .ok settled ∧ settled.Solvent := by
  intro db
  have accountFound : db.accounts.find 1 = some (buyingTrader 1000 200 2) := by decide +kernel
  have settle :
      (buyingTrader 1000 200 2).settleFill routedBuy 4 21 = .ok (buyingTrader 916 120 3) := by
    decide +kernel
  exact ⟨_, _, accountFound, settle, (fillGuards_solvent_iff (openAccounts_fresh .exact _)
    [.createOrder ⟨2, 0⟩ limitBuy] (partialAttempt (by decide +kernel) (by decide +kernel)) _ _ rfl
    accountFound settle).1.2 (by decide +kernel)⟩

end OrderManagement
