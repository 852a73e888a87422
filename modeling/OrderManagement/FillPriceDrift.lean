import OrderManagement.OrderShape
import OrderManagement.RoundingDrift

/-! The running average price of an order's fills. Each fill computes it from its rounded
predecessor, whose weight never exceeds one, so every fill adds at most one rounding. -/

namespace OrderManagement

open Numeric Program TransitionRuns

def Db.fillCount (db : Db) (k : UUID) : ℕ := db.fills.rows.countP fun f => f.orderId = k

/-- The average price of the order, within one rounding for every fill. -/
structure Averaged (db : Db) (o : Order) : Prop where
  filled : o.filledQuantity = db.filledOf o.id
  positive : 0 < db.fillCount o.id → 0 < o.filledQuantity
  priced : 0 < db.fillCount o.id → o.averageFillPrice.isSome
  near : |o.averageFillPrice.getD 0 * o.filledQuantity - db.valueOf o.id| ≤
    o.filledQuantity * (db.fillCount o.id * halfUnit)

section Steps

variable {S : Deployment} {db db' : Db} {o : Order} {event : BrokerExecutionEvent}

theorem averaged_of_unfilled (none_ : ∀ f ∈ db.fills.rows, f.orderId ≠ o.id)
    (filled : o.filledQuantity = 0) (average : o.averageFillPrice = none) : Averaged db o := by
  have count : db.fillCount o.id = 0 := by
    rw [Db.fillCount, List.countP_eq_zero]
    simpa using none_
  have quantity : db.filledOf o.id = 0 := Table.total_eq_zero fun f mem => if_neg (none_ f mem)
  have value : db.valueOf o.id = 0 := Table.total_eq_zero fun f mem => if_neg (none_ f mem)
  exact ⟨filled.trans quantity.symm, by simp [count], by simp [count],
    by simp [filled, average, value]⟩

theorem AppliedFill.averaged (t : AppliedFill S.num db event) (rounds : S.num.RoundsTo 8)
    (sound : db.Sound S.num) (places : Op.Places (.processEvent event))
    (before : Averaged db t.order) :
    Averaged t.after (t.final.stored S.num) := by
  obtain ⟨kept, quantity⟩ := t.fill_kept rounds places
  have mem := Table.mem_of_find t.found
  have id : t.final.id = t.order.id := t.frozen.id
  have whole : S.num.Keeps t.order.filledQuantity :=
    congrArg Order.filledQuantity (sound.orders _ mem).1
  have filled :
      (t.final.stored S.num).filledQuantity = t.order.filledQuantity + event.filledQuantity := by
    have sum : S.num.Keeps (t.order.filledQuantity + event.filledQuantity) :=
      rounds.keeps_iff.2 ((rounds.keeps_iff.1 whole).add (rounds.keeps_iff.1 quantity))
    exact (congrArg S.num.round t.final_filled).trans sum
  have nonneg : 0 ≤ t.order.filledQuantity := (sound.conserved mem).filled
  have grows : 0 < t.order.filledQuantity + event.filledQuantity :=
    add_pos_of_nonneg_of_pos nonneg t.positive
  have count : t.after.fillCount t.order.id = db.fillCount t.order.id + 1 := by
    have new : db.fills.find t.fill.brokerEventId = none := t.unrecorded
    have mine : t.fill.orderId = t.order.id := rfl
    rw [Db.fillCount, t.fills_after kept, Table.rows_put_of_new new, List.countP_append]
    simp [Db.fillCount, mine]
  obtain ⟨average, priced, value⟩ := t.final_average
  have stored : (t.final.stored S.num).averageFillPrice = some (S.num.round average) :=
    congrArg (Option.map S.num.round) priced
  rw [t.final_filled] at value
  refine ⟨?_, fun _ => filled ▸ grows, fun _ => stored ▸ rfl, ?_⟩
  · rw [filled, before.filled, Order.stored_id, id, t.filledOf_after kept, if_pos rfl]
  · rw [filled, stored, Option.getD_some, Order.stored_id, id, t.valueOf_after kept,
      if_pos rfl, count]
    have once := rounds.near average
    have earlier := before.near
    -- the rounding of this fill, and what the stored average was off before
    have split : S.num.round average * (t.order.filledQuantity + event.filledQuantity) -
        (db.valueOf t.order.id + event.filledQuantity * t.price) =
          (S.num.round average - average) * (t.order.filledQuantity + event.filledQuantity) +
            (t.order.averageFillPrice.getD 0 * t.order.filledQuantity - db.valueOf t.order.id) := by
      linarith
    have rounding : |(S.num.round average - average) *
        (t.order.filledQuantity + event.filledQuantity)| ≤
          halfUnit * (t.order.filledQuantity + event.filledQuantity) := by
      rw [abs_mul, abs_of_pos grows]
      exact mul_le_mul_of_nonneg_right once grows.le
    have weight : t.order.filledQuantity * (db.fillCount t.order.id * halfUnit) ≤
        (t.order.filledQuantity + event.filledQuantity) * (db.fillCount t.order.id * halfUnit) := by
      have unit : (0 : ℚ) ≤ db.fillCount t.order.id * halfUnit := by
        unfold halfUnit
        positivity
      exact mul_le_mul_of_nonneg_right (le_add_of_nonneg_right t.positive.le) unit
    rw [split]
    push_cast
    calc _ ≤ _ := abs_add_le _ _
      _ ≤ _ := add_le_add rounding (earlier.trans weight)
      _ = _ := by ring

theorem Change.averaged {op : Op} (h : Change S db op db') (rounds : S.num.RoundsTo 8)
    (tracked : db.Tracked S.num) (places : op.Places)
    (averaged : ∀ o ∈ db.orders.rows, Averaged db o) :
    ∀ o ∈ db'.orders.rows, Averaged db' o := by
  rcases h.quiet_or_filled tracked.sound with quiet | ⟨event, t, rfl, rfl⟩
  · intro o' mem
    rcases quiet.orders o' mem with ⟨new, filled, average⟩ | ⟨o, was, id, filled, average⟩
    · refine averaged_of_unfilled (fun f hf same => ?_) filled average
      have linked := tracked.linked f (quiet.fills ▸ hf)
      rw [same, new] at linked
      cases linked
    · obtain ⟨quantity, positive, priced, near⟩ := averaged o was
      have count : db'.fillCount o'.id = db.fillCount o.id := by
        rw [Db.fillCount, quiet.fills, id, Db.fillCount]
      have filledOf : db'.filledOf o'.id = db.filledOf o.id := by
        rw [Db.filledOf, quiet.fills, id, Db.filledOf]
      have valueOf : db'.valueOf o'.id = db.valueOf o.id := by
        rw [Db.valueOf, quiet.fills, id, Db.valueOf]
      refine ⟨?_, ?_, ?_, ?_⟩
      · rw [filled, filledOf, quantity]
      · rwa [count, filled]
      · rwa [count, average]
      · rwa [average, filled, valueOf, count]
  · obtain ⟨kept, -⟩ := t.fill_kept rounds places
    have new : db.fills.find t.fill.brokerEventId = none := t.unrecorded
    have orders :
        t.after.orders = db.orders.put (t.final.stored S.num) := by simp [AppliedFill.after]
    intro o mem
    rw [orders] at mem
    rcases Table.mem_put.1 mem with rfl | ⟨was, other⟩
    · exact t.averaged rounds tracked.sound places (averaged _ (Table.mem_of_find t.found))
    · have notHere : t.order.id ≠ o.id := fun same => other (same.symm.trans t.frozen.id.symm)
      have count : t.after.fillCount o.id = db.fillCount o.id := by
        have notMine : t.fill.orderId ≠ o.id := notHere
        rw [Db.fillCount, t.fills_after kept, Table.rows_put_of_new new, List.countP_append]
        simp [Db.fillCount, notMine]
      obtain ⟨quantity, positive, priced, near⟩ := averaged o was
      refine ⟨?_, ?_, ?_, ?_⟩
      · rw [quantity, t.filledOf_after kept, if_neg notHere, add_zero]
      · rwa [count]
      · rwa [count]
      · rwa [t.valueOf_after kept, if_neg notHere, add_zero, count]

/-- No event divides by zero: fills are positive, and so is what has been filled after one. -/
theorem EventFailure.not_divisionByZero {f : Failure} (sound : db.Sound S.num)
    (failed : EventFailure S.num db event f) : f ≠ .divisionByZero := by
  have row : f.isRefusal = true → f ≠ .divisionByZero := by
    rintro refused rfl
    cases refused
  cases failed with
  | orderNotFound | accountNotFound => simp
  | book t error =>
    obtain ⟨zero, -⟩ := Order.bookFill_error error
    have nonneg : 0 ≤ t.order.filledQuantity := (sound.conserved (Table.mem_of_find t.found)).filled
    exact absurd zero (add_pos_of_nonneg_of_pos nonneg t.positive).ne'
  | bookedRow t book refused => exact row (Order.violation_isRefusal refused)
  | fillRow t refused => exact row (Fill.refusal_isRefusal refused)
  | settle t accountFound error =>
    obtain ⟨-, ⟨-, rfl⟩ | ⟨-, rfl⟩⟩ := Account.settleFill_error error <;> simp
  | openedRow t refused => exact row (Position.violation_isRefusal refused)
  | execute t error =>
    obtain ⟨r, executed⟩ := t.held.executed_total t.order.side t.price t.mark t.positive
    exact absurd (error.symm.trans executed) (by simp)
  | releaseRest t rest ioc error =>
    obtain ⟨-, -, -, rfl⟩ := releaseRemainingReservation_error error
    simp
  | release found unprocessed accountFound becomes error =>
    obtain ⟨-, -, -, rfl⟩ := releaseRemainingReservation_error error
    simp
  | settledRow t refused => exact row refused.isRefusal
  | executedRow t execute refused => exact row refused.isRefusal
  | concludedRow t execute conclude refused => exact row refused.isRefusal
  | releasedRow found unprocessed accountFound becomes release refused =>
    exact row refused.isRefusal

/-- In every run whose fills have at most eight decimals, the average fill price of an order
with fills is off the mean price of these by at most half a unit of the eighth decimal for
each of them, and no event divides by zero. -/
theorem run_averageDrift (rounds : S.num.RoundsTo 8) {db₀ : Db} (fresh : db₀.Fresh S.num)
    (ops : List Op) (places : ∀ op ∈ ops, op.Places) :
    let db := run (step S) db₀ ops
    (∀ o ∈ db.orders.rows, 1 ≤ db.fillCount o.id → 0 < db.filledOf o.id ∧
      ∃ average, o.averageFillPrice = some average ∧
        |average - db.valueOf o.id / db.filledOf o.id| ≤ db.fillCount o.id * (1 / 2 / 10 ^ 8)) ∧
    ∀ event, (processEvent event).run (postgres S.num) db ≠ .error .divisionByZero := by
  intro db
  obtain ⟨tracked, averaged⟩ : db.Tracked S.num ∧ ∀ o ∈ db.orders.rows, Averaged db o :=
    run_invariant_along (fun db => db.Tracked S.num ∧ ∀ o ∈ db.orders.rows, Averaged db o)
      (fun db op inv places => ⟨inv.1.step op,
        (step_change S inv.1.sound op).averaged rounds inv.1 places inv.2⟩)
      ⟨fresh.tracked, by simp [fresh.orders]⟩ (along_of_forall places)
  refine ⟨fun o mem some_ => ?_, fun event raised => ?_⟩
  · obtain ⟨quantity, positive, priced, near⟩ := averaged o mem
    obtain ⟨average, price⟩ := Option.isSome_iff_exists.1 (priced some_)
    have filled := positive some_
    rw [quantity] at filled near
    rw [price, Option.getD_some] at near
    refine ⟨filled, average, price, ?_⟩
    have ratio : average - db.valueOf o.id / db.filledOf o.id =
        (average * db.filledOf o.id - db.valueOf o.id) / db.filledOf o.id := by
      field_simp
    rw [ratio, abs_div, abs_of_pos filled, div_le_iff₀ filled]
    calc _ ≤ _ := near
      _ = _ := by
        unfold halfUnit
        ring
  · exact (wp_error _ (processEvent_spec tracked.sound) raised).not_divisionByZero tracked.sound rfl

theorem run_averageDrift_partialFill :
    let db := run (step ⟨.column 24 8, {}, id⟩) (traderDb (.column 24 8)) traded
    db.fillCount 2 = 1 ∧ ∀ o ∈ db.orders.rows, 1 ≤ db.fillCount o.id → 0 < db.filledOf o.id ∧
      ∃ average, o.averageFillPrice = some average ∧
        |average - db.valueOf o.id / db.filledOf o.id| ≤ db.fillCount o.id * (1 / 2 / 10 ^ 8) :=
  ⟨by decide +kernel,
    (run_averageDrift (column_roundsTo 24 8) (openAccounts_fresh _ _) traded traded_places).1⟩

end Steps

end OrderManagement
