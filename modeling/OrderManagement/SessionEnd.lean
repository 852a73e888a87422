import OrderManagement.OrderHistory
import OrderManagement.SystemSettlement

/-! The expiry worker together with the broker. A cancellation that is pending keeps its place
in the scan only until the broker has answered it, so that round after round takes up to a
hundred expired orders out of the queue, whatever is submitted meanwhile. -/

namespace OrderManagement

open Program TransitionRuns OrderedPrefix

/-- A submission is of an order that is still open at `now`. -/
def Action.SubmitsAfter (settings : Settings) (now : Timestamp) : Action → Prop
  | .createOrder draw payload => ((newOrder settings draw payload).expiresAt.all (now < ·)) = true
  | .requestCancellation .. | .scanExpired _ | .requestExpired | .advance .. | .deliver => True

instance (settings : Settings) (now : Timestamp) :
    (a : Action) → Decidable (a.SubmitsAfter settings now)
  | .createOrder draw payload =>
    inferInstanceAs (Decidable (((newOrder settings draw payload).expiresAt.all (now < ·)) = true))
  | .requestCancellation .. | .scanExpired _ | .requestExpired | .advance .. | .deliver =>
    .isTrue trivial

namespace System

def expired (now : Timestamp) (s : System) : ℕ :=
  s.db.orders.rows.countP fun o => o.ExpiredBy now

/-- What may happen while the worker asks for the orders of a scan. -/
def Meanwhile (settings : Settings) (now : Timestamp) (s : System) (a : Action) : Prop :=
  s.Draws a ∧ a.SubmitsAfter settings now

instance (settings : Settings) (now : Timestamp) (s : System) (a : Action) :
    Decidable (s.Meanwhile settings now a) := inferInstanceAs (Decidable (_ ∧ _))

/-- A scan at `now` or later, and all that happens until its orders have been asked and the broker
has nothing left to do. -/
inductive Round (settings : Settings) (now : Timestamp) (s : System) : System → Prop
  | scanned {time : Timestamp} {ids : List UUID} {actions : List Action} (later : now ≤ time)
      (lists : ListsExpiredDayOrderIds s.db time dayOrderScanLimit ids) (waits : s.overdue = [])
      (meanwhile : Along (System.step settings) (Meanwhile settings now) s
        (.scanExpired ids :: actions))
      (asked : (run (System.step settings) s (.scanExpired ids :: actions)).overdue = [])
      (drained : (run (System.step settings) s (.scanExpired ids :: actions)).Drained) :
      Round settings now s (run (System.step settings) s (.scanExpired ids :: actions))

def Rounds (settings : Settings) (now : Timestamp) : ℕ → System → System → Prop
  | 0, s, t => t = s
  | n + 1, s, t => ∃ u, Round settings now s u ∧ Rounds settings now n u t

def Asks (k : UUID) (s : System) : Prop :=
  ∃ o, s.db.orders.find k = some o ∧ (k ∈ s.overdue ∨ o.status ∈ uncancellableStatuses)

structure Attended (s : System) : Prop extends s.Consistent where
  awaiting : Awaiting s.db s.work s.queue

end System

theorem OrderStatus.LeadsTo.uncancellable {status target : OrderStatus} (h : status.LeadsTo target)
    (before : status ∈ uncancellableStatuses) : target ∈ uncancellableStatuses := by
  induction h with
  | refl => exact before
  | tail _ allowed ih =>
    have keeps : ∀ status ∈ uncancellableStatuses, ∀ target ∈ allowedTransitions status,
        target ∈ uncancellableStatuses := by decide
    exact keeps _ ih _ allowed

theorem Order.Precedes.expiredBy {o o' : Order} {now : Timestamp} (h : o.Precedes o')
    (decided : o.status ≠ .new) (expired : o'.ExpiredBy now) : o.ExpiredBy now := by
  obtain ⟨day, -, past⟩ := expired
  refine ⟨h.frozen.timeInForce ▸ day, ?_, h.expiresAt ▸ past⟩
  have unfinished := h.unfinished
  revert unfinished decided
  cases o.status <;> decide

namespace System

variable {settings : Settings} {now : Timestamp} {s t : System} {k : UUID}

theorem step_later (ready : s.db.Ready) (a : Action) : s.db.Later (s.step settings a).db := by
  have moved : ∀ op : Op,
      s.db.Later (OrderManagement.step (.exact settings id) s.db op) := fun op =>
    (step_change (.exact settings id) ready.sound op).later ready.sound
  cases a with
  | createOrder draw payload =>
    change s.db.Later (s.create settings draw payload).db
    rw [create_db]
    exact moved _
  | requestCancellation orderId reason =>
    change s.db.Later (s.request orderId reason).db
    rw [request_db settings]
    exact moved _
  | scanExpired ids =>
    change s.db.Later (if s.overdue = [] then { s with overdue := ids } else s).db
    split_ifs <;> exact .refl _
  | requestExpired =>
    cases overdue : s.overdue with
    | nil =>
      simp only [System.step, overdue]
      exact .refl _
    | cons orderId rest =>
      simp only [System.step, overdue]
      rw [request_db settings]
      exact moved _
  | advance i draw =>
    change s.db.Later (s.advance i draw).db
    unfold advance
    cases s.work[i]? <;> exact .refl _
  | deliver =>
    change s.db.Later s.deliver.db
    unfold deliver
    cases s.queue with
    | nil => exact .refl _
    | cons event rest =>
      dsimp only
      cases ran : (processEvent event).run (postgres .exact) s.db with
      | error f => exact .refl _
      | ok result =>
        have same : OrderManagement.step (.exact settings id) s.db (.processEvent event) =
            result.2 := by
          simp only [OrderManagement.step, committed, Deployment.exact_num, ran]
        have later := moved (.processEvent event)
        rwa [same] at later

theorem Attended.step (h : s.Attended) {a : Action} (draws : s.Draws a) :
    (s.step settings a).Attended :=
  ⟨h.toConsistent.step draws, awaiting_step h.awaiting h.toConsistent a⟩

theorem overdue_step (a : Action) (listed : k ∈ s.overdue) : k ∈ (s.step settings a).overdue ∨
    (s.step settings a).db = OrderManagement.step (.exact settings id) s.db
      (.requestCancellation k expiryReason) := by
  cases a with
  | createOrder draw payload =>
    refine Or.inl ?_
    change k ∈ (s.create settings draw payload).overdue
    unfold create
    cases (OrderManagement.createOrder settings draw payload).run (postgres .exact) s.db <;>
      exact listed
  | requestCancellation orderId reason =>
    refine Or.inl ?_
    change k ∈ (s.request orderId reason).overdue
    unfold request
    cases (OrderManagement.requestCancellation orderId reason).run (postgres .exact) s.db <;>
      exact listed
  | scanExpired ids =>
    refine Or.inl ?_
    change k ∈ (if s.overdue = [] then { s with overdue := ids } else s).overdue
    rwa [if_neg (List.ne_nil_of_mem listed)]
  | requestExpired =>
    cases overdue : s.overdue with
    | nil => simp [overdue] at listed
    | cons orderId rest =>
      simp only [System.step, overdue]
      rcases List.mem_cons.1 (overdue ▸ listed) with rfl | later
      · exact Or.inr (request_db settings k expiryReason)
      · exact Or.inl later
  | advance i draw =>
    refine Or.inl ?_
    change k ∈ (s.advance i draw).overdue
    unfold advance
    cases s.work[i]? <;> exact listed
  | deliver =>
    refine Or.inl ?_
    change k ∈ s.deliver.overdue
    unfold deliver
    cases s.queue with
    | nil => exact listed
    | cons event rest =>
      dsimp only
      cases (processEvent event).run (postgres .exact) s.db <;> exact listed

theorem Asks.step (asks : s.Asks k) (ready : s.db.Ready) (a : Action) :
    (s.step settings a).Asks k := by
  obtain ⟨o, found, asked⟩ := asks
  have later : s.db.Later (s.step settings a).db := step_later ready a
  obtain ⟨o', found', became⟩ := later.orders found
  refine ⟨o', found', ?_⟩
  rcases asked with listed | status
  · have kept : k ∈ (s.step settings a).overdue ∨ _ := overdue_step a listed
    refine kept.imp_right fun request => ?_
    -- the request has been made, and `new` and `validated` are seen by no one
    have rows := orders_requestCancellation (S := .exact settings id) ready.sound k expiryReason
    have mem' : o.asked ∈ (s.step settings a).db.orders.rows := by
      rw [request, rows]
      exact List.mem_map.2 ⟨o, Table.mem_of_find found, if_pos (Table.find_key found)⟩
    have own : o' = o.asked := by
      have key : o.asked.id = k := o.asked_id.trans (Table.find_key found)
      exact Option.some.inj (found'.symm.trans (key ▸ Table.find_of_mem mem'))
    obtain ⟨notNew, notValidated⟩ := ready.decided o (Table.mem_of_find found)
    rw [own, Order.asked]
    cases status : o.status <;>
      simp_all [cancellableOrderStatuses, uncancellableStatuses, Order.moved]
  · refine Or.inr ?_
    rcases became with rfl | later
    · exact status
    · exact later.status.uncancellable status

/-- The orders that have expired after a step had expired before it. -/
theorem Consistent.expired_was (h : s.Consistent) {a : Action}
    (submits : a.SubmitsAfter settings now) {o' : Order}
    (found' : (s.step settings a).db.orders.find k = some o') (expired : o'.ExpiredBy now) :
    ∃ o, s.db.orders.find k = some o ∧ o.ExpiredBy now := by
  have earlier : ∀ {o : Order}, s.db.orders.find k = some o →
      ∃ o, s.db.orders.find k = some o ∧ o.ExpiredBy now := by
    intro o found
    have later : s.db.Later (s.step settings a).db := step_later h.ready a
    obtain ⟨p, foundP, became⟩ := later.orders found
    obtain rfl := Option.some.inj (foundP.symm.trans found')
    refine ⟨o, found, ?_⟩
    rcases became with rfl | later
    · exact expired
    · exact later.expiredBy (h.ready.decided o (Table.mem_of_find found)).1 expired
  have submitted : ∀ {draw : CreateDraw} {payload : OrderCreate},
      o'.expiresAt = (newOrder settings draw payload).expiresAt →
      ¬ Action.SubmitsAfter settings now (.createOrder draw payload) := by
    intro draw payload same after
    obtain ⟨-, -, past⟩ := expired
    simp only [Action.SubmitsAfter, ← same] at after
    obtain ⟨time, at_, le⟩ := (Option.any_eq_true _ _).1 past
    rw [at_] at after
    simp only [Option.all_some, decide_eq_true_eq] at after le
    exact absurd after (not_lt.2 le)
  have written : ∀ {o : Order}, (s.db.orders.put (o.stored .exact)).find k = some o' →
      o.id = k ∧ o = o' ∨ s.db.orders.find k = some o' := by
    intro o found
    rw [Order.stored_exact] at found
    by_cases key : o.id = k
    · exact Or.inl ⟨key, Option.some.inj ((Table.find_put_of_eq key).symm.trans found)⟩
    · exact Or.inr ((Table.find_put_of_ne key).symm.trans found)
  have turned : Turn settings s a (s.step settings a) := turn h.ready.sound a
  generalize s.step settings a = t at found' turned
  cases turned with
  | idle | advanced | raised => exact earlier found'
  | refused t inserted =>
    rcases written (o := t.rejected) found' with ⟨-, rfl⟩ | was
    · exact absurd submits (submitted rfl)
    · exact earlier was
  | placed t inserted =>
    rcases written (o := t.routed) found' with ⟨-, rfl⟩ | was
    · exact absurd submits (submitted rfl)
    · exact earlier was
  | @asked _ orderId reason order overdue found =>
    rcases written (o := order.moved .cancelPending) found' with ⟨key, -⟩ | was
    · have same : orderId = k := (Table.find_key found).symm.trans key
      exact earlier (same ▸ found)
    · exact earlier was
  | @delivered event _ _ _ queue ran effect =>
    obtain ⟨o, verdict, final, rfl, d⟩ := effect.delivery (h.numbered.unprocessed queue)
    by_cases mine : k = event.orderId
    · exact earlier (mine ▸ d.found)
    · exact earlier ((d.others k mine).symm.trans found')

structure Working (ids : List UUID) (now : Timestamp) (s t : System) : Prop where
  attended : t.Attended
  asks : ∀ k ∈ ids, t.Asks k
  expired : ∀ k o', t.db.orders.find k = some o' → o'.ExpiredBy now →
    ∃ o, s.db.orders.find k = some o ∧ o.ExpiredBy now

theorem Working.step {ids : List UUID} (h : Working ids now s t) {a : Action}
    (meanwhile : t.Meanwhile settings now a) : Working ids now s (t.step settings a) where
  attended := h.attended.step meanwhile.1
  asks k listed := (h.asks k listed).step h.attended.ready a
  expired k o' found expired := by
    obtain ⟨o, was, before⟩ := h.attended.toConsistent.expired_was meanwhile.2 found expired
    exact h.expired k o was before

theorem Attended.terminal (h : t.Attended) (drained : t.Drained) (asked : t.overdue = [])
    (asks : t.Asks k) : ∃ o, t.db.orders.find k = some o ∧ o.status ∈ terminalOrderStatuses := by
  obtain ⟨o, found, status⟩ := asks
  have uncancellable : o.status ∈ uncancellableStatuses := by simpa [asked] using status
  refine ⟨o, found, ?_⟩
  rcases h.toConsistent.settled h.awaiting drained o (Table.mem_of_find found) with done | ⟨part, -⟩
  · exact done
  · simp [part, uncancellableStatuses] at uncancellable

theorem Round.attended (round : Round settings now s t) (h : s.Attended) : t.Attended := by
  obtain ⟨later, lists, waits, meanwhile⟩ := round
  exact run_invariant_along System.Attended (fun _ _ h meanwhile => h.step meanwhile.1) h meanwhile

theorem Attended.working (h : s.Attended) {ids : List UUID} (waits : s.overdue = [])
    (listed : ∀ k ∈ ids, (s.db.orders.find k).isSome) :
    Working ids now s (s.step settings (.scanExpired ids)) := by
  have scanned : s.step settings (.scanExpired ids) = { s with overdue := ids } := if_pos waits
  refine ⟨h.step trivial, fun k mem => ?_, fun k o' found expired => ?_⟩
  · obtain ⟨o, found⟩ := Option.isSome_iff_exists.1 (listed k mem)
    rw [scanned]
    exact ⟨o, found, Or.inl mem⟩
  · rw [scanned] at found
    exact ⟨o', found, expired⟩

theorem Round.expired_le (round : Round settings now s t) (h : s.Attended) :
    t.expired now ≤ s.expired now - dayOrderScanLimit := by
  obtain @⟨time, _, actions, later, ⟨rows, arranged, rfl⟩, waits, meanwhile, asked, drained⟩ :=
    round
  have row : ∀ o ∈ rows, o ∈ s.db.orders.rows ∧ o.ExpiredBy time := fun o mem => by
    simpa using arranged.perm.mem_iff.1 mem
  have working : Working ((rows.take dayOrderScanLimit).map Order.id) now s
      (run (System.step settings) s
        (.scanExpired ((rows.take dayOrderScanLimit).map Order.id) :: actions)) := by
    rw [run_cons]
    refine run_invariant_along (Working _ now s)
      (fun _ _ working meanwhile => working.step meanwhile)
      (h.working waits fun k listed => ?_) meanwhile.2
    obtain ⟨o, first, rfl⟩ := List.mem_map.1 listed
    rw [Table.find_of_mem (row o (List.mem_of_mem_take first)).1]
    rfl
  generalize run (System.step settings) s _ = t at working asked drained
  have nodup : (rows.map Order.id).Nodup :=
    (arranged.perm.map Order.id).nodup_iff.2
      ((List.filter_sublist.map Order.id).nodup s.db.orders.nodup)
  have ended : ((rows.take dayOrderScanLimit).countP fun o => o.expiry ≤ now) + t.expired now ≤
      s.expired now := by
    rw [List.countP_eq_length_filter]
    refine Table.countP_add_le
      (((List.filter_sublist.trans (List.take_sublist _ _)).map Order.id).nodup nodup)
      (fun o mem => ?_) (fun o mem o' found expired => ?_) working.expired
    · obtain ⟨first, past⟩ := List.mem_filter.1 mem
      obtain ⟨was, expired⟩ := row o (List.mem_of_mem_take first)
      rw [Order.expiredBy_iff] at expired ⊢
      exact ⟨was, expired.1, expired.2.1, expired.2.2.1, of_decide_eq_true past⟩
    · have listed := List.mem_map_of_mem (f := Order.id) (List.mem_filter.1 mem).1
      obtain ⟨p, there, terminal⟩ := working.attended.terminal drained asked (working.asks _ listed)
      obtain rfl := Option.some.inj (found.symm.trans there)
      obtain ⟨-, isOpen, -⟩ := expired
      revert isOpen terminal
      cases o'.status <;> decide
  have counted : ((s.db.orders.rows.filter fun o => o.ExpiredBy time).countP fun o =>
      o.expiry ≤ now) = s.expired now := by
    rw [List.countP_filter]
    refine List.countP_congr fun o _ => ?_
    simp only [Bool.and_eq_true, decide_eq_true_eq]
    refine ⟨fun both => ?_, fun expired =>
      ⟨(Order.expiredBy_iff.1 expired).2.2.2, expired.later later⟩⟩
    obtain ⟨past, expired⟩ := both
    rw [Order.expiredBy_iff] at expired ⊢
    exact ⟨expired.1, expired.2.1, expired.2.2.1, past⟩
  rw [arranged.countP_take, counted] at ended
  omega

theorem Rounds.expired_le {n : ℕ} (rounds : Rounds settings now n s t) (h : s.Attended) :
    t.Attended ∧ t.expired now ≤ s.expired now - dayOrderScanLimit * n := by
  induction n generalizing s with
  | zero =>
    obtain rfl : t = s := rounds
    exact ⟨h, by simp⟩
  | succ n ih =>
    obtain ⟨u, round, rest⟩ := rounds
    obtain ⟨attended, bound⟩ := ih rest (round.attended h)
    have first := round.expired_le h
    refine ⟨attended, ?_⟩
    rw [Nat.mul_succ]
    omega

/-! A round is over after a bounded number of moves. -/

/-- The step goes on with a scan or with what the broker has to do. -/
def Works (s : System) : Action → Prop
  | .requestExpired => s.overdue ≠ []
  | .advance i _ => i < s.work.length
  | .deliver => s.queue ≠ []
  | .createOrder .. | .requestCancellation .. | .scanExpired _ => False

instance (s : System) : (a : Action) → Decidable (s.Works a)
  | .requestExpired => decidable_of_iff (0 < s.overdue.length) List.length_pos_iff
  | .advance i draw => inferInstanceAs (Decidable (s.Moves (.advance i draw)))
  | .deliver => inferInstanceAs (Decidable (s.Moves .deliver))
  | .createOrder .. | .requestCancellation .. | .scanExpired _ => .isFalse id

theorem weight_request (orderId : UUID) (reason : String) :
    (s.request orderId reason).weight ≤ s.weight + 3 := by
  unfold request
  cases (OrderManagement.requestCancellation orderId reason).run (postgres .exact) s.db with
  | error f => simp
  | ok result =>
    simp only [weight, List.map_append, List.sum_append]
    split_ifs
    · simp only [List.map_singleton, List.sum_singleton, Activity.weight]
      omega
    · simp

/-- The moves that the scan and the broker's work can still take. -/
def effort (s : System) : ℕ := 4 * s.overdue.length + s.weight

theorem overdue_of_moves {a : Action} (moves : s.Moves a) :
    (s.step settings a).overdue = s.overdue := by
  cases a with
  | createOrder | requestCancellation | scanExpired | requestExpired => exact moves.elim
  | advance i draw =>
    change (s.advance i draw).overdue = _
    unfold advance
    cases s.work[i]? <;> rfl
  | deliver =>
    change s.deliver.overdue = _
    unfold deliver
    cases s.queue with
    | nil => rfl
    | cons event rest =>
      dsimp only
      cases (processEvent event).run (postgres .exact) s.db <;> rfl

theorem Works.less {a : Action} (works : s.Works a) : (s.step settings a).effort < s.effort := by
  have moved : s.Moves a → (s.step settings a).effort < s.effort := fun moves => by
    have lighter : (s.step settings a).weight < s.weight := moves.lighter
    simp only [effort, overdue_of_moves moves]
    omega
  cases a with
  | createOrder | requestCancellation | scanExpired => exact works.elim
  | advance | deliver => exact moved works
  | requestExpired =>
    obtain ⟨orderId, rest, overdue⟩ := List.exists_cons_of_ne_nil (show s.overdue ≠ [] from works)
    have more := weight_request (s := s) orderId expiryReason
    simp only [System.step, overdue, effort, List.length_cons]
    change 4 * rest.length + (s.request orderId expiryReason).weight < _
    omega

theorem not_works_iff : (∀ a, ¬ s.Works a) ↔ s.overdue = [] ∧ s.Drained := by
  constructor
  · intro none_
    refine ⟨by_contra (none_ .requestExpired), drained_of_not_moves (fun a moves => ?_)
      ⟨.rejected, false, 0, 0, 0⟩⟩
    cases a with
    | createOrder | requestCancellation | scanExpired | requestExpired => exact moves
    | advance i draw => exact none_ (.advance i draw) moves
    | deliver => exact none_ .deliver moves
  · rintro ⟨overdue, idle, empty⟩ a works
    cases a with
    | createOrder | requestCancellation | scanExpired => exact works
    | requestExpired => exact works overdue
    | advance i draw =>
      have short : i < s.work.length := works
      simp [idle] at short
    | deliver => exact works empty

/-- Left alone after a scan, the worker and the broker make few moves, whatever their order, and
with these the round is over. -/
theorem round_completes {time : Timestamp} {ids : List UUID} {moves : List Action}
    (later : now ≤ time) (lists : ListsExpiredDayOrderIds s.db time dayOrderScanLimit ids)
    (waits : s.overdue = [])
    (effective : Along (System.step settings) (fun s a => s.Works a ∧ s.Draws a)
      (s.step settings (.scanExpired ids)) moves) :
    moves.length ≤ 4 * ids.length + s.weight ∧
      ((∀ a, ¬ (run (System.step settings) s (.scanExpired ids :: moves)).Works a) →
        s.Round settings now (run (System.step settings) s (.scanExpired ids :: moves))) := by
  have scanned : s.step settings (.scanExpired ids) = { s with overdue := ids } := if_pos waits
  refine ⟨?_, fun ended => ?_⟩
  · have bound := length_le_of_falls effort (fun _ _ works => works.1.less) effective
    rwa [scanned] at bound
  · obtain ⟨asked, drained⟩ := not_works_iff.1 ended
    have meanwhile : Along (System.step settings) (Meanwhile settings now)
        (s.step settings (.scanExpired ids)) moves := by
      refine effective.mono fun s a works => ⟨works.2, ?_⟩
      cases a with
      | createOrder => exact works.1.elim
      | requestCancellation | scanExpired | requestExpired | advance | deliver => trivial
    exact .scanned later lists waits ⟨⟨trivial, trivial⟩, meanwhile⟩ asked drained

end System

section Rounds

variable {settings : Settings} {opened : Db}

/-- However many orders have expired by `now`, each round of the worker and the broker ends a
hundred of them, and so many rounds end them all, whatever else is asked and submitted
meanwhile. -/
theorem dayOrders_end (fresh : opened.Fresh .exact) (unlogged : opened.orderEvents = [])
    (actions : List Action)
    (draws : Along (System.step settings) System.Draws { db := opened } actions) {now : Timestamp}
    {n : ℕ} {t : System} :
    let s := run (System.step settings) { db := opened } actions
    s.Rounds settings now n t → t.expired now ≤ s.expired now - dayOrderScanLimit * n ∧
      (s.expired now ≤ dayOrderScanLimit * n → ∀ o ∈ t.db.orders.rows, o.timeInForce = .day →
        o.expiresAt.any (· ≤ now) = true → o.status ∈ terminalOrderStatuses) := by
  intro s rounds
  obtain ⟨consistent, awaiting⟩ := run_awaiting fresh unlogged draws
  obtain ⟨attended, bound⟩ := rounds.expired_le ⟨consistent, awaiting⟩
  refine ⟨bound, fun enough o mem day past => ?_⟩
  have none_ : t.expired now = 0 := by omega
  have none_expired := List.countP_eq_zero.1 none_ o mem
  by_contra unfinished
  obtain ⟨notNew, -⟩ := attended.ready.decided o mem
  refine none_expired (decide_eq_true ⟨day, ?_, past⟩)
  revert unfinished notNew
  cases o.status <;> decide

end Rounds

/-! A DAY order that the broker fills in part while it is being cancelled. -/

def revokedDraw : BrokerDraw :=
  { partialDraw with eventId := 69, execution := 70 }

def sessionActions : List Action := [.createOrder ⟨2, 0⟩ limitBuy, .advance 0 partialDraw]

def sessionMoves : List Action :=
  [.requestExpired, .advance 0 partialDraw, .advance 0 revokedDraw, .advance 1 revokedDraw,
    .advance 0 lastDraw, .deliver, .deliver, .deliver]

theorem dayOrders_end_lateFill :
    let s := run (System.step {}) { db := traderDb .exact } sessionActions
    let t := run (System.step {}) s (.scanExpired [2] :: sessionMoves)
    s.expired 400000000 = 1 ∧ (t.db.orders.rows.map Order.filledQuantity) = [5] ∧
      ∀ o ∈ t.db.orders.rows, o.status ∈ terminalOrderStatuses := by
  intro s t
  have draws : Along (System.step {}) System.Draws { db := traderDb .exact } sessionActions := by
    decide +kernel
  have lists : ListsExpiredDayOrderIds s.db 400000000 dayOrderScanLimit [2] :=
    ⟨_, ⟨.refl _, by decide +kernel⟩, by decide +kernel⟩
  have effective : Along (System.step {}) (fun s a => s.Works a ∧ s.Draws a)
      (s.step {} (.scanExpired [2])) sessionMoves := by
    decide +kernel
  have ended : ∀ a, ¬ t.Works a := System.not_works_iff.2
    ⟨by decide +kernel, List.length_eq_zero_iff.1 (by decide +kernel),
      List.length_eq_zero_iff.1 (by decide +kernel)⟩
  have round := (System.round_completes (le_refl 400000000) lists
    (by decide +kernel) effective).2 ended
  have one : s.expired 400000000 = 1 := by decide +kernel
  have few : s.expired 400000000 ≤ dayOrderScanLimit * 1 := by
    rw [one]
    decide
  have terminal := (dayOrders_end (n := 1) (openAccounts_fresh .exact _) rfl sessionActions draws
    ⟨t, round, rfl⟩).2 few
  refine ⟨one, by decide +kernel, fun o mem => terminal o mem ?_ ?_⟩
  · revert o
    decide +kernel
  · revert o
    decide +kernel

end OrderManagement
