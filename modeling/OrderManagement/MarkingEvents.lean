import OrderManagement.MarketKnowledge

/-! What an event knows while it runs: the position that it changes is locked, so that the
market price in its symbol stays what the event has read; a position that it opens is nobody
else's, but the market price that it has read may be another one before the event commits. -/

namespace OrderManagement

open Program LockWaits

section Events

variable (num : Numeric)

def eventKnows : Insight → Db → List Write → List Acquisition → Prop
  | .idle, _, ws, _ | .valued _ _, _, ws, _ => Overlays num ws (fun _ => none) fun _ => none
  | .located found holding, db, ws, held => Overlays num ws (fun _ => none) (fun _ => none) ∧
      ∀ p ∈ found, .positionRow holding ∈ held ∧ db.positions.find holding = some p
  | .kept row price, db, ws, held => .positionRow row.holding ∈ held ∧
      (db.positions.find row.holding).isSome ∧ db.marketPrices.find row.symbol = price ∧
      ∃ pos, Overlays num ws pos (fun _ => none) ∧
        (pos row.holding).or (db.positions.find row.holding) = some row ∧
        ∀ h r, pos h = some r → h = row.holding ∧ row.ValuedAt price
  | .opened row price, db, ws, held => .positionKey row.holding ∈ held ∧
      db.positions.find row.holding = none ∧ row.ValuedAt price ∧
      Overlays num ws (Function.update (fun _ => none) row.holding (some row)) fun _ => none
  | _, _, _, _ => False

/-- An event has read the market price under which it opens a position. -/
def eventRecalls : Insight → List (Exchange Stmt) → Prop
  | .valued holding price, heard => price ∈ pricesRead holding.2 heard
  | .opened row price, heard => price ∈ pricesRead row.symbol heard
  | _, _ => True

/-- The market price that an event reads is that of the symbol still, if its position is locked. -/
def eventSaw : Insight → Db → Db → Prop
  | .located (some _) holding, seen, db =>
    seen.marketPrices.find holding.2 = db.marketPrices.find holding.2
  | _, _, _ => True

end Events

section Rules

variable {num : Numeric} {db db' seen : Db} {ws vs : List Write} {held other : List Acquisition}
  {heard : List (Exchange Stmt)} {g : Insight}

theorem mem_pricesRead_cons {symbol : String} {found : Option MarketPrice} {x : Exchange Stmt}
    (h : found ∈ pricesRead symbol heard) : found ∈ pricesRead symbol (x :: heard) := by
  unfold pricesRead
  rw [List.filterMap_cons]
  split
  · exact h
  · exact List.mem_cons_of_mem _ h

theorem mem_pricesRead_self (symbol : String) (found : Option MarketPrice) :
    found ∈ pricesRead symbol (⟨.marketPrice symbol, found⟩ :: heard) := by
  simp [pricesRead, Exchange.priceIn]

theorem eventRecalls.after {β : Type} {s : Stmt β} (r : β) (allows : eventProtocol.allows g s)
    (h : eventRecalls g heard) : eventRecalls (eventProtocol.after g s r) (⟨s, r⟩ :: heard) := by
  by_cases off : s.OffMarket
  · rw [(offMarket_allows off g).2]
    cases g with
    | valued | opened => exact mem_pricesRead_cons h
    | _ => trivial
  · cases s with
    | positionForUpdate =>
      cases g with
      | idle => trivial
      | _ => exact allows.elim
    | marketPrice =>
      cases g with
      | located found =>
        obtain rfl := allows
        cases found with
        | none => exact mem_pricesRead_self _ _
        | some row => trivial
      | _ => exact allows.elim
    | insertPosition =>
      cases g with
      | valued =>
        obtain ⟨rfl, -⟩ := allows
        exact mem_pricesRead_cons h
      | _ => exact allows.elim
    | updatePosition =>
      cases g with
      | kept => trivial
      | opened =>
        obtain ⟨rfl, same, -⟩ := allows
        obtain ⟨-, symbol⟩ := Prod.mk.inj same
        exact mem_pricesRead_cons (symbol ▸ h)
      | _ => exact allows.elim
    | positionsBySymbolForUpdate | insertMarketPrice | updateMarketPrice =>
      cases g <;> exact allows.elim
    | _ => exact (off trivial).elim

theorem eventKnows.shift (h : eventKnows num g db ws held) (shift : Shift other db db')
    (apart : ∀ k ∈ held, k ∉ other) : eventKnows num g db' ws held := by
  cases g with
  | idle | valued => exact h
  | located found holding =>
    refine ⟨h.1, fun p mem => ?_⟩
    obtain ⟨locked, there⟩ := h.2 p mem
    exact ⟨locked, (shift.row_eq (apart _ locked) (there ▸ rfl)).trans there⟩
  | kept row price =>
    obtain ⟨locked, there, read, pos, overlays, found, among⟩ := h
    obtain ⟨old, base⟩ := Option.isSome_iff_exists.1 there
    have same := shift.row_eq (apart _ locked) there
    have priced := shift.price_eq_of_row (apart _ locked) base
    exact ⟨locked, same ▸ there, priced.trans read, pos, overlays, same ▸ found, among⟩
  | opened row price =>
    obtain ⟨locked, none_, valued, overlays⟩ := h
    exact ⟨locked, shift.key_eq (apart _ locked) none_, valued, overlays⟩
  | _ => exact h.elim

theorem eventSaw.shift (h : eventKnows num g db ws held) (saw : eventSaw g seen db)
    (shift : Shift other db db') (apart : ∀ k ∈ held, k ∉ other) : eventSaw g seen db' := by
  cases g with
  | located found holding =>
    cases found with
    | none => trivial
    | some p =>
      obtain ⟨locked, there⟩ := h.2 p rfl
      exact saw.trans (shift.price_eq_of_row (apart _ locked) there).symm
  | _ => trivial

theorem eventKnows.begins (h : eventKnows num g db ws held) :
    eventSaw g ((postgres num).view db ws) db := by
  cases g with
  | located found holding =>
    cases found with
    | none => trivial
    | some p => exact h.1.prices db holding.2
  | _ => trivial

theorem eventKnows.off {more : List Acquisition} (h : eventKnows num g db ws held)
    (off : ∀ w ∈ vs, w.OffMarket) (sub : ∀ k ∈ held, k ∈ more) :
    eventKnows num g db (ws ++ vs) more := by
  cases g with
  | idle | valued => exact Overlays.off h off
  | located found holding =>
    exact ⟨h.1.off off, fun p mem => ⟨sub _ (h.2 p mem).1, (h.2 p mem).2⟩⟩
  | kept row price =>
    obtain ⟨locked, there, read, pos, overlays, rest⟩ := h
    exact ⟨sub _ locked, there, read, pos, overlays.off off, rest⟩
  | opened row price =>
    obtain ⟨locked, none_, valued, overlays⟩ := h
    exact ⟨sub _ locked, none_, valued, overlays.off off⟩
  | _ => exact h.elim

theorem eventKnows.idle_answered {accountId : UUID} {symbol : String} {found : Option Position}
    {ks : List Acquisition} (h : eventKnows num .idle db ws held)
    (order : (Stmt.positionForUpdate accountId symbol).takes seen ks)
    (answer :
      (Stmt.positionForUpdate accountId symbol).answer num seen ((postgres num).view db ws) =
      .ok (found, vs)) :
    eventKnows num (.located found (accountId, symbol)) db (ws ++ vs) (ks.reverse ++ held) := by
  obtain ⟨rfl, rfl⟩ := Prod.mk.inj (Except.ok.inj answer)
  rw [List.append_nil]
  refine ⟨h, fun p mem => ?_⟩
  obtain ⟨old, there, now⟩ := Option.bind_eq_some_iff.1 mem
  rw [Overlays.positions h, Option.none_or] at now
  refine ⟨List.mem_append_left _ (List.mem_reverse.2 ((Stmt.mem_of_takes order).2 ?_)), now⟩
  simp [Stmt.acquisitions, there]

theorem eventKnows.located_answered {found : Option Position} {holding : UUID × String}
    {price : Option MarketPrice} {ks : List Acquisition}
    (h : eventKnows num (.located found holding) db ws held)
    (saw : eventSaw (.located found holding) seen db)
    (answer : (Stmt.marketPrice holding.2).answer num seen ((postgres num).view db ws) =
      .ok (price, vs)) :
    eventKnows num (eventProtocol.after (.located found holding) (.marketPrice holding.2) price) db
      (ws ++ vs) (ks.reverse ++ held) := by
  obtain ⟨rfl, rfl⟩ := Prod.mk.inj (Except.ok.inj answer)
  rw [List.append_nil]
  cases found with
  | none => exact h.1
  | some row =>
    obtain ⟨locked, there⟩ := h.2 row rfl
    obtain rfl := Table.find_key there
    exact ⟨List.mem_append_right _ locked, there ▸ rfl, saw.symm, _, h.1, there, by simp⟩

theorem eventKnows.valued_answered {holding : UUID × String} {row : Position}
    {price : Option MarketPrice} {u : Unit} {ks : List Acquisition}
    (h : eventKnows num (.valued holding price) db ws held) (valued : row.ValuedAt price)
    (kept : row.stored num = row)
    (order : (Stmt.insertPosition row).takes seen ks)
    (answer : (Stmt.insertPosition row).answer num seen ((postgres num).view db ws) = .ok (u, vs)) :
    eventKnows num (.opened row price) db (ws ++ vs) (ks.reverse ++ held) := by
  obtain rfl : ks = [.positionKey row.holding] := order
  obtain ⟨none_, rfl⟩ := insertPosition_answer kept answer
  rw [Overlays.positions h, Option.none_or] at none_
  exact ⟨by simp, none_, valued, Overlays.position h row (Or.inl rfl)⟩

theorem eventKnows.kept_answered {row current : Position} {price : Option MarketPrice} {u : Unit}
    (h : eventKnows num (.kept row price) db ws held) (same : current.holding = row.holding)
    (valued : current.ValuedAt price) (kept : current.stored num = current)
    (answer : (Stmt.updatePosition row current).answer num seen ((postgres num).view db ws) =
      .ok (u, vs)) :
    eventKnows num (.kept current price) db (ws ++ vs) held := by
  obtain ⟨locked, there, read, pos, overlays, found, among⟩ := h
  have now : ((postgres num).view db ws).positions.find row.holding = some row :=
    (overlays.positions db row.holding).trans found
  rcases updatePosition_answer now same kept answer with ⟨rfl, rfl⟩ | rfl
  · rw [List.append_nil]
    exact ⟨locked, there, read, pos, overlays, found, among⟩
  · have symbol : current.symbol = row.symbol := congrArg Prod.snd same
    refine ⟨same ▸ locked, same ▸ there, symbol ▸ read, _, overlays.position current (Or.inr rfl),
      by rw [Function.update_self, Option.some_or], fun k r written => ⟨?_, valued⟩⟩
    by_contra other
    rw [Function.update_of_ne other] at written
    exact other ((among k r written).1.trans same.symm)

theorem eventKnows.opened_answered {row current : Position} {price : Option MarketPrice} {u : Unit}
    (h : eventKnows num (.opened row price) db ws held) (same : current.holding = row.holding)
    (valued : current.ValuedAt price) (kept : current.stored num = current)
    (answer : (Stmt.updatePosition row current).answer num seen ((postgres num).view db ws) =
      .ok (u, vs)) :
    eventKnows num (.opened current price) db (ws ++ vs) held := by
  obtain ⟨locked, none_, -, overlays⟩ := h
  have now : ((postgres num).view db ws).positions.find row.holding = some row := by
    rw [overlays.positions, Function.update_self, Option.some_or]
  rcases updatePosition_answer now same kept answer with ⟨rfl, rfl⟩ | rfl
  · rw [List.append_nil]
    exact ⟨locked, none_, valued, overlays⟩
  · refine ⟨same ▸ locked, same ▸ none_, valued, ?_⟩
    have changed := overlays.position current (Or.inr rfl)
    rwa [same, Function.update_idem, ← same] at changed

theorem eventKnows.answered {β : Type} {s : Stmt β} {r : β} {ks : List Acquisition}
    {call : MarketCall} (h : eventKnows num g db ws held) (saw : eventSaw g seen db)
    (allows : eventProtocol.allows g s)
    (timely : s.Timely num call ((postgres num).view db ws)) (order : s.takes seen ks)
    (answer : s.answer num seen ((postgres num).view db ws) = .ok (r, vs)) :
    eventKnows num (eventProtocol.after g s r) db (ws ++ vs) (ks.reverse ++ held) := by
  by_cases off : s.OffMarket
  · rw [(offMarket_allows off g).2]
    exact h.off (off.writes answer) fun k mem => List.mem_append_right _ mem
  · cases s with
    | positionForUpdate =>
      cases g with
      | idle => exact h.idle_answered order answer
      | _ => exact allows.elim
    | marketPrice =>
      cases g with
      | located =>
        obtain rfl := allows
        exact h.located_answered saw answer
      | _ => exact allows.elim
    | insertPosition =>
      cases g with
      | valued =>
        obtain ⟨-, valued⟩ := allows
        exact h.valued_answered valued timely order answer
      | _ => exact allows.elim
    | updatePosition =>
      obtain rfl : ks = [] := order
      cases g with
      | kept =>
        obtain ⟨rfl, same, valued⟩ := allows
        exact h.kept_answered same valued timely.1 answer
      | opened =>
        obtain ⟨rfl, same, valued⟩ := allows
        exact h.opened_answered same valued timely.1 answer
      | _ => exact allows.elim
    | positionsBySymbolForUpdate | insertMarketPrice | updateMarketPrice =>
      cases g <;> exact allows.elim
    | _ => exact (off trivial).elim

theorem eventKnows.commits (h : eventKnows num g db ws held) (recalls : eventRecalls g heard)
    (timely : TimelyCommit num heard db ws held) (marked : db.MarkedToMarket) :
    ((postgres num).view db ws).MarkedToMarket ∧ Shift held db ((postgres num).view db ws) := by
  have nothing : Overlays num ws (fun _ => none) (fun _ => none) →
      ((postgres num).view db ws).MarkedToMarket ∧ Shift held db ((postgres num).view db ws) := by
    intro overlays
    exact ⟨overlays.marked marked (by simp) (by simp),
      overlays.shift timely (by simp) (by simp)⟩
  cases g with
  | idle | valued => exact nothing h
  | located => exact nothing h.1
  | kept row price =>
    obtain ⟨locked, there, read, pos, overlays, found, among⟩ := h
    refine ⟨overlays.marked marked (fun k r written m price => ?_) (by simp),
      overlays.shift timely (fun k r written => ?_) (by simp)⟩
    · obtain ⟨rfl, mark, marks, at_⟩ := among k r written
      rw [written, Option.some_or] at found
      rw [Option.none_or] at price
      obtain rfl := Option.some.inj found
      exact at_ m (read ▸ price) ▸ marks
    · obtain ⟨rfl, -⟩ := among k r written
      exact Or.inl ⟨locked, there⟩
  | opened row price =>
    obtain ⟨locked, none_, valued, overlays⟩ := h
    have written : ∀ k r, Function.update (fun _ => none) row.holding (some row) k = some r →
        k = row.holding ∧ r = row := by
      intro k r at_
      by_cases same : k = row.holding
      · subst same
        rw [Function.update_self] at at_
        exact ⟨rfl, (Option.some.inj at_).symm⟩
      · rw [Function.update_of_ne same] at at_
        cases at_
    refine ⟨overlays.marked marked (fun k r at_ m found => ?_) (by simp),
      overlays.shift timely (fun k r at_ => ?_) (by simp)⟩
    · obtain ⟨rfl, rfl⟩ := written k r at_
      rw [Option.none_or] at found
      have stored := overlays.positions db r.holding
      rw [at_, Option.some_or] at stored
      have still := timely.opened r (Table.mem_of_find stored) none_ price recalls
      obtain ⟨mark, marks, read⟩ := valued
      exact read m (still.symm.trans found) ▸ marks
    · obtain ⟨rfl, -⟩ := written k r at_
      exact Or.inr ⟨locked, none_⟩
  | _ => exact h.elim

theorem eventKnows.prices (h : eventKnows num g db ws held) (s : String) :
    ((postgres num).view db ws).marketPrices.find s = db.marketPrices.find s := by
  cases g with
  | idle | valued => exact Overlays.prices h db s
  | located => exact h.1.prices db s
  | kept row price =>
    obtain ⟨-, -, -, pos, overlays, -⟩ := h
    exact overlays.prices db s
  | opened row price =>
    obtain ⟨-, -, -, overlays⟩ := h
    exact overlays.prices db s
  | _ => exact h.elim

end Rules

end OrderManagement
