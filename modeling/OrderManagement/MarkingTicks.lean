import OrderManagement.MarketKnowledge

/-! What a tick knows while it runs: what it has written, that its market price is locked or no
older than its own, and, once it has listed the positions in its symbol, that these are locked
and the first of them marked. -/

namespace OrderManagement

open Program LockWaits

section Ticks

variable (num : Numeric) (symbol : String) (price : ℚ) (observedAt : Timestamp)

def pricedAt (changed : Bool) (s : String) : Option MarketPrice :=
  if changed ∧ symbol = s then some ⟨symbol, price, observedAt⟩ else none

/-- The market price of a tick is locked and no newer, or was found to be its own. -/
def PriceKnown : Bool → Db → List Acquisition → Prop
  | true, db, held => .marketPrice symbol ∈ held ∧
      ∀ m ∈ db.marketPrices.find symbol, m.observedAt ≤ observedAt
  | false, db, _ => ∃ m ∈ db.marketPrices.find symbol, observedAt ≤ m.observedAt

/-- The positions in the symbol are locked, and those `done` are marked at the market price. -/
structure Marking (changed : Bool) (done todo : List Position) (db : Db) (ws : List Write)
    (held : List Acquisition) (pos : UUID × String → Option Position) : Prop where
  overlays : Overlays num ws pos (pricedAt symbol price observedAt changed)
  nodup : ((done ++ todo).map Position.holding).Nodup
  locked : ∀ h, .positionRow h ∈ held ↔ ∃ p ∈ done ++ todo, p.holding = h
  base : ∀ p ∈ done ++ todo, db.positions.find p.holding = some p
  waiting : ∀ p ∈ todo, pos p.holding = none
  marked : ∀ p ∈ done, (pos p.holding).getD p = markedPosition price p
  among : ∀ h row, pos h = some row → ∃ p ∈ done, p.holding = h
  current : ∀ p ∈ done, ∀ m ∈ (pricedAt symbol price observedAt changed p.symbol).or
    (db.marketPrices.find p.symbol), m.price = price

def tickKnows : Insight → Db → List Write → List Acquisition → Prop
  | .opening, _, ws, held => ws = [] ∧ held = []
  | .read found, db, ws, held => ws = [] ∧ held = [] ∧ ∀ r ∈ found, r.symbol = symbol ∧
      ∃ m ∈ db.marketPrices.find symbol, r.observedAt ≤ m.observedAt
  | .priced changed, db, ws, held =>
    Overlays num ws (fun _ => none) (pricedAt symbol price observedAt changed) ∧
      PriceKnown symbol observedAt changed db held ∧ ∀ h, .positionRow h ∉ held
  | .marking changed done todo, db, ws, held => PriceKnown symbol observedAt changed db held ∧
      ∃ pos, Marking num symbol price observedAt changed done todo db ws held pos
  | _, _, _, _ => False

/-- A tick reads its market price, or lists positions, as they were when the statement began. -/
def tickSaw : Insight → Db → Db → Prop
  | .opening, seen, db => ∀ r ∈ seen.marketPrices.find symbol,
      ∃ m ∈ db.marketPrices.find symbol, r.observedAt ≤ m.observedAt
  | .priced _, seen, db => ∀ h, (seen.positions.find h).isSome → (db.positions.find h).isSome
  | _, _, _ => True

end Ticks

section Rules

variable {num : Numeric} {symbol : String} {price : ℚ} {observedAt : Timestamp} {changed : Bool}
  {db db' seen : Db} {ws vs : List Write} {held other : List Acquisition} {g : Insight}
  {done todo : List Position} {pos pos' : UUID × String → Option Position} {p : Position}
  {heard : List (Exchange Stmt)}

theorem pricedAt_true : pricedAt symbol price observedAt true =
    Function.update (fun _ => none) symbol (some ⟨symbol, price, observedAt⟩) := by
  funext s
  rw [Function.update_apply]
  simp [pricedAt, eq_comm]

theorem pricedAt_false : pricedAt symbol price observedAt false = fun _ => none := by
  funext s
  simp [pricedAt]

theorem pricedAt_eq_some {s : String} {row : MarketPrice}
    (h : pricedAt symbol price observedAt changed s = some row) :
    changed = true ∧ symbol = s ∧ ⟨symbol, price, observedAt⟩ = row := by
  unfold pricedAt at h
  split_ifs at h with written
  exact ⟨written.1, written.2, Option.some.inj h⟩

theorem PriceKnown.shift (h : PriceKnown symbol observedAt changed db held)
    (shift : Shift other db db') (apart : ∀ k ∈ held, k ∉ other) :
    PriceKnown symbol observedAt changed db' held := by
  cases changed with
  | true => exact ⟨h.1, (shift.price_eq (apart _ h.1)).symm ▸ h.2⟩
  | false =>
    obtain ⟨m, found, older⟩ := h
    obtain ⟨m', found', newer⟩ := shift.newer symbol m found
    exact ⟨m', found', older.trans newer⟩

theorem PriceKnown.mono {more : List Acquisition} (h : PriceKnown symbol observedAt changed db held)
    (sub : ∀ k ∈ held, k ∈ more) : PriceKnown symbol observedAt changed db more := by
  cases changed with
  | true => exact ⟨sub _ h.1, h.2⟩
  | false => exact h

theorem Marking.shift (h : Marking num symbol price observedAt changed done todo db ws held pos)
    (shift : Shift other db db') (apart : ∀ k ∈ held, k ∉ other) :
    Marking num symbol price observedAt changed done todo db' ws held pos := by
  have mine : ∀ p ∈ done ++ todo, .positionRow p.holding ∉ other := fun p mem =>
    apart _ ((h.locked _).2 ⟨p, mem, rfl⟩)
  refine { h with base := fun p mem => ?_, current := fun p mem => ?_ }
  · have there := h.base p mem
    exact (shift.row_eq (mine p mem) (there ▸ rfl)).trans there
  · have listed : p ∈ done ++ todo := List.mem_append_left _ mem
    have same := shift.price_eq_of_row (mine p listed) (h.base p listed)
    exact same.symm ▸ h.current p mem

theorem tickKnows.shift (h : tickKnows num symbol price observedAt g db ws held)
    (shift : Shift other db db') (apart : ∀ k ∈ held, k ∉ other) :
    tickKnows num symbol price observedAt g db' ws held := by
  cases g with
  | opening => exact h
  | read found =>
    obtain ⟨none_, free, older⟩ := h
    refine ⟨none_, free, fun r mem => ⟨(older r mem).1, ?_⟩⟩
    obtain ⟨m, there, older⟩ := (older r mem).2
    obtain ⟨m', there', newer⟩ := shift.newer symbol m there
    exact ⟨m', there', older.trans newer⟩
  | priced changed => exact ⟨h.1, h.2.1.shift shift apart, h.2.2⟩
  | marking changed done todo =>
    obtain ⟨known, pos, marking⟩ := h
    exact ⟨known.shift shift apart, pos, marking.shift shift apart⟩
  | _ => exact h.elim

theorem tickSaw.shift (h : tickSaw symbol g seen db) (shift : Shift other db db') :
    tickSaw symbol g seen db' := by
  cases g with
  | opening =>
    intro r mem
    obtain ⟨m, there, older⟩ := h r mem
    obtain ⟨m', there', newer⟩ := shift.newer symbol m there
    exact ⟨m', there', older.trans newer⟩
  | priced => exact fun k there => shift.persists k (h k there)
  | _ => trivial

theorem tickKnows.begins (h : tickKnows num symbol price observedAt g db ws held) :
    tickSaw symbol g ((postgres num).view db ws) db := by
  cases g with
  | opening =>
    obtain ⟨rfl, -⟩ := h
    exact fun r found => ⟨r, found, le_rfl⟩
  | priced changed =>
    intro k there
    rwa [h.1.positions] at there
  | _ => trivial

theorem tickKnows.opening_answered (h : tickKnows num symbol price observedAt .opening db ws held)
    (saw : tickSaw symbol .opening seen db) :
    tickKnows num symbol price observedAt (.read (seen.marketPrices.find symbol)) db ws held :=
  ⟨h.1, h.2, fun r found => ⟨Table.find_key found, saw r found⟩⟩

theorem priced_of_written {write : Write}
    (kept : write = .insertMarketPrice ⟨symbol, price, observedAt⟩ ∨
      write = .updateMarketPrice ⟨symbol, price, observedAt⟩)
    (newest : ∀ m ∈ db.marketPrices.find symbol, m.observedAt ≤ observedAt) :
    tickKnows num symbol price observedAt (.priced true) db [write] [.marketPrice symbol] := by
  have none_ : Overlays num [] (fun _ => none) fun _ => none := overlays_nil
  have written := none_.marketPrice ⟨symbol, price, observedAt⟩ kept
  exact ⟨pricedAt_true ▸ written, ⟨by simp, newest⟩, by simp⟩

theorem tickKnows.read_answered {found : Option MarketPrice} {β : Type} {s : Stmt β} {r : β}
    {ks : List Acquisition} {call : MarketCall}
    (h : tickKnows num symbol price observedAt (.read found) db ws held)
    (allows : (tickProtocol symbol price observedAt).allows (.read found) s)
    (timely : s.Timely num call ((postgres num).view db ws)) (order : s.takes seen ks)
    (answer : s.answer num seen ((postgres num).view db ws) = .ok (r, vs)) :
    tickKnows num symbol price observedAt
      ((tickProtocol symbol price observedAt).after (.read found) s r) db (ws ++ vs)
      (ks.reverse ++ held) := by
  obtain ⟨rfl, rfl, older⟩ := h
  cases found with
  | none =>
    cases s with
    | insertMarketPrice row =>
      obtain rfl : row = _ := allows
      obtain rfl : ks = [.marketPrice symbol] := order
      obtain ⟨none_, rfl⟩ := insertMarketPrice_answer timely answer
      have empty : db.marketPrices.find symbol = none := none_
      exact priced_of_written (Or.inl rfl) (by simp [empty])
    | _ => exact allows.elim
  | some found =>
    cases s with
    | updateMarketPrice loaded current =>
      obtain ⟨rfl, rfl, -⟩ := allows
      obtain ⟨same, m, there, newer⟩ := older loaded rfl
      obtain rfl := same
      rcases updateMarketPrice_answer timely answer with ⟨unchanged, rfl⟩ | ⟨changed, rfl, newest⟩
      · have free : ks = [] := by
          simpa [Stmt.takes, Stmt.unordered, Stmt.acquisitions, unchanged] using order
        subst free
        have again : observedAt = loaded.observedAt := congrArg MarketPrice.observedAt unchanged
        have after : (tickProtocol loaded.symbol price observedAt).after (.read (some loaded))
            (.updateMarketPrice loaded { loaded with price := price, observedAt := observedAt }) r =
              .priced false := by
          simp [tickProtocol, unchanged]
        rw [after]
        exact ⟨pricedAt_false ▸ overlays_nil, ⟨m, there, again ▸ newer⟩, by simp⟩
      · have taken : ks = [.marketPrice loaded.symbol] := by
          simpa [Stmt.takes, Stmt.unordered, Stmt.acquisitions, changed] using order
        subst taken
        have after : (tickProtocol loaded.symbol price observedAt).after (.read (some loaded))
            (.updateMarketPrice loaded { loaded with price := price, observedAt := observedAt }) r =
              .priced true := by
          simp [tickProtocol, changed]
        rw [after]
        exact priced_of_written (Or.inr rfl) newest
    | _ => exact allows.elim

theorem tickKnows.priced_answered {found : List Position} {ks : List Acquisition}
    (h : tickKnows num symbol price observedAt (.priced changed) db ws held)
    (saw : tickSaw symbol (.priced changed) seen db)
    (order : (Stmt.positionsBySymbolForUpdate symbol).takes seen ks)
    (answer : (Stmt.positionsBySymbolForUpdate symbol).answer num seen ((postgres num).view db ws) =
      .ok (found, vs)) :
    tickKnows num symbol price observedAt (.marking changed [] found) db (ws ++ vs)
      (ks.reverse ++ held) := by
  obtain ⟨overlays, known, free⟩ := h
  obtain ⟨rfl, rfl⟩ := Prod.mk.inj (Except.ok.inj answer)
  rw [List.append_nil]
  have row : ∀ p, p ∈ ((postgres num).view db ws).positions.rows ↔
      db.positions.find p.holding = some p := by
    intro p
    have same :
        ((postgres num).view db ws).positions.find p.holding = db.positions.find p.holding :=
      overlays.positions db p.holding
    exact ⟨fun mem => same ▸ Table.find_of_mem mem, fun found => Table.mem_of_find (same ▸ found)⟩
  have listed : ∀ p, p ∈ ([] : List Position) ++ ((postgres num).view db ws).positions.rows.filter
      (fun p => p.symbol = symbol ∧ (seen.positions.find p.holding).isSome) ↔
        db.positions.find p.holding = some p ∧ p.symbol = symbol ∧
          (seen.positions.find p.holding).isSome := by
    intro p
    rw [List.nil_append, List.mem_filter, row, decide_eq_true_iff]
  refine ⟨known.mono fun k mem => List.mem_append_right _ mem, _,
    { overlays, nodup := ?_, locked := fun k => ?_, base := fun p mem => ((listed p).1 mem).1,
      waiting := fun _ _ => rfl, marked := by simp, among := by simp, current := by simp }⟩
  · exact ((postgres num).view db ws).positions.nodup.sublist (List.filter_sublist.map _)
  · rw [List.mem_append, List.mem_reverse, Stmt.mem_of_takes order, or_iff_left (free k)]
    simp only [Stmt.acquisitions, List.mem_map, List.mem_filter, decide_eq_true_iff,
      Acquisition.positionRow.injEq]
    constructor
    · rintro ⟨q, ⟨mem, same⟩, rfl⟩
      have seen_ : (seen.positions.find q.holding).isSome := by rw [Table.find_of_mem mem]; rfl
      obtain ⟨p, there⟩ := Option.isSome_iff_exists.1 (saw _ seen_)
      have key := Table.find_key there
      refine ⟨p, (listed p).2 ⟨key.symm ▸ there, ?_, key.symm ▸ seen_⟩, key⟩
      exact (congrArg Prod.snd key).trans same
    · rintro ⟨p, mem, rfl⟩
      obtain ⟨-, same, there⟩ := (listed p).1 mem
      obtain ⟨q, found⟩ := Option.isSome_iff_exists.1 there
      exact ⟨q, ⟨Table.mem_of_find found, (congrArg Prod.snd (Table.find_key found)).trans same⟩,
        Table.find_key found⟩

theorem Marking.next
    (h : Marking num symbol price observedAt changed done (p :: todo) db ws held pos)
    (overlays : Overlays num (ws ++ vs) pos' (pricedAt symbol price observedAt changed))
    (here : (pos' p.holding).getD p = markedPosition price p)
    (others : ∀ k, k ≠ p.holding → pos' k = pos k)
    (current : ∀ m ∈ (pricedAt symbol price observedAt changed p.symbol).or
      (db.marketPrices.find p.symbol), m.price = price) :
    Marking num symbol price observedAt changed (p :: done) todo db (ws ++ vs) held pos' := by
  have perm : (p :: done ++ todo).Perm (done ++ p :: todo) := List.perm_middle.symm
  have nodup := (perm.map Position.holding).nodup_iff.2 h.nodup
  have apart : ∀ q ∈ done ++ todo, q.holding ≠ p.holding := by
    intro q mem same
    exact (List.nodup_cons.1 nodup).1 (List.mem_map.2 ⟨q, mem, same⟩)
  refine
    { overlays, nodup, locked := fun k => ?_, base := fun q mem => h.base q (perm.mem_iff.1 mem),
      waiting := fun q mem => ?_, marked := ?_, among := fun k row written => ?_, current := ?_ }
  · rw [h.locked]
    exact exists_congr fun q => and_congr_left fun _ => perm.mem_iff.symm
  · rw [others _ (apart q (List.mem_append_right _ mem))]
    exact h.waiting q (List.mem_cons_of_mem _ mem)
  · rintro q (_ | ⟨_, mem⟩)
    · exact here
    · rw [others _ (apart q (List.mem_append_left _ mem))]
      exact h.marked q mem
  · by_cases same : k = p.holding
    · exact ⟨p, List.mem_cons_self, same.symm⟩
    · obtain ⟨q, mem, holding⟩ := h.among k row (others k same ▸ written)
      exact ⟨q, List.mem_cons_of_mem _ mem, holding⟩
  · rintro q (_ | ⟨_, mem⟩)
    · exact current
    · exact h.current q mem

theorem tickKnows.marking_answered {u : Unit} {call : MarketCall} {ks : List Acquisition}
    (h : tickKnows num symbol price observedAt (.marking changed done (p :: todo)) db ws held)
    (of : call.price = some price)
    (timely : (Stmt.updatePosition p (markedPosition price p)).Timely num call
      ((postgres num).view db ws))
    (order : (Stmt.updatePosition p (markedPosition price p)).takes seen ks)
    (answer : (Stmt.updatePosition p (markedPosition price p)).answer num seen
      ((postgres num).view db ws) = .ok (u, vs)) :
    tickKnows num symbol price observedAt (.marking changed (p :: done) todo) db (ws ++ vs)
      (ks.reverse ++ held) := by
  obtain ⟨known, pos, marking⟩ := h
  obtain rfl : ks = [] := order
  have current := timely.2 price of
  rw [marking.overlays.prices] at current
  have listed : p ∈ done ++ p :: todo := List.mem_append_right _ List.mem_cons_self
  have waiting := marking.waiting p List.mem_cons_self
  have row : ((postgres num).view db ws).positions.find p.holding = some p := by
    rw [marking.overlays.positions, waiting, Option.none_or]
    exact marking.base p listed
  have key : (markedPosition price p).holding = p.holding := rfl
  refine ⟨known, ?_⟩
  rcases updatePosition_answer row key timely.1 answer with ⟨same, rfl⟩ | rfl
  · have overlays := marking.overlays
    rw [← List.append_nil ws] at overlays
    exact ⟨pos, marking.next overlays (by rw [waiting]; exact same.symm) (fun _ _ => rfl) current⟩
  · exact ⟨_, marking.next (marking.overlays.position _ (Or.inr rfl))
      (by rw [key, Function.update_self]; rfl)
      (fun k other => Function.update_of_ne other _ _) current⟩

theorem tickKnows.answered {β : Type} {s : Stmt β} {r : β} {ks : List Acquisition}
    {call : MarketCall} (h : tickKnows num symbol price observedAt g db ws held)
    (of : call.price = some price) (saw : tickSaw symbol g seen db)
    (allows : (tickProtocol symbol price observedAt).allows g s)
    (timely : s.Timely num call ((postgres num).view db ws)) (order : s.takes seen ks)
    (answer : s.answer num seen ((postgres num).view db ws) = .ok (r, vs)) :
    tickKnows num symbol price observedAt ((tickProtocol symbol price observedAt).after g s r) db
      (ws ++ vs) (ks.reverse ++ held) := by
  cases g with
  | opening =>
    cases s with
    | marketPrice =>
      obtain rfl := allows
      obtain rfl : ks = [] := order
      obtain ⟨rfl, rfl⟩ := Prod.mk.inj (Except.ok.inj answer)
      rw [List.append_nil]
      exact h.opening_answered saw
    | _ => exact allows.elim
  | read found => exact h.read_answered allows timely order answer
  | priced changed =>
    cases s with
    | positionsBySymbolForUpdate =>
      obtain rfl := allows
      exact h.priced_answered saw order answer
    | _ => exact allows.elim
  | marking changed done todo =>
    cases todo with
    | nil => exact allows.elim
    | cons p todo =>
      cases s with
      | updatePosition =>
        obtain ⟨rfl, rfl⟩ := allows
        exact h.marking_answered of timely order answer
      | _ => exact allows.elim
  | _ => exact h.elim

theorem tickKnows.overlays (h : tickKnows num symbol price observedAt g db ws held) :
    ∃ pos changed, Overlays num ws pos (pricedAt symbol price observedAt changed) := by
  cases g with
  | opening | read =>
    obtain rfl := h.1
    exact ⟨_, false, pricedAt_false ▸ overlays_nil⟩
  | priced changed => exact ⟨_, changed, h.1⟩
  | marking changed done todo =>
    obtain ⟨-, pos, marking⟩ := h
    exact ⟨pos, changed, marking.overlays⟩
  | _ => exact h.elim

theorem tickKnows.source (h : tickKnows num symbol price observedAt g db ws held) {s : String}
    {m : MarketPrice} (found : m ∈ ((postgres num).view db ws).marketPrices.find s) :
    m ∈ db.marketPrices.find s ∨ symbol = s ∧ m = ⟨symbol, price, observedAt⟩ := by
  obtain ⟨pos, changed, overlays⟩ := h.overlays
  rw [overlays.prices] at found
  cases written : pricedAt symbol price observedAt changed s with
  | none =>
    rw [written, Option.none_or] at found
    exact Or.inl found
  | some row =>
    rw [written, Option.some_or] at found
    obtain ⟨-, same, rfl⟩ := pricedAt_eq_some written
    exact Or.inr ⟨same, (Option.some.inj found).symm⟩

theorem Marking.commits
    (h : Marking num symbol price observedAt changed done [] db ws held pos)
    (known : PriceKnown symbol observedAt changed db held)
    (timely : TimelyCommit num heard db ws held)
    (marked : db.MarkedToMarket) :
    ((postgres num).view db ws).MarkedToMarket ∧ Shift held db ((postgres num).view db ws) := by
  have locked : ∀ p ∈ done, .positionRow p.holding ∈ held := fun p mem =>
    (h.locked _).2 ⟨p, List.mem_append_left _ mem, rfl⟩
  have base : ∀ p ∈ done, db.positions.find p.holding = some p := fun p mem =>
    h.base p (List.mem_append_left _ mem)
  have shift : Shift held db ((postgres num).view db ws) := by
    refine h.overlays.shift timely (fun k row written => ?_) fun s row written => ?_
    · obtain ⟨p, mem, rfl⟩ := h.among k row written
      exact Or.inl ⟨locked p mem, by rw [base p mem]; rfl⟩
    · obtain ⟨rfl, rfl, rfl⟩ := pricedAt_eq_some written
      exact known
  refine ⟨h.overlays.marked marked (fun k row written m found => ?_)
    fun k row written none_ p there => ?_,
    shift⟩
  · obtain ⟨p, mem, rfl⟩ := h.among k row written
    have marks := h.marked p mem
    rw [written, Option.getD_some] at marks
    rw [h.current p mem m found, marks]
    exact markedPosition_markedAt price p
  · have stored := h.overlays.prices db k.2
    rw [written, Option.some_or] at stored
    have named := Table.find_key stored
    by_cases same : db.marketPrices.find k.2 = some row
    · exact Db.markedToMarket_iff.1 marked k row same p there
    · have key := Table.find_key there
      have mine := timely.listed row (Table.mem_of_find stored) (named ▸ same) p
        (Table.mem_of_find there) ((congrArg Prod.snd key).trans named.symm)
      obtain ⟨q, mem, holding⟩ := (h.locked _).1 mine
      have mem : q ∈ done := by simpa using mem
      obtain rfl : q = p := Option.some.inj ((base q mem).symm.trans (holding.trans key ▸ there))
      have marks := h.marked q mem
      rw [key, none_, Option.getD_none] at marks
      obtain ⟨-, -, rfl⟩ := pricedAt_eq_some written
      exact marks ▸ markedPosition_markedAt price q

theorem tickKnows.commits (h : tickKnows num symbol price observedAt g db ws held)
    (done : g.TickDone observedAt) (timely : TimelyCommit num heard db ws held)
    (marked : db.MarkedToMarket) :
    ((postgres num).view db ws).MarkedToMarket ∧
      (∃ m ∈ ((postgres num).view db ws).marketPrices.find symbol, observedAt ≤ m.observedAt) ∧
      Shift held db ((postgres num).view db ws) := by
  cases g with
  | read found =>
    cases found with
    | none => exact done.elim
    | some row =>
      obtain ⟨rfl, rfl, older⟩ := h
      obtain ⟨-, m, there, newer⟩ := older row rfl
      have shift := overlays_nil.shift timely (by simp) (by simp)
      exact ⟨marked, ⟨m, there, done.le.trans newer⟩, shift⟩
  | marking changed marks todo =>
    cases todo with
    | cons => exact done.elim
    | nil =>
      obtain ⟨known, pos, marking⟩ := h
      obtain ⟨marked, shift⟩ := marking.commits known timely marked
      refine ⟨marked, ?_, shift⟩
      cases changed with
      | true =>
        refine ⟨⟨symbol, price, observedAt⟩, ?_, le_rfl⟩
        rw [marking.overlays.prices, pricedAt_true, Function.update_self]
        rfl
      | false =>
        obtain ⟨m, there, older⟩ := known
        exact ⟨m, by rw [marking.overlays.prices, pricedAt_false]; exact there, older⟩
  | _ => exact done.elim

end Rules

end OrderManagement
