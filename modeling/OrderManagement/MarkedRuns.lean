import Mathlib.Data.Fintype.Option
import OrderManagement.MarkingEvents
import OrderManagement.MarkingTicks
import OrderManagement.TickDeadlocks

/-! Ticks and fills side by side, each statement of them a step, with waits for locks. A tick
stores its price over whatever row it finds once it has waited, and a position that an event
opens is marked at a price that it has read long before. Where the steps are timely, every
position stays marked at the market price, which is that of the newest tick. -/

namespace OrderManagement

open LockWaits Program

namespace MarketCall

/-- The next step of a tick or an event, which has been answered `heard`, leaves no mark and no
price behind. -/
def Timely (num : Numeric) (call : MarketCall) (heard : List (Exchange Stmt)) (db : Db) :
    Phase Stmt Failure Db Write Acquisition Unit → Prop
  | .taking s _ _ ws _ [] => s.Timely num call ((postgres num).view db ws)
  | .running (.ret _) ws held => TimelyCommit num heard db ws held
  | _ => True

instance (num : Numeric) (call : MarketCall) (heard : List (Exchange Stmt)) (db : Db) :
    (p : Phase Stmt Failure Db Write Acquisition Unit) → Decidable (call.Timely num heard db p)
  | .taking s _ _ ws _ [] =>
    inferInstanceAs (Decidable (s.Timely num call ((postgres num).view db ws)))
  | .running (.ret _) ws held => inferInstanceAs (Decidable (TimelyCommit num heard db ws held))
  | .taking _ _ _ _ _ (_ :: _) | .running (.raise _) _ _ | .running (.request _ _) _ _
  | .committed _ | .failed _ => isTrue trivial

def knows (num : Numeric) (upper : String → String) :
    MarketCall → Insight → Db → List Write → List Acquisition → Prop
  | tick symbol price observedAt => tickKnows num (upper symbol) price observedAt
  | event _ => eventKnows num

def recalls : MarketCall → Insight → List (Exchange Stmt) → Prop
  | tick _ _ _, _, _ => True
  | event _, g, heard => eventRecalls g heard

def saw (upper : String → String) : MarketCall → Insight → Db → Db → Prop
  | tick symbol _ _ => tickSaw (upper symbol)
  | event _ => eventSaw

def Stands (upper : String → String) : MarketCall → Db → Prop
  | tick symbol _ observedAt, db =>
    ∃ m ∈ db.marketPrices.find (upper symbol), observedAt ≤ m.observedAt
  | event _, _ => True

end MarketCall

section Runs

variable {ι : Type} {num : Numeric} {upper : String → String} {call : ι → MarketCall} {db : Db}
  {t : Site Stmt Failure Db Write Acquisition ι Unit}

/-- After a run from `db`, the market price in a symbol is no older than the committed ticks
there; it was there before or is that of a committed tick, and positions are marked at it. -/
structure MarksKept (upper : String → String) (call : ι → MarketCall) (db : Db)
    (t : Site Stmt Failure Db Write Acquisition ι Unit) : Prop where
  newest : ∀ i symbol price observedAt, call i = .tick symbol price observedAt →
    t.phase i = .committed () →
      ∃ m ∈ t.db.marketPrices.find (upper symbol), observedAt ≤ m.observedAt
  source : ∀ s, ∀ m ∈ t.db.marketPrices.find s, m ∈ db.marketPrices.find s ∨
    ∃ i symbol price observedAt, call i = .tick symbol price observedAt ∧
      t.phase i = .committed () ∧ upper symbol = s ∧ m = ⟨s, price, observedAt⟩
  marked : t.db.MarkedToMarket

def marketFacts (num : Numeric) (upper : String → String) (call : ι → MarketCall) :
    Facts Stmt Db Write Acquisition ι Unit Insight where
  Inv := Db.MarkedToMarket
  Done i _ g := g.Done (call i)
  Recalls i := (call i).recalls
  Knows i := (call i).knows num upper
  Saw i := (call i).saw upper
  Settled i := (call i).Stands upper
  Shift := Shift

theorem MarketCall.first_knows (num : Numeric) (upper : String → String) (x : MarketCall)
    (db : Db) :
    x.knows num upper x.first db [] [] := by
  cases x with
  | tick => exact ⟨rfl, rfl⟩
  | event => exact overlays_nil

namespace MarketCall

variable {x : MarketCall} {g : Insight} {db' seen : Db} {ws vs : List Write}
  {held other : List Acquisition} {heard : List (Exchange Stmt)}

theorem first_recalls (x : MarketCall) : x.recalls x.first [] := by
  cases x <;> trivial

theorem recalls_after {β : Type} {s : Stmt β} (r : β) (allows : (x.protocol upper).allows g s)
    (h : x.recalls g heard) : x.recalls ((x.protocol upper).after g s r) (⟨s, r⟩ :: heard) := by
  cases x with
  | tick => trivial
  | event => exact eventRecalls.after r allows h

theorem knows_begins (h : x.knows num upper g db ws held) :
    x.saw upper g ((postgres num).view db ws) db := by
  cases x with
  | tick => exact tickKnows.begins h
  | event => exact eventKnows.begins h

theorem knows_answered {β : Type} {s : Stmt β} {r : β} {ks : List Acquisition}
    (h : x.knows num upper g db ws held) (saw : x.saw upper g seen db)
    (allows : (x.protocol upper).allows g s)
    (timely : s.Timely num x ((postgres num).view db ws)) (order : s.takes seen ks)
    (answer : s.answer num seen ((postgres num).view db ws) = .ok (r, vs)) :
    (x.protocol upper).expected s r ∧
      x.knows num upper ((x.protocol upper).after g s r) db (ws ++ vs) (ks.reverse ++ held) := by
  cases x with
  | tick => exact ⟨trivial, tickKnows.answered h rfl saw allows timely order answer⟩
  | event => exact ⟨trivial, eventKnows.answered h saw allows timely order answer⟩

theorem knows_commits (h : x.knows num upper g db ws held) (done : g.Done x)
    (recalls : x.recalls g heard) (timely : TimelyCommit num heard db ws held)
    (marked : db.MarkedToMarket) :
    ((postgres num).view db ws).MarkedToMarket ∧ x.Stands upper ((postgres num).view db ws) ∧
      Shift held db ((postgres num).view db ws) := by
  cases x with
  | tick => exact tickKnows.commits h done timely marked
  | event =>
    obtain ⟨marked, shift⟩ := eventKnows.commits h recalls timely marked
    exact ⟨marked, trivial, shift⟩

theorem knows_shift (h : x.knows num upper g db ws held) (shift : Shift other db db')
    (apart : ∀ k ∈ held, k ∉ other) : x.knows num upper g db' ws held := by
  cases x with
  | tick => exact tickKnows.shift h shift apart
  | event => exact eventKnows.shift h shift apart

theorem saw_shift (h : x.knows num upper g db ws held) (saw : x.saw upper g seen db)
    (shift : Shift other db db') (apart : ∀ k ∈ held, k ∉ other) : x.saw upper g seen db' := by
  cases x with
  | tick => exact tickSaw.shift saw shift
  | event => exact eventSaw.shift h saw shift apart

theorem Stands.shift (h : x.Stands upper db) (shift : Shift other db db') : x.Stands upper db' := by
  cases x with
  | tick =>
    obtain ⟨m, there, older⟩ := h
    obtain ⟨m', there', newer⟩ := shift.newer _ m there
    exact ⟨m', there', older.trans newer⟩
  | event => trivial

theorem knows_source (h : x.knows num upper g db ws held) {s : String} {m : MarketPrice}
    (found : m ∈ ((postgres num).view db ws).marketPrices.find s) : m ∈ db.marketPrices.find s ∨
      ∃ symbol price observedAt, x = .tick symbol price observedAt ∧ upper symbol = s ∧
        m = ⟨s, price, observedAt⟩ := by
  cases x with
  | tick symbol price observedAt =>
    rcases tickKnows.source h found with old | ⟨rfl, rfl⟩
    · exact Or.inl old
    · exact Or.inr ⟨_, _, _, rfl, rfl, rfl⟩
  | event => exact Or.inl (eventKnows.prices h s ▸ found)

end MarketCall

theorem market_informed (num : Numeric) (upper : String → String) (call : ι → MarketCall) :
    Informed (waitingPostgres num) (fun t i => (call i).Timely num (t.heard i) t.db (t.phase i))
      (fun i => (call i).program upper) (fun i => (call i).protocol upper)
      (marketFacts num upper call) where
  start i db _ := ⟨(call i).first, (call i).program_insight upper, (call i).first_recalls,
    (call i).first_knows num upper db⟩
  recalls := MarketCall.recalls_after
  begins := MarketCall.knows_begins
  answered := by
    intro t i g β s next seen ws vs before ks r timely phase _ allows order knows saw answer
    simp only [phase, MarketCall.Timely] at timely
    exact MarketCall.knows_answered knows saw allows timely order answer
  commits := by
    intro t i g a ws held timely phase marked done recalls knows
    simp only [phase, MarketCall.Timely] at timely
    exact MarketCall.knows_commits knows done recalls timely marked
  knows := fun shift apart knows => MarketCall.knows_shift knows shift apart
  saw := fun shift apart knows saw => MarketCall.saw_shift knows saw shift apart
  settled := fun shift stands => MarketCall.Stands.shift stands shift

variable [DecidableEq ι]

theorem Reaches.market_source (marked : db.MarkedToMarket)
    (reaches : Reaches (waitingPostgres num)
      (fun t i => (call i).Timely num (t.heard i) t.db (t.phase i))
      (start db fun i => (call i).program upper) t) {s : String} {m : MarketPrice}
    (found : m ∈ t.db.marketPrices.find s) : m ∈ db.marketPrices.find s ∨
      ∃ i symbol price observedAt, call i = .tick symbol price observedAt ∧
        t.phase i = .committed () ∧ upper symbol = s ∧ m = ⟨s, price, observedAt⟩ := by
  induction reaches with
  | start => exact Or.inl found
  | @step t t' i before meets step ih =>
    have stays : m ∈ t.db.marketPrices.find s → m ∈ db.marketPrices.find s ∨
        ∃ i symbol price observedAt, call i = .tick symbol price observedAt ∧
          t'.phase i = .committed () ∧ upper symbol = s ∧ m = ⟨s, price, observedAt⟩ := by
      intro old
      refine (ih old).imp_right ?_
      rintro ⟨j, symbol, price, observedAt, tick, committed, rest⟩
      exact ⟨j, symbol, price, observedAt, tick, step.committed_stays committed, rest⟩
    cases step with
    | committed phase =>
      have known := (before.informed (market_informed num upper call) marked).2 i
      rw [phase] at known
      cases known with
      | running follows recalls knows =>
        rcases MarketCall.knows_source knows found with
          old | ⟨symbol, price, observedAt, tick, rest⟩
        · exact stays old
        · exact Or.inr ⟨i, symbol, price, observedAt, tick, by simp [Site.commit, Site.go], rest⟩
    | _ => exact stays found

end Runs

/-! Two fills, the first of which opens a position, and a tick. The tick reads its market price
while the position is being opened, lists it once it is committed and waits for the other fill. -/

def openingDb : Db :=
  TransitionRuns.run (step (.exact {} id))
    (openAccounts .exact [(1, traderAccount), (11, secondAccount)]) [.createOrder ⟨2, 0⟩ limitBuy,
      .createOrder ⟨12, 0⟩ secondBuy, .processEvent secondFill, .applyTick "AAPL" 25 0]

def tickBehindFills : Option Bool → MarketCall
  | some false => .event partialFill
  | some true => .event { secondFill with
      eventId := 5
      executionId := some "execution-7"
      validateFillPayload := fun _ =>
        ⟨by norm_num [secondFill], ⟨21, rfl, by norm_num⟩, ⟨"execution-7", rfl, by decide⟩⟩ }
  | none => .tick "AAPL" 30 10

def tickWaits : Option (Site Stmt Failure Db Write Acquisition (Option Bool) Unit) :=
  scheduleMeeting (waitingPostgres .exact)
    (fun t i => (tickBehindFills i).Timely .exact (t.heard i) t.db (t.phase i))
    (start openingDb fun i => (tickBehindFills i).program id)
    (turns (some false) [([.orderRow 2], 6), ([.fillKey 3, .executionKey "execution-1"], 3),
        ([.accountRow 1], 10), ([.positionKey (1, "AAPL")], 4)] ++
      turns (some true) [([.orderRow 12], 6), ([.fillKey 5, .executionKey "execution-7"], 3),
        ([.accountRow 11], 2), ([.positionRow (11, "AAPL")], 4)] ++
      turns none [([], 1)] ++ turns (some false) [([], 5), ([.processedKey 3], 3)] ++
      turns none [([.marketPrice "AAPL"], 2),
        ([.positionRow (1, "AAPL"), .positionRow (11, "AAPL")], 1)] ++
      turns (some true) [([], 7), ([.processedKey 5], 3)] ++ turns none [([], 6)])

def rivalTick : Bool → MarketCall
  | false => .tick "AAPL" 30 10
  | true => .tick "AAPL" 28 5

/-- A transaction reads, stores its price, locks and marks both positions, and commits. -/
def staleTick : Option (Site Stmt Failure Db Write Acquisition Bool Unit) :=
  schedule (waitingPostgres .exact) (start markedDb fun i => (rivalTick i).program id)
    ([(false, []), (false, []), (true, []), (true, []), (true, [.marketPrice "AAPL"])] ++
      [false, true].flatMap fun i =>
        (if i then [] else [(i, [.marketPrice "AAPL"])]) ++ [(i, []), (i, []),
          (i, [.positionRow (1, "AAPL"), .positionRow (11, "AAPL")]), (i, []), (i, []), (i, []),
          (i, []), (i, []), (i, []), (i, []), (i, [])])

end OrderManagement
