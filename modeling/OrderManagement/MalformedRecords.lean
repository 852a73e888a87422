import OrderManagement.PayloadTicks

/-! Malformed records. A message gives the ticks of its records one by one unless one of them
raises; the records that do are those with a price that is no number, or with a good price and
a timestamp outside the calendar. -/

namespace PayloadTicks

open BinaryFloats DecimalNumerals

def itemTicks (py : Library) : Json → Except Raised (List QuotedTick)
  | .dict record => (recordTick py record).map Option.toList
  | _ => .ok []

structure QuotedTick.Usable (t : QuotedTick) : Prop where
  price : ∃ value, t.price = .finite value ∧ 0 < value
  aware : t.observedAt.Aware

variable {py : Library} {records : List Json} {ticks result : List QuotedTick}

theorem extend_cons (ticks : List QuotedTick) (item : Json) (rest : List Json) :
    extend py ticks (item :: rest) =
      (itemTicks py item).bind fun part => extend py (ticks ++ part) rest := by
  cases item with
  | dict record =>
    simp only [extend, itemTicks]
    cases recordTick py record with
    | error e => rfl
    | ok tick => cases tick <;> simp [bind, Except.bind, Except.map]
  | _ => simp [extend, itemTicks, Except.bind]

/-- The loop returns when every record does, with the ticks of all in their order. -/
theorem extend_ok_iff : extend py ticks records = .ok result ↔
    ∃ parts, List.Forall₂ (fun item part => itemTicks py item = .ok part) records parts ∧
      result = ticks ++ parts.flatten := by
  induction records generalizing ticks with
  | nil =>
    constructor
    · intro h
      cases h
      exact ⟨[], .nil, by simp⟩
    · rintro ⟨parts, each, rfl⟩
      cases each
      simp [extend]
  | cons item rest ih =>
    rw [extend_cons]
    constructor
    · intro h
      cases own : itemTicks py item with
      | error e => simp [own, Except.bind] at h
      | ok part =>
        obtain ⟨parts, each, rfl⟩ := ih.1 (by simpa only [own, Except.bind] using h)
        exact ⟨part :: parts, .cons own each, by simp⟩
    · rintro ⟨parts, each, rfl⟩
      cases each with
      | cons own each =>
        rw [own]
        exact ih.2 ⟨_, each, by simp⟩

theorem payloadTicks_singleton (item : Json) :
    payloadTicks py (.list [item]) = itemTicks py item := by
  change extend py [] [item] = _
  rw [extend_cons]
  cases itemTicks py item with
  | error e => rfl
  | ok part => simp [Except.bind, extend]

/-- The record raises nothing, and gives no tick without a finite price. -/
def Harmless (py : Library) (record : Record) : Prop :=
  (symbolField record).truthy → ∀ price ∈ decimal py (priceField record),
    price ≠ .nan ∧ price ≠ .infinity false ∧
      ((∃ value, price = .finite value ∧ 0 < value) → Datable (timestampField record))

theorem decimal_of_isNone {value : Json} (h : value.isNone) : decimal py value = none := by
  cases value with
  | null => rfl
  | _ => cases h

theorem recordTick_priced {record : Record} {price : Dec} (symbol : (symbolField record).truthy)
    (read : decimal py (priceField record) = some price) :
    recordTick py record = (notPositive price).bind fun skip =>
      if skip then .ok none
      else (parseTimestamp py (timestampField record)).map fun observedAt =>
        some ⟨py.upper (py.str (symbolField record)), price, observedAt⟩ := by
  have present : (priceField record).isNone = false := by
    by_contra absent
    rw [decimal_of_isNone (Bool.eq_true_of_not_eq_false absent)] at read
    cases read
  have enters : (!(symbolField record).truthy || (priceField record).isNone) = false := by
    simp [symbol, present]
  unfold recordTick
  rw [read, if_neg (by simp [enters])]
  dsimp only
  cases notPositive price with
  | error e => rfl
  | ok skip =>
    cases skip with
    | true => rfl
    | false => cases parseTimestamp py (timestampField record) <;> rfl

theorem recordTick_skipped {record : Record}
    (h : (symbolField record).truthy = false ∨ decimal py (priceField record) = none) :
    recordTick py record = .ok none := by
  unfold recordTick
  split
  · rfl
  next present =>
    simp only [Bool.or_eq_true, Bool.not_eq_true', not_or, Bool.not_eq_false] at present
    rw [h.resolve_left (by simp [present.1])]

theorem exists_map_ok {α β : Type} {x : Except Raised α} {f : α → β} {P : β → Prop} :
    (∃ b, x.map f = .ok b ∧ P b) ↔ ∃ a, x = .ok a ∧ P (f a) := by
  cases x <;> simp [Except.map]

theorem recordTick_usable_iff {record : Record} :
    (∃ tick, recordTick py record = .ok tick ∧ ∀ t ∈ tick, t.Usable) ↔ Harmless py record := by
  by_cases symbol : (symbolField record).truthy
  case neg =>
    have skipped : recordTick py record = .ok none :=
      recordTick_skipped (Or.inl (Bool.eq_false_of_not_eq_true symbol))
    exact ⟨fun _ truthy => absurd truthy symbol, fun _ => ⟨none, skipped, by simp⟩⟩
  cases read : decimal py (priceField record) with
  | none =>
    refine ⟨fun _ _ price mem => ?_, fun _ => ⟨none, recordTick_skipped (Or.inr read), by simp⟩⟩
    rw [read] at mem
    cases mem
  | some price =>
    have harmless : Harmless py record ↔ price ≠ .nan ∧ price ≠ .infinity false ∧
        ((∃ value, price = .finite value ∧ 0 < value) → Datable (timestampField record)) :=
      ⟨fun h => h symbol price read, fun h _ other mem => by
        cases Option.mem_unique mem read
        exact h⟩
    rw [harmless, recordTick_priced symbol read]
    cases price with
    | nan => simp [notPositive, Except.bind]
    | infinity negative =>
      cases negative with
      | true => simp [notPositive, Except.bind]
      | false =>
        simp only [notPositive, Except.bind, Bool.false_eq_true, if_false, exists_map_ok]
        refine ⟨fun ⟨observedAt, _, usable⟩ => ?_, fun h => absurd rfl h.2.1⟩
        obtain ⟨value, eq, -⟩ := (usable _ rfl).price
        cases eq
    | finite value =>
      by_cases positive : 0 < value
      · have kept : decide (value ≤ 0) = false := by simpa using positive
        simp only [notPositive, Except.bind, kept, Bool.false_eq_true, if_false, exists_map_ok]
        constructor
        · rintro ⟨observedAt, parsed, -⟩
          exact ⟨by simp, by simp, fun _ => parseTimestamp_ok_iff.1 ⟨_, parsed⟩⟩
        · rintro ⟨-, -, datable⟩
          obtain ⟨observedAt, parsed⟩ : ∃ observedAt,
              parseTimestamp py (timestampField record) = .ok observedAt :=
            parseTimestamp_ok_iff.2 (datable ⟨value, rfl, positive⟩)
          refine ⟨observedAt, parsed, fun t mem => ?_⟩
          cases mem
          exact ⟨⟨value, rfl, positive⟩, parseTimestamp_aware parsed⟩
      · have skipped : decide (value ≤ 0) = true := by simpa using positive
        simp only [notPositive, Except.bind, skipped, if_true]
        refine ⟨fun _ => ⟨by simp, by simp, ?_⟩, fun _ => ⟨none, rfl, by simp⟩⟩
        rintro ⟨_, same, positive'⟩
        cases same
        exact absurd positive' positive

theorem itemTicks_usable_iff {item : Json} :
    (∃ part, itemTicks py item = .ok part ∧ ∀ t ∈ part, t.Usable) ↔
      ∀ record, item = .dict record → Harmless py record := by
  cases item with
  | dict record =>
    simp only [itemTicks, exists_map_ok, Option.mem_toList, Json.dict.injEq, forall_eq']
    exact recordTick_usable_iff
  | _ => exact ⟨(fun _ _ eq => by cases eq), fun _ => ⟨[], rfl, by simp⟩⟩

theorem exists_parts (h : ∀ item ∈ records,
    ∃ part, itemTicks py item = .ok part ∧ ∀ t ∈ part, t.Usable) :
    ∃ parts, List.Forall₂ (fun item part => itemTicks py item = .ok part) records parts ∧
      ∀ t ∈ parts.flatten, t.Usable := by
  induction records with
  | nil => exact ⟨[], .nil, by simp⟩
  | cons item rest ih =>
    obtain ⟨part, own, usable⟩ := h item (by simp)
    obtain ⟨parts, each, usables⟩ := ih fun other mem => h other (by simp [mem])
    refine ⟨part :: parts, .cons own each, fun t mem => ?_⟩
    rw [List.flatten_cons, List.mem_append] at mem
    exact mem.elim (usable t) (usables t)

theorem usable_of_parts {parts : List (List QuotedTick)}
    (each : List.Forall₂ (fun item part => itemTicks py item = .ok part) records parts)
    (usable : ∀ t ∈ parts.flatten, t.Usable) {item : Json} (mem : item ∈ records) :
    ∃ part, itemTicks py item = .ok part ∧ ∀ t ∈ part, t.Usable := by
  induction each with
  | nil => cases mem
  | @cons _ part _ parts own _ ih =>
    have head : ∀ t ∈ part, t.Usable := fun t inPart => usable t (by simp [inPart])
    have tail : ∀ t ∈ parts.flatten, t.Usable := fun t inRest => usable t (by simp_all)
    rcases List.mem_cons.1 mem with rfl | rest
    · exact ⟨part, own, head⟩
    · exact ih tail rest

section

variable {Message : Type}

/-- The message gives the usable ticks of its records, one record after the other. -/
def Unsuppressed (py : Library) (loads : Message → Except LoadError Json) (rawMessage : Message) :
    Prop :=
  ∃ ticks, extractTicks py loads rawMessage = .ok ticks ∧
    (∀ items, loads rawMessage = .ok (.list items) →
      ∃ parts, List.Forall₂ (fun item part => payloadTicks py (.list [item]) = .ok part)
        items parts ∧ ticks = parts.flatten) ∧
    ∀ t ∈ ticks, t.Usable

def Deliverable (py : Library) (loads : Message → Except LoadError Json) (rawMessage : Message) :
    Prop :=
  match loads rawMessage with
  | .ok payload => ∀ record, .dict record ∈ payload.records → Harmless py record
  | .error .other => False
  | .error _ => True

theorem unsuppressed_iff (py : Library) (loads : Message → Except LoadError Json)
    (rawMessage : Message) :
    Unsuppressed py loads rawMessage ↔ Deliverable py loads rawMessage := by
  unfold Unsuppressed Deliverable extractTicks
  cases load : loads rawMessage with
  | error e => cases e <;> simp
  | ok payload =>
    simp only [payloadTicks_singleton, Except.ok.injEq]
    constructor
    · rintro ⟨ticks, ran, -, usable⟩ record mem
      obtain ⟨parts, each, rfl⟩ := extend_ok_iff.1 ran
      exact itemTicks_usable_iff.1 (usable_of_parts each usable mem) record rfl
    · intro harmless
      have each_usable : ∀ item ∈ payload.records,
          ∃ part, itemTicks py item = .ok part ∧ ∀ t ∈ part, t.Usable :=
        fun item mem => itemTicks_usable_iff.2 fun record eq => harmless record (eq ▸ mem)
      obtain ⟨parts, each, usable⟩ := exists_parts each_usable
      refine ⟨parts.flatten, extend_ok_iff.2 ⟨parts, each, by simp⟩, ?_, usable⟩
      rintro items rfl
      exact ⟨parts, each, rfl⟩

end

def asciiLibrary : Library where
  digits := ⟨fun c => c = codePoint ' ', fun _ => none⟩
  str
    | .str t => t
    | _ => []
  upper t := t.map fun c => if 97 ≤ c.val ∧ c.val ≤ 122 then c - 32 else c
  fromisoformat _ := none

def quote (price : Json) : Record :=
  [(text "symbol", .str (text "ACME")), (text "price", price)]

theorem not_unsuppressed_nan :
    (payloadTicks asciiLibrary (.list [.dict (quote (.str (text "10.5")))])).toOption.map
      (List.map QuotedTick.price) = some [.finite (21 / 2)] ∧
    ¬ Unsuppressed asciiLibrary Except.ok
      (.list [.dict (quote (.str (text "10.5"))), .dict (quote (.float .nan))]) := by
  refine ⟨by decide +kernel, ?_⟩
  rintro ⟨ticks, ran, -, usable⟩
  obtain ⟨parts, each, rfl⟩ := extend_ok_iff.1 ran
  have harmless := itemTicks_usable_iff.1 (usable_of_parts each usable
    (show .dict (quote (.float .nan)) ∈ _ by simp [Json.records])) _ rfl
  exact (harmless (by decide +kernel) .nan (by decide +kernel)).1 rfl

end PayloadTicks
