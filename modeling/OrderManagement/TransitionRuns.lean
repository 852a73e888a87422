import Mathlib.Algebra.Group.Basic
import Mathlib.Tactic.Abel
import Mathlib.Algebra.Order.Ring.Abs
import Mathlib.Data.Nat.Cast.Basic
import Mathlib.Tactic.Common
import Mathlib.Tactic.Linarith

/-! Runs of a deterministic step function over a list of inputs: invariants, runs
whose steps all meet a condition, two runs side by side, and amounts summed over
the steps of a run. -/

namespace OrderManagement.TransitionRuns

variable {σ ι M : Type}

def run (step : σ → ι → σ) (s : σ) (inputs : List ι) : σ := inputs.foldl step s

variable {step : σ → ι → σ} {s : σ} {inputs : List ι}

@[simp] theorem run_nil (step : σ → ι → σ) (s : σ) : run step s [] = s := rfl

@[simp] theorem run_cons (step : σ → ι → σ) (s : σ) (i : ι) (inputs : List ι) :
    run step s (i :: inputs) = run step (step s i) inputs := rfl

theorem run_append (step : σ → ι → σ) (s : σ) (first second : List ι) :
    run step s (first ++ second) = run step (run step s first) second := List.foldl_append

theorem run_map {κ : Type} (f : κ → ι) (keys : List κ) :
    run (fun s k => step s (f k)) s keys = run step s (keys.map f) := List.foldl_map.symm

theorem run_invariant (Inv : σ → Prop) (keeps : ∀ s i, Inv s → Inv (step s i)) (start : Inv s) :
    Inv (run step s inputs) := by
  induction inputs generalizing s with
  | nil => exact start
  | cons i inputs ih => exact ih (keeps s i start)

def Along (step : σ → ι → σ) (P : σ → ι → Prop) : σ → List ι → Prop
  | _, [] => True
  | s, i :: inputs => P s i ∧ Along step P (step s i) inputs

instance decidableAlong (step : σ → ι → σ) (P : σ → ι → Prop) [∀ s i, Decidable (P s i)] :
    (s : σ) → (inputs : List ι) → Decidable (Along step P s inputs)
  | _, [] => .isTrue trivial
  | s, i :: inputs =>
    have := decidableAlong step P (step s i) inputs
    inferInstanceAs (Decidable (P s i ∧ Along step P (step s i) inputs))

theorem run_invariant_along {P : σ → ι → Prop} (Inv : σ → Prop)
    (keeps : ∀ s i, Inv s → P s i → Inv (step s i)) (start : Inv s)
    (along : Along step P s inputs) : Inv (run step s inputs) := by
  induction inputs generalizing s with
  | nil => exact start
  | cons i inputs ih => exact ih (keeps s i start along.1) along.2

theorem along_of_invariant {P : σ → ι → Prop} (Inv : σ → Prop)
    (keeps : ∀ s i, Inv s → Inv (step s i)) (meets : ∀ s i, Inv s → P s i) (start : Inv s) :
    Along step P s inputs := by
  induction inputs generalizing s with
  | nil => trivial
  | cons i inputs ih => exact ⟨meets s i start, ih (keeps s i start)⟩

/-- Steps that each lower a weight are at most as many as the weight they start from. -/
theorem length_le_of_falls {P : σ → ι → Prop} (weight : σ → ℕ)
    (falls : ∀ s i, P s i → weight (step s i) < weight s) (along : Along step P s inputs) :
    inputs.length ≤ weight s := by
  induction inputs generalizing s with
  | nil => exact Nat.zero_le _
  | cons i inputs ih => exact (Nat.succ_le_succ (ih along.2)).trans (falls s i along.1)

def flow [AddCommGroup M] (step : σ → ι → σ) (amount : σ → ι → M) : σ → List ι → M
  | _, [] => 0
  | s, i :: inputs => amount s i + flow step amount (step s i) inputs

/-- Amounts that are each the fall of one quantity sum to its fall over the run. -/
theorem flow_eq_fall [AddCommGroup M] {amount : σ → ι → M} {quantity : σ → M} (Inv : σ → Prop)
    (keeps : ∀ s i, Inv s → Inv (step s i))
    (falls : ∀ s i, Inv s → amount s i = quantity s - quantity (step s i)) (start : Inv s) :
    flow step amount s inputs = quantity s - quantity (run step s inputs) := by
  induction inputs generalizing s with
  | nil => simp [flow]
  | cons i inputs ih =>
    rw [flow, ih (keeps s i start), falls s i start, run_cons]
    abel

def tally (step : σ → ι → σ) (P : σ → ι → Prop) [∀ s i, Decidable (P s i)] : σ → List ι → ℕ
  | _, [] => 0
  | s, i :: inputs => (if P s i then 1 else 0) + tally step P (step s i) inputs

/-- A quantity that the steps meeting `P` move by at most `unit`, and the others not at all. -/
theorem abs_sub_run_le {R : Type} [CommRing R] [LinearOrder R] [IsStrictOrderedRing R]
    {P C : σ → ι → Prop} [∀ s i, Decidable (P s i)] (quantity : σ → R) {unit : R} (Inv : σ → Prop)
    (keeps : ∀ s i, Inv s → C s i → Inv (step s i))
    (moves : ∀ s i, Inv s → C s i →
      |quantity (step s i) - quantity s| ≤ if P s i then unit else 0)
    (start : Inv s) (along : Along step C s inputs) :
    |quantity (run step s inputs) - quantity s| ≤ tally step P s inputs * unit := by
  induction inputs generalizing s with
  | nil => simp [tally]
  | cons i inputs ih =>
    have rest := ih (keeps s i start along.1) along.2
    have first := moves s i start along.1
    have split :=
      abs_sub_le (quantity (run step (step s i) inputs)) (quantity (step s i)) (quantity s)
    rw [run_cons, tally]
    split_ifs at first ⊢ with meets
    · push_cast
      linarith
    · rw [zero_add]
      linarith

def emitted {β : Type} (step : σ → ι → σ) (out : σ → ι → List β) : σ → List ι → List β
  | _, [] => []
  | s, i :: inputs => out s i ++ emitted step out (step s i) inputs

theorem emitted_append {β : Type} (out : σ → ι → List β) (first second : List ι) :
    emitted step out s (first ++ second) =
      emitted step out s first ++ emitted step out (run step s first) second := by
  induction first generalizing s with
  | nil => rfl
  | cons i first ih => rw [List.cons_append, emitted, ih, run_cons, emitted, List.append_assoc]

/-- A log that every step extends by its output is the output of the run. -/
theorem log_run {β : Type} {out : σ → ι → List β} (Inv : σ → Prop) (log : σ → List β)
    (keeps : ∀ s i, Inv s → Inv (step s i))
    (appends : ∀ s i, Inv s → log (step s i) = log s ++ out s i) (start : Inv s)
    (inputs : List ι) : log (run step s inputs) = log s ++ emitted step out s inputs := by
  induction inputs generalizing s with
  | nil => simp [emitted]
  | cons i inputs ih =>
    rw [run_cons, ih (keeps s i start), appends s i start, List.append_assoc]
    rfl

/-- Outputs that are each among what a step adds to a log. -/
theorem emitted_sublist {β : Type} {out : σ → ι → List β} (Inv : σ → Prop) (log : σ → List β)
    (keeps : ∀ s i, Inv s → Inv (step s i))
    (adds : ∀ s i, Inv s → ∃ new, log (step s i) = log s ++ new ∧ (out s i).Sublist new)
    (start : Inv s) (inputs : List ι) :
    ∃ new, log (run step s inputs) = log s ++ new ∧ (emitted step out s inputs).Sublist new := by
  induction inputs generalizing s with
  | nil => exact ⟨[], by simp, .slnil⟩
  | cons i inputs ih =>
    obtain ⟨first, eq, sub⟩ := adds s i start
    obtain ⟨rest, eq', sub'⟩ := ih (keeps s i start)
    exact ⟨first ++ rest, by rw [run_cons, eq', eq, List.append_assoc], sub.append sub'⟩

theorem filterMap_emitted {β γ : Type} (f : β → Option γ) (out : σ → ι → List β) :
    (emitted step out s inputs).filterMap f =
      emitted step (fun s i => (out s i).filterMap f) s inputs := by
  induction inputs generalizing s with
  | nil => rfl
  | cons i inputs ih => rw [emitted, List.filterMap_append, ih, emitted]

theorem map_emitted {β γ : Type} (f : β → γ) (out : σ → ι → List β) :
    (emitted step out s inputs).map f = emitted step (fun s i => (out s i).map f) s inputs := by
  induction inputs generalizing s with
  | nil => rfl
  | cons i inputs ih => rw [emitted, List.map_append, ih, emitted]

def kept (step : σ → ι → σ) (keep : σ → ι → Bool) : σ → List ι → List ι :=
  emitted step fun s i => if keep s i then [i] else []

/-- Dropping inputs whose steps the relation `R` cannot see, in a run whose steps meet `P`. -/
theorem run_kept_along {keep : σ → ι → Bool} {P : σ → ι → Prop} {t : σ} (R : σ → σ → Prop)
    (dropped : ∀ s t i, R s t → P s i → keep s i = false → R (step s i) t)
    (selected : ∀ s t i, R s t → P s i → keep s i = true → R (step s i) (step t i))
    (along : Along step P s inputs) (related : R s t) :
    R (run step s inputs) (run step t (kept step keep s inputs)) := by
  induction inputs generalizing s t with
  | nil => exact related
  | cons i inputs ih =>
    cases h : keep s i with
    | false => simpa [kept, emitted, h] using ih along.2 (dropped s t i related along.1 h)
    | true => simpa [kept, emitted, h] using ih along.2 (selected s t i related along.1 h)

theorem run_kept {keep : σ → ι → Bool} {t : σ} (Inv : σ → Prop) (R : σ → σ → Prop)
    (keeps : ∀ s i, Inv s → Inv (step s i))
    (dropped : ∀ s t i, Inv s → R s t → keep s i = false → R (step s i) t)
    (selected : ∀ s t i, Inv s → R s t → keep s i = true → R (step s i) (step t i))
    (start : Inv s) (related : R s t) :
    R (run step s inputs) (run step t (kept step keep s inputs)) := by
  have along : Along step (fun s _ => Inv s) s inputs :=
    along_of_invariant Inv keeps (fun _ _ inv => inv) start
  exact run_kept_along R (fun s t i related inv => dropped s t i inv related)
    (fun s t i related inv => selected s t i inv related) along related

/-- A run that leaves steps of another one out is the other one on fewer inputs. -/
theorem run_skipping {β : Type} {skip : σ → ι → σ} {out emits : σ → ι → List β}
    (cases : ∀ s i, (skip s i = step s i ∧ emits s i = out s i) ∨ (skip s i = s ∧ emits s i = []))
    (s : σ) (inputs : List ι) :
    ∃ fewer, run skip s inputs = run step s fewer ∧
      emitted skip emits s inputs = emitted step out s fewer ∧
      ∀ P : σ → ι → Prop, Along skip P s inputs → Along step P s fewer := by
  induction inputs generalizing s with
  | nil => exact ⟨[], rfl, rfl, fun _ _ => trivial⟩
  | cons i inputs ih =>
    obtain ⟨fewer, same, sent, along⟩ := ih (skip s i)
    rcases cases s i with ⟨taken, emits⟩ | ⟨skipped, nothing⟩
    · rw [taken] at same sent along
      refine ⟨i :: fewer, ?_, ?_, fun P met => ⟨met.1, along P (taken ▸ met.2)⟩⟩
      · rw [run_cons, taken, same, run_cons]
      · rw [emitted, taken, sent, emits, emitted]
    · rw [skipped] at same sent along
      refine ⟨fewer, ?_, ?_, fun P met => along P (skipped ▸ met.2)⟩
      · rw [run_cons, skipped, same]
      · rw [emitted, skipped, sent, nothing, List.nil_append]

theorem along_of_emitted {β : Type} {out : σ → ι → List β} {P : β → Prop}
    (all : ∀ b ∈ emitted step out s inputs, P b) :
    Along step (fun s i => ∀ b ∈ out s i, P b) s inputs := by
  induction inputs generalizing s with
  | nil => trivial
  | cons i inputs ih =>
    exact ⟨fun b hb => all b (List.mem_append_left _ hb),
      ih fun b hb => all b (List.mem_append_right _ hb)⟩

theorem along_of_forall {P : ι → Prop} (all : ∀ i ∈ inputs, P i) :
    Along step (fun _ i => P i) s inputs := by
  induction inputs generalizing s with
  | nil => trivial
  | cons i inputs ih => exact ⟨all i (by simp), ih fun j hj => all j (by simp [hj])⟩

theorem Along.mono {P Q : σ → ι → Prop} (weaker : ∀ s i, P s i → Q s i)
    (along : Along step P s inputs) : Along step Q s inputs := by
  induction inputs generalizing s with
  | nil => trivial
  | cons i inputs ih => exact ⟨weaker _ _ along.1, ih along.2⟩

theorem Along.and {P Q : σ → ι → Prop} (first : Along step P s inputs)
    (second : Along step Q s inputs) : Along step (fun s i => P s i ∧ Q s i) s inputs := by
  induction inputs generalizing s with
  | nil => trivial
  | cons i inputs ih => exact ⟨⟨first.1, second.1⟩, ih first.2 second.2⟩

end OrderManagement.TransitionRuns
