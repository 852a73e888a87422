import Mathlib.Data.List.DropRight
import Mathlib.Tactic.Common

/-! Stripping and upper-casing of texts, over what the character database says of single
characters. Upper-casing may lengthen a text; what it makes is upper case, and it makes no
whitespace, so that both together are idempotent. -/

namespace OrderManagement

/-- The properties of characters that `str.strip` and `str.upper` consult. -/
structure CharTable where
  isSpace : Char → Bool
  upper : Char → List Char
  upper_ne_nil : ∀ c, upper c ≠ []
  upper_upper : ∀ c, ∀ d ∈ upper c, upper d = [d]
  upper_space : ∀ c, isSpace c = false → ∀ d ∈ upper c, isSpace d = false
  nul_space : isSpace (Char.ofNat 0) = false
  mem_upper_nul : ∀ c, Char.ofNat 0 ∈ upper c ↔ c = Char.ofNat 0

namespace CharTable

variable (u : CharTable)

def stripped (text : List Char) : List Char := (text.dropWhile u.isSpace).rdropWhile u.isSpace

/-- `str.strip` -/
def strip (text : String) : String := String.ofList (u.stripped text.toList)

/-- `str.upper` -/
def upperCase (text : String) : String := String.ofList (text.toList.flatMap u.upper)

/-- No whitespace at either end. -/
structure Trimmed (text : List Char) : Prop where
  first : ∀ c ∈ text.head?, u.isSpace c = false
  last : ∀ c ∈ text.getLast?, u.isSpace c = false

variable {u} {text : List Char}

theorem stripped_trimmed (text : List Char) : u.Trimmed (u.stripped text) where
  first c first := by
    have same : (text.dropWhile u.isSpace).head? = some c := by
      obtain ⟨rest, eq⟩ := List.rdropWhile_prefix u.isSpace (text.dropWhile u.isSpace)
      rw [← eq, List.head?_append]
      exact Option.or_eq_some_iff.2 (Or.inl first)
    have found := List.head?_dropWhile_not u.isSpace text
    rw [same] at found
    simpa using found
  last c last := by
    obtain ⟨nonempty, rfl⟩ := List.mem_getLast?_eq_getLast last
    have notSpace := List.rdropWhile_last_not u.isSpace _ nonempty
    exact Bool.eq_false_iff.2 notSpace

theorem Trimmed.stripped_eq (h : u.Trimmed text) : u.stripped text = text := by
  have first : text.dropWhile u.isSpace = text := by
    cases text with
    | nil => rfl
    | cons c rest => simp [h.first c rfl]
  unfold stripped
  rw [first, List.rdropWhile_eq_self_iff]
  intro nonempty
  simp [h.last _ (List.getLast?_eq_getLast_of_ne_nil nonempty)]

theorem Trimmed.upper (h : u.Trimmed text) : u.Trimmed (text.flatMap u.upper) where
  first d first := by
    cases text with
    | nil => cases first
    | cons c rest =>
      obtain ⟨e, es, eq⟩ := List.exists_cons_of_ne_nil (u.upper_ne_nil c)
      rw [List.flatMap_cons, eq, List.cons_append, List.head?_cons, Option.mem_some_iff] at first
      exact u.upper_space c (h.first c rfl) d (by simp [eq, first])
  last d last := by
    rcases List.eq_nil_or_concat text with rfl | ⟨rest, c, rfl⟩
    · cases last
    · have own : d ∈ (u.upper c).getLast? := by
        obtain ⟨es, e, eq⟩ := (List.eq_nil_or_concat (u.upper c)).resolve_left (u.upper_ne_nil c)
        rw [List.concat_eq_append, List.flatMap_append] at last
        simp only [List.flatMap_cons, List.flatMap_nil, List.append_nil, eq] at last ⊢
        simpa using last
      exact u.upper_space c (h.last c (by simp)) d (List.mem_of_getLast? own)

theorem upper_flatMap (text : List Char) :
    (text.flatMap u.upper).flatMap u.upper = text.flatMap u.upper := by
  have same : ∀ d ∈ text.flatMap u.upper, u.upper d = [d] := fun d mem => by
    obtain ⟨c, -, from_⟩ := List.mem_flatMap.1 mem
    exact u.upper_upper c d from_
  rw [List.flatMap_congr same]
  simp

theorem mem_stripped {c : Char} (mem : c ∈ text) (visible : u.isSpace c = false) :
    c ∈ u.stripped text := by
  have front : c ∈ text.dropWhile u.isSpace := by
    rw [← List.takeWhile_append_dropWhile (p := u.isSpace) (l := text), List.mem_append] at mem
    exact mem.resolve_left fun space => by simp [List.mem_takeWhile_imp space] at visible
  rw [← List.rdropWhile_append_rtakeWhile (p := u.isSpace) (l := text.dropWhile u.isSpace),
    List.mem_append] at front
  exact front.resolve_right fun space => by simp [List.mem_rtakeWhile_imp space] at visible

theorem stripped_subset : u.stripped text ⊆ text :=
  fun _ mem => (List.dropWhile_sublist _).subset ((List.rdropWhile_prefix _ _).subset mem)

theorem stripped_ne_nil_iff : u.stripped text ≠ [] ↔ ∃ c ∈ text, u.isSpace c = false := by
  constructor
  · intro nonempty
    obtain ⟨c, mem⟩ := List.exists_mem_of_ne_nil _ nonempty
    obtain ⟨d, first⟩ : ∃ d, (u.stripped text).head? = some d := by
      cases eq : u.stripped text with
      | nil => exact absurd eq nonempty
      | cons d rest => exact ⟨d, rfl⟩
    exact ⟨d, stripped_subset (List.mem_of_head? first), (stripped_trimmed text).first d first⟩
  · rintro ⟨c, mem, visible⟩
    exact List.ne_nil_of_mem (mem_stripped mem visible)

end CharTable

end OrderManagement
