import Mathlib.Data.List.Infix
import Mathlib.Data.List.Nodup

/-!
# Finding a pattern in a list

Where a pattern stands in a list, and what it means to find the first place. A search resumed past
the start of the list still finds a pattern that stands only once, as long as it is resumed no later
than that place.
-/

namespace Search

variable {α : Type*}

/-- `needle` stands in `hay` at index `i`. -/
def OccursAt (needle hay : List α) (i : Nat) : Prop := i ≤ hay.length ∧ needle <+: hay.drop i

/-- `found` is the first index at which `needle` stands in `hay`, `none` if it stands nowhere. -/
def FirstOccurrence (needle hay : List α) : Option Nat → Prop
  | some i => OccursAt needle hay i ∧ ∀ j < i, ¬ OccursAt needle hay j
  | none => ∀ j, ¬ OccursAt needle hay j

/-- `needle` stands in `hay` at index `i` and nowhere else. -/
def OccursOnlyAt (needle hay : List α) (i : Nat) : Prop :=
  OccursAt needle hay i ∧ ∀ j, OccursAt needle hay j → j = i

theorem occursAt_append (pre needle post : List α) :
    OccursAt needle (pre ++ needle ++ post) pre.length := by
  refine ⟨by simp, ?_⟩
  rw [List.append_assoc, List.drop_left]
  exact List.prefix_append needle post

theorem occursAt_iff_exists {needle hay : List α} {i : Nat} :
    OccursAt needle hay i ↔ ∃ pre post, hay = pre ++ needle ++ post ∧ pre.length = i := by
  constructor
  · rintro ⟨hi, post, hpost⟩
    refine ⟨hay.take i, post, ?_, List.length_take_of_le hi⟩
    rw [List.append_assoc, hpost, List.take_append_drop]
  · rintro ⟨pre, post, rfl, rfl⟩
    exact occursAt_append pre needle post

theorem OccursAt.getElem? {needle hay : List α} {i k : Nat} (h : OccursAt needle hay i)
    (hk : k < needle.length) : hay[i + k]? = needle[k]? := by
  obtain ⟨-, post, hpost⟩ := h
  rw [← List.getElem?_drop, ← hpost, List.getElem?_append_left hk]

theorem occursAt_drop {needle hay : List α} {start i : Nat} (hstart : start ≤ hay.length) :
    OccursAt needle (hay.drop start) i ↔ OccursAt needle hay (start + i) := by
  unfold OccursAt
  rw [List.drop_drop, List.length_drop]
  constructor
  · rintro ⟨hi, hstarts⟩
    exact ⟨by omega, hstarts⟩
  · rintro ⟨hi, hstarts⟩
    exact ⟨by omega, hstarts⟩

theorem FirstOccurrence.unique {needle hay : List α} {found found' : Option Nat}
    (h : FirstOccurrence needle hay found) (h' : FirstOccurrence needle hay found') :
    found = found' := by
  cases found with
  | none =>
      cases found' with
      | none => rfl
      | some i => exact absurd h'.1 (h i)
  | some i =>
      cases found' with
      | none => exact absurd h.1 (h' i)
      | some j =>
          have hij : ¬ i < j := fun hlt => h'.2 i hlt h.1
          have hji : ¬ j < i := fun hlt => h.2 j hlt h'.1
          rw [show i = j by omega]

theorem FirstOccurrence.eq_some_of_occursOnlyAt {needle hay : List α} {found : Option Nat} {i : Nat}
    (h : FirstOccurrence needle hay found) (honly : OccursOnlyAt needle hay i) :
    found = some i := by
  have hfirst : FirstOccurrence needle hay (some i) :=
    ⟨honly.1, fun j hj hoccurs => by have := honly.2 j hoccurs; omega⟩
  exact h.unique hfirst

/-- A search resumed at `start` finds a pattern that stands only once, at or after `start`. -/
theorem OccursOnlyAt.drop {needle hay : List α} {start i : Nat}
    (h : OccursOnlyAt needle hay (start + i)) : OccursOnlyAt needle (hay.drop start) i := by
  have hstart : start ≤ hay.length := by have := h.1.1; omega
  refine ⟨(occursAt_drop hstart).mpr h.1, fun j hj => ?_⟩
  have := h.2 _ ((occursAt_drop hstart).mp hj)
  omega

/-- The first place, by looking at one place after the other. -/
def firstMatch [DecidableEq α] (needle : List α) : List α → Option Nat
  | [] => if needle = [] then some 0 else none
  | a :: hay => if needle <+: a :: hay then some 0 else (firstMatch needle hay).map (· + 1)

theorem firstMatch_spec [DecidableEq α] (needle hay : List α) :
    FirstOccurrence needle hay (firstMatch needle hay) := by
  induction hay with
  | nil =>
      by_cases hneedle : needle = []
      · subst hneedle
        exact ⟨⟨le_rfl, List.nil_prefix⟩, by simp⟩
      · simp only [firstMatch, hneedle, if_false]
        rintro j ⟨-, hstarts⟩
        exact hneedle (by simpa using hstarts)
  | cons a hay ih =>
      by_cases hhere : needle <+: a :: hay
      · simp only [firstMatch, hhere, if_true]
        exact ⟨⟨Nat.zero_le _, hhere⟩, by simp⟩
      · have hshift : ∀ j, OccursAt needle (a :: hay) (j + 1) ↔ OccursAt needle hay j := by
          intro j
          simp [OccursAt]
        have hzero : ¬ OccursAt needle (a :: hay) 0 := fun h => hhere h.2
        simp only [firstMatch, hhere, if_false]
        cases hfound : firstMatch needle hay with
        | none =>
            rw [hfound] at ih
            intro j
            cases j with
            | zero => exact hzero
            | succ j => exact fun h => ih j ((hshift j).mp h)
        | some i =>
            rw [hfound] at ih
            refine ⟨(hshift i).mpr ih.1, fun j hj => ?_⟩
            cases j with
            | zero => exact hzero
            | succ j => exact fun h => ih.2 j (Nat.lt_of_succ_lt_succ hj) ((hshift j).mp h)

/-! ### All places -/

section Occurrences

variable [DecidableEq α]

/-- The places where `needle` stands in `hay`, in order. -/
def occurrences (needle hay : List α) : List Nat :=
  (List.range (hay.length + 1)).filter fun i => needle <+: hay.drop i

theorem mem_occurrences {needle hay : List α} {i : Nat} :
    i ∈ occurrences needle hay ↔ OccursAt needle hay i := by
  rw [occurrences, List.mem_filter, List.mem_range, Nat.lt_succ_iff, decide_eq_true_iff]
  rfl

theorem existsUnique_occursAt_iff {needle hay : List α} :
    (∃! i, OccursAt needle hay i) ↔ (occurrences needle hay).length = 1 := by
  have hnodup : (occurrences needle hay).Nodup := List.nodup_range.filter _
  rw [List.length_eq_one_iff]
  simp only [← mem_occurrences]
  constructor
  · rintro ⟨i, hi, honly⟩
    have hperm : (occurrences needle hay).Perm [i] := by
      refine (List.perm_ext_iff_of_nodup hnodup (List.nodup_singleton i)).mpr fun j => ?_
      rw [List.mem_singleton]
      exact ⟨honly j, fun h => h ▸ hi⟩
    exact ⟨i, List.perm_singleton.mp hperm⟩
  · rintro ⟨i, hi⟩
    exact ⟨i, by simp [hi], fun j hj => by simpa [hi] using hj⟩

instance (needle hay : List α) : Decidable (∃! i, OccursAt needle hay i) :=
  decidable_of_iff' _ existsUnique_occursAt_iff

end Occurrences

end Search
