import Mathlib.Data.List.Induction

/-!
# A register for the latest value

One cell. Putting a value overwrites what is there, getting takes what is there out. A history of
operations with their results is legal if every get returns what the cell holds at that point.
-/

namespace Register

variable {α : Type*}

inductive Op (α : Type*) where
  | put (value : α)
  | get (result : Option α)
  deriving DecidableEq, Repr

/-- The cell after an operation. -/
def Op.after : Op α → Option α
  | .put value => some value
  | .get _ => none

/-- The cell after a history. -/
def cellAfter (cell : Option α) (ops : List (Op α)) : Option α := ops.foldl (fun _ op => op.after) cell

/-- Every get returns what the cell holds. -/
def Legal : Option α → List (Op α) → Prop
  | _, [] => True
  | _, .put value :: ops => Legal (some value) ops
  | cell, .get result :: ops => result = cell ∧ Legal none ops

def puts (ops : List (Op α)) : List α :=
  ops.filterMap fun
    | .put value => some value
    | .get _ => none

def gets (ops : List (Op α)) : List (Option α) :=
  ops.filterMap fun
    | .put _ => none
    | .get result => some result

@[simp]
theorem cellAfter_nil (cell : Option α) : cellAfter cell [] = cell := rfl

@[simp]
theorem cellAfter_concat (cell : Option α) (ops : List (Op α)) (op : Op α) :
    cellAfter cell (ops ++ [op]) = op.after := by
  simp [cellAfter]

theorem cellAfter_append (cell : Option α) (ops ops' : List (Op α)) :
    cellAfter cell (ops ++ ops') = cellAfter (cellAfter cell ops) ops' :=
  List.foldl_append

theorem puts_append (ops ops' : List (Op α)) : puts (ops ++ ops') = puts ops ++ puts ops' :=
  List.filterMap_append

theorem gets_append (ops ops' : List (Op α)) : gets (ops ++ ops') = gets ops ++ gets ops' :=
  List.filterMap_append

theorem legal_append {cell : Option α} {ops ops' : List (Op α)} :
    Legal cell (ops ++ ops') ↔ Legal cell ops ∧ Legal (cellAfter cell ops) ops' := by
  induction ops generalizing cell with
  | nil => simp [Legal]
  | cons op ops ih =>
      cases op with
      | put value => exact ih
      | get result =>
          rw [List.cons_append, Legal, Legal, ih, and_assoc]
          rfl

/-- The operation just before a get that returns a value has put that value. -/
theorem Legal.eq_concat_put {before after : List (Op α)} {value : α}
    (h : Legal none (before ++ .get (some value) :: after)) :
    ∃ earlier, before = earlier ++ [.put value] := by
  have hcell : some value = cellAfter none before := (legal_append.mp h).2.1
  cases before using List.reverseRecOn with
  | nil => cases hcell
  | append_singleton earlier op =>
      rw [cellAfter_concat] at hcell
      cases op with
      | put value' => exact ⟨earlier, by rw [Option.some_inj.mp hcell]⟩
      | get result => cases hcell

/-- Between a get that returns nothing and the last get before it that returned a value, nothing is
put. -/
theorem Legal.puts_eq_nil {before between after : List (Op α)}
    (h : Legal none (before ++ between ++ .get none :: after))
    (hbetween : ∀ value, .get (some value) ∉ between) : puts between = [] := by
  have hlegal := legal_append.mp h
  have hcell : none = cellAfter none (before ++ between) := hlegal.2.1
  replace hlegal := hlegal.1
  clear h
  induction between using List.reverseRecOn with
  | nil => rfl
  | append_singleton between op ih =>
      rw [← List.append_assoc, cellAfter_concat] at hcell
      rw [← List.append_assoc, legal_append] at hlegal
      cases op with
      | put value => cases hcell
      | get result =>
          have hresult : result = cellAfter none (before ++ between) := hlegal.2.1
          cases result with
          | some value => exact absurd (by simp) (hbetween value)
          | none =>
              rw [puts_append, ih (fun value hmem => hbetween value (by simp [hmem])) hresult hlegal.1]
              rfl

/-- The values got are values put, each at most once and in the order of the puts. -/
theorem Legal.gets_sublist {cell : Option α} {ops : List (Op α)} (h : Legal cell ops) :
    ((gets ops).filterMap id).Sublist (cell.toList ++ puts ops) := by
  induction ops generalizing cell with
  | nil => simp [gets]
  | cons op ops ih =>
      cases op with
      | put value =>
          have hrest := ih h
          exact hrest.trans (List.sublist_append_right cell.toList (value :: puts ops))
      | get result =>
          obtain ⟨rfl, hlegal⟩ := h
          have hrest := ih hlegal
          cases result with
          | none => exact hrest
          | some value => exact hrest.cons_cons value

/-- When the cell is empty, the last value put is the last value got. -/
theorem Legal.getLast?_gets {ops : List (Op α)} (h : Legal none ops)
    (hcell : cellAfter none ops = none) : ((gets ops).filterMap id).getLast? = (puts ops).getLast? := by
  induction ops using List.reverseRecOn with
  | nil => rfl
  | append_singleton ops op ih =>
      rw [cellAfter_concat] at hcell
      cases op with
      | put value => cases hcell
      | get result =>
          rw [gets_append, puts_append, List.filterMap_append]
          obtain ⟨hops, hresult, -⟩ := legal_append.mp h
          cases result with
          | none =>
              have hlast := ih hops hresult.symm
              simpa [gets, puts] using hlast
          | some value =>
              obtain ⟨earlier, rfl⟩ := h.eq_concat_put
              rw [puts_append]
              simp [gets, puts]

end Register
