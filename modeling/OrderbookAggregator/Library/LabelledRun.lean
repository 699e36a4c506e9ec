import Mathlib.Data.List.Basic
import Mathlib.Data.List.Induction

/-!
# Runs of a partial step function

A system is a function from a state and a label to the next state, `none` where the label is not
possible. A run is a list of labels, each possible where it is taken. What holds of all runs is
proved by induction on the last step, so that the statement may speak of the labels so far.
-/

namespace LabelledRun

variable {σ τ ℓ κ : Type*}

/-- The state after the labels of a run, `none` if one of them is not possible. -/
def run (step : σ → ℓ → Option σ) : σ → List ℓ → Option σ
  | s, [] => some s
  | s, label :: labels => (step s label).bind fun s' => run step s' labels

/-- What is observed along a run, step by step. -/
def observe {ε : Type*} (step : σ → ℓ → Option σ) (obs : σ → ℓ → List ε) : σ → List ℓ → List ε
  | _, [] => []
  | s, label :: labels =>
    obs s label ++ match step s label with
      | none => []
      | some s' => observe step obs s' labels

section Run

variable {step : σ → ℓ → Option σ}

@[simp]
theorem run_nil (s : σ) : run step s [] = some s := rfl

@[simp]
theorem run_cons (s : σ) (label : ℓ) (labels : List ℓ) :
    run step s (label :: labels) = (step s label).bind fun s' => run step s' labels := rfl

theorem run_append (s : σ) (first second : List ℓ) :
    run step s (first ++ second) = (run step s first).bind fun s' => run step s' second := by
  induction first generalizing s with
  | nil => rfl
  | cons label first ih => simp [ih, Option.bind_assoc]

theorem run_append_eq_some {s s'' : σ} {first second : List ℓ} :
    run step s (first ++ second) = some s''
      ↔ ∃ s', run step s first = some s' ∧ run step s' second = some s'' := by
  rw [run_append, Option.bind_eq_some_iff]

theorem run_cons_eq_some {s s'' : σ} {label : ℓ} {labels : List ℓ} :
    run step s (label :: labels) = some s''
      ↔ ∃ s', step s label = some s' ∧ run step s' labels = some s'' := by
  rw [run_cons, Option.bind_eq_some_iff]

theorem run_concat_eq_some {s s'' : σ} {labels : List ℓ} {label : ℓ} :
    run step s (labels ++ [label]) = some s''
      ↔ ∃ s', run step s labels = some s' ∧ step s' label = some s'' := by
  simp [run_append_eq_some]

theorem observe_append {ε : Type*} {obs : σ → ℓ → List ε} {s s' : σ} {first second : List ℓ}
    (hrun : run step s first = some s') :
    observe step obs s (first ++ second)
      = observe step obs s first ++ observe step obs s' second := by
  induction first generalizing s with
  | nil =>
      rw [run_nil, Option.some_inj] at hrun
      rw [hrun]
      rfl
  | cons label first ih =>
      obtain ⟨s₁, hlabel, hrun⟩ := run_cons_eq_some.mp hrun
      rw [List.cons_append, observe, observe, hlabel]
      dsimp only
      rw [ih hrun, List.append_assoc]

theorem observe_concat {ε : Type*} {obs : σ → ℓ → List ε} {s s' : σ} {labels : List ℓ} {label : ℓ}
    (hrun : run step s labels = some s') :
    observe step obs s (labels ++ [label]) = observe step obs s labels ++ obs s' label := by
  rw [observe_append hrun, observe]
  cases step s' label <;> simp [observe]

theorem observe_singleton {ε : Type*} (obs : σ → ℓ → List ε) (s : σ) (label : ℓ) :
    observe step obs s [label] = obs s label :=
  observe_concat (run_nil s)

/-- What is observed less of at every step is observed less of along a run. -/
theorem observe_sublist {ε : Type*} {obs obs' : σ → ℓ → List ε}
    (h : ∀ s label, (obs s label).Sublist (obs' s label)) (s : σ) (labels : List ℓ) :
    (observe step obs s labels).Sublist (observe step obs' s labels) := by
  induction labels generalizing s with
  | nil => exact List.Sublist.refl _
  | cons label labels ih =>
      rw [observe, observe]
      refine (h s label).append ?_
      cases step s label with
      | none => exact List.Sublist.refl _
      | some s' => exact ih s'

/-- **Induction along a run.** What holds at the start and is kept by every step taken along a run
holds at its end. -/
theorem run_induction {s₀ : σ} (P : List ℓ → σ → Prop) (hstart : P [] s₀)
    (hstep : ∀ labels s label s', run step s₀ labels = some s → P labels s →
      step s label = some s' → P (labels ++ [label]) s')
    {labels : List ℓ} {s : σ} (hrun : run step s₀ labels = some s) : P labels s := by
  induction labels using List.reverseRecOn generalizing s with
  | nil =>
      rw [run_nil, Option.some_inj] at hrun
      exact hrun ▸ hstart
  | append_singleton labels label ih =>
      obtain ⟨s', hrun', hlast⟩ := run_concat_eq_some.mp hrun
      exact hstep labels s' label s hrun' (ih hrun') hlast

theorem invariant_of_run {Inv : σ → Prop}
    (hstep : ∀ s label s', Inv s → step s label = some s' → Inv s')
    {s₀ s : σ} {labels : List ℓ} (hstart : Inv s₀) (hrun : run step s₀ labels = some s) : Inv s :=
  run_induction (fun _ s => Inv s) hstart
    (fun _ s label s' _ hinv hlabel => hstep s label s' hinv hlabel) hrun

/-- An observation that does not look at the state depends on the labels only. -/
theorem observe_eq_flatMap {ε : Type*} {f : ℓ → List ε} {s s' : σ} {labels : List ℓ}
    (hrun : run step s labels = some s') :
    observe step (fun _ label => f label) s labels = labels.flatMap f := by
  induction labels generalizing s with
  | nil => rfl
  | cons label labels ih =>
      obtain ⟨s₁, hlabel, hrun⟩ := run_cons_eq_some.mp hrun
      rw [observe, hlabel, List.flatMap_cons, ← ih hrun]

/-- Whatever is true of a state and the label taken there, at every step of a run. -/
def Throughout (step : σ → ℓ → Option σ) (P : σ → ℓ → Prop) (s₀ : σ) (labels : List ℓ) : Prop :=
  ∀ before label after s, labels = before ++ label :: after → run step s₀ before = some s → P s label

theorem throughout_nil {P : σ → ℓ → Prop} {s₀ : σ} : Throughout step P s₀ [] := by
  intro before label after s heq
  simp at heq

theorem throughout_concat {P : σ → ℓ → Prop} {s₀ s : σ} {labels : List ℓ} {label : ℓ}
    (hrun : run step s₀ labels = some s) :
    Throughout step P s₀ (labels ++ [label]) ↔ Throughout step P s₀ labels ∧ P s label := by
  constructor
  · intro h
    refine ⟨?_, h labels label [] s rfl hrun⟩
    rintro before label' after s' rfl hbefore
    exact h before label' (after ++ [label]) s' (by simp) hbefore
  · rintro ⟨h, hlabel⟩ before label' after s' heq hbefore
    rcases List.eq_nil_or_concat after with rfl | ⟨after, last, rfl⟩
    · obtain ⟨rfl, hlast⟩ := List.append_inj' heq rfl
      cases hlast
      rw [hrun, Option.some_inj] at hbefore
      exact hbefore ▸ hlabel
    · rw [List.concat_eq_append, ← List.cons_append, ← List.append_assoc] at heq
      exact h before label' after s' (List.append_inj_left' heq rfl) hbefore

/-- A state that a run reaches, at its end or on the way. -/
def Reached (step : σ → ℓ → Option σ) (s₀ : σ) (labels : List ℓ) (s : σ) : Prop :=
  ∃ before, before <+: labels ∧ run step s₀ before = some s

theorem reached_nil {s₀ s : σ} : Reached step s₀ [] s ↔ s = s₀ := by
  simp [Reached, List.prefix_nil, eq_comm]

theorem reached_of_run {s₀ s : σ} {labels : List ℓ} (hrun : run step s₀ labels = some s) :
    Reached step s₀ labels s := ⟨labels, List.prefix_refl _, hrun⟩

theorem reached_concat {s₀ s s' : σ} {labels : List ℓ} {label : ℓ}
    (hrun : run step s₀ (labels ++ [label]) = some s') :
    Reached step s₀ (labels ++ [label]) s ↔ Reached step s₀ labels s ∨ s = s' := by
  constructor
  · rintro ⟨before, hstarts, hbefore⟩
    rcases List.prefix_concat_iff.mp hstarts with rfl | hstarts
    · rw [hrun, Option.some_inj] at hbefore
      exact Or.inr hbefore.symm
    · exact Or.inl ⟨before, hstarts, hbefore⟩
  · rintro (⟨before, hstarts, hbefore⟩ | rfl)
    · exact ⟨before, hstarts.trans (List.prefix_append _ _), hbefore⟩
    · exact reached_of_run hrun

/-- **Simulation.** If every step reached is matched by a run of another system, then a run is
matched by the run of all the labels that match its steps. -/
theorem run_simulation {step' : τ → κ → Option τ} {view : σ → τ} {matching : σ → ℓ → List κ}
    {s₀ : σ} (hstep : ∀ labels s label s', run step s₀ labels = some s → step s label = some s' →
      run step' (view s) (matching s label) = some (view s'))
    {labels : List ℓ} {s : σ} (hrun : run step s₀ labels = some s) :
    run step' (view s₀) (observe step matching s₀ labels) = some (view s) := by
  induction labels using List.reverseRecOn generalizing s with
  | nil =>
      rw [run_nil, Option.some_inj] at hrun
      exact hrun ▸ rfl
  | append_singleton labels label ih =>
      obtain ⟨s₁, hrun', hlabel⟩ := run_concat_eq_some.mp hrun
      rw [observe_concat hrun']
      exact run_append_eq_some.mpr ⟨view s₁, ih hrun', hstep labels s₁ label s hrun' hlabel⟩

/-- **How long a run can be.** If every step lowers a potential, but for those of one kind, which raise
it by less than some bound, then a run is no longer than the potential and the bound for each of these
steps allow. -/
theorem length_le_of_potential {Inv : σ → Prop} {potential : σ → Nat} {p : ℓ → Bool} {bound : Nat}
    (hinv : ∀ s label s', Inv s → step s label = some s' → Inv s')
    (hstep : ∀ s label s', Inv s → step s label = some s' →
      potential s' + 1 ≤ potential s + if p label then bound else 0)
    {s₀ s : σ} {labels : List ℓ} (hstart : Inv s₀) (hrun : run step s₀ labels = some s) :
    potential s + labels.length ≤ potential s₀ + bound * labels.countP p := by
  have hboth : Inv s ∧ potential s + labels.length ≤ potential s₀ + bound * labels.countP p := by
    refine run_induction (fun labels s => Inv s
      ∧ potential s + labels.length ≤ potential s₀ + bound * labels.countP p) ⟨hstart, Nat.le_refl _⟩ ?_ hrun
    rintro labels s label s' - ⟨h, hle⟩ hlabel
    refine ⟨hinv s label s' h hlabel, ?_⟩
    have hlower := hstep s label s' h hlabel
    rw [List.length_append, List.length_singleton, List.countP_append, List.countP_singleton,
      Nat.mul_add]
    split_ifs at hlower ⊢ <;> omega
  exact hboth.2

/-- **Some run ends.** Where every step that is not of one kind lowers a potential, and such a step is
possible as long as the goal is not reached, some run of such steps reaches the goal. -/
theorem exists_run_of_potential {Inv Goal : σ → Prop} {potential : σ → Nat} {p : ℓ → Bool}
    (hinv : ∀ s label s', Inv s → step s label = some s' → Inv s')
    (hstep : ∀ s label s', Inv s → p label = false → step s label = some s' →
      potential s' < potential s)
    (hprogress : ∀ s, Inv s → ¬ Goal s → ∃ label, p label = false ∧ (step s label).isSome)
    {s : σ} (hstart : Inv s) :
    ∃ labels s', (∀ label ∈ labels, p label = false) ∧ run step s labels = some s' ∧ Goal s' := by
  induction hn : potential s using Nat.strongRecOn generalizing s with
  | ind n ih =>
      by_cases hgoal : Goal s
      · exact ⟨[], s, List.forall_mem_nil _, rfl, hgoal⟩
      · obtain ⟨label, hlabel, hsome⟩ := hprogress s hstart hgoal
        obtain ⟨s₁, hs₁⟩ := Option.isSome_iff_exists.mp hsome
        have hless : potential s₁ < n := hn ▸ hstep s label s₁ hstart hlabel hs₁
        obtain ⟨labels, s', hlabels, hrun, hgoal'⟩ :=
          ih (potential s₁) hless (hinv s label s₁ hstart hs₁) rfl
        exact ⟨label :: labels, s', List.forall_mem_cons.mpr ⟨hlabel, hlabels⟩,
          run_cons_eq_some.mpr ⟨s₁, hs₁, hrun⟩, hgoal'⟩

end Run

/-! ### The order of the labels -/

theorem concat_sublist_concat_iff {first second : List ℓ} {label label' : ℓ} :
    (first ++ [label]).Sublist (second ++ [label'])
      ↔ (first ++ [label]).Sublist second ∨ first.Sublist second ∧ label = label' := by
  rw [← List.reverse_sublist, List.reverse_concat, List.reverse_concat, List.cons_sublist_cons',
    ← List.reverse_concat, List.reverse_sublist, List.reverse_sublist, @and_comm (label = label')]

section FollowedBy

variable {p q : ℓ → Prop}

/-- Behind every label of one kind there is one of another kind. -/
def FollowedBy (p q : ℓ → Prop) (labels : List ℓ) : Prop :=
  ∀ before label after, labels = before ++ label :: after → p label → ∃ label' ∈ after, q label'

theorem followedBy_nil : FollowedBy p q [] := by
  intro before label after heq
  simp at heq

theorem followedBy_cons {label : ℓ} {labels : List ℓ} :
    FollowedBy p q (label :: labels) ↔ (p label → ∃ label' ∈ labels, q label') ∧ FollowedBy p q labels := by
  constructor
  · intro h
    refine ⟨h [] label labels rfl, ?_⟩
    rintro before label' after rfl
    exact h (label :: before) label' after rfl
  · rintro ⟨hlabel, h⟩ before label' after heq
    cases before with
    | nil =>
        cases heq
        exact hlabel
    | cons first before =>
        cases heq
        exact h before label' after rfl

theorem followedBy_concat {labels : List ℓ} {label : ℓ} :
    FollowedBy p q (labels ++ [label]) ↔ ¬ p label ∧ (q label ∨ FollowedBy p q labels) := by
  induction labels with
  | nil => simp [followedBy_cons, followedBy_nil]
  | cons first labels ih =>
      rw [List.cons_append, followedBy_cons, ih, followedBy_cons]
      simp only [List.mem_append, List.mem_singleton, or_and_right, exists_or, exists_eq_left]
      by_cases hq : q label
      · simp [hq]
      · simp [hq, and_left_comm]

instance decidableFollowedBy [DecidablePred p] [DecidablePred q] :
    (labels : List ℓ) → Decidable (FollowedBy p q labels)
  | [] => .isTrue followedBy_nil
  | _ :: labels =>
    have := decidableFollowedBy labels
    decidable_of_iff' _ followedBy_cons

theorem followedBy_concat_of_quiet {labels : List ℓ} {label : ℓ} (hp : ¬ p label) (hq : ¬ q label) :
    FollowedBy p q (labels ++ [label]) ↔ FollowedBy p q labels := by
  rw [followedBy_concat]
  simp [hp, hq]

/-- The order is the same in what one sees of a run, label by label. -/
theorem followedBy_flatMap {p' q' : κ → Prop} {f : ℓ → List κ}
    (hf : ∀ label, (f label = [] ∧ ¬ p label ∧ ¬ q label)
      ∨ ∃ label', f label = [label'] ∧ (p label ↔ p' label') ∧ (q label ↔ q' label'))
    (labels : List ℓ) : FollowedBy p' q' (labels.flatMap f) ↔ FollowedBy p q labels := by
  induction labels using List.reverseRecOn with
  | nil => exact iff_of_true followedBy_nil followedBy_nil
  | append_singleton labels label ih =>
      rw [List.flatMap_append, List.flatMap_singleton]
      rcases hf label with ⟨hnil, hp, hq⟩ | ⟨label', hsingle, hp, hq⟩
      · rw [hnil, List.append_nil, ih, followedBy_concat_of_quiet hp hq]
      · rw [hsingle, followedBy_concat, followedBy_concat, ih, hp, hq]

end FollowedBy

end LabelledRun
