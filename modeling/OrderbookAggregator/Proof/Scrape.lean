import OrderbookAggregator.Histogram
import OrderbookAggregator.Library.LabelledRun

/-!
# What a scrape sees of the records under way

A record raises the counter of its bucket first and the count of all records last, and a scrape loads
the buckets first and the count last. So a scrape can see the one without the other, both ways round:
a record under way when the buckets are loaded may be in its bucket and not yet in the count, and one
that comes later, or that exceeds every bound, may be in the count only.
-/

namespace OrderbookAggregator

open LabelledRun

/-! ### The calls of `record` -/

/-- How far a call has come. -/
def RecordPc.rank : RecordPc → Nat
  | .bucket => 0
  | .sum => 1
  | .count => 2
  | .done => 3

namespace Scraping

/-- Whether a call has come as far as some rank. -/
def HasCome (s : Scraping) (rank call : Nat) : Prop :=
  ∃ record, s.records[call]? = some record ∧ rank ≤ record.pc.rank

theorem HasCome.lt_length {s : Scraping} {rank call : Nat} (h : s.HasCome rank call) :
    call < s.records.length := by
  obtain ⟨record, hrecord, -⟩ := h
  exact (List.getElem?_eq_some_iff.mp hrecord).1

theorem hasCome_set {s s' : Scraping} {call rank : Nat} {record next : RecordCall}
    (hrecords : s'.records = s.records.set call next) (hcall : s.records[call]? = some record)
    (hnext : rank ≤ next.pc.rank) : s'.HasCome rank call := by
  have hlt := (List.getElem?_eq_some_iff.mp hcall).1
  exact ⟨next, by rw [hrecords, List.getElem?_set_self hlt], hnext⟩

theorem HasCome.set {s s' : Scraping} {call rank other : Nat} {record next : RecordCall}
    (h : s.HasCome rank other) (hrecords : s'.records = s.records.set call next)
    (hcall : s.records[call]? = some record) (hnext : record.pc.rank ≤ next.pc.rank) :
    s'.HasCome rank other := by
  obtain ⟨found, hfound, hrank⟩ := h
  by_cases heq : call = other
  · subst heq
    rw [hcall, Option.some_inj] at hfound
    subst hfound
    exact hasCome_set hrecords hcall (hrank.trans hnext)
  · exact ⟨found, by rw [hrecords, List.getElem?_set_ne heq, hfound], hrank⟩

theorem HasCome.step {s s' : Scraping} {label : ScrapingLabel} {rank call : Nat}
    (h : s.HasCome rank call) (hstep : s.step label = some s') : s'.HasCome rank call := by
  cases step_cases hstep with
  | begin =>
      obtain ⟨record, hrecord, hrank⟩ := h
      have hlt := (List.getElem?_eq_some_iff.mp hrecord).1
      exact ⟨record, (List.getElem?_append_left hlt).trans hrecord, hrank⟩
  | bucket hcall | sum hcall | count hcall => exact h.set rfl hcall (by simp [RecordPc.rank])
  | load | total | finish => exact h

/-- The calls that raise the counter of their bucket by a step. -/
def bucketing (s : Scraping) : ScrapingLabel → List Nat
  | .record call =>
    match s.records[call]? with
    | some ⟨_, .bucket⟩ => [call]
    | _ => []
  | _ => []

/-- The calls that raise the count by a step. -/
def counting (s : Scraping) : ScrapingLabel → List Nat
  | .record call =>
    match s.records[call]? with
    | some ⟨_, .count⟩ => [call]
    | _ => []
  | _ => []

def bucketed (labels : List ScrapingLabel) : List Nat := observe step bucketing new labels

def counted (labels : List ScrapingLabel) : List Nat := observe step counting new labels

section Concat

variable {s : Scraping} {labels : List ScrapingLabel} {label : ScrapingLabel}

theorem bucketed_concat (hrun : run step new labels = some s) :
    bucketed (labels ++ [label]) = bucketed labels ++ s.bucketing label := observe_concat hrun

theorem counted_concat (hrun : run step new labels = some s) :
    counted (labels ++ [label]) = counted labels ++ s.counting label := observe_concat hrun

end Concat

/-- A list of calls that have come as far as some rank, each once. -/
structure Marked (s : Scraping) (rank : Nat) (calls : List Nat) : Prop where
  nodup : calls.Nodup
  hasCome : ∀ call ∈ calls, s.HasCome rank call

theorem Marked.length_le {s : Scraping} {rank : Nat} {calls : List Nat} (h : Marked s rank calls) :
    calls.length ≤ s.records.length := by
  have hsubset : calls ⊆ List.range s.records.length := fun call hcall =>
    List.mem_range.mpr (h.hasCome call hcall).lt_length
  simpa using (h.nodup.subperm hsubset).length_le

theorem Marked.step {s s' : Scraping} {label : ScrapingLabel} {rank : Nat} {calls : List Nat}
    (h : Marked s rank calls) (hstep : s.step label = some s') : Marked s' rank calls :=
  ⟨h.nodup, fun call hcall => (h.hasCome call hcall).step hstep⟩

theorem Marked.concat {s s' : Scraping} {label : ScrapingLabel} {rank call : Nat}
    {calls : List Nat} (h : Marked s rank calls) (hstep : s.step label = some s')
    (hbefore : ¬ s.HasCome rank call) (hafter : s'.HasCome rank call) :
    Marked s' rank (calls ++ [call]) := by
  refine ⟨?_, fun other hother => ?_⟩
  · rw [List.nodup_append]
    refine ⟨h.nodup, List.nodup_singleton _, fun other hother last hlast heq => ?_⟩
    rw [List.mem_singleton.mp hlast] at heq
    exact hbefore (heq ▸ h.hasCome other hother)
  · rcases List.mem_append.mp hother with hother | hother
    · exact (h.hasCome other hother).step hstep
    · rwa [List.mem_singleton.mp hother]

theorem not_hasCome {s : Scraping} {rank call : Nat} {record : RecordCall}
    (hcall : s.records[call]? = some record) (hrank : record.pc.rank < rank) :
    ¬ s.HasCome rank call := by
  rintro ⟨found, hfound, hle⟩
  rw [hcall, Option.some_inj] at hfound
  subst hfound
  exact absurd hle (Nat.not_le.mpr hrank)

theorem marked_bucketed {s : Scraping} {labels : List ScrapingLabel}
    (hrun : run step new labels = some s) : Marked s 1 (bucketed labels) := by
  refine run_induction (fun labels s => Marked s 1 (bucketed labels)) ⟨List.nodup_nil, nofun⟩ ?_ hrun
  intro labels s label s' hrun h hstep
  rw [bucketed_concat hrun]
  cases step_cases hstep with
  | bucket hcall =>
      rw [bucketing, hcall]
      exact h.concat hstep (not_hasCome hcall Nat.zero_lt_one) (hasCome_set rfl hcall (Nat.le_refl 1))
  | sum hcall | count hcall =>
      rw [bucketing, hcall]
      exact (List.append_nil _).symm ▸ h.step hstep
  | begin | load | total | finish => exact (List.append_nil _).symm ▸ h.step hstep

theorem marked_counted {s : Scraping} {labels : List ScrapingLabel}
    (hrun : run step new labels = some s) : Marked s 3 (counted labels) := by
  refine run_induction (fun labels s => Marked s 3 (counted labels)) ⟨List.nodup_nil, nofun⟩ ?_ hrun
  intro labels s label s' hrun h hstep
  rw [counted_concat hrun]
  cases step_cases hstep with
  | count hcall =>
      rw [counting, hcall]
      exact h.concat hstep (not_hasCome hcall (Nat.lt_succ_self 2))
        (hasCome_set rfl hcall (Nat.le_refl 3))
  | bucket hcall | sum hcall =>
      rw [counting, hcall]
      exact (List.append_nil _).symm ▸ h.step hstep
  | begin | load | total | finish => exact (List.append_nil _).symm ▸ h.step hstep

/-! ### The counters -/

def counter (h : PromHistogram) (i : Nat) : Nat := h.buckets[i]?.getD 0

theorem get_castSucc (h : PromHistogram) (i : Fin numBuckets) :
    h.buckets.get i.castSucc = counter h i := by
  rw [counter, Vector.getElem?_eq_getElem (Nat.lt_succ_of_lt i.isLt)]
  rfl

def bucketOf (duration : Duration) : Nat := PromHistogram.bucketIndex (PromHistogram.nanos duration)

theorem bucketOf_lt (duration : Duration) : bucketOf duration < numBuckets + 1 :=
  PromHistogram.bucketIndex_lt _

theorem counter_addBucket (h : PromHistogram) (duration : Duration) (i : Nat) :
    counter (h.addBucket duration) i
      = if i = bucketOf duration then fetchAddU64 (counter h i) 1 else counter h i := by
  rw [counter, PromHistogram.addBucket, Vector.getElem?_set]
  change Option.getD (if bucketOf duration = i then _ else _) 0 = _
  by_cases heq : i = bucketOf duration
  · subst heq
    rw [if_pos rfl, if_pos rfl, counter, Vector.getElem?_eq_getElem (bucketOf_lt duration)]
    rfl
  · rw [if_neg fun h => heq h.symm, if_neg heq]
    rfl

/-- The counters of the bounded buckets from some bucket on. -/
def ahead (h : PromHistogram) (i : Nat) : Nat := ∑ j ∈ Finset.Ico i numBuckets, counter h j

theorem ahead_eq_counter_add (h : PromHistogram) (i : Fin numBuckets) :
    ahead h i = counter h i + ahead h (i + 1) :=
  Finset.sum_eq_sum_Ico_succ_bot i.isLt _

theorem ahead_addBucket {h : PromHistogram} {duration : Duration} (i : Nat)
    (hwrap : counter h (bucketOf duration) + 1 < 2 ^ 64) :
    ahead (h.addBucket duration) i
      = ahead h i + if i ≤ bucketOf duration ∧ bucketOf duration < numBuckets then 1 else 0 := by
  have hcounter (j : Nat) : counter (h.addBucket duration) j
      = counter h j + if j = bucketOf duration then 1 else 0 := by
    rw [counter_addBucket]
    split
    · next heq => rw [heq, fetchAddU64, Nat.mod_eq_of_lt hwrap]
    · rfl
  simp only [ahead, hcounter, Finset.sum_add_distrib, Finset.sum_ite_eq', Finset.mem_Ico]

/-! ### What the scrape sees -/

/-- The first bucket that is not loaded yet. -/
def firstAhead : RenderPc → Nat
  | .bucket i => i
  | _ => numBuckets

/-- Whether the count is not loaded yet. -/
def countAhead : RenderPc → Bool
  | .bucket _ | .count => true
  | _ => false

theorem firstAhead_nextLoad (i : Fin numBuckets) : firstAhead (nextLoad i) = i + 1 := by
  rw [nextLoad]
  split
  · rfl
  · exact Nat.le_antisymm (Nat.not_lt.mp ‹_›) i.isLt

theorem countAhead_nextLoad (i : Fin numBuckets) : countAhead (nextLoad i) = true := by
  rw [nextLoad]
  split <;> rfl

/-- The calls that raise by a step the counter of a bucket that is still to be loaded. -/
def showingInBuckets (s : Scraping) : ScrapingLabel → List Nat
  | .record call =>
    match s.records[call]? with
    | some ⟨duration, .bucket⟩ =>
      if firstAhead s.render.pc ≤ bucketOf duration ∧ bucketOf duration < numBuckets then [call]
      else []
    | _ => []
  | _ => []

/-- The calls that raise the count by a step while it is still to be loaded. -/
def showingInCount (s : Scraping) (label : ScrapingLabel) : List Nat :=
  if countAhead s.render.pc then s.counting label else []

/-- The calls of `record` that the scrape sees in the bounded buckets. -/
def shownInBuckets (labels : List ScrapingLabel) : List Nat := observe step showingInBuckets new labels

/-- The calls of `record` that the scrape sees in the count. -/
def shownInCount (labels : List ScrapingLabel) : List Nat := observe step showingInCount new labels

theorem shownInBuckets_concat {s : Scraping} {labels : List ScrapingLabel} {label : ScrapingLabel}
    (hrun : run step new labels = some s) :
    shownInBuckets (labels ++ [label]) = shownInBuckets labels ++ s.showingInBuckets label :=
  observe_concat hrun

theorem shownInCount_concat {s : Scraping} {labels : List ScrapingLabel} {label : ScrapingLabel}
    (hrun : run step new labels = some s) :
    shownInCount (labels ++ [label]) = shownInCount labels ++ s.showingInCount label :=
  observe_concat hrun

theorem render_concat {s : Scraping} {labels : List ScrapingLabel}
    (hrun : run step new labels = some s) :
    bucketed (labels ++ [.render]) = bucketed labels
    ∧ counted (labels ++ [.render]) = counted labels
    ∧ shownInBuckets (labels ++ [.render]) = shownInBuckets labels
    ∧ shownInCount (labels ++ [.render]) = shownInCount labels := by
  have hshowing : s.showingInCount .render = [] := ite_self _
  rw [bucketed_concat hrun, counted_concat hrun, shownInBuckets_concat hrun,
    shownInCount_concat hrun, hshowing]
  exact ⟨List.append_nil _, List.append_nil _, List.append_nil _, List.append_nil _⟩

theorem shownInBuckets_sublist (labels : List ScrapingLabel) :
    (shownInBuckets labels).Sublist (bucketed labels) := by
  refine observe_sublist (fun s label => ?_) new labels
  cases label with
  | begin | render => exact List.Sublist.refl _
  | record call =>
      rw [showingInBuckets, bucketing]
      split
      · split
        · exact List.Sublist.refl _
        · exact List.nil_sublist _
      · exact List.nil_sublist _

theorem shownInCount_sublist (labels : List ScrapingLabel) :
    (shownInCount labels).Sublist (counted labels) := by
  refine observe_sublist (fun s label => ?_) new labels
  rw [showingInCount]
  split
  · exact List.Sublist.refl _
  · exact List.nil_sublist _

/-- The counters are as high as the calls have raised them, and the scrape has summed up, or is still
going to sum up, what it sees. -/
structure Counts (labels : List ScrapingLabel) (s : Scraping) : Prop where
  counter_le : ∀ i, counter s.histogram i ≤ (bucketed labels).length
  count_eq : s.histogram.count = (counted labels).length
  cumulative_eq : s.render.cumulative + ahead s.histogram (firstAhead s.render.pc)
    = (shownInBuckets labels).length
  count_ahead : countAhead s.render.pc = true → shownInCount labels = counted labels
  total_eq : countAhead s.render.pc = false → s.render.total = (shownInCount labels).length

theorem Counts.quiet {labels : List ScrapingLabel} {s s' : Scraping} {label : ScrapingLabel}
    (h : Counts labels s) (hrun : run step new labels = some s)
    (hbucketing : s.bucketing label = []) (hcounting : s.counting label = [])
    (hshowing : s.showingInBuckets label = []) (hrender : s'.render = s.render)
    (hbuckets : s'.histogram.buckets = s.histogram.buckets)
    (hcount : s'.histogram.count = s.histogram.count) : Counts (labels ++ [label]) s' := by
  have hcounter (i : Nat) : counter s'.histogram i = counter s.histogram i := by
    rw [counter, counter, hbuckets]
  have hshowingCount : s.showingInCount label = [] := by rw [showingInCount, hcounting, ite_self]
  refine ⟨?_, ?_, ?_, ?_, ?_⟩
  · intro i
    rw [hcounter, bucketed_concat hrun, hbucketing, List.append_nil]
    exact h.counter_le i
  · rw [hcount, counted, observe_concat hrun, hcounting, List.append_nil]
    exact h.count_eq
  · rw [hrender, shownInBuckets_concat hrun, hshowing, List.append_nil, ahead]
    simp only [hcounter]
    exact h.cumulative_eq
  · rw [hrender, shownInCount, counted, observe_concat hrun, observe_concat hrun, hshowingCount,
      hcounting, List.append_nil, List.append_nil]
    exact h.count_ahead
  · rw [hrender, shownInCount_concat hrun, hshowingCount, List.append_nil]
    exact h.total_eq

theorem counts_of_step {labels : List ScrapingLabel} {s s' : Scraping} {label : ScrapingLabel}
    (h : Counts labels s) (hrun : run step new labels = some s) (hstep : s.step label = some s')
    (hwrap : s'.records.length < 2 ^ 64) : Counts (labels ++ [label]) s' := by
  have hrun' := run_concat_eq_some.mpr ⟨s, hrun, hstep⟩
  have hbucketed := (marked_bucketed hrun').length_le
  have hcounted := (marked_counted hrun').length_le
  cases step_cases hstep with
  | begin => exact h.quiet hrun rfl rfl rfl rfl rfl rfl
  | @sum call duration hcall =>
      refine h.quiet hrun ?_ ?_ ?_ rfl rfl rfl
      · rw [bucketing, hcall]
      · rw [counting, hcall]
      · rw [showingInBuckets, hcall]
  | @bucket call duration hcall =>
      have hbucketing : s.bucketing (.record call) = [call] := by rw [bucketing, hcall]
      have hcounting : s.counting (.record call) = [] := by rw [counting, hcall]
      have hshowingCount : s.showingInCount (.record call) = [] := by
        rw [showingInCount, hcounting, ite_self]
      have hconcat : bucketed (labels ++ [.record call]) = bucketed labels ++ [call] :=
        (observe_concat hrun).trans (congrArg _ hbucketing)
      rw [hconcat, List.length_append, List.length_singleton] at hbucketed
      have hroom : counter s.histogram (bucketOf duration) + 1 < 2 ^ 64 :=
        (Nat.add_le_add_right (h.counter_le _) 1).trans_lt (hbucketed.trans_lt hwrap)
      refine ⟨?_, ?_, ?_, ?_, ?_⟩
      · intro i
        rw [hconcat, List.length_append, counter_addBucket]
        split
        · exact (Nat.mod_le _ _).trans (Nat.add_le_add_right (h.counter_le i) 1)
        · exact Nat.le_add_right_of_le (h.counter_le i)
      · rw [counted_concat hrun, hcounting, List.append_nil]
        exact h.count_eq
      · rw [ahead_addBucket _ hroom, ← Nat.add_assoc, h.cumulative_eq, shownInBuckets_concat hrun,
          List.length_append, showingInBuckets, hcall]
        dsimp only
        split <;> rfl
      · rw [shownInCount_concat hrun, counted_concat hrun, hshowingCount, hcounting,
          List.append_nil, List.append_nil]
        exact h.count_ahead
      · rw [shownInCount_concat hrun, hshowingCount, List.append_nil]
        exact h.total_eq
  | @count call duration hcall =>
      have hcounting : s.counting (.record call) = [call] := by rw [counting, hcall]
      have hbucketing : s.bucketing (.record call) = [] := by rw [bucketing, hcall]
      have hshowing : s.showingInBuckets (.record call) = [] := by rw [showingInBuckets, hcall]
      have hconcat : counted (labels ++ [.record call]) = counted labels ++ [call] :=
        (observe_concat hrun).trans (congrArg _ hcounting)
      rw [hconcat, List.length_append, List.length_singleton, ← h.count_eq] at hcounted
      refine ⟨?_, ?_, ?_, ?_, ?_⟩
      · intro i
        rw [bucketed_concat hrun, hbucketing, List.append_nil]
        exact h.counter_le i
      · rw [hconcat, List.length_append, List.length_singleton, ← h.count_eq]
        exact Nat.mod_eq_of_lt (hcounted.trans_lt hwrap)
      · rw [shownInBuckets_concat hrun, hshowing, List.append_nil]
        exact h.cumulative_eq
      · intro hahead
        rw [hconcat, ← h.count_ahead hahead, shownInCount_concat hrun, showingInCount,
          if_pos hahead, hcounting]
      · intro hloaded
        have hshowingCount : s.showingInCount (.record call) = [] := by
          rw [showingInCount, if_neg (Bool.eq_false_iff.mp hloaded)]
        rw [shownInCount_concat hrun, hshowingCount, List.append_nil]
        exact h.total_eq hloaded
  | @load i cumulative hpc hadd =>
      have hsum : cumulative = s.render.cumulative + counter s.histogram i := by
        rw [get_castSucc, addU64] at hadd
        split at hadd <;> cases hadd
        rfl
      obtain ⟨hbuckets, hcounts, hshown, hshownCount⟩ := render_concat hrun
      refine ⟨hbuckets ▸ h.counter_le, hcounts ▸ h.count_eq, ?_, ?_, ?_⟩
      · have hbefore := h.cumulative_eq
        rw [hpc] at hbefore
        change cumulative + ahead s.histogram (firstAhead (nextLoad i)) = _
        rw [firstAhead_nextLoad, hsum, Nat.add_assoc, ← ahead_eq_counter_add, hshown]
        exact hbefore
      · intro _
        rw [hshownCount, hcounts]
        exact h.count_ahead (by rw [hpc]; rfl)
      · intro hloaded
        rw [countAhead_nextLoad] at hloaded
        cases hloaded
  | total hpc =>
      obtain ⟨hbuckets, hcounts, hshown, hshownCount⟩ := render_concat hrun
      have hcumulative := h.cumulative_eq
      rw [hpc] at hcumulative
      refine ⟨hbuckets ▸ h.counter_le, hcounts ▸ h.count_eq, hshown ▸ hcumulative, nofun, fun _ => ?_⟩
      rw [hshownCount, h.count_ahead (by rw [hpc]; rfl)]
      exact h.count_eq
  | finish hpc =>
      obtain ⟨hbuckets, hcounts, hshown, hshownCount⟩ := render_concat hrun
      have hcumulative := h.cumulative_eq
      rw [hpc] at hcumulative
      refine ⟨hbuckets ▸ h.counter_le, hcounts ▸ h.count_eq, hshown ▸ hcumulative, nofun, fun _ => ?_⟩
      rw [hshownCount]
      exact h.total_eq (by rw [hpc]; rfl)

theorem records_length_le_of_step {s s' : Scraping} {label : ScrapingLabel}
    (hstep : s.step label = some s') : s.records.length ≤ s'.records.length := by
  cases step_cases hstep with
  | begin => exact (List.length_append ▸ Nat.le_add_right _ _)
  | bucket | sum | count => exact (List.length_set).ge
  | load | total | finish => exact Nat.le_refl _

theorem counter_new (i : Nat) : counter .new i = 0 := by
  rw [counter, PromHistogram.new, Vector.getElem?_replicate]
  split <;> rfl

theorem counts_new : Counts [] new := by
  refine ⟨fun i => (counter_new i).le, rfl, ?_, fun _ => rfl, nofun⟩
  change 0 + ahead .new 0 = 0
  simp [ahead, counter_new]

theorem counts_of_run {s : Scraping} {labels : List ScrapingLabel}
    (hrun : run step new labels = some s) (hwrap : s.records.length < 2 ^ 64) : Counts labels s := by
  refine run_induction (fun labels s => s.records.length < 2 ^ 64 → Counts labels s) ?_ ?_ hrun hwrap
  · exact fun _ => counts_new
  intro labels s label s' hrun ih hstep hwrap
  exact counts_of_step (ih ((records_length_le_of_step hstep).trans_lt hwrap)) hrun hstep hwrap

/-! ### What the scrape writes -/

/-- The values of the bounded buckets that are written so far. -/
def written (s : Scraping) : List Nat := s.render.out.buckets.map (·.2)

structure Writes (s : Scraping) : Prop where
  sorted : s.written.Pairwise (· ≤ ·)
  le_cumulative : ∀ value ∈ s.written, value ≤ s.render.cumulative
  cumulative_mem : 0 < firstAhead s.render.pc → s.render.cumulative ∈ s.written
  infinity_eq : countAhead s.render.pc = false → s.render.out.infinity = s.render.total
  count_eq : s.render.pc = .done → s.render.out.count = s.render.total

theorem Writes.step {s s' : Scraping} {label : ScrapingLabel} (h : Writes s)
    (hstep : s.step label = some s') : Writes s' := by
  cases step_cases hstep with
  | begin | bucket | sum | count =>
      exact ⟨h.sorted, h.le_cumulative, h.cumulative_mem, h.infinity_eq, h.count_eq⟩
  | @load i cumulative hpc hadd =>
      have hle : s.render.cumulative ≤ cumulative := by
        rw [addU64] at hadd
        split at hadd <;> cases hadd
        exact Nat.le_add_right _ _
      have hwritten : (s.render.out.buckets ++ [(leLabel i, cumulative)]).map (·.2)
          = s.written ++ [cumulative] := List.map_append
      refine ⟨?_, ?_, fun _ => ?_, fun hloaded => ?_, fun hdone => ?_⟩
      · rw [written, hwritten, List.pairwise_append]
        refine ⟨h.sorted, List.pairwise_singleton _ _, fun value hvalue last hlast => ?_⟩
        rw [List.mem_singleton.mp hlast]
        exact (h.le_cumulative value hvalue).trans hle
      · intro value hvalue
        rw [written, hwritten] at hvalue
        rcases List.mem_append.mp hvalue with hvalue | hvalue
        · exact (h.le_cumulative value hvalue).trans hle
        · exact (List.mem_singleton.mp hvalue).le
      · rw [written, hwritten]
        exact List.mem_append_right _ (List.mem_singleton_self _)
      · rw [countAhead_nextLoad] at hloaded
        cases hloaded
      · have hahead := countAhead_nextLoad i
        rw [show nextLoad i = .done from hdone] at hahead
        cases hahead
  | total hpc =>
      have hmem := h.cumulative_mem
      rw [hpc] at hmem
      exact ⟨h.sorted, h.le_cumulative, hmem, fun _ => rfl, nofun⟩
  | finish hpc =>
      have hmem := h.cumulative_mem
      rw [hpc] at hmem
      exact ⟨h.sorted, h.le_cumulative, hmem, fun _ => h.infinity_eq (by rw [hpc]; rfl),
        fun _ => rfl⟩

theorem writes_new : Writes new :=
  ⟨List.Pairwise.nil, nofun, fun hlt => absurd hlt (Nat.lt_irrefl 0), nofun, nofun⟩

theorem writes_of_run {s : Scraping} {labels : List ScrapingLabel}
    (hrun : run step new labels = some s) : Writes s :=
  run_induction (fun _ s => Writes s) writes_new (fun _ _ _ _ _ h hstep => h.step hstep) hrun

/-- The values of all buckets are sorted, and the last one is the count. -/
def ValidHistogram (out : Rendered) : Prop :=
  (out.buckets.map (·.2) ++ [out.infinity]).Pairwise (· ≤ ·) ∧ out.infinity = out.count

instance (out : Rendered) : Decidable (ValidHistogram out) :=
  inferInstanceAs (Decidable (_ ∧ _))

theorem validHistogram_iff {s : Scraping} (h : Writes s) (hdone : s.render.pc = .done) :
    ValidHistogram s.render.out ↔ s.render.cumulative ≤ s.render.total := by
  have hinfinity := h.infinity_eq (by rw [hdone]; rfl)
  have hmem := h.cumulative_mem (by rw [hdone]; exact Nat.zero_lt_succ _)
  rw [ValidHistogram, hinfinity, h.count_eq hdone, List.pairwise_append]
  constructor
  · rintro ⟨⟨-, -, hle⟩, -⟩
    exact hle _ hmem _ (List.mem_singleton_self _)
  · intro hle
    refine ⟨⟨h.sorted, List.pairwise_singleton _ _, fun value hvalue last hlast => ?_⟩, rfl⟩
    rw [List.mem_singleton.mp hlast]
    exact (h.le_cumulative value hvalue).trans hle

/-- The calls of `record` that the scrape sees in one place and not in the other. -/
def shownOnly (first second : List Nat) : Finset Nat := first.toFinset \ second.toFinset

/-- **A scrape writes sorted finite buckets and one value as `+Inf` and as the count, and it is a
valid histogram if and only if no more records are seen in their bucket and not in the count than are
seen in the count and not in a bounded bucket.** -/
theorem scrape_valid_iff {labels : List ScrapingLabel} {s : Scraping}
    (hrun : run step new labels = some s) (hwrap : s.records.length < 2 ^ 64)
    (hdone : s.render.pc = .done) :
    (s.render.out.buckets.map (·.2)).Pairwise (· ≤ ·)
    ∧ s.render.out.infinity = s.render.out.count
    ∧ (ValidHistogram s.render.out ↔
        (shownOnly (shownInBuckets labels) (shownInCount labels)).card
          ≤ (shownOnly (shownInCount labels) (shownInBuckets labels)).card) := by
  have hcounts := counts_of_run hrun hwrap
  have hwrites := writes_of_run hrun
  refine ⟨hwrites.sorted, ?_, ?_⟩
  · rw [hwrites.count_eq hdone]
    exact hwrites.infinity_eq (by rw [hdone]; rfl)
  have hcumulative : s.render.cumulative = (shownInBuckets labels).toFinset.card := by
    rw [List.toFinset_card_of_nodup ((marked_bucketed hrun).nodup.sublist (shownInBuckets_sublist _)),
      ← hcounts.cumulative_eq, hdone]
    simp [ahead, firstAhead]
  have htotal : s.render.total = (shownInCount labels).toFinset.card := by
    rw [List.toFinset_card_of_nodup ((marked_counted hrun).nodup.sublist (shownInCount_sublist _))]
    exact hcounts.total_eq (by rw [hdone]; rfl)
  rw [validHistogram_iff hwrites hdone, hcumulative, htotal, shownOnly, shownOnly,
    Finset.card_sdiff_le_card_sdiff_iff]

/-- One record from its begin to its end. -/
def wholeRecord (call : Nat) (duration : Duration) : List ScrapingLabel :=
  [.begin duration, .record call, .record call, .record call]

/-- A scrape from its begin to its end: sixteen buckets, the count and the sum. -/
def wholeScrape : List ScrapingLabel := List.replicate (numBuckets + 2) .render

/-- The scrape loads the first bucket between the bucket and the count of one record, and another
record comes as a whole between that load and the load of the count. -/
def interleavedRun : List ScrapingLabel :=
  [.begin 1, .record 0, .render] ++ wholeRecord 1 1 ++ List.replicate (numBuckets + 1) .render
    ++ [.record 0, .record 0]

theorem isSome_interleavedRun : (run step new interleavedRun).isSome := by decide +kernel

theorem scrape_valid_interleavedRun :
    shownInBuckets interleavedRun = [0] ∧ shownInCount interleavedRun = [1]
    ∧ ((run step new interleavedRun).get isSome_interleavedRun).render.out.infinity = 1
    ∧ ValidHistogram ((run step new interleavedRun).get isSome_interleavedRun).render.out :=
  ⟨by decide +kernel, by decide +kernel, by decide +kernel,
    (scrape_valid_iff (Option.some_get isSome_interleavedRun).symm (by decide +kernel)
      (by decide +kernel)).2.2.mpr (by decide +kernel)⟩

/-- A scrape while a record has raised its bucket and not yet the count. -/
def tornRun : List ScrapingLabel := [.begin 1, .record 0] ++ wholeScrape

theorem isSome_tornRun : (run step new tornRun).isSome := by decide +kernel

/-- The scrape is over, the finite buckets say one and `+Inf` says zero. -/
theorem tornRun_not_valid :
    ((run step new tornRun).get isSome_tornRun).render.pc = .done
    ∧ ¬ ValidHistogram ((run step new tornRun).get isSome_tornRun).render.out := by
  decide +kernel

end Scraping

end OrderbookAggregator
