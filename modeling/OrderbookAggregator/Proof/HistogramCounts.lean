import OrderbookAggregator.Library.Tally
import OrderbookAggregator.Proof.Scrape

/-!
# What a histogram counts

Once no record is under way, the histogram is as exact as its counters: the counter of a bucket is the
number of durations that fall into it, and a scrape, adding the counters up, finds for each bound the
number of durations up to it. Until then each call has contributed what its place says.
-/

namespace OrderbookAggregator

open LabelledRun Tally

namespace Scraping

/-! ### What the calls have contributed -/

/-- Whether the call has raised the counter of bucket `i`. -/
def inBucket (i : Nat) (call : RecordCall) : Nat :=
  if 1 ≤ call.pc.rank ∧ bucketOf call.duration = i then 1 else 0

/-- What the call has added to the sum. -/
def inSum (call : RecordCall) : Nat :=
  if 2 ≤ call.pc.rank then PromHistogram.nanos call.duration else 0

/-- Whether the call has raised the count. -/
def inCount (call : RecordCall) : Nat := if 3 ≤ call.pc.rank then 1 else 0

/-- Every counter is what the calls have contributed to it. -/
structure Recorded (s : Scraping) : Prop where
  buckets : ∀ i, i < numBuckets + 1 →
    counter s.histogram i = total (inBucket i) s.records % 2 ^ 64
  sum : s.histogram.sumNs = total inSum s.records % 2 ^ 64
  count : s.histogram.count = total inCount s.records % 2 ^ 64

theorem recorded_new : Recorded new :=
  ⟨fun i _ => counter_new i, rfl, rfl⟩

theorem fetchAddU64_mod (a n : Nat) : fetchAddU64 (a % 2 ^ 64) n = (a + n) % 2 ^ 64 :=
  Nat.mod_add_mod _ _ _

theorem total_begin {weight : RecordCall → Nat} {duration : Duration}
    (hweight : weight ⟨duration, .bucket⟩ = 0) (records : List RecordCall) :
    total weight (records ++ [⟨duration, .bucket⟩]) = total weight records := by
  rw [total_append, total_cons, hweight]
  rfl

theorem Recorded.step {s s' : Scraping} {label : ScrapingLabel} (h : Recorded s)
    (hstep : s.step label = some s') : Recorded s' := by
  cases step_cases hstep with
  | begin =>
      refine ⟨fun i hi => ?_, ?_, ?_⟩
      · rw [total_begin (by simp [inBucket, RecordPc.rank])]
        exact h.buckets i hi
      · rw [total_begin (by simp [inSum, RecordPc.rank])]
        exact h.sum
      · rw [total_begin (by simp [inCount, RecordPc.rank])]
        exact h.count
  | @bucket call duration hcall =>
      refine ⟨fun i hi => ?_, ?_, ?_⟩
      · rw [counter_addBucket, h.buckets i hi]
        by_cases hbucket : i = bucketOf duration
        · rw [if_pos hbucket, fetchAddU64_mod, total_set hcall]
          simp [inBucket, RecordPc.rank, hbucket]
        · rw [if_neg hbucket, @total_set _ _ _ _ _ _ 0 hcall]
          · rfl
          · simp [inBucket, RecordPc.rank, Ne.symm hbucket]
      · rw [@total_set _ _ _ _ _ _ 0 hcall (by simp [inSum, RecordPc.rank])]
        exact h.sum
      · rw [@total_set _ _ _ _ _ _ 0 hcall (by simp [inCount, RecordPc.rank])]
        exact h.count
  | @sum call duration hcall =>
      refine ⟨fun i hi => ?_, ?_, ?_⟩
      · rw [@total_set _ _ _ _ _ _ 0 hcall (by simp [inBucket, RecordPc.rank])]
        exact h.buckets i hi
      · rw [total_set hcall (by simp [inSum, RecordPc.rank] : _ = _ + PromHistogram.nanos duration),
          ← fetchAddU64_mod, ← h.sum]
        rfl
      · rw [@total_set _ _ _ _ _ _ 0 hcall (by simp [inCount, RecordPc.rank])]
        exact h.count
  | @count call duration hcall =>
      refine ⟨fun i hi => ?_, ?_, ?_⟩
      · rw [@total_set _ _ _ _ _ _ 0 hcall (by simp [inBucket, RecordPc.rank])]
        exact h.buckets i hi
      · rw [@total_set _ _ _ _ _ _ 0 hcall (by simp [inSum, RecordPc.rank])]
        exact h.sum
      · rw [@total_set _ _ _ _ _ _ 1 hcall (by simp [inCount, RecordPc.rank]), ← fetchAddU64_mod,
          ← h.count]
        rfl
  | load | total | finish => exact ⟨h.buckets, h.sum, h.count⟩

theorem recorded_of_run {s : Scraping} {labels : List ScrapingLabel}
    (hrun : run step new labels = some s) : Recorded s :=
  run_induction (fun _ s => Recorded s) recorded_new (fun _ _ _ _ _ h hstep => h.step hstep) hrun

/-! ### When no record is under way -/

def durations (s : Scraping) : List Duration := s.records.map (·.duration)

def Quiet (s : Scraping) : Prop := ∀ call ∈ s.records, call.pc = .done

instance (s : Scraping) : Decidable s.Quiet := inferInstanceAs (Decidable (∀ _ ∈ _, _))

theorem total_of_quiet {s : Scraping} (hquiet : s.Quiet) {weight : RecordCall → Nat}
    {contribution : Duration → Nat}
    (h : ∀ duration, weight ⟨duration, .done⟩ = contribution duration) :
    total weight s.records = total contribution s.durations := by
  have hweight : ∀ call ∈ s.records, weight call = contribution call.duration := by
    rintro ⟨duration, pc⟩ hcall
    obtain rfl : pc = .done := hquiet _ hcall
    exact h duration
  rw [total_congr hweight, durations, total, total, List.map_map]
  rfl

theorem Recorded.exact {s : Scraping} (h : Recorded s) (hquiet : s.Quiet)
    (hwrap : s.records.length < 2 ^ 64) :
    (∀ i, i < numBuckets + 1 → counter s.histogram i = s.durations.countP (bucketOf · = i))
      ∧ s.histogram.sumNs = (s.durations.map PromHistogram.nanos).sum % 2 ^ 64
      ∧ s.histogram.count = s.durations.length := by
  have hlength : s.durations.length = s.records.length := List.length_map _
  refine ⟨fun i hi => ?_, ?_, ?_⟩
  · have hcontribution : ∀ duration, inBucket i ⟨duration, .done⟩
        = if bucketOf duration = i then 1 else 0 := fun duration => by simp [inBucket, RecordPc.rank]
    have hle : s.durations.countP (bucketOf · = i) ≤ s.durations.length := List.countP_le_length
    rw [h.buckets i hi, total_of_quiet hquiet hcontribution, total_ite, Nat.mod_eq_of_lt (by omega)]
  · have hcontribution : ∀ duration, inSum ⟨duration, .done⟩ = PromHistogram.nanos duration :=
      fun duration => if_pos (Nat.le_succ 2)
    rw [h.sum, total_of_quiet hquiet hcontribution, total]
  · have hcontribution : ∀ duration, inCount ⟨duration, .done⟩ = 1 := fun duration => if_pos le_rfl
    have htotal : total (fun _ => 1) s.durations = s.durations.length := by simp [total]
    rw [h.count, total_of_quiet hquiet hcontribution, htotal, Nat.mod_eq_of_lt (by omega)]

/-! ### What a scrape adds up -/

/-- The counters of the buckets before some bucket. -/
def behind (h : PromHistogram) (i : Nat) : Nat := ∑ j ∈ Finset.range i, counter h j

/-- The scrape behind the loads of `k` buckets. -/
def loaded (h : PromHistogram) (k : Nat) : RenderCall :=
  { pc := if hk : k < numBuckets then .bucket ⟨k, hk⟩ else .count
    cumulative := behind h k
    total := 0
    out := ⟨((List.finRange numBuckets).take k).map fun i => (leLabel i, behind h (i + 1)), 0, 0, 0⟩ }

theorem loaded_zero (h : PromHistogram) : loaded h 0 = .new := rfl

theorem step_loaded (s : Scraping) {k : Nat} (hk : k < numBuckets)
    (hfits : behind s.histogram (k + 1) < 2 ^ 64) :
    ({ s with render := loaded s.histogram k } : Scraping).step .render
      = some { s with render := loaded s.histogram (k + 1) } := by
  have hpc : (loaded s.histogram k).pc = .bucket ⟨k, hk⟩ := dif_pos hk
  have hsum : behind s.histogram k + counter s.histogram k = behind s.histogram (k + 1) :=
    (Finset.sum_range_succ _ k).symm
  have hadd : addU64 (loaded s.histogram k).cumulative
      (s.histogram.buckets.get (Fin.castSucc ⟨k, hk⟩)) = .ok (behind s.histogram (k + 1)) := by
    rw [get_castSucc, ← hsum]
    exact addU64_of_lt (hsum ▸ hfits)
  have htake : (List.finRange numBuckets).take (k + 1)
      = (List.finRange numBuckets).take k ++ [⟨k, hk⟩] := by
    rw [List.take_add_one, List.getElem?_eq_getElem (by simpa using hk)]
    simp
  have hnext : ({ loaded s.histogram k with
      pc := nextLoad ⟨k, hk⟩
      cumulative := behind s.histogram (k + 1)
      out := { (loaded s.histogram k).out with
        buckets := (loaded s.histogram k).out.buckets
          ++ [(leLabel ⟨k, hk⟩, behind s.histogram (k + 1))] } } : RenderCall)
      = loaded s.histogram (k + 1) := by
    rw [loaded, loaded, htake, List.map_append]
    rfl
  rw [step, renderStep]
  simp only [hpc, hadd, ← hnext]
  rfl

theorem run_loads {s : Scraping} (hrender : s.render = .new)
    (hfits : behind s.histogram numBuckets < 2 ^ 64) {k : Nat} (hk : k ≤ numBuckets) :
    run step s (List.replicate k .render) = some { s with render := loaded s.histogram k } := by
  induction k with
  | zero =>
      rw [loaded_zero, ← hrender]
      rfl
  | succ k ih =>
      have hmono : behind s.histogram (k + 1) ≤ behind s.histogram numBuckets :=
        Finset.sum_le_sum_of_subset (Finset.range_mono hk)
      rw [List.replicate_succ']
      exact run_concat_eq_some.mpr
        ⟨_, ih (Nat.le_of_succ_le hk), step_loaded s hk (hmono.trans_lt hfits)⟩

theorem run_wholeScrape {s : Scraping} (hrender : s.render = .new)
    (hfits : behind s.histogram numBuckets < 2 ^ 64) :
    ∃ s', run step s wholeScrape = some s' ∧ s'.render.pc = .done ∧ s'.render.out =
      { buckets := (List.finRange numBuckets).map fun i =>
          (leLabel i, behind s.histogram (i + 1))
        infinity := s.histogram.count
        sumNs := s.histogram.sumNs
        count := s.histogram.count } := by
  have hloads := run_loads hrender hfits le_rfl
  refine ⟨_, run_append_eq_some.mpr ⟨_, hloads, rfl⟩, rfl, rfl⟩

/-- The bounds of the table increase, so a duration is in one of the buckets up to some place if and
only if it does not exceed the bound there. -/
theorem bucketOf_lt_iff (duration : Duration) (i : Fin numBuckets) :
    bucketOf duration < i + 1 ↔ PromHistogram.nanos duration ≤ (buckets.get i).1 := by
  have hsorted : (buckets.map Prod.fst).Pairwise (· ≤ ·) := by decide
  exact Nat.lt_succ_iff.trans (findIdx_le_iff hsorted _ i.isLt)

theorem render_of_run {s : Scraping} {labels : List ScrapingLabel}
    (hrun : run step new labels = some s) (hlabels : .render ∉ labels) : s.render = .new := by
  refine run_induction (fun labels s => .render ∉ labels → s.render = .new) (fun _ => rfl) ?_ hrun
    hlabels
  intro labels s label s' _ ih hstep hlabels
  rw [List.mem_append, not_or, List.mem_singleton] at hlabels
  have hbefore := ih hlabels.1
  cases step_cases hstep with
  | begin | bucket | sum | count => exact hbefore
  | load | total | finish => exact absurd rfl hlabels.2

/-- **A histogram counts exactly.** Take any run in which records on a new histogram interleave, and
none is under way at its end. A scrape then finds for every bound the number of durations that do not
exceed it, and the number of all durations as `+Inf` and as the count. The counters of the buckets add
up to the count, and the sum is that of the durations, as far as it fits. -/
theorem scrape_exact {labels : List ScrapingLabel} {s : Scraping}
    (hrun : run step new labels = some s) (hwrap : s.records.length < 2 ^ 64) (hquiet : s.Quiet)
    (hlabels : .render ∉ labels) :
    (∃ s', run step s wholeScrape = some s' ∧ s'.render.pc = .done ∧ s'.render.out =
      { buckets := buckets.map fun bound =>
          (bound.2, s.durations.countP (PromHistogram.nanos · ≤ bound.1))
        infinity := s.durations.length
        sumNs := (s.durations.map PromHistogram.nanos).sum % 2 ^ 64
        count := s.durations.length })
      ∧ ∑ i, s.histogram.buckets.get i = s.histogram.count
      ∧ s.histogram.sumNs = (s.durations.map PromHistogram.nanos).sum % 2 ^ 64 := by
  obtain ⟨hbuckets, hsum, hcount⟩ := (recorded_of_run hrun).exact hquiet hwrap
  have hbehind : ∀ i ≤ numBuckets + 1, behind s.histogram i = s.durations.countP (bucketOf · < i) := by
    intro i hi
    rw [← sum_range_countP]
    apply Finset.sum_congr rfl
    intro j hj
    exact hbuckets j ((Finset.mem_range.mp hj).trans_le hi)
  have hall : s.durations.countP (bucketOf · < numBuckets + 1) = s.durations.length :=
    List.countP_eq_length.mpr fun duration _ => decide_eq_true (bucketOf_lt duration)
  refine ⟨?_, ?_, hsum⟩
  · have hfits : behind s.histogram numBuckets < 2 ^ 64 := by
      rw [hbehind _ (Nat.le_succ _)]
      exact (List.countP_le_length.trans (List.length_map _).le).trans_lt hwrap
    obtain ⟨s', hscrape, hdone, hout⟩ := run_wholeScrape (render_of_run hrun hlabels) hfits
    refine ⟨s', hscrape, hdone, ?_⟩
    have hlines : (List.finRange numBuckets).map (fun i => (leLabel i, behind s.histogram (i + 1)))
        = buckets.map fun bound =>
          (bound.2, s.durations.countP (PromHistogram.nanos · ≤ bound.1)) := by
      conv_rhs => rw [← List.map_get_finRange buckets, List.map_map]
      apply List.map_congr_left
      intro i _
      rw [hbehind _ (Nat.succ_le_succ i.isLt.le)]
      simp only [bucketOf_lt_iff]
      rfl
    rw [hout, hlines, hsum, hcount]
  · calc ∑ i, s.histogram.buckets.get i
        = ∑ i : Fin (numBuckets + 1), counter s.histogram i := by
          apply Finset.sum_congr rfl
          intro i _
          rw [counter, Vector.getElem?_eq_getElem i.isLt]
          rfl
      _ = behind s.histogram (numBuckets + 1) := Fin.sum_univ_eq_sum_range _ _
      _ = s.histogram.count := by rw [hbehind _ le_rfl, hall, hcount]

/-- Records that interleave, on a bound, just past it and past every bound. -/
def interleavedRecords : List ScrapingLabel :=
  [.begin 100, .begin 101, .record 0, .begin (10 ^ 20), .record 2, .record 1, .record 1, .record 0,
    .record 0, .record 2, .record 1, .record 2]

theorem scrape_exact_interleavedRecords :
    ∃ s, run step new interleavedRecords = some s ∧ s.durations = [100, 101, 10 ^ 20]
      ∧ s.histogram.sumNs = ([100, 101, 10 ^ 20].map PromHistogram.nanos).sum % 2 ^ 64 := by
  refine ⟨_, rfl, rfl, ?_⟩
  exact (scrape_exact (@rfl _ (run step new interleavedRecords)) (by decide) (by decide)
    (by decide)).2.2

end Scraping

end OrderbookAggregator
