import OrderbookAggregator.Metrics

/-!
# A histogram that is scraped while it is written

`src/metrics.rs`: any number of calls of `record` and one call of `render` on one histogram. The
atomic operations of the calls interleave in any order.
-/

namespace OrderbookAggregator

/-- What a call of `record` does next. -/
inductive RecordPc where
  | bucket
  | sum
  | count
  | done
  deriving DecidableEq, Repr

structure RecordCall where
  duration : Duration
  pc : RecordPc
  deriving DecidableEq

/-- What the call of `render` does next. -/
inductive RenderPc where
  | bucket (i : Fin numBuckets)
  | count
  | sum
  | done
  deriving DecidableEq

/-- The values that `render` writes: those of the bounded buckets with their `le` labels, the one of
`le="+Inf"`, the sum and the count. -/
structure Rendered where
  buckets : List (String × Nat)
  infinity : Nat
  sumNs : Nat
  count : Nat
  deriving DecidableEq

structure RenderCall where
  pc : RenderPc
  cumulative : Nat
  total : Nat
  out : Rendered
  deriving DecidableEq

def RenderCall.new : RenderCall :=
  { pc := .bucket ⟨0, by decide⟩
    cumulative := 0
    total := 0
    out := ⟨[], 0, 0, 0⟩ }

/-- The histogram and the calls on it. -/
structure Scraping where
  histogram : PromHistogram
  records : List RecordCall
  render : RenderCall
  deriving DecidableEq

/-- A call of `record` begins, or a call does its next atomic operation. -/
inductive ScrapingLabel where
  | begin (duration : Duration)
  | record (call : Nat)
  | render
  deriving DecidableEq

/-- The `le` label of a bucket. -/
def leLabel (i : Fin numBuckets) : String := (buckets.get i).2

namespace Scraping

def new : Scraping := ⟨.new, [], .new⟩

def recordStep (s : Scraping) (call : Nat) : Option Scraping :=
  match s.records[call]? with
  | none => none
  | some ⟨duration, .bucket⟩ =>
    some { s with
      histogram := s.histogram.addBucket duration
      records := s.records.set call ⟨duration, .sum⟩ }
  | some ⟨duration, .sum⟩ =>
    some { s with
      histogram := s.histogram.addSum duration
      records := s.records.set call ⟨duration, .count⟩ }
  | some ⟨duration, .count⟩ =>
    some { s with
      histogram := s.histogram.addCount
      records := s.records.set call ⟨duration, .done⟩ }
  | some ⟨_, .done⟩ => none

/-- The place of `render` behind the load of a bucket. -/
def nextLoad (i : Fin numBuckets) : RenderPc :=
  if h : i + 1 < numBuckets then .bucket ⟨i + 1, h⟩ else .count

def renderStep (s : Scraping) : Option Scraping :=
  let r := s.render
  match r.pc with
  | .bucket i =>
    (addU64 r.cumulative (s.histogram.buckets.get i.castSucc)).toOption.map fun cumulative =>
      { s with render := { r with
          pc := nextLoad i
          cumulative
          out := { r.out with buckets := r.out.buckets ++ [(leLabel i, cumulative)] } } }
  | .count =>
    let total := s.histogram.count
    some { s with render := { r with
      pc := .sum
      total
      out := { r.out with infinity := total } } }
  | .sum =>
    some { s with render := { r with
      pc := .done
      out := { r.out with sumNs := s.histogram.sumNs, count := r.total } } }
  | .done => none

def step (s : Scraping) : ScrapingLabel → Option Scraping
  | .begin duration => some { s with records := s.records ++ [⟨duration, .bucket⟩] }
  | .record call => s.recordStep call
  | .render => s.renderStep

/-- Everything a step can be. -/
inductive Step (s : Scraping) : ScrapingLabel → Scraping → Prop
  | begin {duration} :
      Step s (.begin duration) { s with records := s.records ++ [⟨duration, .bucket⟩] }
  | bucket {call duration} (hcall : s.records[call]? = some ⟨duration, .bucket⟩) :
      Step s (.record call) { s with
        histogram := s.histogram.addBucket duration
        records := s.records.set call ⟨duration, .sum⟩ }
  | sum {call duration} (hcall : s.records[call]? = some ⟨duration, .sum⟩) :
      Step s (.record call) { s with
        histogram := s.histogram.addSum duration
        records := s.records.set call ⟨duration, .count⟩ }
  | count {call duration} (hcall : s.records[call]? = some ⟨duration, .count⟩) :
      Step s (.record call) { s with
        histogram := s.histogram.addCount
        records := s.records.set call ⟨duration, .done⟩ }
  | load {i cumulative} (hpc : s.render.pc = .bucket i)
      (hadd : addU64 s.render.cumulative (s.histogram.buckets.get i.castSucc) = .ok cumulative) :
      Step s .render { s with render := { s.render with
        pc := nextLoad i
        cumulative
        out := { s.render.out with
          buckets := s.render.out.buckets ++ [(leLabel i, cumulative)] } } }
  | total (hpc : s.render.pc = .count) :
      Step s .render { s with render := { s.render with
        pc := .sum
        total := s.histogram.count
        out := { s.render.out with infinity := s.histogram.count } } }
  | finish (hpc : s.render.pc = .sum) :
      Step s .render { s with render := { s.render with
        pc := .done
        out := { s.render.out with sumNs := s.histogram.sumNs, count := s.render.total } } }

theorem step_cases {s s' : Scraping} {label : ScrapingLabel} (h : s.step label = some s') :
    Step s label s' := by
  cases label with
  | begin duration =>
      cases h
      exact .begin
  | record call =>
      rw [step, recordStep] at h
      split at h <;> cases h
      · exact .bucket ‹_›
      · exact .sum ‹_›
      · exact .count ‹_›
  | render =>
      rw [step, renderStep] at h
      dsimp only at h
      split at h
      · obtain ⟨cumulative, hadd, rfl⟩ := Option.map_eq_some_iff.mp h
        exact .load ‹_› (Exec.eq_ok_of_toOption hadd)
      · cases h
        exact .total ‹_›
      · cases h
        exact .finish ‹_›
      · cases h

end Scraping

end OrderbookAggregator
