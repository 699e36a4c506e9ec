import OrderbookAggregator.Proof.Binance
import OrderbookAggregator.Proof.Bitstamp

/-!
# The order of the numbers that are published

Both handlers track the last number in one `u64`, in which zero also stands for a snapshot without a
number. First the tracker by itself, on a list of numbers: what it lets through is increasing exactly
if no number that directly follows a zero falls back behind an earlier one. Then the handlers, whose
runs are runs of the tracker.
-/

namespace OrderbookAggregator

namespace Tracker

/-- The test of both handlers. -/
def Drops (last n : Nat) : Prop := 0 < n ∧ 0 < last ∧ n ≤ last

instance (last n : Nat) : Decidable (Drops last n) := inferInstanceAs (Decidable (_ ∧ _ ∧ _))

/-- The tracker after one number. -/
def next (last n : Nat) : Nat := if Drops last n then last else n

/-- What one number lets through. -/
def pass (last n : Nat) : List Nat := if Drops last n then [] else [n]

/-- The tracker after a list of numbers. -/
def lastOf (last : Nat) (ns : List Nat) : Nat := ns.foldl next last

/-- What is let through of a list of numbers. -/
def passed (last : Nat) : List Nat → List Nat
  | [] => []
  | n :: ns => pass last n ++ passed (next last n) ns

theorem passed_append (last : Nat) (ns ms : List Nat) :
    passed last (ns ++ ms) = passed last ns ++ passed (lastOf last ns) ms := by
  induction ns generalizing last with
  | nil => rfl
  | cons n ns ih => rw [List.cons_append, passed, passed, ih, List.append_assoc]; rfl

theorem passed_concat (last : Nat) (ns : List Nat) (n : Nat) :
    passed last (ns ++ [n]) = passed last ns ++ pass (lastOf last ns) n := by
  rw [passed_append, passed, passed, List.append_nil]

theorem lastOf_concat (last : Nat) (ns : List Nat) (n : Nat) :
    lastOf last (ns ++ [n]) = next (lastOf last ns) n := by
  simp [lastOf]

@[simp]
theorem pass_zero (last : Nat) : pass last 0 = [0] := if_neg fun h => absurd h.1 (Nat.lt_irrefl 0)

@[simp]
theorem next_zero (last : Nat) : next last 0 = 0 := if_neg fun h => absurd h.1 (Nat.lt_irrefl 0)

@[simp]
theorem pass_of_zero (n : Nat) : pass 0 n = [n] := if_neg fun h => absurd h.2.1 (Nat.lt_irrefl 0)

/-- Where the tracker is not zero, it is the number let through last. -/
theorem passed_eq_concat_lastOf {ns : List Nat} (hlast : lastOf 0 ns ≠ 0) :
    ∃ earlier, passed 0 ns = earlier ++ [lastOf 0 ns] := by
  induction ns using List.reverseRecOn with
  | nil => exact absurd rfl hlast
  | append_singleton ns n ih =>
      rw [lastOf_concat, next] at hlast ⊢
      rw [passed_concat, pass]
      by_cases hdrops : Drops (lastOf 0 ns) n
      · rw [if_pos hdrops] at hlast ⊢
        rw [if_pos hdrops, List.append_nil]
        exact ih hlast
      · rw [if_neg hdrops, if_neg hdrops]
        exact ⟨_, rfl⟩

/-- The tracker is zero at the start and behind a zero only. -/
theorem eq_concat_zero_of_lastOf {ns : List Nat} (hlast : lastOf 0 ns = 0) :
    ns = [] ∨ ∃ before, ns = before ++ [0] := by
  cases ns using List.reverseRecOn with
  | nil => exact Or.inl rfl
  | append_singleton ns n =>
      rw [lastOf_concat, next] at hlast
      split at hlast
      · rename_i hdrops
        exact absurd hlast hdrops.2.1.ne'
      · exact Or.inr ⟨ns, by rw [hlast]⟩

theorem mem_of_mem_passed {ns : List Nat} {p : Nat} (hp : p ∈ passed 0 ns) : p ∈ ns := by
  induction ns using List.reverseRecOn with
  | nil => exact hp
  | append_singleton ns n ih =>
      rw [passed_concat, pass] at hp
      rcases List.mem_append.mp hp with hp | hp
      · exact List.mem_append_left _ (ih hp)
      · split at hp
        · simp at hp
        · exact List.mem_append_right _ hp

/-- What is dropped is no greater than something that was let through. -/
theorem exists_mem_passed_ge {ns : List Nat} {m : Nat} (hm : m ∈ ns) : ∃ p ∈ passed 0 ns, m ≤ p := by
  induction ns using List.reverseRecOn with
  | nil => simp at hm
  | append_singleton ns n ih =>
      rw [passed_concat]
      rcases List.mem_append.mp hm with hm | hm
      · obtain ⟨p, hp, hle⟩ := ih hm
        exact ⟨p, List.mem_append_left _ hp, hle⟩
      · obtain rfl := List.mem_singleton.mp hm
        by_cases hdrops : Drops (lastOf 0 ns) m
        · obtain ⟨earlier, hpassed⟩ := passed_eq_concat_lastOf hdrops.2.1.ne'
          exact ⟨lastOf 0 ns, by simp [hpassed], hdrops.2.2⟩
        · exact ⟨m, by simp [pass, hdrops], le_rfl⟩

def Increasing (ns : List Nat) : Prop := (ns.filter (· ≠ 0)).Pairwise (· < ·)

instance (ns : List Nat) : Decidable (Increasing ns) :=
  inferInstanceAs (Decidable (List.Pairwise _ _))

/-- A number that directly follows a zero exceeds everything before the zero. -/
def ResumesAhead (ns : List Nat) : Prop :=
  ∀ before n after, ns = before ++ 0 :: n :: after → n ≠ 0 → ∀ m ∈ before, m < n

theorem ResumesAhead.of_concat {ns : List Nat} {n : Nat} (h : ResumesAhead (ns ++ [n])) :
    ResumesAhead ns := by
  intro before m after hns hm
  exact h before m (after ++ [n]) (by rw [hns]; simp) hm

theorem increasing_concat {ns : List Nat} {n : Nat} (hns : Increasing ns)
    (hlt : ∀ m ∈ ns, m ≠ 0 → m < n) : Increasing (ns ++ [n]) := by
  unfold Increasing at hns ⊢
  rw [List.filter_append, List.pairwise_append]
  refine ⟨hns, ((List.pairwise_singleton _ n).filter _), ?_⟩
  intro m hm k hk
  obtain rfl := List.mem_singleton.mp (List.mem_of_mem_filter hk)
  rw [List.mem_filter] at hm
  exact hlt m hm.1 (by simpa using hm.2)

/-- **The tracker.** What it lets through is increasing exactly if, behind every zero, the numbers
resume ahead of all earlier ones. -/
theorem increasing_passed_iff (ns : List Nat) : Increasing (passed 0 ns) ↔ ResumesAhead ns := by
  constructor
  · rintro hincreasing before n after rfl hn m hm
    obtain ⟨p, hp, hle⟩ := exists_mem_passed_ge hm
    have hpassed : passed 0 (before ++ 0 :: n :: after)
        = passed 0 before ++ 0 :: n :: passed (next 0 n) after := by
      rw [passed_append, passed, passed, pass_zero, next_zero, pass_of_zero]
      rfl
    rw [hpassed, Increasing, List.filter_append, List.pairwise_append] at hincreasing
    rcases Nat.eq_zero_or_pos p with rfl | hpos
    · omega
    · have hlt := hincreasing.2.2 p (by simp [hp]; omega) n (by simp [hn])
      omega
  · intro hahead
    induction ns using List.reverseRecOn with
    | nil => exact List.Pairwise.nil
    | append_singleton ns n ih =>
        have hns := ih hahead.of_concat
        rw [passed_concat, pass]
        by_cases hdrops : Drops (lastOf 0 ns) n
        · rwa [if_pos hdrops, List.append_nil]
        rw [if_neg hdrops]
        by_cases hn : n = 0
        · rw [hn]
          unfold Increasing at hns ⊢
          simpa using hns
        refine increasing_concat hns fun m hm hne => ?_
        by_cases hlast : lastOf 0 ns = 0
        · -- the number resumes behind a zero, or it is the first
          rcases eq_concat_zero_of_lastOf hlast with rfl | ⟨before, rfl⟩
          · simp [passed] at hm
          · have hmem := mem_of_mem_passed hm
            rw [List.mem_append, List.mem_singleton] at hmem
            exact hahead before n [] (by simp) hn m (hmem.resolve_right hne)
        · -- the tracker holds the greatest number so far, and this one is greater
          have hgreater : lastOf 0 ns < n := by
            unfold Drops at hdrops
            omega
          obtain ⟨earlier, hpassed⟩ := passed_eq_concat_lastOf hlast
          rw [hpassed] at hm hns
          rcases List.mem_append.mp hm with hm | hm
          · unfold Increasing at hns
            rw [List.filter_append, List.pairwise_append] at hns
            have hlt := hns.2.2 m (by simp [hm, hne]) (lastOf 0 ns) (by simp [hlast])
            omega
          · rw [List.mem_singleton] at hm
            omega

end Tracker

/-! ### The handlers -/

section Runs

variable {H : Type} (process : H → ExchangeMetrics → Frame → Exec (Handled H))
  (number : Frame → Exec (Option Nat)) (last : H → Nat)

/-- The numbers of the snapshots among the frames, up to the first that cannot be decoded without a
panic. -/
def readNumbers : List Frame → List Nat
  | [] => []
  | frame :: frames =>
    match number frame with
    | .error _ => []
    | .ok n => n.toList ++ readNumbers frames

/-- The numbers of the frames whose books were sent. -/
def sentNumbers (handler : H) (metrics : ExchangeMetrics) (frames : List Frame) : List Nat :=
  (frames.zip (runFrames process handler metrics frames)).filterMap fun step =>
    step.2.sent.bind fun _ => (number step.1).toOption.join

/-- What a frame does is what its number does to the tracker. A frame without a snapshot does
nothing. -/
def Tracks : Prop :=
  ∀ handler metrics frame,
    match number frame with
    | .error _ => ∃ panic, process handler metrics frame = .error panic
    | .ok n => ∃ out, process handler metrics frame = .ok out
      ∧ (out.sent.bind fun _ => n).toList = n.toList.flatMap (Tracker.pass (last handler))
      ∧ last out.handler = n.toList.foldl Tracker.next (last handler)

variable {process number last}

/-- A connection is a run of the tracker. -/
theorem Tracks.sentNumbers_eq (htracks : Tracks process number last) (handler : H)
    (metrics : ExchangeMetrics) (frames : List Frame) :
    sentNumbers process number handler metrics frames
      = Tracker.passed (last handler) (readNumbers number frames) := by
  induction frames generalizing handler metrics with
  | nil => rfl
  | cons frame frames ih =>
      have hframe := htracks handler metrics frame
      rw [sentNumbers, runFrames, readNumbers]
      cases hnumber : number frame with
      | error panic =>
          rw [hnumber] at hframe
          obtain ⟨panic, hprocess⟩ := hframe
          rw [hprocess]
          rfl
      | ok n =>
          rw [hnumber] at hframe
          obtain ⟨out, hprocess, hsent, hlast⟩ := hframe
          have hrest := ih out.handler out.metrics
          rw [hlast, sentNumbers] at hrest
          rw [hprocess]
          dsimp only
          rw [List.zip_cons_cons, List.filterMap_cons, hrest, hnumber]
          cases n with
          | none => cases out.sent <;> rfl
          | some n =>
              simp only [Option.toList_some, List.flatMap_singleton, List.foldl_cons,
                List.foldl_nil] at hsent ⊢
              rw [List.singleton_append, Tracker.passed, ← hsent]
              cases out.sent <;> rfl

end Runs

theorem tracks_handleSnapshot (exchangeId : ExchangeId) (frame : Frame) (last : Nat)
    (metrics : ExchangeMetrics) (seq : Nat) (bids asks : ArrayVec RawLevel depth) :
    let out := handleSnapshot exchangeId false frame last metrics seq bids asks
    (out.sent.bind fun _ => some seq).toList = (some seq).toList.flatMap (Tracker.pass last)
      ∧ out.handler = (some seq).toList.foldl Tracker.next last := by
  simp only [Option.toList_some, List.flatMap_singleton, List.foldl_cons, List.foldl_nil]
  rw [Tracker.pass, Tracker.next]
  by_cases hdrops : Tracker.Drops last seq
  · have htest : 0 < seq ∧ 0 < last ∧ seq ≤ last := hdrops
    rw [if_pos hdrops, if_pos hdrops, handleSnapshot, if_pos htest]
    exact ⟨rfl, rfl⟩
  · have htest : ¬ (0 < seq ∧ 0 < last ∧ seq ≤ last) := hdrops
    rw [if_neg hdrops, if_neg hdrops, handleSnapshot, if_neg htest]
    exact ⟨rfl, rfl⟩

namespace Binance

/-- The number that the walk returns for a snapshot. -/
def number (memmem : Memmem) (frame : Frame) : Exec (Option Nat) := do
  match ← walk memmem frame.text with
  | none => return none
  | some (seq, _, _) => return some seq

theorem tracks (memmem : Memmem) :
    Tracks (Handler.processText memmem false) (number memmem) Handler.lastSeq := by
  intro handler metrics frame
  rw [processText_eq, number]
  cases walk memmem frame.text with
  | error panic => exact ⟨panic, rfl⟩
  | ok o =>
      rcases o with _ | ⟨seq, bids, asks⟩
      · exact ⟨_, rfl, rfl, rfl⟩
      · exact ⟨_, rfl, tracks_handleSnapshot binanceId frame handler.lastSeq metrics seq bids asks⟩

end Binance

namespace Bitstamp

/-- The number that the walk returns for a snapshot; control events are none. -/
def number (memmem : Memmem) (frame : Frame) : Exec (Option Nat) := do
  match ← walk memmem frame.text with
  | none => return none
  | some (event, micro, _, _) => return if event = bytes "data" then some micro else none

theorem tracks (memmem : Memmem) :
    Tracks (Handler.processText memmem false) (number memmem) Handler.lastMicro := by
  intro handler metrics frame
  rw [processText_eq, number]
  cases walk memmem frame.text with
  | error panic => exact ⟨panic, rfl⟩
  | ok o =>
      rcases o with _ | ⟨event, micro, bids, asks⟩
      · exact ⟨_, rfl, rfl, rfl⟩
      rw [Exec.ok_bind, Except.map, Handler.outcome]
      dsimp only
      by_cases hdata : event = bytes "data"
      · rw [if_pos hdata, if_pos hdata]
        exact ⟨_, rfl, tracks_handleSnapshot bitstampId frame handler.lastMicro metrics micro bids
          asks⟩
      · rw [if_neg hdata, if_neg hdata, Exec.pure_eq]
        dsimp only
        split
        · exact ⟨_, rfl, rfl, rfl⟩
        · exact ⟨_, rfl, rfl, rfl⟩

end Bitstamp

/-- **What is published within a connection**, with the consumer alive: the numbers of the books
sent increase exactly if, behind every snapshot without a number, the numbers resume ahead of all
earlier ones. -/
theorem sentNumbers_increasing_iff (memmem : Memmem) (binance : Binance.Handler)
    (bitstamp : Bitstamp.Handler) (metrics : ExchangeMetrics) (frames : List Frame) :
    (Tracker.Increasing (sentNumbers (Binance.Handler.processText memmem false)
        (Binance.number memmem) binance.onConnected metrics frames)
      ↔ Tracker.ResumesAhead (readNumbers (Binance.number memmem) frames))
    ∧ (Tracker.Increasing (sentNumbers (Bitstamp.Handler.processText memmem false)
        (Bitstamp.number memmem) bitstamp.onConnected metrics frames)
      ↔ Tracker.ResumesAhead (readNumbers (Bitstamp.number memmem) frames)) := by
  rw [(Binance.tracks memmem).sentNumbers_eq, (Bitstamp.tracks memmem).sentNumbers_eq]
  exact ⟨Tracker.increasing_passed_iff _, Tracker.increasing_passed_iff _⟩

/-- Snapshots with the numbers 5, none and 3. -/
def lostNumber : List Frame :=
  ["\x7b\"lastUpdateId\":5,\"bids\":[],\"asks\":[]\x7d", "\x7b\"bids\":[],\"asks\":[]\x7d",
    "\x7b\"lastUpdateId\":3,\"bids\":[],\"asks\":[]\x7d"].map fun text => ⟨bytes text, 0, 0⟩

/-- The snapshot without a number makes the handler forget the first one. -/
theorem lostNumber_not_increasing :
    ¬ Tracker.Increasing (sentNumbers (Binance.Handler.processText .scan false)
      (Binance.number .scan) (Binance.Handler.onConnected ⟨0⟩) .new lostNumber) := by
  decide +kernel

end OrderbookAggregator
