import OrderbookAggregator.Proof.Binance
import OrderbookAggregator.Proof.Bitstamp
import OrderbookAggregator.Proof.LevelArrays

/-!
# Where a side comes from

Whatever the walks return as a side stands in the text: an array of levels right behind the key of
the side. So every level of a book is quoted by the frame that the book was decoded from.
-/

namespace OrderbookAggregator

open Scanner Scan

/-- The side was read right behind its key. -/
def SideRead (key text : Bytes) (side : List RawLevel) : Prop :=
  ∃ before consumed after, text = before ++ (key ++ consumed) ++ after
    ∧ ArrayRead depth consumed side

/-- The level is one of the side that was read behind the key, and it is written with these texts in
the array there. -/
def QuotedAs (key text : Bytes) (texts : Bytes × Bytes) (level : RawLevel) : Prop :=
  ∃ before consumed after side, text = before ++ (key ++ consumed) ++ after
    ∧ ArrayRead depth consumed side ∧ level ∈ side
    ∧ levelText texts <:+: consumed ∧ Spells texts level

def Quotes (key text : Bytes) (level : RawLevel) : Prop := ∃ texts, QuotedAs key text texts level

theorem infix_runText {texts : List (Bytes × Bytes)} {text : Bytes × Bytes} (hmem : text ∈ texts)
    (ending : UInt8) : levelText text <:+: runText texts ending := by
  induction texts with
  | nil => cases hmem
  | cons first texts ih =>
      cases texts with
      | nil =>
          rw [List.mem_singleton.mp hmem, runText_singleton]
          exact (List.prefix_append _ _).isInfix
      | cons next texts =>
          rw [runText_cons (List.cons_ne_nil _ _)]
          rcases List.mem_cons.mp hmem with rfl | hmem
          · exact (List.prefix_append _ _).isInfix
          · have hbehind : runText (next :: texts) ending
                <:+ levelText first ++ ([Ascii.comma] ++ runText (next :: texts) ending) :=
              (List.suffix_append _ _).trans (List.suffix_append _ _)
            exact (ih hmem).trans hbehind.isInfix

/-- A level that is kept is written in the array, and its amount is not zero. -/
theorem Scanner.ArrayRead.exists_levelText {N : Nat} {consumed : Bytes} {list : List RawLevel}
    (h : ArrayRead N consumed list) {level : RawLevel} (hlevel : level ∈ list) :
    NonZero level ∧ ∃ texts, levelText texts <:+: consumed ∧ Spells texts level := by
  cases h with
  | empty => cases hlevel
  | @levels texts list ending hrun =>
      obtain ⟨hmem, hnonZero⟩ := List.mem_filter.mp hlevel
      obtain ⟨i, hi⟩ := List.mem_iff_getElem?.mp hmem
      obtain ⟨text, htext, hspells⟩ : ∃ text, text ∈ texts ∧ Spells text level := by
        obtain ⟨hlt, rfl⟩ := List.getElem?_eq_some_iff.mp hi
        have hlt' : i < texts.length := hrun.spells.length_eq.symm ▸ hlt
        exact ⟨texts[i], List.getElem_mem hlt', hrun.spells.get hlt' hlt⟩
      refine ⟨of_decide_eq_true hnonZero, text, ?_, hspells⟩
      exact (infix_runText htext ending).trans (List.suffix_append _ _).isInfix

theorem SideRead.quotes {key text : Bytes} {side : List RawLevel} (h : SideRead key text side)
    {level : RawLevel} (hlevel : level ∈ side) : NonZero level ∧ Quotes key text level := by
  obtain ⟨before, consumed, after, rfl, hread⟩ := h
  obtain ⟨hnonZero, texts, hinfix, hspells⟩ := hread.exists_levelText hlevel
  exact ⟨hnonZero, texts, before, consumed, after, side, rfl, hread, hlevel, hinfix, hspells⟩

/-! ### The readers of a side -/

theorem consumes_seek (memmem : Memmem) (needle : Bytes) :
    Consumes (seek memmem needle) fun text _ _ => ∃ before, text = before ++ needle := by
  intro s _ s' h
  unfold seek at h
  split at h
  · cases h
  have hspec := memmem.find_spec needle s.rest
  cases hfind : memmem.find needle s.rest with
  | none =>
      rw [hfind] at h
      cases h
  | some offset =>
      rw [hfind] at h hspec
      cases h
      obtain ⟨before, after, hsplit, rfl⟩ := Search.occursAt_iff_exists.mp hspec.1
      exact ⟨before ++ needle, after, hsplit, by rw [List.length_append], before, rfl⟩

/-- What a reader that only moves the cursor consumes is in the buffer. -/
theorem Scan.Consumes.exists_buf {α : Type} {x : Scan α} {spec : Bytes → Bytes → α → Prop}
    (hx : Consumes x spec) {s s' : Scanner} {a : α} (h : x s = .ok (some a, s')) :
    s'.buf = s.buf ∧ ∃ before text tail, s.buf = before ++ text ++ tail ∧ spec text tail a := by
  obtain ⟨text, tail, hrest, rfl, hspec⟩ := hx h
  refine ⟨rfl, s.buf.take s.pos, text, tail, ?_, hspec⟩
  rw [List.append_assoc, ← hrest]
  exact (List.take_append_drop _ _).symm

theorem consumes_side (memmem : Memmem) (key : Bytes) :
    Consumes (seek memmem key >>= fun _ => readRawLevels depth) fun text _ side =>
      ∃ before consumed, text = before ++ (key ++ consumed)
        ∧ ArrayRead depth consumed side.toList := by
  refine ((consumes_seek memmem key).bind fun _ => consumes_readRawLevels (by decide)).mono ?_
  rintro _ _ _ ⟨_, consumed, _, rfl, ⟨before, rfl⟩, hread⟩
  exact ⟨before, consumed, List.append_assoc _ _ _, hread⟩

/-! ### What leaves the buffer alone -/

def KeepsBuffer {α : Type} (x : Scan α) : Prop :=
  ∀ ⦃s o s'⦄, x s = .ok (o, s') → s'.buf = s.buf

theorem keepsBuffer_seek (memmem : Memmem) (key : Bytes) : KeepsBuffer (seek memmem key) := by
  intro s o s' h
  unfold seek at h
  split at h
  · cases h
  · split at h <;> cases h <;> rfl

theorem KeepsBuffer.attempt {α : Type} {x : Scan α} (hx : KeepsBuffer x) :
    KeepsBuffer (Scan.attempt x) := by
  intro s o s' h
  unfold Scan.attempt at h
  split at h
  · cases h
  · rename_i hxs
    cases h
    exact hx hxs

theorem keepsBuffer_readString : KeepsBuffer readString := by
  intro s o s' h
  unfold readString at h
  dsimp only at h
  split at h
  · cases h
    rfl
  · split at h
    · cases h
      rfl
    · split at h <;> cases h <;> rfl

theorem keepsBuffer_total {α : Type} {f : Scanner → α × Scanner} (hf : ∀ s, (f s).2.buf = s.buf) :
    KeepsBuffer (Scan.total f) := by
  intro s o s' h
  cases h
  exact hf s

theorem exists_of_eval {α : Type} {x : Scan α} {json : Bytes} {o : Option α}
    (h : x.eval json = .ok o) : ∃ s', x (Scanner.new json) = .ok (o, s') := by
  unfold Scan.eval at h
  cases hx : x (Scanner.new json) with
  | error panic =>
      rw [hx] at h
      cases h
  | ok result =>
      rw [hx] at h
      cases h
      exact ⟨result.2, rfl⟩

/-! ### The walk over a snapshot -/

/-- The bids behind their key, and behind them the asks behind theirs. -/
def Binance.SidesRead (text : Bytes) (bids asks : List RawLevel) : Prop :=
  ∃ before bidsRead between asksRead after,
    text = before ++ (bidsKey ++ bidsRead) ++ between ++ (asksKey ++ asksRead) ++ after
      ∧ ArrayRead depth bidsRead bids ∧ ArrayRead depth asksRead asks

theorem Binance.SidesRead.bids {text : Bytes} {bids asks : List RawLevel}
    (h : SidesRead text bids asks) : SideRead bidsKey text bids := by
  obtain ⟨before, bidsRead, between, asksRead, after, rfl, hbids, -⟩ := h
  exact ⟨before, bidsRead, between ++ (asksKey ++ asksRead) ++ after, by simp, hbids⟩

theorem Binance.SidesRead.asks {text : Bytes} {bids asks : List RawLevel}
    (h : SidesRead text bids asks) : SideRead asksKey text asks := by
  obtain ⟨before, bidsRead, between, asksRead, after, rfl, -, hasks⟩ := h
  exact ⟨before ++ (bidsKey ++ bidsRead) ++ between, asksRead, after, rfl, hasks⟩

theorem Binance.consumes_sides (memmem : Memmem) (seq : Nat) :
    Consumes (do
      seek memmem bidsKey
      let bids ← readRawLevels depth
      seek memmem asksKey
      let asks ← readRawLevels depth
      return (seq, bids, asks)) fun text _ out =>
        SidesRead text out.2.1.toList out.2.2.toList := by
  refine ((consumes_seek memmem bidsKey).bind fun _ =>
    (consumes_readRawLevels (by decide)).bind fun bids => (consumes_seek memmem asksKey).bind
      fun _ => (consumes_readRawLevels (by decide)).bind fun asks => consumes_pure _).mono ?_
  rintro _ _ _ ⟨_, _, _, rfl, ⟨before, rfl⟩, bidsRead, _, bids, rfl, hbids, _, _, _, rfl,
    ⟨between, rfl⟩, asksRead, _, asks, rfl, hasks, rfl, rfl⟩
  exact ⟨before, bidsRead, between, asksRead, [], by simp, hbids, hasks⟩

theorem Binance.SidesRead.widen {text : Bytes} {bids asks : List RawLevel}
    (h : SidesRead text bids asks) (front back : Bytes) :
    SidesRead (front ++ text ++ back) bids asks := by
  obtain ⟨before, bidsRead, between, asksRead, after, rfl, hread⟩ := h
  exact ⟨front ++ before, bidsRead, between, asksRead, after ++ back, by simp, hread⟩

theorem Binance.sidesRead_of_walk {memmem : Memmem} {text : Bytes} {seq : Nat}
    {bids asks : ArrayVec RawLevel depth} (h : walk memmem text = .ok (some (seq, bids, asks))) :
    SidesRead text bids.toList asks.toList := by
  obtain ⟨s', hscan⟩ := exists_of_eval h
  rcases bind_eq_ok.mp hscan with ⟨-, hnone⟩ | ⟨found, s₁, hattempt, hscan⟩
  · cases hnone
  have hbuf : s₁.buf = text := (keepsBuffer_seek memmem lastUpdateIdKey).attempt hattempt
  obtain ⟨seq', s₂, hbuf', hscan⟩ : ∃ seq' s₂, s₂.buf = text ∧ (do
      seek memmem bidsKey
      let bids ← readRawLevels depth
      seek memmem asksKey
      let asks ← readRawLevels depth
      return (seq', bids, asks)) s₂ = .ok (some (seq, bids, asks), s') := by
    cases found with
    | some _ =>
        rcases bind_eq_ok.mp hscan with ⟨-, hnone⟩ | ⟨seq', s₂, hseq, hscan⟩
        · cases hnone
        have hkeeps : KeepsBuffer (Scan.total readU64) := keepsBuffer_total fun _ => rfl
        exact ⟨seq', s₂, (hkeeps hseq).trans hbuf, hscan⟩
    | none => exact ⟨0, { s₁ with pos := 0 }, hbuf, hscan⟩
  obtain ⟨-, before, _, tail, hsplit, hsides⟩ := (consumes_sides memmem seq').exists_buf hscan
  rw [← hbuf', hsplit]
  exact hsides.widen before tail

/-! ### The walk over a message -/

theorem sideRead_of_optional {memmem : Memmem} {key : Bytes} {s s' : Scanner}
    {side : ArrayVec RawLevel depth}
    (h : readOptionalRawLevels depth memmem key s = .ok (some side, s')) :
    s'.buf = s.buf ∧ (SideRead key s.buf side.toList ∨ side = .empty) := by
  rcases bind_eq_ok.mp h with ⟨-, hnone⟩ | ⟨found, s₁, hattempt, hread⟩
  · cases hnone
  have hbuf := (keepsBuffer_seek memmem key).attempt hattempt
  cases found with
  | none =>
      cases hread
      exact ⟨hbuf, Or.inr rfl⟩
  | some _ =>
      have hseek : seek memmem key s = .ok (some (), s₁) := by
        unfold Scan.attempt at hattempt
        split at hattempt <;> cases hattempt
        assumption
      have hside : (seek memmem key >>= fun _ => readRawLevels depth) s = .ok (some side, s') :=
        (bind_of_some hseek).trans hread
      obtain ⟨hbuf', before, _, after, hsplit, between, consumed, rfl, harray⟩ :=
        (consumes_side memmem key).exists_buf hside
      exact ⟨hbuf', Or.inl ⟨before ++ between, consumed, after, by rw [hsplit]; simp, harray⟩⟩

theorem Bitstamp.exists_walkBehind {memmem : Memmem} {text : Bytes}
    {out : Bytes × Nat × ArrayVec RawLevel depth × ArrayVec RawLevel depth}
    (h : walk memmem text = .ok (some out)) :
    ∃ hasData micro s s', s.buf = text ∧ walkBehind memmem hasData micro s = .ok (some out, s') := by
  obtain ⟨s', hscan⟩ := exists_of_eval h
  rcases bind_eq_ok.mp hscan with ⟨-, hnone⟩ | ⟨found, s₁, hattempt, hscan⟩
  · cases hnone
  have hbuf : s₁.buf = text := (keepsBuffer_seek memmem microtimestampKey).attempt hattempt
  cases found with
  | none => exact ⟨false, 0, { s₁ with pos := 0 }, s', hbuf, hscan⟩
  | some _ =>
      rcases bind_eq_ok.mp hscan with ⟨-, hnone⟩ | ⟨read, s₂, hread, hscan⟩
      · cases hnone
      have hkeeps := keepsBuffer_readString.attempt hread
      exact ⟨true, (read.bind parseU64).getD 0, s₂, s', hkeeps.trans hbuf, hscan⟩

theorem Bitstamp.sideRead_of_walk {memmem : Memmem} {text event : Bytes} {micro : Nat}
    {bids asks : ArrayVec RawLevel depth}
    (h : walk memmem text = .ok (some (event, micro, bids, asks))) :
    (SideRead bidsKey text bids.toList ∨ bids = .empty)
      ∧ (SideRead asksKey text asks.toList ∨ asks = .empty) := by
  obtain ⟨hasData, micro', s, s', hbuf, hbehind⟩ := exists_walkBehind h
  rcases bind_eq_ok.mp hbehind with ⟨-, hnone⟩ | ⟨bids', s₁, hbids, hbehind⟩
  · cases hnone
  rcases bind_eq_ok.mp hbehind with ⟨-, hnone⟩ | ⟨asks', s₂, hasks, hbehind⟩
  · cases hnone
  obtain ⟨hbuf₁, hbidsRead⟩ := sideRead_of_optional hbids
  obtain ⟨-, hasksRead⟩ := sideRead_of_optional hasks
  rw [hbuf₁, hbuf] at hasksRead
  rw [hbuf] at hbidsRead
  cases hasData with
  | true =>
      cases hbehind
      exact ⟨hbidsRead, hasksRead⟩
  | false =>
      rcases bind_eq_ok.mp hbehind with ⟨-, hnone⟩ | ⟨_, s₃, -, hbehind⟩
      · cases hnone
      rcases bind_eq_ok.mp hbehind with ⟨-, hnone⟩ | ⟨_, s₄, -, hbehind⟩
      · cases hnone
      rcases bind_eq_ok.mp hbehind with ⟨-, hnone⟩ | ⟨_, s₅, -, hbehind⟩
      · cases hnone
      cases hbehind
      exact ⟨hbidsRead, hasksRead⟩

end OrderbookAggregator
