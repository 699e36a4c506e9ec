import OrderbookAggregator.Proof.Merge
import OrderbookAggregator.Proof.Pipeline
import OrderbookAggregator.Proof.WalkSides

/-!
# From the wire to the summaries

Every level that the merger publishes can be followed back through the merge, the store, the slot and
the handler to a frame that was read from the exchange whose name it carries, and to the place in the
text of the frame where it is written.
-/

namespace OrderbookAggregator

open Scanner

/-! ### The handlers feed the pipeline -/

theorem Exec.exists_of_map {α β : Type} {computed : Exec α} {f : α → β} {b : β}
    (h : computed.map f = .ok b) : ∃ a, computed = .ok a ∧ f a = b := by
  cases computed with
  | error panic => cases h
  | ok a =>
      cases h
      exact ⟨a, rfl, rfl⟩

theorem handleSnapshot_sent {exchangeId : ExchangeId} {abandoned : Bool} {frame : Frame}
    {last : Nat} {metrics : ExchangeMetrics} {seq : Nat} {bids asks : ArrayVec RawLevel depth}
    {book : OrderBook}
    (h : (handleSnapshot exchangeId abandoned frame last metrics seq bids asks).sent = some book) :
    abandoned = false
      ∧ (handleSnapshot exchangeId abandoned frame last metrics seq bids asks).result = .continue
      ∧ book = { exchangeId, bids, asks, decodeStart := frame.start } := by
  unfold handleSnapshot at h ⊢
  split_ifs at h ⊢
  cases abandoned with
  | true => cases h
  | false =>
      cases h
      exact ⟨rfl, rfl, rfl⟩

theorem handleSnapshot_shutdown {exchangeId : ExchangeId} {abandoned : Bool} {frame : Frame}
    {last : Nat} {metrics : ExchangeMetrics} {seq : Nat} {bids asks : ArrayVec RawLevel depth}
    (h : (handleSnapshot exchangeId abandoned frame last metrics seq bids asks).result = .shutdown) :
    abandoned = true := by
  unfold handleSnapshot at h
  split_ifs at h
  cases abandoned with
  | true => rfl
  | false => cases h

namespace Binance

def Decodes (memmem : Memmem) (text : Bytes) (book : OrderBook) : Prop :=
  ∃ seq, walk memmem text = .ok (some (seq, book.bids, book.asks))

theorem feeds (memmem : Memmem) : (wsHandler memmem).Feeds 0 (Decodes memmem) := by
  refine ⟨?_, ?_⟩
  · intro abandoned handler metrics frame out book hprocess hsent
    obtain ⟨o, hwalk, rfl⟩ := Exec.exists_of_map ((processText_eq ..).symm.trans hprocess)
    rcases o with _ | ⟨seq, bids, asks⟩
    · cases hsent
    obtain ⟨habandoned, hresult, rfl⟩ := handleSnapshot_sent hsent
    exact ⟨habandoned, hresult, rfl, rfl, seq, hwalk⟩
  · intro abandoned handler metrics frame out hprocess hresult
    obtain ⟨o, hwalk, rfl⟩ := Exec.exists_of_map ((processText_eq ..).symm.trans hprocess)
    rcases o with _ | ⟨seq, bids, asks⟩
    · cases hresult
    · exact handleSnapshot_shutdown hresult

end Binance

namespace Bitstamp

def Decodes (memmem : Memmem) (text : Bytes) (book : OrderBook) : Prop :=
  ∃ micro, walk memmem text = .ok (some (bytes "data", micro, book.bids, book.asks))

theorem feeds (memmem : Memmem) : (wsHandler memmem).Feeds 1 (Decodes memmem) := by
  refine ⟨?_, ?_⟩
  · intro abandoned handler metrics frame out book hprocess hsent
    obtain ⟨o, hwalk, rfl⟩ := Exec.exists_of_map ((processText_eq ..).symm.trans hprocess)
    rcases o with _ | ⟨event, micro, bids, asks⟩
    · cases hsent
    rw [Handler.outcome] at hsent ⊢
    split_ifs at hsent ⊢ with hdata
    obtain ⟨habandoned, hresult, rfl⟩ := handleSnapshot_sent hsent
    exact ⟨habandoned, hresult, rfl, rfl, micro, hdata ▸ hwalk⟩
  · intro abandoned handler metrics frame out hprocess hresult
    obtain ⟨o, hwalk, rfl⟩ := Exec.exists_of_map ((processText_eq ..).symm.trans hprocess)
    rcases o with _ | ⟨event, micro, bids, asks⟩
    · cases hresult
    rw [Handler.outcome] at hresult
    split_ifs at hresult with hdata
    exact handleSnapshot_shutdown hresult

end Bitstamp

/-- That a book is decoded from the text of a frame of an exchange. -/
def Decodes (memmem : Memmem) : Fin 2 → Bytes → OrderBook → Prop
  | 0 => Binance.Decodes memmem
  | 1 => Bitstamp.Decodes memmem

theorem feeds_adapters (memmem : Memmem) :
    ∀ e : Fin 2, (adapters memmem e).Feeds e (Decodes memmem e)
  | 0 => Binance.feeds memmem
  | 1 => Bitstamp.feeds memmem

/-- Both exchanges use the same keys. -/
theorem Decodes.quotes {memmem : Memmem} {e : Fin 2} {text : Bytes} {book : OrderBook}
    (h : Decodes memmem e text book) :
    (∀ level ∈ book.bids.toList, NonZero level ∧ Quotes (bytes "\"bids\":") text level)
      ∧ ∀ level ∈ book.asks.toList, NonZero level ∧ Quotes (bytes "\"asks\":") text level := by
  match e, h with
  | 0, ⟨seq, hwalk⟩ =>
      have hsides := Binance.sidesRead_of_walk hwalk
      exact ⟨fun _ => hsides.bids.quotes, fun _ => hsides.asks.quotes⟩
  | 1, ⟨micro, hwalk⟩ =>
      obtain ⟨hbids, hasks⟩ := Bitstamp.sideRead_of_walk hwalk
      refine ⟨fun level hlevel => ?_, fun level hlevel => ?_⟩
      · rcases hbids with hread | hempty
        · exact hread.quotes hlevel
        · rw [hempty] at hlevel
          cases hlevel
      · rcases hasks with hread | hempty
        · exact hread.quotes hlevel
        · rw [hempty] at hlevel
          cases hlevel

/-! ### What a publication is made of -/

/-- The book is in the store that a publication merges, so it is fresh. -/
theorem fresh_of_mergedStore {m : Merger} {t0 : Instant} {store : BookStore} {e : Nat}
    {book : OrderBook} (hstore : m.mergedStore t0 = some store) (hbook : store.bookOf e = some book) :
    t0.since book.decodeStart ≤ staleThreshold := by
  unfold Merger.mergedStore at hstore
  split at hstore <;> cases hstore
  rw [BookStore.bookOf] at hbook
  split at hbook
  · rw [BookStore.books_evictStale] at hbook
    exact of_decide_eq_true (Option.filter_eq_some_iff.mp hbook).2
  · cases hbook

namespace Pipeline

open LabelledRun

variable {k : Nat} {H : Fin k → Type} {ws : (e : Fin k) → WsHandler (H e)} {symbol : Bytes}
  {decodes : Fin k → Bytes → OrderBook → Prop}

/-- A book in the store that is merged was decoded from a frame read before, and it is fresh. -/
theorem exists_frame_of_bookOf (hfeeds : ∀ e : Fin k, (ws e).Feeds e (decodes e))
    {handlers : (e : Fin k) → H e} {before : List (PipelineLabel k)} {s : Pipeline k H}
    (hrun : run (step ws symbol) (start handlers) before = some s) {t0 : Instant}
    {store : BookStore} (hstore : s.system.merger.mergedStore t0 = some store)
    (hcontributes : ∀ e : Fin k, ∀ book, store.bookOf e = some book →
      ∃ v ∈ System.sentBy e (systemLabels ws symbol (start handlers) before), v.2 = book)
    (e : Fin k) {book : OrderBook} (hbook : store.bookOf e = some book) :
    ∃ frame, .loop e (.read (.text frame false)) ∈ before
      ∧ t0.since frame.start ≤ staleThreshold ∧ decodes e frame.text book := by
  obtain ⟨v, hv, rfl⟩ := hcontributes e book hbook
  have hposted : v.2 ∈ posted ws symbol e (start handlers) before := by
    rw [← sentBy_append_outbox hrun]
    exact List.mem_append_left _ (List.mem_map_of_mem hv)
  obtain ⟨frame, hread, hstart, hdecodes⟩ := exists_frame_of_posted hfeeds hrun hposted
  exact ⟨frame, hread, hstart ▸ fresh_of_mergedStore hstore hbook, hdecodes⟩

/-- A publication of the program merges a store, and what the store has of an exchange was sent by
the thread of the exchange. -/
theorem publication_of_run {handlers : (e : Fin k) → H e} {before after : List (PipelineLabel k)}
    {s : Pipeline k H} {t0 t1 : Instant}
    (hrun : run (step ws symbol) (start handlers) (before ++ .publish t0 t1 :: after) = some s) :
    ∃ s₁ s₂ store, run (step ws symbol) (start handlers) before = some s₁
      ∧ s₁.step ws symbol (.publish t0 t1) = some s₂
      ∧ s₁.system.merger.mergedStore t0 = some store
      ∧ s₂.system.merger.published = s₁.system.merger.published ++ [merge store]
      ∧ ∀ e : Fin k, ∀ book, store.bookOf e = some book →
        ∃ v ∈ System.sentBy e (systemLabels ws symbol (start handlers) before), v.2 = book := by
  obtain ⟨s₁, hbefore, hrun⟩ := run_append_eq_some.mp hrun
  obtain ⟨s₂, hstep, -⟩ := run_cons_eq_some.mp hrun
  have hsystem := run_system (run_concat_eq_some.mpr ⟨s₁, hbefore, hstep⟩)
  rw [systemLabels_concat hbefore] at hsystem
  obtain ⟨_, _, store, hrun₁, hstep₁, hstore, hpublished, hcontributes⟩ :=
    System.publication_contributes hsystem rfl
  have hrun₁' := (run_system hbefore).symm.trans hrun₁
  cases hrun₁'
  cases step_cases hstep with
  | publish hstep' =>
      rw [hstep', Option.some_inj] at hstep₁
      subst hstep₁
      refine ⟨s₁, _, store, hbefore, hstep, hstore, hpublished, fun e book hbook => ?_⟩
      obtain ⟨hbookOf, hsent⟩ := hcontributes e
      rw [hbook] at hbookOf
      obtain ⟨v, hv, hbook'⟩ := Option.map_eq_some_iff.mp hbookOf.symm
      exact ⟨v, List.mem_of_getElem? (hsent v hv), hbook'⟩

end Pipeline

/-- What a level of a summary shows: the frame of its exchange that it is written in. -/
def ShownBy (source : Fin 2 → Option Frame) (key : Bytes) (level : Level) : Prop :=
  ∃ e frame, source e = some frame ∧ level.exchangeId.toNat = e.val ∧ NonZero level.raw
    ∧ Quotes key frame.text level.raw

open LabelledRun in
/-- The frames that a summary is made of, if what the store has of an exchange was sent by its thread. -/
theorem Pipeline.exists_sources (memmem : Memmem) {symbol : Bytes}
    {before : List (PipelineLabel 2)} {s : Pipeline 2 Adapter} {t0 : Instant} {store : BookStore}
    (hbefore : run (step (adapters memmem) symbol) wired before = some s)
    (hstore : s.system.merger.mergedStore t0 = some store)
    (hcontributes : ∀ e : Fin 2, ∀ book, store.bookOf e = some book →
      ∃ v ∈ System.sentBy e (systemLabels (adapters memmem) symbol wired before), v.2 = book) :
    ∃ source : Fin 2 → Option Frame,
      (∀ e frame, source e = some frame →
        .loop e (.read (.text frame false)) ∈ before ∧ t0.since frame.start ≤ staleThreshold)
      ∧ (∀ level ∈ (merge store).bids.toList, ShownBy source (bytes "\"bids\":") level)
      ∧ ∀ level ∈ (merge store).asks.toList, ShownBy source (bytes "\"asks\":") level := by
  have hsource (e : Fin 2) : ∃ source : Option Frame,
      (∀ frame, source = some frame → .loop e (.read (.text frame false)) ∈ before
        ∧ t0.since frame.start ≤ staleThreshold)
      ∧ ∀ book, store.bookOf e = some book →
        ∃ frame, source = some frame ∧ Decodes memmem e frame.text book := by
    cases hbook : store.bookOf e with
    | none => exact ⟨none, nofun, nofun⟩
    | some book =>
        obtain ⟨frame, hread, hfresh, hdecodes⟩ :=
          exists_frame_of_bookOf (feeds_adapters memmem) hbefore hstore hcontributes e hbook
        refine ⟨some frame, ?_, ?_⟩
        · intro frame' hframe'
          cases hframe'
          exact ⟨hread, hfresh⟩
        · intro book' hbook'
          cases hbook'
          exact ⟨frame, rfl, hdecodes⟩
  choose source hsource using hsource
  refine ⟨source, fun e => (hsource e).1, fun level hlevel => ?_, fun level hlevel => ?_⟩
  · obtain ⟨e, book, hbook, hid, hraw⟩ := mem_merge_bids hlevel
    obtain ⟨frame, hframe, hdecodes⟩ := (hsource e).2 book ((dif_pos e.isLt).trans hbook)
    obtain ⟨hnonZero, hquotes⟩ := hdecodes.quotes.1 level.raw hraw
    exact ⟨e, frame, hframe, hid, hnonZero, hquotes⟩
  · obtain ⟨e, book, hbook, hid, hraw⟩ := mem_merge_asks hlevel
    obtain ⟨frame, hframe, hdecodes⟩ := (hsource e).2 book ((dif_pos e.isLt).trans hbook)
    obtain ⟨hnonZero, hquotes⟩ := hdecodes.quotes.2 level.raw hraw
    exact ⟨e, frame, hframe, hid, hnonZero, hquotes⟩

open LabelledRun in
/-- **Every level comes off the wire.** Whenever the program publishes, the summary is made of one
frame of each exchange at most. The frame was read from that exchange before, decoding it started at
most five seconds before the merge, and every level of the summary is written in the frame of the
exchange that it names, in the array right behind the key of its side and with an amount that is not
zero. -/
theorem Pipeline.published_from_frames (memmem : Memmem) (symbol : Bytes)
    {labels before after : List (PipelineLabel 2)} {s : Pipeline 2 Adapter} {t0 t1 : Instant}
    (hrun : run (step (adapters memmem) symbol) wired labels = some s)
    (heq : labels = before ++ .publish t0 t1 :: after) :
    ∃ s₁ s₂ summary, run (step (adapters memmem) symbol) wired before = some s₁
      ∧ s₁.step (adapters memmem) symbol (.publish t0 t1) = some s₂
      ∧ s₂.system.merger.published = s₁.system.merger.published ++ [summary]
      ∧ ∃ source : Fin 2 → Option Frame,
        (∀ e frame, source e = some frame →
          .loop e (.read (.text frame false)) ∈ before ∧ t0.since frame.start ≤ staleThreshold)
        ∧ (∀ level ∈ summary.bids.toList, ShownBy source (bytes "\"bids\":") level)
        ∧ ∀ level ∈ summary.asks.toList, ShownBy source (bytes "\"asks\":") level := by
  subst heq
  obtain ⟨s₁, s₂, store, hbefore, hstep, hstore, hpublished, hcontributes⟩ := publication_of_run hrun
  exact ⟨s₁, s₂, merge store, hbefore, hstep, hpublished,
    exists_sources memmem hbefore hstore hcontributes⟩

/-- What Binance sends of its sample snapshot. -/
def sampleSent : Option OrderBook :=
  ((Binance.wsHandler .scan).processText false ⟨0⟩ .new ⟨Binance.sampleSnapshot, 5, 6⟩).toOption.bind
    Handled.sent

theorem isSome_sampleSent : sampleSent.isSome := by decide +kernel

def sampleBook : OrderBook := sampleSent.get isSome_sampleSent

/-- A snapshot from Binance makes its way to the merger. -/
def firstSnapshot : List (PipelineLabel 2) :=
  [.loop binance .start, .loop binance (.connect .established),
    .loop binance (.read (.text ⟨Binance.sampleSnapshot, 5, 6⟩ false)),
    .sender binance (.write (0, sampleBook)), .sender binance .swap, .isCancelled,
    .receiver binance .isAbandoned, .receiver binance .load, .receiver binance .swap,
    .receiver binance .setFront, .receiver binance .take]

open LabelledRun in
theorem isSome_firstSnapshot :
    (run (Pipeline.step (adapters .scan) []) .wired (firstSnapshot ++ [.publish 7 8])).isSome := by
  decide +kernel

open LabelledRun in
theorem published_from_firstSnapshot :
    ∃ s₁ s₂ summary, run (Pipeline.step (adapters .scan) []) .wired firstSnapshot = some s₁
      ∧ s₁.step (adapters .scan) [] (.publish 7 8) = some s₂
      ∧ s₂.system.merger.published = s₁.system.merger.published ++ [summary]
      ∧ ∃ source : Fin 2 → Option Frame,
        (∀ e frame, source e = some frame →
          .loop e (.read (.text frame false)) ∈ firstSnapshot ∧ (7 : Instant).since frame.start ≤ staleThreshold)
        ∧ (∀ level ∈ summary.bids.toList, ShownBy source (bytes "\"bids\":") level)
        ∧ ∀ level ∈ summary.asks.toList, ShownBy source (bytes "\"asks\":") level :=
  Pipeline.published_from_frames .scan [] (Option.some_get isSome_firstSnapshot).symm rfl

end OrderbookAggregator
