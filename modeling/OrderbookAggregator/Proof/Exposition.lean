import OrderbookAggregator.Exposition
import OrderbookAggregator.Library.TextFormat
import OrderbookAggregator.Proof.F64Display
import OrderbookAggregator.Proof.HistogramCounts

/-!
# The page of metrics

What is served under `/metrics` is the text of a page with eight families. It can be read back, and it
keeps the rules of a page, as long as no name of an exchange holds a quote, a newline or a backslash,
which it would have to escape and does not.
-/

namespace OrderbookAggregator

open LabelledRun TextFormat

/-! ### The families of a page -/

namespace Rendered

/-- A bucket of a histogram, with the labels of the histogram before its own. -/
def bucketSample (name : Bytes) (labels : List (Bytes × Bytes)) (le : Bytes) (value : Nat) :
    Sample :=
  ⟨name ++ bytes "_bucket", labels ++ [(bytes "le", le)], formatNat value⟩

def samples (r : Rendered) (name : Bytes) (labels : List (Bytes × Bytes)) : List Sample :=
  r.buckets.map (fun bucket => bucketSample name labels (bytes bucket.1) bucket.2)
    ++ [bucketSample name labels (bytes "+Inf") r.infinity,
      ⟨name ++ bytes "_sum", labels, r.sumSecs⟩,
      ⟨name ++ bytes "_count", labels, formatNat r.count⟩]

end Rendered

namespace PageLoads

variable (p : PageLoads)

def perExchange (name help kind : Bytes) (value : ExchangeLoads → Nat) : Family :=
  ⟨name, help, kind, p.exchanges.map fun ex =>
    ⟨name, [(bytes "exchange", ex.name)], formatNat (value ex)⟩⟩

def messagesTotal : Family :=
  p.perExchange (bytes "orderbook_messages_total") (bytes "WebSocket messages received")
    (bytes "counter") (·.messages)

def errorsTotal : Family :=
  p.perExchange (bytes "orderbook_errors_total") (bytes "Parse/connection errors")
    (bytes "counter") (·.errors)

def reconnectionsTotal : Family :=
  p.perExchange (bytes "orderbook_reconnections_total") (bytes "WebSocket reconnection attempts")
    (bytes "counter") (·.reconnections)

def mergesTotal : Family :=
  ⟨bytes "orderbook_merges_total", bytes "Order book merge operations", bytes "counter",
    [⟨bytes "orderbook_merges_total", [], formatNat p.merges⟩]⟩

def exchangeUp : Family :=
  p.perExchange (bytes "orderbook_exchange_up") (bytes "Exchange connection status (1=connected)")
    (bytes "gauge") (·.connected.toNat)

def uptimeSeconds : Family :=
  ⟨bytes "orderbook_uptime_seconds", bytes "Seconds since process start", bytes "gauge",
    [⟨bytes "orderbook_uptime_seconds", [], formatNat p.uptime⟩]⟩

def decodeDuration : Family :=
  ⟨bytes "orderbook_decode_duration_seconds", bytes "WebSocket message decode latency",
    bytes "histogram", p.exchanges.flatMap fun ex =>
      ex.decodeLatency.samples (bytes "orderbook_decode_duration_seconds")
        [(bytes "exchange", ex.name)]⟩

def e2eDuration : Family :=
  ⟨bytes "orderbook_e2e_duration_seconds",
    bytes "End-to-end latency: WS receive to merged summary published", bytes "histogram",
    p.e2eLatency.samples (bytes "orderbook_e2e_duration_seconds") []⟩

def families : List Family :=
  [p.messagesTotal, p.errorsTotal, p.reconnectionsTotal, p.mergesTotal, p.exchangeUp,
    p.uptimeSeconds, p.decodeDuration, p.e2eDuration]

end PageLoads

/-! ### The text is that of the families -/

theorem writeLine_eq (out line : Bytes) : writeLine out line = out ++ linesText [line] := by
  rw [writeLine, linesText, List.flatMap_singleton, List.append_assoc]
  rfl

theorem writeHeader_eq (out name help metricType : Bytes) :
    writeHeader out name help metricType
      = out ++ linesText [helpWord ++ name ++ space :: help, typeWord ++ name ++ space :: metricType] := by
  have hspace : bytes " " = [space] := rfl
  have hhelp : bytes "# HELP " = helpWord := rfl
  have htype : bytes "# TYPE " = typeWord := rfl
  rw [writeHeader, hhelp, htype, hspace, writeLine_eq, writeLine_eq, List.append_assoc,
    ← linesText_append, List.append_assoc _ [space], List.append_assoc _ [space]]
  rfl

theorem foldl_writeLines {α : Type} {write : Bytes → α → Bytes} (lines : α → List Bytes)
    (hwrite : ∀ out a, write out a = out ++ linesText (lines a)) (l : List α) (out : Bytes) :
    l.foldl write out = out ++ linesText (l.flatMap lines) := by
  induction l generalizing out with
  | nil => exact (List.append_nil out).symm
  | cons a l ih =>
      rw [List.foldl_cons, ih, hwrite, List.flatMap_cons, linesText_append, List.append_assoc]

theorem writePerExchange_eq (p : PageLoads) (out name help metricType : Bytes)
    (value : ExchangeLoads → Nat) :
    writePerExchange out name help metricType p.exchanges value
      = out ++ linesText (p.perExchange name help metricType value).lines := by
  have hopen : bytes "\x7bexchange=\"" = openBrace :: (bytes "exchange" ++ [equals, quote]) := rfl
  have hclose : bytes "\"\x7d " = [quote, closeBrace, space] := rfl
  rw [writePerExchange, foldl_writeLines (fun ex : ExchangeLoads =>
    [Sample.text ⟨name, [(bytes "exchange", ex.name)], formatNat (value ex)⟩]) ?_]
  · rw [writeHeader_eq, List.append_assoc, ← linesText_append, ← List.map_eq_flatMap,
      PageLoads.perExchange, Family.lines, List.map_map]
    rfl
  · intro out ex
    rw [writeLine_eq, Sample.text_of_ne_nil (List.cons_ne_nil _ _), labelsText_singleton, labelText,
      hopen, hclose]
    simp only [List.append_assoc, List.cons_append, List.nil_append]

theorem writeBucket_eq (name : Bytes) (labels : List (Bytes × Bytes)) (out le : Bytes)
    (value : Nat) :
    Rendered.writeBucket name (labelsText labels) out le value
      = out ++ linesText [(Rendered.bucketSample name labels le value).text] := by
  have hfirst : bytes "_bucket\x7ble=\"" = bytes "_bucket" ++ openBrace :: (bytes "le" ++ [equals, quote]) :=
    rfl
  have hopen : bytes "_bucket\x7b" = bytes "_bucket" ++ [openBrace] := rfl
  have hlater : bytes ",le=\"" = comma :: (bytes "le" ++ [equals, quote]) := rfl
  have hclose : bytes "\"\x7d " = [quote, closeBrace, space] := rfl
  rw [Rendered.writeBucket, Rendered.bucketSample]
  by_cases hlabels : labels = []
  · subst hlabels
    rw [if_pos labelsText_nil, writeLine_eq, List.nil_append, Sample.text_of_ne_nil (List.cons_ne_nil _ _),
      labelsText_singleton, labelText, hfirst, hclose]
    simp only [List.append_assoc, List.cons_append, List.nil_append]
  · rw [if_neg (labelsText_ne_nil hlabels), writeLine_eq,
      Sample.text_of_ne_nil (List.append_ne_nil_of_right_ne_nil _ (List.cons_ne_nil _ _)),
      labelsText_concat labels hlabels, labelText, hopen, hlater, hclose]
    simp only [List.append_assoc, List.cons_append, List.nil_append]

theorem Rendered.write_eq (r : Rendered) (name : Bytes) (labels : List (Bytes × Bytes))
    (out : Bytes) :
    r.write name (labelsText labels) out
      = out ++ linesText ((r.samples name labels).map Sample.text) := by
  have hbuckets : r.buckets.foldl
        (fun out bucket => writeBucket name (labelsText labels) out (bytes bucket.1) bucket.2) out
      = out ++ linesText
        (r.buckets.map fun bucket => (bucketSample name labels (bytes bucket.1) bucket.2).text) := by
    rw [List.map_eq_flatMap]
    exact foldl_writeLines _
      (fun out bucket => writeBucket_eq name labels out (bytes bucket.1) bucket.2) r.buckets out
  rw [write, hbuckets, writeBucket_eq, samples, List.map_append, List.map_map, linesText_append]
  by_cases hlabels : labels = []
  · have hsum : bytes "_sum " = bytes "_sum" ++ [space] := rfl
    have hcount : bytes "_count " = bytes "_count" ++ [space] := rfl
    subst hlabels
    rw [if_pos labelsText_nil, writeLine_eq, writeLine_eq, hsum, hcount]
    simp only [List.map_cons, List.map_nil, Sample.text_nil, linesText, List.flatMap_cons,
      List.flatMap_nil, List.append_assoc, List.cons_append, List.nil_append, List.append_nil]
    rfl
  · have hsum : bytes "_sum\x7b" = bytes "_sum" ++ [openBrace] := rfl
    have hcount : bytes "_count\x7b" = bytes "_count" ++ [openBrace] := rfl
    have hclose : bytes "\x7d " = [closeBrace, space] := rfl
    rw [if_neg (labelsText_ne_nil hlabels), writeLine_eq, writeLine_eq, hsum, hcount, hclose]
    simp only [List.map_cons, List.map_nil, Sample.text_of_ne_nil hlabels, linesText,
      List.flatMap_cons, List.flatMap_nil, List.append_assoc, List.cons_append, List.nil_append,
      List.append_nil]
    rfl

theorem writeSingle_eq (out name help metricType value : Bytes) :
    writeLine (writeHeader out name help metricType) (name ++ space :: value)
      = out ++ linesText (Family.lines ⟨name, help, metricType, [⟨name, [], value⟩]⟩) := by
  rw [writeLine_eq, writeHeader_eq, List.append_assoc, ← linesText_append]
  rfl

theorem writeDecode_eq (p : PageLoads) (out : Bytes) :
    p.exchanges.foldl
        (fun out ex => ex.decodeLatency.write (bytes "orderbook_decode_duration_seconds")
          (bytes "exchange=\"" ++ ex.name ++ bytes "\"") out)
        (writeHeader out p.decodeDuration.name p.decodeDuration.help p.decodeDuration.kind)
      = out ++ linesText p.decodeDuration.lines := by
  have hlabel (ex : ExchangeLoads) : bytes "exchange=\"" ++ ex.name ++ bytes "\""
      = labelsText [(bytes "exchange", ex.name)] := by
    have hopen : bytes "exchange=\"" = bytes "exchange" ++ [equals, quote] := rfl
    have hclose : bytes "\"" = [quote] := rfl
    rw [labelsText_singleton, labelText, hopen, hclose]
    simp only [List.append_assoc, List.cons_append, List.nil_append]
  have hlines := foldl_writeLines
    (fun ex : ExchangeLoads => (ex.decodeLatency.samples (bytes "orderbook_decode_duration_seconds")
      [(bytes "exchange", ex.name)]).map Sample.text)
    (fun out ex => ex.decodeLatency.write_eq (bytes "orderbook_decode_duration_seconds")
      [(bytes "exchange", ex.name)] out)
    p.exchanges
  simp only [hlabel]
  rw [hlines, writeHeader_eq, List.append_assoc, ← linesText_append, ← List.map_flatMap]
  rfl

theorem writeE2e_eq (p : PageLoads) (out : Bytes) :
    p.e2eLatency.write (bytes "orderbook_e2e_duration_seconds") []
        (writeHeader out p.e2eDuration.name p.e2eDuration.help p.e2eDuration.kind)
      = out ++ linesText p.e2eDuration.lines := by
  have hsamples := p.e2eLatency.write_eq (bytes "orderbook_e2e_duration_seconds") []
  rw [labelsText_nil] at hsamples
  rw [hsamples, writeHeader_eq, List.append_assoc, ← linesText_append]
  rfl

theorem toPrometheus_eq (p : PageLoads) : toPrometheus p = pageText p.families := by
  have hmerges : bytes "orderbook_merges_total " ++ formatNat p.merges
      = bytes "orderbook_merges_total" ++ space :: formatNat p.merges := rfl
  have huptime : bytes "orderbook_uptime_seconds " ++ formatNat p.uptime
      = bytes "orderbook_uptime_seconds" ++ space :: formatNat p.uptime := rfl
  unfold toPrometheus
  rw [hmerges, huptime]
  simp only [writePerExchange_eq, writeSingle_eq]
  refine (writeE2e_eq p _).trans ?_
  refine (congrArg (· ++ linesText p.e2eDuration.lines) (writeDecode_eq p _)).trans ?_
  rw [pageText, PageLoads.families]
  simp only [List.flatMap_cons, List.flatMap_nil, List.append_nil, linesText_append,
    List.nil_append, List.append_assoc]
  rfl

/-! ### It can be read back -/

/-- Every bucket has been written. -/
def Rendered.Complete (r : Rendered) : Prop := r.buckets.map Prod.fst = OrderbookAggregator.buckets.map Prod.snd

instance (r : Rendered) : Decidable r.Complete := inferInstanceAs (Decidable (_ = _))

/-- No name is mistaken for something else. -/
structure PageLoads.Plain (p : PageLoads) : Prop where
  names : ∀ ex ∈ p.exchanges, PlainText ex.name
  decode : ∀ ex ∈ p.exchanges, ex.decodeLatency.Complete
  e2e : p.e2eLatency.Complete

theorem newline_notMem_formatNat (n : Nat) : newline ∉ formatNat n := by
  intro hmem
  exact absurd (isDigit_of_mem_formatNat _ hmem) (by decide)

/-- The sum in seconds, a quotient of two doubles. -/
def Rendered.seconds (r : Rendered) : ℚ := F64.round (F64.round r.sumNs / F64.round 1000000000)

theorem Rendered.round_sumSecs (r : Rendered) :
    IsDecimal r.sumSecs ∧ F64.round (rationalOf r.sumSecs) = r.seconds := by
  have hsum : 0 ≤ F64.round r.sumNs := Rounding.roundTo_nonneg (Nat.cast_nonneg _)
  have hscale : 0 ≤ F64.round 1000000000 := Rounding.roundTo_nonneg (by norm_num)
  exact F64.round_display (Rounding.roundTo_nonneg (div_nonneg hsum hscale))
    (Rounding.roundTo_roundTo (by norm_num) _)

theorem F64.round_billion : F64.round 1000000000 = 1000000000 := by
  exact_mod_cast F64.round_natCast (n := 1000000000) (by norm_num)

theorem Rendered.abs_seconds_sub_le (r : Rendered) :
    |r.seconds - r.sumNs / 10 ^ 9| ≤ (r.sumNs : ℚ) / 10 ^ 9 / 2 ^ 51 := by
  have hbillion : (10 : ℚ) ^ 9 = 1000000000 := by norm_num
  rw [seconds, F64.round_billion, hbillion]
  exact F64.abs_round_div_sub_le (Nat.cast_nonneg _) (by norm_num)

/-- **The sum of a histogram, as it is shown**, is a decimal that a reader rounds to the double that
was computed, and that double is the sum in seconds but for a relative error of `2^-51`. Below `2^53`
nanoseconds it is the double nearest to the sum. -/
theorem Rendered.sum_shown (r : Rendered) :
    IsDecimal r.sumSecs ∧ F64.round (rationalOf r.sumSecs) = r.seconds
      ∧ |r.seconds - r.sumNs / 10 ^ 9| ≤ (r.sumNs : ℚ) / 10 ^ 9 / 2 ^ 51
      ∧ (r.sumNs < 2 ^ 53 → r.seconds = F64.round (r.sumNs / 10 ^ 9)) := by
  refine ⟨r.round_sumSecs.1, r.round_sumSecs.2, r.abs_seconds_sub_le, fun hlt => ?_⟩
  rw [seconds, F64.round_natCast hlt, F64.round_billion]
  norm_num

theorem Rendered.newline_notMem_sumSecs (r : Rendered) : newline ∉ r.sumSecs := by
  intro hmem
  rcases r.round_sumSecs.1.1 _ hmem with hdigit | hdot
  · exact absurd hdigit (by decide)
  · exact absurd hdot (by decide)

/-- Over the bytes of a literal the test is computed, not decided byte by byte. -/
theorem isNameByte_of_all {name : Bytes} (h : name.all isNameByte = true) :
    ∀ byte ∈ name, isNameByte byte :=
  List.all_eq_true.mp h

theorem isLabelByte_le : ∀ byte ∈ bytes "le", isLabelByte byte := List.all_eq_true.mp rfl

theorem isLabelByte_exchange : ∀ byte ∈ bytes "exchange", isLabelByte byte :=
  List.all_eq_true.mp rfl

set_option maxRecDepth 4096 in
theorem Rendered.samples_wellFormed {r : Rendered} (hr : r.Complete) {name : Bytes}
    (hname : ∀ byte ∈ name, isNameByte byte) {labels : List (Bytes × Bytes)}
    (hlabels : ∀ label ∈ labels, PlainLabel label) :
    ∀ s ∈ r.samples name labels, s.WellFormed := by
  have hsuffix {suffix : Bytes} (hsuffix : ∀ byte ∈ suffix, isNameByte byte) :
      ∀ byte ∈ name ++ suffix, isNameByte byte := by
    intro byte hbyte
    exact (List.mem_append.mp hbyte).elim (hname byte) (hsuffix byte)
  have hbucket {le : Bytes} (hle : PlainText le) (value : Nat) :
      (bucketSample name labels le value).WellFormed := by
    refine ⟨hsuffix (isNameByte_of_all rfl), fun label hlabel => ?_, newline_notMem_formatNat value⟩
    rcases List.mem_append.mp hlabel with hmem | hmem
    · exact hlabels label hmem
    · rw [List.mem_singleton.mp hmem]
      exact ⟨isLabelByte_le, hle⟩
  have hbounds : ∀ le ∈ OrderbookAggregator.buckets.map Prod.snd, PlainText (bytes le) := by decide
  intro s hs
  rw [samples, List.mem_append, List.mem_map] at hs
  obtain ⟨bucket, hmem, rfl⟩ | hs := hs
  · exact hbucket (hbounds _ (hr ▸ List.mem_map_of_mem hmem)) _
  · simp only [List.mem_cons, List.not_mem_nil, or_false] at hs
    obtain rfl | rfl | rfl := hs
    · exact hbucket (by decide) _
    · exact ⟨hsuffix (isNameByte_of_all rfl), hlabels, r.newline_notMem_sumSecs⟩
    · exact ⟨hsuffix (isNameByte_of_all rfl), hlabels, newline_notMem_formatNat _⟩

namespace PageLoads

variable {p : PageLoads}

theorem Plain.exchangeLabel (hp : p.Plain) {ex : ExchangeLoads} (hex : ex ∈ p.exchanges) :
    ∀ label ∈ [(bytes "exchange", ex.name)], PlainLabel label := by
  intro label hlabel
  rw [List.mem_singleton.mp hlabel]
  exact ⟨isLabelByte_exchange, hp.names ex hex⟩

theorem Plain.perExchange (hp : p.Plain) {name help kind : Bytes}
    (hname : ∀ byte ∈ name, isNameByte byte) (hhelp : newline ∉ help ∧ backslash ∉ help)
    (hkind : newline ∉ kind) (value : ExchangeLoads → Nat) :
    (p.perExchange name help kind value).WellFormed := by
  refine ⟨hname, hhelp, hkind, fun s hs => ?_⟩
  obtain ⟨ex, hex, rfl⟩ := List.mem_map.mp hs
  exact ⟨hname, hp.exchangeLabel hex, newline_notMem_formatNat _⟩

theorem single_wellFormed {name help kind : Bytes} (hname : ∀ byte ∈ name, isNameByte byte)
    (hhelp : newline ∉ help ∧ backslash ∉ help) (hkind : newline ∉ kind) (value : Nat) :
    (⟨name, help, kind, [⟨name, [], formatNat value⟩]⟩ : Family).WellFormed := by
  refine ⟨hname, hhelp, hkind, fun s hs => ?_⟩
  rw [List.mem_singleton.mp hs]
  exact ⟨hname, List.forall_mem_nil _, newline_notMem_formatNat _⟩

set_option maxRecDepth 4096 in
theorem Plain.decodeDuration (hp : p.Plain) : p.decodeDuration.WellFormed := by
  have hname : ∀ byte ∈ bytes "orderbook_decode_duration_seconds", isNameByte byte :=
    isNameByte_of_all rfl
  have hhelp : newline ∉ bytes "WebSocket message decode latency"
      ∧ backslash ∉ bytes "WebSocket message decode latency" := by
    decide
  have hkind : newline ∉ bytes "histogram" := by decide
  refine ⟨hname, hhelp, hkind, fun s hs => ?_⟩
  obtain ⟨ex, hex, hmem⟩ := List.mem_flatMap.mp hs
  exact Rendered.samples_wellFormed (hp.decode ex hex) hname (hp.exchangeLabel hex) s hmem

set_option maxRecDepth 4096 in
theorem Plain.e2eDuration (hp : p.Plain) : p.e2eDuration.WellFormed := by
  have hname : ∀ byte ∈ bytes "orderbook_e2e_duration_seconds", isNameByte byte :=
    isNameByte_of_all rfl
  have hhelp : newline ∉ bytes "End-to-end latency: WS receive to merged summary published"
      ∧ backslash ∉ bytes "End-to-end latency: WS receive to merged summary published" := by
    decide
  have hkind : newline ∉ bytes "histogram" := by decide
  exact ⟨hname, hhelp, hkind, Rendered.samples_wellFormed hp.e2e hname (List.forall_mem_nil _)⟩

set_option maxRecDepth 4096 in
theorem Plain.families (hp : p.Plain) : ∀ f ∈ p.families, f.WellFormed := by
  have hcounter : newline ∉ bytes "counter" := by decide
  have hgauge : newline ∉ bytes "gauge" := by decide
  simp only [PageLoads.families, List.forall_mem_cons]
  refine ⟨hp.perExchange (isNameByte_of_all rfl) ?_ hcounter _,
    hp.perExchange (isNameByte_of_all rfl) ?_ hcounter _,
    hp.perExchange (isNameByte_of_all rfl) ?_ hcounter _,
    single_wellFormed (isNameByte_of_all rfl) ?_ hcounter _,
    hp.perExchange (isNameByte_of_all rfl) ?_ hgauge _,
    single_wellFormed (isNameByte_of_all rfl) ?_ hgauge _, hp.decodeDuration, hp.e2eDuration,
    List.forall_mem_nil _⟩
  all_goals decide

/-! ### It keeps the rules -/

def Distinct (p : PageLoads) : Prop := (p.exchanges.map ExchangeLoads.name).Nodup

theorem Distinct.perExchange (hp : p.Distinct) (name help kind : Bytes)
    (value : ExchangeLoads → Nat) :
    ((p.perExchange name help kind value).samples.map Sample.series).Nodup := by
  have hseries : (p.perExchange name help kind value).samples.map Sample.series
      = (p.exchanges.map ExchangeLoads.name).map fun ex => (name, [(bytes "exchange", ex)]) := by
    rw [PageLoads.perExchange, List.map_map, List.map_map]
    rfl
  rw [hseries]
  refine List.Nodup.map (fun first second h => ?_) hp
  simpa using h

end PageLoads

theorem Rendered.labels_of_mem {r : Rendered} {name : Bytes} {labels : List (Bytes × Bytes)}
    {s : Sample} (hs : s ∈ r.samples name labels) : labels <+: s.labels := by
  rw [samples, List.mem_append, List.mem_map] at hs
  obtain ⟨bucket, -, rfl⟩ | hs := hs
  · exact List.prefix_append _ _
  · simp only [List.mem_cons, List.not_mem_nil, or_false] at hs
    obtain rfl | rfl | rfl := hs
    · exact List.prefix_append _ _
    · exact List.prefix_rfl
    · exact List.prefix_rfl

theorem Rendered.name_of_mem {r : Rendered} {name : Bytes} {labels : List (Bytes × Bytes)}
    {s : Sample} (hs : s ∈ r.samples name labels) :
    s.name ∈ [name ++ bucketSuffix, name ++ sumSuffix, name ++ countSuffix] := by
  rw [samples, List.mem_append, List.mem_map] at hs
  obtain ⟨bucket, -, rfl⟩ | hs := hs
  · exact List.mem_cons_self
  · simp only [List.mem_cons, List.not_mem_nil, or_false] at hs
    obtain rfl | rfl | rfl := hs
    · exact List.mem_cons_self
    · exact List.mem_cons_of_mem _ List.mem_cons_self
    · exact List.mem_cons_of_mem _ (List.mem_cons_of_mem _ List.mem_cons_self)

set_option maxRecDepth 4096 in
theorem Rendered.series_nodup {r : Rendered} (hr : r.Complete) (name : Bytes)
    (labels : List (Bytes × Bytes)) : ((r.samples name labels).map Sample.series).Nodup := by
  have hseries : (r.samples name labels).map Sample.series
      = ((OrderbookAggregator.buckets.map Prod.snd ++ ["+Inf"]).map bytes).map
          (fun le => (name ++ bytes "_bucket", labels ++ [(bytes "le", le)]))
        ++ [(name ++ bytes "_sum", labels), (name ++ bytes "_count", labels)] := by
    rw [samples, ← hr, List.map_append, List.map_map, List.map_append, List.map_map,
      List.map_append, List.map_map, List.append_assoc]
    rfl
  have hbounds : ((OrderbookAggregator.buckets.map Prod.snd ++ ["+Inf"]).map bytes).Nodup := by decide
  have hsum : bytes "_bucket" ≠ bytes "_sum" := by decide
  have hcount : bytes "_bucket" ≠ bytes "_count" := by decide
  have hother : bytes "_sum" ≠ bytes "_count" := by decide
  rw [hseries, List.nodup_append]
  refine ⟨hbounds.map fun first second h => ?_, ?_, ?_⟩
  · simpa using h
  · simpa using hother
  · intro series hbucket other hmem heq
    obtain ⟨le, -, rfl⟩ := List.mem_map.mp hbucket
    simp only [List.mem_cons, List.not_mem_nil, or_false] at hmem
    obtain rfl | rfl := hmem
    · exact hsum (List.append_cancel_left (congrArg Prod.fst heq))
    · exact hcount (List.append_cancel_left (congrArg Prod.fst heq))

namespace PageLoads

variable {p : PageLoads}

theorem Plain.decodeSeries (hp : p.Plain) (hdistinct : p.Distinct) :
    (p.decodeDuration.samples.map Sample.series).Nodup := by
  change ((p.exchanges.flatMap _).map Sample.series).Nodup
  rw [List.map_flatMap, List.nodup_flatMap]
  refine ⟨fun ex hex => Rendered.series_nodup (hp.decode ex hex) _ _, ?_⟩
  refine (List.pairwise_map.mp hdistinct).imp fun {first second} hne series hfirst hsecond => ?_
  obtain ⟨s, hs, rfl⟩ := List.mem_map.mp hfirst
  obtain ⟨t, ht, heq⟩ := List.mem_map.mp hsecond
  have hlabels : t.labels = s.labels := congrArg Prod.snd heq
  have hs := Rendered.labels_of_mem hs
  have ht := Rendered.labels_of_mem ht
  rw [hlabels] at ht
  have hsame := List.IsPrefix.eq_of_length (List.prefix_of_prefix_length_le hs ht le_rfl) rfl
  exact hne (congrArg Prod.snd (List.head_eq_of_cons_eq hsame))

set_option maxRecDepth 8192 in
/-- The names of samples are those of one family only. -/
theorem sampleNames_nodup (p : PageLoads) : (p.families.flatMap Family.sampleNames).Nodup := by
  have hnames : p.families.flatMap Family.sampleNames =
      [bytes "orderbook_messages_total", bytes "orderbook_errors_total",
        bytes "orderbook_reconnections_total", bytes "orderbook_merges_total",
        bytes "orderbook_exchange_up", bytes "orderbook_uptime_seconds",
        bytes "orderbook_decode_duration_seconds_bucket",
        bytes "orderbook_decode_duration_seconds_sum",
        bytes "orderbook_decode_duration_seconds_count",
        bytes "orderbook_e2e_duration_seconds_bucket", bytes "orderbook_e2e_duration_seconds_sum",
        bytes "orderbook_e2e_duration_seconds_count"] := rfl
  rw [hnames]
  decide

set_option maxRecDepth 8192 in
theorem names_nodup (p : PageLoads) : (p.families.map Family.name).Nodup := by
  have hnames : p.families.map Family.name =
      [bytes "orderbook_messages_total", bytes "orderbook_errors_total",
        bytes "orderbook_reconnections_total", bytes "orderbook_merges_total",
        bytes "orderbook_exchange_up", bytes "orderbook_uptime_seconds",
        bytes "orderbook_decode_duration_seconds", bytes "orderbook_e2e_duration_seconds"] := rfl
  rw [hnames]
  decide

theorem mem_sampleNames_of_perExchange {name help kind : Bytes} (hkind : kind ≠ histogramWord)
    (value : ExchangeLoads → Nat) :
    ∀ s ∈ (p.perExchange name help kind value).samples,
      s.name ∈ (p.perExchange name help kind value).sampleNames := by
  intro s hs
  obtain ⟨ex, -, rfl⟩ := List.mem_map.mp hs
  have hnames : (p.perExchange name help kind value).sampleNames = [name] := if_neg hkind
  rw [hnames]
  exact List.mem_singleton_self _

theorem mem_sampleNames_of_single {name help kind : Bytes} (hkind : kind ≠ histogramWord)
    (value : Bytes) :
    ∀ s ∈ (⟨name, help, kind, [⟨name, [], value⟩]⟩ : Family).samples,
      s.name ∈ (⟨name, help, kind, [⟨name, [], value⟩]⟩ : Family).sampleNames := by
  intro s hs
  have hnames : (⟨name, help, kind, [⟨name, [], value⟩]⟩ : Family).sampleNames = [name] := if_neg hkind
  rw [List.mem_singleton.mp hs, hnames]
  exact List.mem_singleton_self _

theorem mem_sampleNames (p : PageLoads) :
    ∀ f ∈ p.families, ∀ s ∈ f.samples, s.name ∈ f.sampleNames := by
  have hcounter : bytes "counter" ≠ histogramWord := by decide
  have hgauge : bytes "gauge" ≠ histogramWord := by decide
  simp only [families, List.forall_mem_cons]
  refine ⟨mem_sampleNames_of_perExchange hcounter _, mem_sampleNames_of_perExchange hcounter _,
    mem_sampleNames_of_perExchange hcounter _, mem_sampleNames_of_single hcounter _,
    mem_sampleNames_of_perExchange hgauge _, mem_sampleNames_of_single hgauge _, fun s hs => ?_,
    fun s hs => Rendered.name_of_mem hs, List.forall_mem_nil _⟩
  obtain ⟨ex, -, hmem⟩ := List.mem_flatMap.mp hs
  exact Rendered.name_of_mem hmem

theorem Plain.valid (hp : p.Plain) (hdistinct : p.Distinct) : Valid p.families := by
  refine Valid.of_families p.names_nodup p.mem_sampleNames ?_ p.sampleNames_nodup
  simp only [PageLoads.families, List.forall_mem_cons]
  exact ⟨hdistinct.perExchange .., hdistinct.perExchange .., hdistinct.perExchange ..,
    List.nodup_singleton _, hdistinct.perExchange .., List.nodup_singleton _,
    hp.decodeSeries hdistinct, Rendered.series_nodup hp.e2e _ _, List.forall_mem_nil _⟩

end PageLoads

/-! ### What is served -/

namespace Scraping

theorem labels_of_run {s : Scraping} {labels : List ScrapingLabel}
    (hrun : run step new labels = some s) :
    s.render.out.buckets.map Prod.fst
      = (OrderbookAggregator.buckets.map Prod.snd).take (firstAhead s.render.pc) := by
  refine run_induction (fun _ s => s.render.out.buckets.map Prod.fst
    = (OrderbookAggregator.buckets.map Prod.snd).take (firstAhead s.render.pc)) rfl ?_ hrun
  intro labels s label s' _ ih hstep
  cases step_cases hstep with
  | begin | bucket | sum | count => exact ih
  | @load i cumulative hpc hadd =>
      have hlabel : (OrderbookAggregator.buckets.map Prod.snd)[i.val]? = some (leLabel i) := by
        rw [List.getElem?_map, List.getElem?_eq_getElem i.isLt]
        rfl
      rw [hpc] at ih
      change (s.render.out.buckets ++ _).map Prod.fst = List.take (firstAhead (nextLoad i)) _
      rw [firstAhead_nextLoad, List.take_add_one, hlabel, List.map_append, ih]
      rfl
  | total hpc | finish hpc =>
      rw [hpc] at ih
      exact ih

end Scraping

/-- What some scrape of a histogram has written, whatever was recorded in the meantime. -/
def Rendered.Scraped (r : Rendered) : Prop :=
  ∃ labels s, run Scraping.step .new labels = some s ∧ s.render.pc = .done ∧ s.render.out = r

theorem Rendered.Scraped.complete {r : Rendered} (h : r.Scraped) : r.Complete := by
  obtain ⟨labels, s, hrun, hdone, rfl⟩ := h
  have hlabels := Scraping.labels_of_run hrun
  rw [hdone] at hlabels
  exact hlabels

/-- The loads of a request. The exchanges have distinct names that need no escapes. -/
structure PageLoads.Served (p : PageLoads) : Prop where
  names : ∀ ex ∈ p.exchanges, PlainText ex.name
  distinct : (p.exchanges.map ExchangeLoads.name).Nodup
  decode : ∀ ex ∈ p.exchanges, ex.decodeLatency.Scraped
  e2e : p.e2eLatency.Scraped

theorem PageLoads.Served.plain {p : PageLoads} (hp : p.Served) : p.Plain :=
  ⟨hp.names, fun ex hex => (hp.decode ex hex).complete, hp.e2e.complete⟩

theorem PageLoads.Served.read {p : PageLoads} (hp : p.Served) :
    readPage (toPrometheus p) = some p.families := by
  rw [toPrometheus_eq]
  exact readPage_pageText hp.plain.families

def interleavedScrape : Rendered :=
  ((run Scraping.step .new Scraping.interleavedRun).get Scraping.isSome_interleavedRun).render.out

theorem scraped_interleavedScrape : interleavedScrape.Scraped :=
  ⟨_, _, (Option.some_get Scraping.isSome_interleavedRun).symm, by decide +kernel, rfl⟩

def samplePage (messages : Nat) : PageLoads where
  exchanges := [⟨bytes "binance", messages, 0, 0, true, interleavedScrape⟩,
    ⟨bytes "bitstamp", 0, 1, 1, false, interleavedScrape⟩]
  merges := messages
  uptime := 5
  e2eLatency := interleavedScrape

theorem samplePage_served (messages : Nat) : (samplePage messages).Served where
  names := by
    have hbinance : PlainText (bytes "binance") := by decide
    have hbitstamp : PlainText (bytes "bitstamp") := by decide
    exact List.forall_mem_cons.mpr ⟨hbinance, List.forall_mem_cons.mpr
      ⟨hbitstamp, List.forall_mem_nil _⟩⟩
  distinct := by
    have hnames : [bytes "binance", bytes "bitstamp"].Nodup := by decide
    exact hnames
  decode := List.forall_mem_cons.mpr ⟨scraped_interleavedScrape, List.forall_mem_cons.mpr
    ⟨scraped_interleavedScrape, List.forall_mem_nil _⟩⟩
  e2e := scraped_interleavedScrape

end OrderbookAggregator
