import OrderbookAggregator.Proof.Message
import OrderbookAggregator.Proof.Provenance

/-!
# What a client is sent

`src/server.rs`: the stream of a client yields what the watch channel yields, converted. The channel
keeps the latest summary. The receiver of a client is a copy of one that has never been read, so for
the client the channel is a register for the latest value, put by the merger from the start.

A message is made of a summary, and a summary of frames. So what a client is sent is written in frames
of the exchanges, up to the digits that are cut and the rounding of the conversion.
-/

namespace OrderbookAggregator

open LabelledRun Scanner

/-! ### The numbers of a message -/

/-- The number is cut to eight fractional digits, and the rest is rounded to a double. -/
def Approximates (x q : ℚ) : Prop := |x - q| ≤ 1 / 10 ^ 8 + q / 2 ^ 51

theorem approximates_of_parse {text : Bytes} {v : FixedPoint}
    (h : FixedPoint.parse text = .ok (some v)) :
    IsDecimal text ∧ Approximates v.toF64 (rationalOf text) := by
  obtain ⟨hdecimal, hraw⟩ := FixedPoint.parse_eq_some_iff_floor.mp h
  refine ⟨hdecimal, ?_⟩
  have hcast : (v.raw : ℚ) = ⌊rationalOf text * 10 ^ 8⌋ := by exact_mod_cast hraw
  have hscale : (scale : ℚ) = 10 ^ 8 := by norm_num [scale]
  have hbelow : (v.raw : ℚ) / 10 ^ 8 ≤ rationalOf text := by
    rw [div_le_iff₀ (by norm_num), hcast]
    exact Int.floor_le _
  have habove : rationalOf text < (v.raw : ℚ) / 10 ^ 8 + 1 / 10 ^ 8 := by
    rw [← add_div, lt_div_iff₀ (by norm_num), hcast]
    exact Int.lt_floor_add_one _
  have hnear := v.abs_toF64_sub_le_relative
  rw [hscale] at hnear
  rw [Approximates]
  rw [abs_le] at hnear ⊢
  constructor <;> linarith [hnear.1, hnear.2]

/-- A level of a message: the frame of the exchange that it names, and the two numbers of a level in
the array there that was read for the side. -/
def ConveyedBy (source : Fin 2 → Option Frame) (key : Bytes) (level : ProtoLevel ℚ) : Prop :=
  ∃ e frame price amount raw, source e = some frame ∧ exchanges[e.val]? = some level.exchange
    ∧ NonZero raw ∧ QuotedAs key frame.text (price, amount) raw
    ∧ (IsDecimal price ∧ Approximates level.price (rationalOf price))
    ∧ IsDecimal amount ∧ Approximates level.amount (rationalOf amount)

theorem conveyed_of_shown {source : Fin 2 → Option Frame} {key : Bytes} {level : Level}
    {converted : ProtoLevel ℚ} (hconverted : level.ShownAs converted)
    (hshown : ShownBy source key level) : ConveyedBy source key converted := by
  obtain ⟨e, frame, hframe, hid, hnonZero, texts, hquoted⟩ := hshown
  have hexchange := hconverted.exchange
  rw [hid] at hexchange
  have hprice : converted.price = level.price.toF64 := congrArg Prod.fst hconverted.figures
  have hamount : converted.amount = level.amount.toF64 := congrArg Prod.snd hconverted.figures
  obtain ⟨-, -, -, -, -, -, -, -, hspells⟩ := id hquoted
  refine ⟨e, frame, texts.1, texts.2, level.raw, hframe, hexchange, hnonZero, hquoted, ?_, ?_⟩
  · rw [hprice]
    exact approximates_of_parse hspells.1
  · rw [hamount]
    exact approximates_of_parse hspells.2

theorem getElem?_of_forall₂ {α β : Type} {R : α → β → Prop} {l : List α} {bs : List β}
    (h : List.Forall₂ R l bs) {i : Nat} {b : β} (hb : bs[i]? = some b) :
    ∃ a, l[i]? = some a ∧ R a b := by
  induction h generalizing i with
  | nil => cases hb
  | cons hfirst _ ih =>
      cases i with
      | zero =>
          cases hb
          exact ⟨_, rfl, hfirst⟩
      | succ i => exact ih hb

theorem conveyed_of_mapM {source : Fin 2 → Option Frame} {key : Bytes} {levels : List Level}
    (hshown : ∀ level ∈ levels, ShownBy source key level) :
    ∃ converted, levels.mapM (toProtoLevel FixedPoint.toF64) = .ok converted
      ∧ ∀ level ∈ converted, ConveyedBy source key level := by
  have hnamed : ∀ level ∈ levels, level.exchangeId.toNat < exchanges.length := by
    intro level hlevel
    obtain ⟨e, -, -, hid, -⟩ := hshown level hlevel
    exact hid ▸ e.isLt
  obtain ⟨converted, hmapM, hall⟩ := exists_converted hnamed
  refine ⟨converted, hmapM, fun level hlevel => ?_⟩
  obtain ⟨i, hi⟩ := List.mem_iff_getElem?.mp hlevel
  obtain ⟨original, horiginal, hshownAs⟩ := getElem?_of_forall₂ hall hi
  exact conveyed_of_shown hshownAs (hshown original (List.mem_of_getElem? horiginal))

/-! ### Messages -/

theorem System.published_of_step {k : Nat} {s s' : System k} {labels : List (SystemLabel k)}
    (hrun : run step start labels = some s) {label : SystemLabel k}
    (hstep : s.step label = some s') (hlabel : ∀ t0 t1, label ≠ .publish t0 t1) :
    s'.merger.published = s.merger.published := by
  cases affects_of_step hrun hstep with
  | take => rfl
  | publish => exact absurd rfl (hlabel _ _)
  | stay _ hmerger | move _ _ _ hmerger => rw [hmerger]

namespace Pipeline

/-- The message is the conversion of the summary that publication number `n` of the run has published.
Every level of it stands in a frame that was read before, at most five seconds earlier. -/
def FromFrames (memmem : Memmem) (symbol : Bytes) (labels : List (PipelineLabel 2)) (n : Nat)
    (message : ProtoSummary ℚ) : Prop :=
  ∃ before t0 t1 after s₁ s₂ summary, labels = before ++ .publish t0 t1 :: after
    ∧ run (step (adapters memmem) symbol) wired before = some s₁
    ∧ s₁.step (adapters memmem) symbol (.publish t0 t1) = some s₂
    ∧ s₁.system.merger.published.length = n
    ∧ s₂.system.merger.published = s₁.system.merger.published ++ [summary]
    ∧ toProto FixedPoint.toF64 FixedPoint.spreadToF64 summary = .ok message
    ∧ ∃ source : Fin 2 → Option Frame,
      (∀ e frame, source e = some frame →
        .loop e (.read (.text frame false)) ∈ before ∧ t0.since frame.start ≤ staleThreshold)
      ∧ (∀ level ∈ message.bids, ConveyedBy source (bytes "\"bids\":") level)
      ∧ ∀ level ∈ message.asks, ConveyedBy source (bytes "\"asks\":") level

variable {memmem : Memmem} {symbol : Bytes}

theorem FromFrames.mono {labels : List (PipelineLabel 2)} {n : Nat} {message : ProtoSummary ℚ}
    (h : FromFrames memmem symbol labels n message) (label : PipelineLabel 2) :
    FromFrames memmem symbol (labels ++ [label]) n message := by
  obtain ⟨before, t0, t1, after, s₁, s₂, summary, rfl, hpublication⟩ := h
  exact ⟨before, t0, t1, after ++ [label], s₁, s₂, summary, by simp, hpublication⟩

theorem fromFrames_of_publication {before : List (PipelineLabel 2)} {s s' : Pipeline 2 Adapter}
    {t0 t1 : Instant} (hbefore : run (step (adapters memmem) symbol) wired before = some s)
    (hstep : s.step (adapters memmem) symbol (.publish t0 t1) = some s') :
    ∃ summary message, s'.system.merger.published = s.system.merger.published ++ [summary]
      ∧ toProto FixedPoint.toF64 FixedPoint.spreadToF64 summary = .ok message
      ∧ FromFrames memmem symbol (before ++ [.publish t0 t1]) s.system.merger.published.length
        message := by
  have hrun := run_concat_eq_some.mpr ⟨s, hbefore, hstep⟩
  obtain ⟨s₁, s₂, store, hbefore', hstep', hstore, hpublished, hcontributes⟩ :=
    publication_of_run hrun
  obtain rfl := Option.some_inj.mp (hbefore'.symm.trans hbefore)
  obtain rfl := Option.some_inj.mp (hstep'.symm.trans hstep)
  obtain ⟨source, hsource, hbids, hasks⟩ := exists_sources memmem hbefore hstore hcontributes
  obtain ⟨bids, hbidsOk, hbids⟩ := conveyed_of_mapM hbids
  obtain ⟨asks, hasksOk, hasks⟩ := conveyed_of_mapM hasks
  have hconvert : toProto FixedPoint.toF64 FixedPoint.spreadToF64 (merge store)
      = .ok ⟨FixedPoint.spreadToF64 (merge store).spreadRaw, bids, asks⟩ := by
    rw [toProto, hbidsOk, hasksOk]
    rfl
  exact ⟨merge store, _, hpublished, hconvert, before, t0, t1, [], s₁, s₂, merge store, rfl, hbefore,
    hstep, rfl, hpublished, hconvert, source, hsource, hbids, hasks⟩

theorem fromFrames_of_published {labels : List (PipelineLabel 2)} {s : Pipeline 2 Adapter}
    (hrun : run (step (adapters memmem) symbol) wired labels = some s) :
    ∀ n summary, s.system.merger.published[n]? = some summary → ∃ message,
      toProto FixedPoint.toF64 FixedPoint.spreadToF64 summary = .ok message
        ∧ FromFrames memmem symbol labels n message := by
  refine run_induction (fun labels s => ∀ n summary, s.system.merger.published[n]? = some summary →
    ∃ message, toProto FixedPoint.toF64 FixedPoint.spreadToF64 summary = .ok message
      ∧ FromFrames memmem symbol labels n message) ?_ ?_ hrun
  · intro n summary hsummary
    exact absurd (List.getElem?_nil.symm.trans hsummary) (Option.some_ne_none summary).symm
  intro labels s label s' hrun ih hstep n summary hsummary
  have hold (hsummary : s.system.merger.published[n]? = some summary) :
      ∃ message, toProto FixedPoint.toF64 FixedPoint.spreadToF64 summary = .ok message
        ∧ FromFrames memmem symbol (labels ++ [label]) n message := by
    obtain ⟨message, hmessage, hframes⟩ := ih n summary hsummary
    exact ⟨message, hmessage, hframes.mono label⟩
  have hsystem := run_system hrun
  cases step_cases hstep with
  | cancel | loop => exact hold hsummary
  | post _ _ _ h | sender _ h | receiver h | isCancelled h =>
      exact hold (System.published_of_step hsystem h (by simp) ▸ hsummary)
  | publish =>
      obtain ⟨last, message, hpublished, hmessage, hframes⟩ := fromFrames_of_publication hrun hstep
      rw [hpublished] at hsummary
      rcases lt_or_ge n s.system.merger.published.length with hlt | hge
      · exact hold ((List.getElem?_append_left hlt).symm.trans hsummary)
      · rw [List.getElem?_append_right hge, List.getElem?_singleton] at hsummary
        split_ifs at hsummary with hlast
        cases hsummary
        obtain rfl : s.system.merger.published.length = n := by omega
        exact ⟨message, hmessage, hframes⟩

/-- **What a client is sent.** The channel, as the client sees it, is a register for the latest value
into which the merger puts what it publishes. Every conversion succeeds. The summaries come in their
turn, each at most once: `turn` tells which publication each of them is, and the message is about
frames of the exchanges that it names, read shortly before that publication. When the client has taken
what there is, it has the last one. -/
theorem client_messages (memmem : Memmem) (symbol : Bytes) {labels : List (PipelineLabel 2)}
    {s : Pipeline 2 Adapter} (hrun : run (step (adapters memmem) symbol) wired labels = some s)
    {history : List (Register.Op Summary)} (hlegal : Register.Legal none history)
    (hputs : Register.puts history = s.system.merger.published) :
    ∃ messages, ((Register.gets history).filterMap id).mapM
        (toProto FixedPoint.toF64 FixedPoint.spreadToF64) = .ok messages
      ∧ (∃ turn : ℕ ↪o ℕ,
        (∀ i, ((Register.gets history).filterMap id)[i]? = s.system.merger.published[turn i]?)
        ∧ ∀ i message, messages[i]? = some message →
          FromFrames memmem symbol labels (turn i) message)
      ∧ (Register.cellAfter none history = none →
        ((Register.gets history).filterMap id).getLast? = s.system.merger.published.getLast?) := by
  have hsublist := hlegal.gets_sublist
  rw [hputs, Option.toList_none, List.nil_append] at hsublist
  obtain ⟨turn, hturn⟩ := List.sublist_iff_exists_orderEmbedding_getElem?_eq.mp hsublist
  have hframes := fromFrames_of_published hrun
  have hconverts : ∀ summary ∈ (Register.gets history).filterMap id, ∃ message,
      toProto FixedPoint.toF64 FixedPoint.spreadToF64 summary = .ok message := by
    intro summary hsummary
    obtain ⟨n, hn⟩ := List.mem_iff_getElem?.mp (hsublist.subset hsummary)
    obtain ⟨message, hmessage, -⟩ := hframes n summary hn
    exact ⟨message, hmessage⟩
  obtain ⟨messages, hmessages, hall⟩ := exists_mapM hconverts
  refine ⟨messages, hmessages, ⟨turn, hturn, fun i message hmessage => ?_⟩, fun hcell => ?_⟩
  · obtain ⟨summary, hsummary, hconvert⟩ := getElem?_of_forall₂ hall hmessage
    obtain ⟨message', hconvert', hfrom⟩ := hframes (turn i) summary ((hturn i).symm.trans hsummary)
    rw [hconvert, Except.ok.injEq] at hconvert'
    exact hconvert' ▸ hfrom
  · rw [← hputs]
    exact hlegal.getLast?_gets hcell

theorem length_published_firstSnapshot :
    ((run (step (adapters .scan) []) wired (firstSnapshot ++ [.publish 7 8])).get
      isSome_firstSnapshot).system.merger.published.length = 1 := by decide +kernel

theorem client_messages_firstSnapshot :
    ∃ s summary message, run (step (adapters .scan) []) wired (firstSnapshot ++ [.publish 7 8]) = some s
      ∧ s.system.merger.published = [summary]
      ∧ [summary].mapM (toProto FixedPoint.toF64 FixedPoint.spreadToF64) = .ok [message]
      ∧ ∃ n, FromFrames .scan [] (firstSnapshot ++ [.publish 7 8]) n message := by
  obtain ⟨summary, hpublished⟩ := List.length_eq_one_iff.mp length_published_firstSnapshot
  have hrun := (Option.some_get isSome_firstSnapshot).symm
  have hlegal : Register.Legal none [.put summary, .get (some summary)] := ⟨rfl, trivial⟩
  obtain ⟨messages, hmessages, ⟨turn, -, hframes⟩, -⟩ :=
    client_messages .scan [] hrun hlegal hpublished.symm
  have hmapM : [summary].mapM (toProto FixedPoint.toF64 FixedPoint.spreadToF64) = .ok messages :=
    hmessages
  obtain ⟨message, hmessage⟩ : ∃ message, messages = [message] := by
    rw [List.mapM_cons, List.mapM_nil] at hmapM
    cases hconvert : toProto FixedPoint.toF64 FixedPoint.spreadToF64 summary with
    | error panic =>
        rw [hconvert] at hmapM
        cases hmapM
    | ok message =>
        rw [hconvert] at hmapM
        cases hmapM
        exact ⟨message, rfl⟩
  subst hmessage
  exact ⟨_, summary, message, hrun, hpublished, hmapM, turn 0, hframes 0 message rfl⟩

end Pipeline

end OrderbookAggregator
