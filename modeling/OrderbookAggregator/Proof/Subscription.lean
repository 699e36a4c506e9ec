import OrderbookAggregator.Config
import OrderbookAggregator.Proof.Event
import OrderbookAggregator.Proof.Pipeline

/-!
# What the exchanges are asked for

A symbol that passes the check is made of lowercase letters and digits. So it stays inside its place,
in the path of the one URL and in the JSON string of the other exchange's message.
-/

namespace OrderbookAggregator

open JsonGrammar LabelledRun

/-! ### Symbols -/

/-- A lowercase letter or a digit. -/
def IsSymbolByte (byte : UInt8) : Prop := isAsciiLowercase byte ∨ isAsciiDigit byte

instance : DecidablePred IsSymbolByte := fun _ => inferInstanceAs (Decidable (_ ∨ _))

def IsSymbol (s : Bytes) : Prop := s ≠ [] ∧ ∀ byte ∈ s, IsSymbolByte byte

instance : DecidablePred IsSymbol := fun _ => inferInstanceAs (Decidable (_ ∧ _))

theorem between_iff {low high byte : UInt8} :
    decide (low ≤ byte ∧ byte ≤ high) = true ↔
      low.toNat ≤ byte.toNat ∧ byte.toNat ≤ high.toNat := by
  rw [decide_eq_true_iff, UInt8.le_iff_toNat_le, UInt8.le_iff_toNat_le]

theorem isAsciiUppercase_iff {byte : UInt8} :
    isAsciiUppercase byte ↔ 65 ≤ byte.toNat ∧ byte.toNat ≤ 90 :=
  between_iff

theorem isSymbolByte_iff {byte : UInt8} : IsSymbolByte byte ↔
    (97 ≤ byte.toNat ∧ byte.toNat ≤ 122) ∨ 48 ≤ byte.toNat ∧ byte.toNat ≤ 57 :=
  or_congr between_iff between_iff

theorem isAsciiAlphanumeric_iff {byte : UInt8} : isAsciiAlphanumeric byte ↔
    IsSymbolByte byte ∨ isAsciiUppercase byte := by
  rw [isAsciiAlphanumeric, Bool.or_eq_true, Bool.or_eq_true, IsSymbolByte, or_right_comm]

theorem isSymbolByte_toLowercase {byte : UInt8} (h : isAsciiAlphanumeric byte) :
    IsSymbolByte (if isAsciiUppercase byte then byte + 32 else byte) := by
  split
  · rename_i hupper
    rw [isAsciiUppercase_iff] at hupper
    have hadd : (byte + 32).toNat = byte.toNat + 32 := by
      have hcase : (32 : UInt8).toNat = 32 := rfl
      rw [UInt8.toNat_add, hcase]
      omega
    rw [isSymbolByte_iff, hadd]
    omega
  · rename_i hupper
    exact (isAsciiAlphanumeric_iff.mp h).resolve_right hupper

theorem isAsciiAlphanumeric_of_isSymbolByte {byte : UInt8} (h : IsSymbolByte byte) :
    isAsciiAlphanumeric byte ∧ isAsciiUppercase byte = false := by
  refine ⟨isAsciiAlphanumeric_iff.mpr (Or.inl h), ?_⟩
  rw [← Bool.not_eq_true, isAsciiUppercase_iff]
  rw [isSymbolByte_iff] at h
  omega

theorem IsSymbolByte.printable {byte : UInt8} (h : IsSymbolByte byte) : Printable byte := by
  rw [isSymbolByte_iff] at h
  rw [Printable]
  omega

theorem isSymbol_of_validateSymbol {s symbol : Bytes} (h : validateSymbol s = .ok symbol) :
    IsSymbol symbol := by
  unfold validateSymbol at h
  split_ifs at h with hempty hall
  cases h
  rw [Bool.not_eq_true, Bool.not_eq_false', List.all_eq_true] at hall
  refine ⟨fun hnil => hempty (List.map_eq_nil_iff.mp hnil), fun byte hbyte => ?_⟩
  obtain ⟨original, horiginal, rfl⟩ := List.mem_map.mp hbyte
  exact isSymbolByte_toLowercase (hall original horiginal)

theorem validateSymbol_of_isSymbol {symbol : Bytes} (h : IsSymbol symbol) :
    validateSymbol symbol = .ok symbol := by
  have hall : symbol.all isAsciiAlphanumeric := by
    rw [List.all_eq_true]
    exact fun byte hbyte => (isAsciiAlphanumeric_of_isSymbolByte (h.2 byte hbyte)).1
  have hlower : toLowercase symbol = symbol := by
    refine (List.map_congr_left fun byte hbyte => ?_).trans (List.map_id symbol)
    rw [(isAsciiAlphanumeric_of_isSymbolByte (h.2 byte hbyte)).2]
    rfl
  rw [validateSymbol, if_neg h.1, hall, hlower]
  rfl

set_option maxRecDepth 4096 in
theorem validateSymbol_defaultSymbol : validateSymbol defaultSymbol = .ok defaultSymbol :=
  validateSymbol_of_isSymbol (by decide)

/-! ### The URL -/

abbrev slash : UInt8 := 47

def urlParts (symbol : Bytes) : List Bytes :=
  [bytes "wss:", [], bytes "stream.binance.com:9443", bytes "ws", symbol ++ bytes "@depth20@100ms"]

theorem splitOn_wsUrl {symbol : Bytes} (h : IsSymbol symbol) :
    (Binance.wsUrl symbol).splitOn slash = urlParts symbol := by
  have hsymbol : slash ∉ symbol := fun hmem => absurd (h.2 slash hmem) (by decide)
  have hurl : Binance.wsUrl symbol = [slash].intercalate (urlParts symbol) := by
    have hfront : bytes "wss://stream.binance.com:9443/ws/" = bytes "wss:" ++ slash :: slash ::
        (bytes "stream.binance.com:9443" ++ slash :: (bytes "ws" ++ [slash])) := rfl
    rw [Binance.wsUrl, hfront]
    simp [urlParts, List.intercalate_cons_cons]
  rw [hurl]
  refine List.splitOn_intercalate slash (fun part hpart => ?_) (List.cons_ne_nil _ _)
  simp only [urlParts, List.mem_cons, List.not_mem_nil, or_false] at hpart
  obtain rfl | rfl | rfl | rfl | rfl := hpart
  · decide
  · decide
  · decide
  · decide
  · rw [List.mem_append, not_or]
    exact ⟨hsymbol, by decide⟩

/-! ### The message -/

/-- The members of the message, those of the inner object included. -/
def subscribeMembers (symbol : Bytes) : List Member :=
  let channel : Member := ⟨bytes "channel", [], quoted (bytes "order_book_" ++ symbol)⟩
  [⟨bytes "event", [], quoted (bytes "bts:subscribe")⟩,
    ⟨bytes "data", [], openBrace :: (quoted channel.key ++ colon :: channel.value) ++ [closeBrace]⟩,
    channel]

theorem printable_of_all {text : Bytes} (h : text.all (decide <| Printable ·) = true) :
    ∀ byte ∈ text, Printable byte :=
  fun byte hbyte => of_decide_eq_true (List.all_eq_true.mp h byte hbyte)

set_option maxRecDepth 4096 in
theorem objectText_subscribe {symbol : Bytes} (h : IsSymbol symbol) :
    ObjectText (bytes "\x7b\"event\":\"bts:subscribe\",\"data\":\x7b\"channel\":\"order_book_"
      ++ symbol ++ bytes "\"\x7d\x7d") (subscribeMembers symbol) := by
  have hevent : ∀ byte ∈ bytes "event", Printable byte := printable_of_all rfl
  have hsubscribe : ∀ byte ∈ bytes "bts:subscribe", Printable byte := printable_of_all rfl
  have hdata : ∀ byte ∈ bytes "data", Printable byte := printable_of_all rfl
  have hchannel : ∀ byte ∈ bytes "channel", Printable byte := printable_of_all rfl
  have hbook : ∀ byte ∈ bytes "order_book_", Printable byte := printable_of_all rfl
  have hvalue : StringContent (bytes "order_book_" ++ symbol) :=
    .append hbook (.of_printable fun byte hbyte => (h.2 byte hbyte).printable)
  have hfirst := Bitstamp.derives_stringMember (.of_printable hevent) (.of_printable hsubscribe)
  have hinner := Derives.object (.lastMember
    (Bitstamp.derives_stringMember (.of_printable hchannel) hvalue))
  have hlast := @Derives.member [] (bytes "data") [] [] _ [] _ nofun (.of_printable hdata) nofun nofun
    hinner nofun
  have hfront : bytes "\x7b\"event\":\"bts:subscribe\",\"data\":\x7b\"channel\":\"order_book_"
      = openBrace :: (quoted (bytes "event") ++ colon :: quoted (bytes "bts:subscribe")
        ++ comma :: (quoted (bytes "data") ++ colon :: openBrace :: (quoted (bytes "channel")
          ++ colon :: quote :: bytes "order_book_"))) := rfl
  have hback : bytes "\"\x7d\x7d" = [quote, closeBrace, closeBrace] := rfl
  refine ⟨[], _, [], nofun, nofun, .object (.members hfirst (.lastMember hlast)), ?_⟩
  rw [hfront, hback]
  simp [quoted]

namespace Pipeline

/-- A loop that is about to subscribe sends the message of its handler. -/
theorem subscribing_of_run {k : Nat} {H : Fin k → Type} {ws : (e : Fin k) → WsHandler (H e)}
    {symbol : Bytes} {handlers : (e : Fin k) → H e} {labels : List (PipelineLabel k)}
    {s : Pipeline k H} (hrun : run (step ws symbol) (start handlers) labels = some s) (e : Fin k)
    {message : Bytes} (hpc : (s.loops e).pc = .subscribing message) :
    ∃ handler, (ws e).subscribeMessage handler symbol = some message := by
  have hloop := run_loop hrun e
  refine run_induction (fun _ s => ∀ message, s.pc = .subscribing message →
    ∃ handler, (ws e).subscribeMessage handler symbol = some message) ?_ ?_ hloop message hpc
  · intro message hpc
    cases hpc
  intro labels s label s' _ ih hstep message hpc
  cases WsLoop.step_cases hstep with
  | cancel | text | readOther => exact ih message hpc
  | subscribing _ hmessage =>
      cases hpc
      exact ⟨_, hmessage⟩
  | start =>
      rw [WsLoop.goto] at hpc
      dsimp only at hpc
      split_ifs at hpc
  | unconnected | unsubscribing | subscribed | unsubscribed | readCancelled | reconnect | shutdown
  | readError | readEnded | giveUp | backoff | wake | cutShort => cases hpc

/-- **What the exchanges are asked for.** If the program runs with a symbol that has passed the check,
the symbol is one part of the path of the URL of Binance, and every message that is sent to subscribe
goes to Bitstamp and is a JSON object that asks for the channel of the symbol, and for nothing
else. -/
theorem subscription (memmem : Memmem) {input symbol : Bytes}
    (hvalid : validateSymbol input = .ok symbol) {labels : List (PipelineLabel 2)}
    {s : Pipeline 2 Adapter} (hrun : run (step (adapters memmem) symbol) wired labels = some s) :
    validateSymbol symbol = .ok symbol
      ∧ (Binance.wsUrl symbol).splitOn slash = urlParts symbol
      ∧ ∀ e message, (s.loops e).pc = .subscribing message →
        e = bitstamp ∧ ObjectText message (subscribeMembers symbol) := by
  have hsymbol := isSymbol_of_validateSymbol hvalid
  refine ⟨validateSymbol_of_isSymbol hsymbol, splitOn_wsUrl hsymbol, fun e message hpc => ?_⟩
  obtain ⟨handler, hmessage⟩ := subscribing_of_run hrun e hpc
  match e with
  | 0 => cases hmessage
  | 1 =>
      cases hmessage
      exact ⟨rfl, objectText_subscribe hsymbol⟩

theorem isSome_subscribing :
    (run (step (adapters .scan) defaultSymbol) wired
      [.loop bitstamp .start, .loop bitstamp (.connect .established)]).isSome := by
  rfl

/-- The loop of Bitstamp is about to subscribe to the default symbol. -/
theorem subscription_defaultSymbol :
    ∃ s message, run (step (adapters .scan) defaultSymbol) wired
        [.loop bitstamp .start, .loop bitstamp (.connect .established)] = some s
      ∧ (s.loops bitstamp).pc = .subscribing message
      ∧ ObjectText message (subscribeMembers defaultSymbol) := by
  have hrun := (Option.some_get isSome_subscribing).symm
  have hpc : (((run (step (adapters .scan) defaultSymbol) wired
      [.loop bitstamp .start, .loop bitstamp (.connect .established)]).get
        isSome_subscribing).loops bitstamp).pc = _ := rfl
  exact ⟨_, _, hrun, hpc,
    ((subscription .scan validateSymbol_defaultSymbol hrun).2.2 bitstamp _ hpc).2⟩

end Pipeline

end OrderbookAggregator
