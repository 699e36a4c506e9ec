import Mathlib

/-!
# A text format for metrics

A page is a list of metric families. A family has a name, a line of help, a type, and its samples; a
sample is the value of a series, which is a name with labels. The text is lines of bytes, each of them
closed by a newline. Reading the text of a page gives the page back, if nothing in it is mistaken for
a separator or for an escape.
-/

namespace TextFormat

abbrev Text := List UInt8

abbrev newline : UInt8 := 10
abbrev space : UInt8 := 32
abbrev quote : UInt8 := 34
abbrev comma : UInt8 := 44
abbrev equals : UInt8 := 61
abbrev backslash : UInt8 := 92
abbrev openBrace : UInt8 := 123
abbrev closeBrace : UInt8 := 125

/-- The two words that open the header of a family. -/
def helpWord : Text := [35, 32, 72, 69, 76, 80, 32]

def typeWord : Text := [35, 32, 84, 89, 80, 69, 32]

structure Sample where
  name : Text
  labels : List (Text × Text)
  value : Text
  deriving DecidableEq

structure Family where
  name : Text
  help : Text
  kind : Text
  samples : List Sample
  deriving DecidableEq

/-- The series that a sample is the value of. -/
def Sample.series (s : Sample) : Text × List (Text × Text) := (s.name, s.labels)

/-! ### Writing -/

def labelText (label : Text × Text) : Text := label.1 ++ equals :: quote :: label.2 ++ [quote]

def labelsText (labels : List (Text × Text)) : Text := [comma].intercalate (labels.map labelText)

def Sample.text (s : Sample) : Text :=
  match s.labels with
  | [] => s.name ++ space :: s.value
  | _ :: _ => s.name ++ openBrace :: labelsText s.labels ++ closeBrace :: space :: s.value

def Family.lines (f : Family) : List Text :=
  (helpWord ++ f.name ++ space :: f.help) :: (typeWord ++ f.name ++ space :: f.kind)
    :: f.samples.map Sample.text

def linesText (lines : List Text) : Text := lines.flatMap (· ++ [newline])

def pageText (page : List Family) : Text := linesText (page.flatMap Family.lines)

/-! ### Reading -/

inductive Line where
  | help (name text : Text)
  | kind (name text : Text)
  | sample (s : Sample)
  deriving DecidableEq

/-- The lines of a text, the first of them begun with `line`. -/
def readLines (line : Text) : Text → Option (List Text)
  | [] => if line = [] then some [] else none
  | byte :: rest =>
    if byte = newline then (readLines [] rest).map (line :: ·) else readLines (line ++ [byte]) rest

/-- A letter, a digit, an underscore or a colon. -/
def isNameByte (byte : UInt8) : Bool :=
  (97 ≤ byte && byte ≤ 122) || (65 ≤ byte && byte ≤ 90) || (48 ≤ byte && byte ≤ 57) || byte = 95
    || byte = 58

/-- A letter, a digit or an underscore. -/
def isLabelByte (byte : UInt8) : Bool := isNameByte byte && byte != 58

/-- What a byte stands for behind a backslash. -/
def unescape (byte : UInt8) : Option UInt8 :=
  if byte = backslash then some backslash else if byte = 110 then some newline else none

/-- In the value of a label a quote can be escaped as well. -/
def unescapeValue (byte : UInt8) : Option UInt8 :=
  if byte = quote then some quote else unescape byte

def readHelp : Text → Option Text
  | [] => some []
  | byte :: rest =>
    if byte = backslash then
      match rest with
      | [] => none
      | next :: rest => (unescape next).bind fun meant => (readHelp rest).map (meant :: ·)
    else (readHelp rest).map (byte :: ·)

/-- The labels up to the closing brace, and what follows it. Of the first label `name` has been read,
and `value` behind its opening quote. -/
def readLabels (name : Text) (value : Option Text) : Text → Option (List (Text × Text) × Text)
  | byte :: next :: rest =>
    match value with
    | none =>
      if byte = equals then if next = quote then readLabels name (some []) rest else none
      else if isLabelByte byte then readLabels (name ++ [byte]) none (next :: rest)
      else none
    | some value =>
      if byte = quote then
        if next = comma then
          (readLabels [] none rest).map fun (labels, rest) => ((name, value) :: labels, rest)
        else if next = closeBrace then some ([(name, value)], rest)
        else none
      else if byte = backslash then
        (unescapeValue next).bind fun meant => readLabels name (some (value ++ [meant])) rest
      else readLabels name (some (value ++ [byte])) (next :: rest)
  | _ => none

def readSample (line : Text) : Option Sample :=
  let name := line.takeWhile isNameByte
  match line.dropWhile isNameByte with
  | byte :: rest =>
    if byte = space then some ⟨name, [], rest⟩
    else if byte = openBrace then
      match readLabels [] none rest with
      | some (labels, byte :: value) => if byte = space then some ⟨name, labels, value⟩ else none
      | _ => none
    else none
  | [] => none

/-- What follows the word of a header: a name, a space and a text. -/
def readHeader (text : Text) : Option (Text × Text) :=
  match text.dropWhile isNameByte with
  | byte :: rest => if byte = space then some (text.takeWhile isNameByte, rest) else none
  | [] => none

def readLine (line : Text) : Option Line :=
  match line.dropPrefix? helpWord with
  | some rest =>
    (readHeader rest).bind fun (name, text) => (readHelp text).map fun help => .help name help
  | none =>
    match line.dropPrefix? typeWord with
    | some rest => (readHeader rest).map fun (name, text) => .kind name text
    | none => (readSample line).map .sample

/-- The samples before the first header, and the families. -/
def group : List Line → Option (List Sample × List Family)
  | [] => some ([], [])
  | .sample s :: lines => (group lines).map fun (samples, page) => (s :: samples, page)
  | .help name help :: .kind name' kind :: lines =>
    if name = name' then
      (group lines).map fun (samples, page) => ([], ⟨name, help, kind, samples⟩ :: page)
    else none
  | _ => none

def readPage (text : Text) : Option (List Family) :=
  match ((readLines [] text).bind (List.mapM readLine)).bind group with
  | some ([], page) => some page
  | _ => none

/-! ### The rules of a page -/

def bucketSuffix : Text := [95, 98, 117, 99, 107, 101, 116]

def sumSuffix : Text := [95, 115, 117, 109]

def countSuffix : Text := [95, 99, 111, 117, 110, 116]

/-- The word for the type of a histogram. -/
def histogramWord : Text := [104, 105, 115, 116, 111, 103, 114, 97, 109]

/-- The names that the samples of a family may have. -/
def Family.sampleNames (f : Family) : List Text :=
  if f.kind = histogramWord then
    [f.name ++ bucketSuffix, f.name ++ sumSuffix, f.name ++ countSuffix]
  else [f.name]

/-- Every family is there once, and so is every series; the samples stand under their family. -/
structure Valid (page : List Family) : Prop where
  names : (page.map Family.name).Nodup
  samples : ∀ f ∈ page, ∀ s ∈ f.samples, s.name ∈ f.sampleNames
  series : ((page.flatMap Family.samples).map Sample.series).Nodup

/-- The value of a series. -/
def valueOf (page : List Family) (series : Text × List (Text × Text)) : Option Text :=
  ((page.flatMap Family.samples).find? (·.series = series)).map Sample.value

theorem Valid.of_families {page : List Family} (hnames : (page.map Family.name).Nodup)
    (hsamples : ∀ f ∈ page, ∀ s ∈ f.samples, s.name ∈ f.sampleNames)
    (hseries : ∀ f ∈ page, (f.samples.map Sample.series).Nodup)
    (hapart : (page.flatMap Family.sampleNames).Nodup) : Valid page := by
  refine ⟨hnames, hsamples, ?_⟩
  rw [List.map_flatMap, List.nodup_flatMap]
  refine ⟨hseries, (List.nodup_flatMap.mp hapart).2.imp_of_mem fun {f g} hf hg hdisjoint => ?_⟩
  intro series hfirst hsecond
  obtain ⟨s, hs, rfl⟩ := List.mem_map.mp hfirst
  obtain ⟨t, ht, heq⟩ := List.mem_map.mp hsecond
  have hname : t.name = s.name := congrArg Prod.fst heq
  exact hdisjoint (hsamples f hf s hs) (hname ▸ hsamples g hg t ht)

theorem Valid.valueOf_series {page : List Family} (h : Valid page) {f : Family} (hf : f ∈ page)
    {s : Sample} (hs : s ∈ f.samples) : valueOf page s.series = some s.value := by
  have hmem : s ∈ page.flatMap Family.samples := List.mem_flatMap.mpr ⟨f, hf, hs⟩
  obtain ⟨t, ht⟩ : ∃ t, (page.flatMap Family.samples).find? (·.series = s.series) = some t := by
    rw [← Option.ne_none_iff_exists', ne_eq, List.find?_eq_none]
    intro hnone
    exact hnone s hmem (decide_eq_true rfl)
  have hsame : t.series = s.series := by simpa using List.find?_some ht
  have heq : t = s := List.inj_on_of_nodup_map h.series (List.mem_of_find?_eq_some ht) hmem hsame
  rw [valueOf, ht, heq]
  rfl

/-! ### What is written is read -/

/-- Nothing in the text needs an escape. -/
def PlainText (text : Text) : Prop := quote ∉ text ∧ newline ∉ text ∧ backslash ∉ text

instance : DecidablePred PlainText := fun _ => inferInstanceAs (Decidable (_ ∧ _))

structure PlainLabel (label : Text × Text) : Prop where
  name : ∀ byte ∈ label.1, isLabelByte byte
  value : PlainText label.2

structure Sample.WellFormed (s : Sample) : Prop where
  name : ∀ byte ∈ s.name, isNameByte byte
  labels : ∀ label ∈ s.labels, PlainLabel label
  value : newline ∉ s.value

structure Family.WellFormed (f : Family) : Prop where
  name : ∀ byte ∈ f.name, isNameByte byte
  help : newline ∉ f.help ∧ backslash ∉ f.help
  kind : newline ∉ f.kind
  samples : ∀ s ∈ f.samples, s.WellFormed

theorem newline_notMem_of_isName {name : Text} (hname : ∀ byte ∈ name, isNameByte byte) :
    newline ∉ name := by
  intro hmem
  exact absurd (hname _ hmem) (by decide)

/-! #### Lines -/

theorem readLines_line {line : Text} (hline : newline ∉ line) (before rest : Text) :
    readLines before (line ++ newline :: rest)
      = (readLines [] rest).map ((before ++ line) :: ·) := by
  induction line generalizing before with
  | nil =>
      rw [List.nil_append, readLines, if_pos rfl, List.append_nil]
  | cons byte line ih =>
      rw [List.mem_cons, not_or] at hline
      rw [List.cons_append, readLines, if_neg (Ne.symm hline.1), ih hline.2, List.append_assoc]
      rfl

theorem readLines_linesText {lines : List Text} (hlines : ∀ line ∈ lines, newline ∉ line) :
    readLines [] (linesText lines) = some lines := by
  induction lines with
  | nil => rfl
  | cons line lines ih =>
      rw [linesText, List.flatMap_cons, List.append_assoc, List.singleton_append,
        readLines_line (hlines line List.mem_cons_self)]
      change (readLines [] (linesText lines)).map _ = _
      rw [ih fun other hother => hlines other (List.mem_cons_of_mem _ hother)]
      rfl

theorem linesText_append (first second : List Text) :
    linesText (first ++ second) = linesText first ++ linesText second :=
  List.flatMap_append

/-! #### Samples -/

theorem readLabels_name {text : Text} (htext : ∀ byte ∈ text, isLabelByte byte)
    (name rest : Text) :
    readLabels name none (text ++ equals :: quote :: rest)
      = readLabels (name ++ text) (some []) rest := by
  induction text generalizing name with
  | nil =>
      rw [List.nil_append, readLabels, if_pos rfl, if_pos rfl, List.append_nil]
  | cons byte text ih =>
      rw [List.forall_mem_cons] at htext
      have hequals : byte ≠ equals := by
        rintro rfl
        exact absurd htext.1 (by decide)
      have hstep (next : UInt8) (behind : Text) :
          readLabels name none (byte :: next :: behind)
            = readLabels (name ++ [byte]) none (next :: behind) := by
        rw [readLabels]
        exact (if_neg hequals).trans (if_pos htext.1)
      have hrest := ih htext.2 (name ++ [byte])
      rw [List.append_assoc, List.singleton_append] at hrest
      cases text with
      | nil => exact (hstep _ _).trans hrest
      | cons next text => exact (hstep _ _).trans hrest

theorem readLabels_value {text : Text} (hquote : quote ∉ text) (hescape : backslash ∉ text)
    (name value rest : Text) (closing : UInt8) :
    readLabels name (some value) (text ++ quote :: closing :: rest)
      = readLabels name (some (value ++ text)) (quote :: closing :: rest) := by
  induction text generalizing value with
  | nil => rw [List.nil_append, List.append_nil]
  | cons byte text ih =>
      rw [List.mem_cons, not_or] at hquote hescape
      have hstep (next : UInt8) (behind : Text) :
          readLabels name (some value) (byte :: next :: behind)
            = readLabels name (some (value ++ [byte])) (next :: behind) := by
        rw [readLabels]
        exact (if_neg (Ne.symm hquote.1)).trans (if_neg (Ne.symm hescape.1))
      have hrest := ih hquote.2 hescape.2 (value ++ [byte])
      rw [List.append_assoc, List.singleton_append] at hrest
      cases text with
      | nil => exact (hstep _ _).trans hrest
      | cons next text => exact (hstep _ _).trans hrest

theorem readLabels_label {label : Text × Text} (hlabel : PlainLabel label) (closing : UInt8)
    (rest : Text) :
    readLabels [] none (labelText label ++ closing :: rest)
      = readLabels label.1 (some label.2) (quote :: closing :: rest) := by
  rw [labelText, List.append_assoc, List.append_assoc, List.cons_append, List.cons_append,
    readLabels_name hlabel.name, List.nil_append, List.singleton_append,
    readLabels_value hlabel.value.1 hlabel.value.2.2, List.nil_append]

theorem labelsText_nil : labelsText [] = [] := rfl

theorem labelsText_singleton (label : Text × Text) : labelsText [label] = labelText label := by
  rw [labelsText, List.map_singleton, List.intercalate_singleton]

theorem labelsText_cons (first second : Text × Text) (labels : List (Text × Text)) :
    labelsText (first :: second :: labels)
      = labelText first ++ comma :: labelsText (second :: labels) := by
  rw [labelsText, List.map_cons, List.map_cons, List.intercalate_cons_cons]
  rw [List.append_assoc, List.singleton_append, ← List.map_cons]
  rfl

theorem labelsText_concat (labels : List (Text × Text)) (hlabels : labels ≠ [])
    (label : Text × Text) :
    labelsText (labels ++ [label]) = labelsText labels ++ comma :: labelText label := by
  induction labels with
  | nil => exact absurd rfl hlabels
  | cons first labels ih =>
      cases labels with
      | nil =>
          rw [List.singleton_append, labelsText_cons, labelsText_singleton, labelsText_singleton]
      | cons second labels =>
          rw [List.cons_append, List.cons_append, labelsText_cons, ← List.cons_append,
            ih (List.cons_ne_nil _ _), labelsText_cons, List.append_assoc]
          rfl

theorem labelsText_ne_nil {labels : List (Text × Text)} (hlabels : labels ≠ []) :
    labelsText labels ≠ [] := by
  intro hnil
  cases labels with
  | nil => exact hlabels rfl
  | cons first labels =>
      have hmem : quote ∈ labelsText (first :: labels) := by
        cases labels with
        | nil => simp [labelsText_singleton, labelText]
        | cons second labels => simp [labelsText_cons, labelText]
      rw [hnil] at hmem
      exact List.not_mem_nil hmem

theorem readLabels_labelsText {first : Text × Text} {labels : List (Text × Text)}
    (hlabels : ∀ label ∈ first :: labels, PlainLabel label) (rest : Text) :
    readLabels [] none (labelsText (first :: labels) ++ closeBrace :: rest)
      = some (first :: labels, rest) := by
  induction labels generalizing first with
  | nil =>
      rw [labelsText_singleton, readLabels_label (hlabels first List.mem_cons_self), readLabels]
      rfl
  | cons second labels ih =>
      rw [labelsText_cons, List.append_assoc, List.cons_append,
        readLabels_label (hlabels first List.mem_cons_self), readLabels]
      have hrest := ih fun label hmem => hlabels label (List.mem_cons_of_mem _ hmem)
      rw [if_pos rfl, if_pos rfl, hrest]
      rfl

theorem Sample.text_nil (name value : Text) :
    Sample.text ⟨name, [], value⟩ = name ++ space :: value := rfl

theorem Sample.text_of_ne_nil {labels : List (Text × Text)} (hlabels : labels ≠ [])
    (name value : Text) :
    Sample.text ⟨name, labels, value⟩
      = name ++ openBrace :: labelsText labels ++ closeBrace :: space :: value := by
  cases labels with
  | nil => exact absurd rfl hlabels
  | cons first labels => rfl

theorem readSample_text {s : Sample} (hs : s.WellFormed) : readSample s.text = some s := by
  obtain ⟨name, labels, value⟩ := s
  have htake (byte : UInt8) (hbyte : isNameByte byte = false) (rest : Text) :
      (name ++ byte :: rest).takeWhile isNameByte = name := by
    rw [List.takeWhile_append_of_pos hs.name, List.takeWhile_cons, hbyte]
    exact List.append_nil _
  have hdrop (byte : UInt8) (hbyte : isNameByte byte = false) (rest : Text) :
      (name ++ byte :: rest).dropWhile isNameByte = byte :: rest := by
    rw [List.dropWhile_append_of_pos hs.name, List.dropWhile_cons, hbyte]
    rfl
  cases labels with
  | nil =>
      simp only [Sample.text, readSample]
      rw [htake space (by decide), hdrop space (by decide)]
      rfl
  | cons first labels =>
      simp only [Sample.text, readSample]
      rw [List.append_assoc, List.cons_append, htake openBrace (by decide),
        hdrop openBrace (by decide)]
      simp only [readLabels_labelsText hs.labels]
      rfl

/-! #### Pages -/

theorem readHeader_text {name : Text} (hname : ∀ byte ∈ name, isNameByte byte) (text : Text) :
    readHeader (name ++ space :: text) = some (name, text) := by
  rw [readHeader, List.dropWhile_append_of_pos hname, List.takeWhile_append_of_pos hname]
  simp [show isNameByte space = false by decide]

theorem readHelp_plain {text : Text} (htext : backslash ∉ text) : readHelp text = some text := by
  induction text with
  | nil => rfl
  | cons byte text ih =>
      rw [List.mem_cons, not_or] at htext
      rw [readHelp.eq_def]
      dsimp only
      rw [if_neg (Ne.symm htext.1), ih htext.2]
      rfl

theorem readLine_help {name text : Text} (hname : ∀ byte ∈ name, isNameByte byte)
    (htext : backslash ∉ text) :
    readLine (helpWord ++ name ++ space :: text) = some (.help name text) := by
  rw [readLine, List.append_assoc, List.dropPrefix?_append_of_beq _ (beq_self_eq_true helpWord)]
  simp only [readHeader_text hname, Option.bind_some, readHelp_plain htext]
  rfl

theorem readLine_kind {name : Text} (hname : ∀ byte ∈ name, isNameByte byte) (text : Text) :
    readLine (typeWord ++ name ++ space :: text) = some (.kind name text) := by
  have hnone : (typeWord ++ (name ++ space :: text)).dropPrefix? helpWord = none := rfl
  rw [readLine, List.append_assoc, hnone,
    List.dropPrefix?_append_of_beq _ (beq_self_eq_true typeWord)]
  simp only [readHeader_text hname]
  rfl

/-- No line of a sample begins with the sign of a header. -/
theorem Sample.head?_text {s : Sample} (hs : s.WellFormed) : s.text.head? ≠ some 35 := by
  obtain ⟨name, labels, value⟩ := s
  cases name with
  | nil => cases labels <;> exact Option.some_injective _ |>.ne (by decide)
  | cons byte name =>
      have hbyte := hs.name byte List.mem_cons_self
      have hhead : (Sample.text ⟨byte :: name, labels, value⟩).head? = some byte := by
        cases labels <;> rfl
      rw [hhead]
      rintro ⟨⟩
      exact absurd hbyte (by decide)

theorem dropPrefix?_eq_none {line : Text} (hline : line.head? ≠ some 35) (word : Text) :
    line.dropPrefix? (35 :: word) = none := by
  rw [Option.eq_none_iff_forall_ne_some]
  intro rest hdrop
  obtain ⟨opening, rfl, hopening⟩ := List.dropPrefix?_eq_some_iff.mp hdrop
  rw [eq_of_beq hopening] at hline
  exact hline rfl

theorem readLine_sample {s : Sample} (hs : s.WellFormed) :
    readLine s.text = some (.sample s) := by
  rw [readLine, helpWord, typeWord, dropPrefix?_eq_none (s.head?_text hs),
    dropPrefix?_eq_none (s.head?_text hs)]
  simp only [readSample_text hs]
  rfl

def Family.asLines (f : Family) : List Line :=
  .help f.name f.help :: .kind f.name f.kind :: f.samples.map .sample

theorem mapM_readLine_samples {samples : List Sample} (hsamples : ∀ s ∈ samples, s.WellFormed) :
    (samples.map Sample.text).mapM readLine = some (samples.map .sample) := by
  induction samples with
  | nil => rfl
  | cons s samples ih =>
      rw [List.map_cons, List.mapM_cons, readLine_sample (hsamples s List.mem_cons_self),
        ih fun other hother => hsamples other (List.mem_cons_of_mem _ hother)]
      rfl

theorem mapM_readLine_lines {f : Family} (hf : f.WellFormed) :
    f.lines.mapM readLine = some f.asLines := by
  rw [Family.lines, List.mapM_cons, List.mapM_cons, readLine_help hf.name hf.help.2,
    readLine_kind hf.name,
    mapM_readLine_samples hf.samples]
  rfl

theorem group_samples (samples : List Sample) {lines : List Line} {page : List Family}
    (hlines : group lines = some ([], page)) :
    group (samples.map .sample ++ lines) = some (samples, page) := by
  induction samples with
  | nil => exact hlines
  | cons s samples ih =>
      rw [List.map_cons, List.cons_append, group, ih]
      rfl

theorem group_asLines (page : List Family) :
    group (page.flatMap Family.asLines) = some ([], page) := by
  induction page with
  | nil => rfl
  | cons f page ih =>
      rw [List.flatMap_cons, Family.asLines, List.cons_append, List.cons_append, group, if_pos rfl,
        group_samples f.samples ih]
      rfl

theorem mapM_readLine {page : List Family} (hpage : ∀ f ∈ page, f.WellFormed) :
    (page.flatMap Family.lines).mapM readLine = some (page.flatMap Family.asLines) := by
  induction page with
  | nil => rfl
  | cons f page ih =>
      rw [List.flatMap_cons, List.mapM_append, mapM_readLine_lines (hpage f List.mem_cons_self),
        ih fun other hother => hpage other (List.mem_cons_of_mem _ hother)]
      rfl

theorem newline_notMem_labelText {label : Text × Text} (hlabel : PlainLabel label) :
    newline ∉ labelText label := by
  have hname : newline ∉ label.1 := fun hmem => absurd (hlabel.name _ hmem) (by decide)
  rw [labelText]
  simp only [List.mem_append, List.mem_cons, hname, hlabel.value.2.1]
  decide

theorem newline_notMem_labelsText {labels : List (Text × Text)}
    (hlabels : ∀ label ∈ labels, PlainLabel label) : newline ∉ labelsText labels := by
  induction labels with
  | nil => exact List.not_mem_nil
  | cons first labels ih =>
      have hfirst := newline_notMem_labelText (hlabels first List.mem_cons_self)
      have hrest := ih fun label hmem => hlabels label (List.mem_cons_of_mem _ hmem)
      cases labels with
      | nil => rwa [labelsText_singleton]
      | cons second labels =>
          rw [labelsText_cons]
          simp only [List.mem_append, List.mem_cons, hfirst, hrest]
          decide

theorem Family.newline_notMem {f : Family} (hf : f.WellFormed) :
    ∀ line ∈ f.lines, newline ∉ line := by
  have hname := newline_notMem_of_isName hf.name
  intro line hline
  rw [Family.lines, List.mem_cons, List.mem_cons, List.mem_map] at hline
  obtain rfl | rfl | ⟨s, hs, rfl⟩ := hline
  · simp only [List.mem_append, List.mem_cons (a := newline) (b := space), hname, hf.help.1]
    decide
  · simp only [List.mem_append, List.mem_cons (a := newline) (b := space), hname, hf.kind]
    decide
  · have hsample := hf.samples s hs
    have hsampleName := newline_notMem_of_isName hsample.name
    have hlabels := newline_notMem_labelsText hsample.labels
    rw [Sample.text]
    split
    · simp only [List.mem_append, List.mem_cons, hsampleName, hsample.value]
      decide
    · simp only [List.mem_append, List.mem_cons, hsampleName, hlabels, hsample.value]
      decide

/-- **Reading undoes writing.** -/
theorem readPage_pageText {page : List Family} (hpage : ∀ f ∈ page, f.WellFormed) :
    readPage (pageText page) = some page := by
  have hlines : ∀ line ∈ page.flatMap Family.lines, newline ∉ line := by
    intro line hline
    obtain ⟨f, hf, hmem⟩ := List.mem_flatMap.mp hline
    exact f.newline_notMem (hpage f hf) line hmem
  rw [readPage, pageText, readLines_linesText hlines]
  change (match (List.mapM readLine _).bind group with | some ([], page) => _ | _ => _) = _
  rw [mapM_readLine hpage]
  simp only [Option.bind_some, group_asLines]

end TextFormat
