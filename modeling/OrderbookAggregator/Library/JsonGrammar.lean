import Mathlib.Data.List.Infix
import Mathlib.Tactic.Common
import Mathlib.Tactic.SplitIfs

/-!
# JSON texts

The grammar of JSON over the bytes of a text. A derivation also lists the members of the objects in
the text, at whatever depth, as they are spelled.
-/

namespace JsonGrammar

abbrev quote : UInt8 := 34
abbrev comma : UInt8 := 44
abbrev colon : UInt8 := 58
abbrev openBracket : UInt8 := 91
abbrev backslash : UInt8 := 92
abbrev closeBracket : UInt8 := 93
abbrev openBrace : UInt8 := 123
abbrev closeBrace : UInt8 := 125

/-- Space, tab, newline, carriage return. -/
def IsBlank (byte : UInt8) : Prop := byte = 32 ∨ byte = 9 ∨ byte = 10 ∨ byte = 13

instance : DecidablePred IsBlank := fun _ => inferInstanceAs (Decidable (_ ∨ _))

def Blank (ws : List UInt8) : Prop := ∀ byte ∈ ws, IsBlank byte

instance : DecidablePred Blank := fun _ => inferInstanceAs (Decidable (∀ _ ∈ _, _))

/-! ### Strings -/

def IsHexDigit (byte : UInt8) : Prop :=
  (48 ≤ byte ∧ byte ≤ 57) ∨ (65 ≤ byte ∧ byte ≤ 70) ∨ (97 ≤ byte ∧ byte ≤ 102)

/-- The bytes that may stand behind a backslash: quote, backslash, slash, `b`, `f`, `n`, `r`, `t`. -/
def escapes : List UInt8 := [34, 92, 47, 98, 102, 110, 114, 116]

/-- A character of a string, as it is spelled. -/
inductive SpelledChar : List UInt8 → Prop
  | plain {c : Char} (hcontrol : 32 ≤ c.val) (hquote : c.val ≠ 34) (hbackslash : c.val ≠ 92) :
      SpelledChar (String.utf8EncodeChar c)
  | escape {byte : UInt8} (hbyte : byte ∈ escapes) : SpelledChar [backslash, byte]
  | unicode {digits : List UInt8} (hlength : digits.length = 4)
      (hdigits : ∀ byte ∈ digits, IsHexDigit byte) : SpelledChar (backslash :: 117 :: digits)

/-- What stands between the quotes of a string. -/
inductive StringContent : List UInt8 → Prop
  | nil : StringContent []
  | cons {char rest : List UInt8} (hchar : SpelledChar char) (hrest : StringContent rest) :
      StringContent (char ++ rest)

def quoted (content : List UInt8) : List UInt8 := quote :: (content ++ [quote])

/-! ### Numbers -/

def Digits (text : List UInt8) : Prop := text ≠ [] ∧ ∀ byte ∈ text, 48 ≤ byte ∧ byte ≤ 57

inductive Fraction : List UInt8 → Prop
  | none : Fraction []
  | some {digits : List UInt8} (hdigits : Digits digits) : Fraction (46 :: digits)

inductive Exponent : List UInt8 → Prop
  | none : Exponent []
  | some {letter : UInt8} {sign digits : List UInt8} (hletter : letter = 69 ∨ letter = 101)
      (hsign : sign = [] ∨ sign = [43] ∨ sign = [45]) (hdigits : Digits digits) :
      Exponent (letter :: (sign ++ digits))

inductive Number : List UInt8 → Prop
  | mk {sign int fraction exponent : List UInt8} (hsign : sign = [] ∨ sign = [45])
      (hint : Digits int) (hzero : int.head? = some 48 → int = [48]) (hfraction : Fraction fraction)
      (hexponent : Exponent exponent) : Number (sign ++ (int ++ (fraction ++ exponent)))

/-! ### Values -/

/-- `true`, `false` and `null`. -/
def literals : List (List UInt8) :=
  [[116, 114, 117, 101], [102, 97, 108, 115, 101], [110, 117, 108, 108]]

/-- A member of an object: its key, what stands between the key and the colon, and its value, each as
it is spelled. -/
structure Member where
  key : List UInt8
  gap : List UInt8
  value : List UInt8
  deriving DecidableEq

inductive Symbol where
  | value
  | element
  | elements
  | member
  | members
  deriving DecidableEq

/-- The texts of each symbol of the grammar, with the members that stand in them. -/
inductive Derives : Symbol → List UInt8 → List Member → Prop
  | literal {text} (hliteral : text ∈ literals) : Derives .value text []
  | number {text} (hnumber : Number text) : Derives .value text []
  | string {content} (hcontent : StringContent content) : Derives .value (quoted content) []
  | emptyArray {ws} (hws : Blank ws) : Derives .value (openBracket :: (ws ++ [closeBracket])) []
  | array {text members} (helements : Derives .elements text members) :
      Derives .value (openBracket :: (text ++ [closeBracket])) members
  | emptyObject {ws} (hws : Blank ws) : Derives .value (openBrace :: (ws ++ [closeBrace])) []
  | object {text members} (hmembers : Derives .members text members) :
      Derives .value (openBrace :: (text ++ [closeBrace])) members
  | element {before text after members} (hbefore : Blank before)
      (hvalue : Derives .value text members) (hafter : Blank after) :
      Derives .element (before ++ (text ++ after)) members
  | lastElement {text members} (helement : Derives .element text members) :
      Derives .elements text members
  | elements {text rest members members'} (helement : Derives .element text members)
      (hrest : Derives .elements rest members') :
      Derives .elements (text ++ comma :: rest) (members ++ members')
  | member {ws key gap before value after members} (hws : Blank ws) (hkey : StringContent key)
      (hgap : Blank gap) (hbefore : Blank before) (hvalue : Derives .value value members)
      (hafter : Blank after) :
      Derives .member (ws ++ (quoted key ++ (gap ++ colon :: (before ++ (value ++ after)))))
        (⟨key, gap, value⟩ :: members)
  | lastMember {text members} (hmember : Derives .member text members) :
      Derives .members text members
  | members {text rest members members'} (hmember : Derives .member text members)
      (hrest : Derives .members rest members') :
      Derives .members (text ++ comma :: rest) (members ++ members')

/-- A JSON text whose value is an object. -/
def ObjectText (text : List UInt8) (members : List Member) : Prop :=
  ∃ before body after, Blank before ∧ Blank after
    ∧ Derives .value (openBrace :: (body ++ [closeBrace])) members
    ∧ text = before ++ (openBrace :: (body ++ [closeBrace]) ++ after)

theorem ObjectText.derives {text : List UInt8} {members : List Member}
    (h : ObjectText text members) : Derives .element text members := by
  obtain ⟨before, body, after, hbefore, hafter, hvalue, rfl⟩ := h
  exact .element hbefore hvalue hafter

/-! ### The bytes of strings and numbers -/

/-- A piece of a string in which no quote stands unescaped and every backslash escapes a byte. -/
inductive Escaped : List UInt8 → Prop
  | nil : Escaped []
  | plain {byte : UInt8} {content : List UInt8} (hquote : byte ≠ quote)
      (hbackslash : byte ≠ backslash) (hcontent : Escaped content) : Escaped (byte :: content)
  | escape {byte : UInt8} {content : List UInt8} (hcontent : Escaped content) :
      Escaped (backslash :: byte :: content)

theorem Escaped.append {content content' : List UInt8} (h : Escaped content)
    (h' : Escaped content') : Escaped (content ++ content') := by
  induction h with
  | nil => exact h'
  | plain hquote hbackslash _ ih => exact .plain hquote hbackslash ih
  | escape _ ih => exact .escape ih

theorem escaped_of_forall {content : List UInt8}
    (h : ∀ byte ∈ content, byte ≠ quote ∧ byte ≠ backslash) : Escaped content := by
  induction content with
  | nil => exact .nil
  | cons byte content ih =>
      rw [List.forall_mem_cons] at h
      exact .plain h.1.1 h.1.2 (ih h.2)

/-- A character beyond ASCII takes bytes beyond ASCII. -/
theorem eq_or_le_of_mem_utf8EncodeChar {c : Char} {byte : UInt8}
    (h : byte ∈ String.utf8EncodeChar c) : byte.toNat = c.val.toNat ∨ 128 ≤ byte.toNat := by
  rw [String.utf8EncodeChar] at h
  split_ifs at h <;> simp only [List.mem_cons, List.not_mem_nil, or_false] at h
  · rw [h, UInt8.toNat_ofNat']
    omega
  · rcases h with rfl | rfl <;> rw [UInt8.toNat_ofNat'] <;> omega
  · rcases h with rfl | rfl | rfl <;> rw [UInt8.toNat_ofNat'] <;> omega
  · rcases h with rfl | rfl | rfl | rfl <;> rw [UInt8.toNat_ofNat'] <;> omega

theorem head?_utf8EncodeChar {c : Char} {byte : UInt8}
    (h : byte ∈ (String.utf8EncodeChar c).head?) : byte < 128 ∨ 192 ≤ byte := by
  have hascii : (128 : UInt8).toNat = 128 := rfl
  have hfirst : (192 : UInt8).toNat = 192 := rfl
  rw [String.utf8EncodeChar] at h
  rw [UInt8.lt_iff_toNat_lt, UInt8.le_iff_toNat_le, hascii, hfirst]
  split_ifs at h <;> obtain rfl := Option.some_inj.mp h <;> rw [UInt8.toNat_ofNat'] <;> omega

theorem ne_of_mem_utf8EncodeChar {c : Char} {byte special : UInt8}
    (hspecial : special.toNat < 128) (hne : c.val.toNat ≠ special.toNat)
    (h : byte ∈ String.utf8EncodeChar c) : byte ≠ special := by
  rintro rfl
  rcases eq_or_le_of_mem_utf8EncodeChar h with heq | hle
  · exact hne heq.symm
  · exact absurd hspecial (Nat.not_lt.mpr hle)

theorem IsHexDigit.ne {byte : UInt8} (h : IsHexDigit byte) : byte ≠ quote ∧ byte ≠ backslash := by
  constructor <;> rintro rfl <;> exact absurd h (by unfold IsHexDigit; decide)

theorem SpelledChar.escaped {char : List UInt8} (h : SpelledChar char) : Escaped char := by
  cases h with
  | @plain c hcontrol hquote hbackslash =>
      refine escaped_of_forall fun byte hbyte => ⟨?_, ?_⟩
      · exact ne_of_mem_utf8EncodeChar (by decide) (fun h => hquote (UInt32.toNat_inj.mp h)) hbyte
      · exact ne_of_mem_utf8EncodeChar (by decide) (fun h => hbackslash (UInt32.toNat_inj.mp h)) hbyte
  | escape => exact .escape .nil
  | unicode hlength hdigits => exact .escape (escaped_of_forall fun byte hbyte => (hdigits byte hbyte).ne)

theorem StringContent.escaped {content : List UInt8} (h : StringContent content) :
    Escaped content := by
  induction h with
  | nil => exact .nil
  | cons hchar _ ih => exact hchar.escaped.append ih

/-- A byte of ASCII that stands for itself in a string. -/
def Printable (byte : UInt8) : Prop :=
  32 ≤ byte.toNat ∧ byte.toNat < 128 ∧ byte.toNat ≠ 34 ∧ byte.toNat ≠ 92

instance : DecidablePred Printable := fun _ => inferInstanceAs (Decidable (_ ∧ _))

theorem Printable.spelledChar {byte : UInt8} (h : Printable byte) : SpelledChar [byte] := by
  obtain ⟨hcontrol, hascii, hquote, hbackslash⟩ := h
  have hval : (Char.ofUInt8 byte).val.toNat = byte.toNat := UInt8.toNat_toUInt32 byte
  have hencode : String.utf8EncodeChar (Char.ofUInt8 byte) = [byte] := by
    rw [String.utf8EncodeChar, if_pos (by omega), hval, UInt8.ofNat_toNat]
  rw [← hencode]
  refine .plain ?_ ?_ ?_
  · rw [UInt32.le_iff_toNat_le, hval]
    exact hcontrol
  · exact fun h => hquote (hval.symm.trans (congrArg UInt32.toNat h))
  · exact fun h => hbackslash (hval.symm.trans (congrArg UInt32.toNat h))

theorem StringContent.append {content rest : List UInt8} (hcontent : ∀ byte ∈ content, Printable byte)
    (hrest : StringContent rest) : StringContent (content ++ rest) := by
  induction content with
  | nil => exact hrest
  | cons byte content ih =>
      rw [List.forall_mem_cons] at hcontent
      exact @StringContent.cons [byte] _ hcontent.1.spelledChar (ih hcontent.2)

theorem StringContent.of_printable {content : List UInt8}
    (hcontent : ∀ byte ∈ content, Printable byte) : StringContent content :=
  List.append_nil content ▸ StringContent.append hcontent .nil

/-- A string does not begin in the middle of a character. -/
theorem StringContent.head?_closed {content : List UInt8} (h : StringContent content) :
    ∀ byte ∈ (content ++ [quote]).head?, byte < 128 ∨ 192 ≤ byte := by
  intro byte hbyte
  cases h with
  | nil =>
      obtain rfl := Option.some_inj.mp hbyte
      decide
  | @cons char rest hchar hrest =>
      cases hchar with
      | plain =>
          rw [List.append_assoc, List.head?_append_of_ne_nil _ String.utf8EncodeChar_ne_nil] at hbyte
          exact head?_utf8EncodeChar hbyte
      | escape | unicode =>
          obtain rfl := Option.some_inj.mp hbyte
          decide

theorem Digits.quote_notMem {digits : List UInt8} (h : Digits digits) : quote ∉ digits :=
  fun hmem => absurd (h.2 quote hmem) (by decide)

theorem Number.quote_notMem {text : List UInt8} (h : Number text) : quote ∉ text := by
  cases h with
  | @mk sign int fraction exponent hsign hint hzero hfraction hexponent =>
      have hsign : quote ∉ sign := by rcases hsign with rfl | rfl <;> decide
      have hfraction : quote ∉ fraction := by
        cases hfraction with
        | none => exact List.not_mem_nil
        | some hdigits => exact List.not_mem_cons_of_ne_of_not_mem (by decide) hdigits.quote_notMem
      have hexponent : quote ∉ exponent := by
        cases hexponent with
        | none => exact List.not_mem_nil
        | @some letter sign digits hletter hsign hdigits =>
            have hletter : quote ≠ letter := by rcases hletter with rfl | rfl <;> decide
            have hsign : quote ∉ sign := by rcases hsign with rfl | rfl | rfl <;> decide
            refine List.not_mem_cons_of_ne_of_not_mem hletter ?_
            exact List.mem_append.not.mpr (not_or.mpr ⟨hsign, hdigits.quote_notMem⟩)
      simp only [List.mem_append, not_or]
      exact ⟨hsign, hint.quote_notMem, hfraction, hexponent⟩

theorem quote_notMem_literal {text : List UInt8} (h : text ∈ literals) : quote ∉ text := by
  simp only [literals, List.mem_cons, List.not_mem_nil, or_false] at h
  rcases h with rfl | rfl | rfl <;> decide

end JsonGrammar
