import Mathlib

/-!
# What the code uses of its language

Machine integers are naturals; an operation on them says what it does at the width of its type. The
release build aborts on a panic, so a panic is a result of its own, apart from the `None` of a
fallible function.
-/

namespace OrderbookAggregator

/-- The ways in which the code could panic. -/
inductive Panic where
  /-- `&buf[start..]` with `start` past the end. -/
  | sliceStart
  /-- `table[i]` with `i` out of range. -/
  | index
  /-- Plain `+`, `-` or `*` leaving its type. -/
  | overflow
  deriving DecidableEq, Repr

/-- A computation that may panic. -/
abbrev Exec (α : Type) := Except Panic α

@[simp]
theorem Exec.ok_bind {α β : Type} (a : α) (f : α → Exec β) : ((.ok a : Exec α) >>= f) = f a := rfl

@[simp]
theorem Exec.error_bind {α β : Type} (panic : Panic) (f : α → Exec β) :
    ((.error panic : Exec α) >>= f) = .error panic := rfl

@[simp]
theorem Exec.pure_eq {α : Type} (a : α) : (pure a : Exec α) = .ok a := rfl

theorem Exec.eq_ok_of_toOption {α : Type} {computed : Exec α} {a : α}
    (h : computed.toOption = some a) : computed = .ok a := by
  cases computed with
  | error panic => cases h
  | ok b =>
      cases h
      rfl

/-- The bytes of a `&str`. The scanner only ever looks at the bytes, and what is said of it here holds
for all byte sequences, those that are UTF-8 among them. -/
abbrev Bytes := List UInt8

/-- The bytes of a literal. -/
def bytes (s : String) : Bytes := s.toByteArray.data.toList

namespace Ascii

abbrev quote : UInt8 := 34
abbrev plus : UInt8 := 43
abbrev comma : UInt8 := 44
abbrev dot : UInt8 := 46
abbrev zero : UInt8 := 48
abbrev openBracket : UInt8 := 91
abbrev backslash : UInt8 := 92
abbrev closeBracket : UInt8 := 93

/-- Space, tab, newline, carriage return. -/
def isWs (byte : UInt8) : Bool := byte = 32 ∨ byte = 9 ∨ byte = 10 ∨ byte = 13

end Ascii

/-- `byte.wrapping_sub(b'0')`: at most nine exactly on the digits. -/
def digitOf (byte : UInt8) : Nat := (byte - Ascii.zero).toNat

/-- Nanoseconds since some origin. -/
abbrev Instant := Nat

/-- Nanoseconds. -/
abbrev Duration := Nat

/-- `later - earlier`, which saturates: a moment in the future is no time ago. -/
def Instant.since (later earlier : Instant) : Duration := later - earlier

/-! ### Integers -/

def checkedMulU64 (a b : Nat) : Option Nat := if a * b < 2 ^ 64 then some (a * b) else none

def checkedAddU64 (a b : Nat) : Option Nat := if a + b < 2 ^ 64 then some (a + b) else none

def mulU64 (a b : Nat) : Exec Nat := if a * b < 2 ^ 64 then .ok (a * b) else .error .overflow

def addU64 (a b : Nat) : Exec Nat := if a + b < 2 ^ 64 then .ok (a + b) else .error .overflow

def addU32 (a b : Nat) : Exec Nat := if a + b < 2 ^ 32 then .ok (a + b) else .error .overflow

def subU32 (a b : Nat) : Exec Nat := if b ≤ a then .ok (a - b) else .error .overflow

theorem mulU64_of_lt {a b : Nat} (h : a * b < 2 ^ 64) : mulU64 a b = .ok (a * b) := if_pos h

theorem addU64_of_lt {a b : Nat} (h : a + b < 2 ^ 64) : addU64 a b = .ok (a + b) := if_pos h

theorem addU32_of_lt {a b : Nat} (h : a + b < 2 ^ 32) : addU32 a b = .ok (a + b) := if_pos h

theorem subU32_of_le {a b : Nat} (h : b ≤ a) : subU32 a b = .ok (a - b) := if_pos h

theorem checkedMulU64_of_lt {a b : Nat} (h : a * b < 2 ^ 64) :
    checkedMulU64 a b = some (a * b) := if_pos h

theorem checkedMulU64_of_not_lt {a b : Nat} (h : ¬ a * b < 2 ^ 64) :
    checkedMulU64 a b = none := if_neg h

/-- `table[i]`. -/
def indexed {α : Type} (table : List α) (i : Nat) : Exec α :=
  match table[i]? with
  | some a => .ok a
  | none => .error .index

/-- `a as i64` for a `u64`: the same 64 bits, read as a signed number. -/
def asI64 (a : Nat) : Int := (a : Int).bmod (2 ^ 64)

/-- `a - b` on `i64` in the release build, which wraps. -/
def wrappingSubI64 (a b : Int) : Int := (a - b).bmod (2 ^ 64)

/-! ### Bounded vectors -/

/-- `ArrayVec<α, capacity>`: a list that cannot outgrow its capacity. -/
structure ArrayVec (α : Type) (capacity : Nat) where
  toList : List α
  length_le : toList.length ≤ capacity
  deriving DecidableEq

namespace ArrayVec

variable {α : Type} {capacity : Nat}

def empty : ArrayVec α capacity := ⟨[], Nat.zero_le _⟩

def len (v : ArrayVec α capacity) : Nat := v.toList.length

/-- `try_push`; `none` when the vector is full. -/
def tryPush (v : ArrayVec α capacity) (a : α) : Option (ArrayVec α capacity) :=
  if h : v.toList.length < capacity then some ⟨v.toList ++ [a], by simp; omega⟩ else none

@[ext]
theorem ext {v w : ArrayVec α capacity} (h : v.toList = w.toList) : v = w := by
  cases v; cases w; cases h; rfl

@[simp]
theorem toList_empty : (empty : ArrayVec α capacity).toList = [] := rfl

theorem tryPush_eq_some_iff {v w : ArrayVec α capacity} {a : α} :
    v.tryPush a = some w ↔ v.toList.length < capacity ∧ w.toList = v.toList ++ [a] := by
  unfold tryPush
  split
  · rename_i h
    rw [Option.some_inj]
    constructor
    · rintro rfl
      exact ⟨h, rfl⟩
    · rintro ⟨-, hw⟩
      exact ext hw.symm
  · rename_i h
    simp [h]

theorem tryPush_eq_none_iff {v : ArrayVec α capacity} {a : α} :
    v.tryPush a = none ↔ v.toList.length = capacity := by
  unfold tryPush
  have := v.length_le
  split <;> simp <;> omega

end ArrayVec

end OrderbookAggregator
