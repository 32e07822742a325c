import Adbi.Lib.Bytes
import Mathlib.Data.Nat.Digits.Lemmas

/-! Numbers as text, in a base of at most sixteen, and text that is scanned up to a
character at which the scan stops. -/
namespace Adbi.Lib

/-! ## Scanning -/

section
variable {α : Type} {p : α → Bool} {l rest : List α} {c : α}

/-- What is left from the first element on that does not pass; nothing when the scan runs over the
end. -/
def skipWhile (p : α → Bool) : List α → Option (List α)
  | [] => none
  | c :: rest => if p c then skipWhile p rest else some (c :: rest)

theorem skipWhile_stop (all : ∀ c ∈ l, p c = true) (stops : p c = false) :
    skipWhile p (l ++ c :: rest) = some (c :: rest) := by
  induction l with
  | nil => rw [List.nil_append, skipWhile, if_neg (by simp [stops])]
  | cons a l ih =>
    rw [List.cons_append, skipWhile, if_pos (all a List.mem_cons_self),
      ih fun c member => all c (List.mem_cons_of_mem a member)]

/-- A scan ends at an element of the text that does not pass. -/
theorem skipWhile_some (found : skipWhile p l = some rest) :
    ∃ passed c later, l = passed ++ c :: later ∧ rest = c :: later ∧ (∀ c ∈ passed, p c = true) ∧
    p c = false := by
  induction l with
  | nil => cases found
  | cons a l ih =>
    rw [skipWhile] at found
    split at found
    · rename_i passes
      obtain ⟨passed, c, later, rfl, isRest, all, stops⟩ := ih found
      refine ⟨a :: passed, c, later, rfl, isRest, fun b member => ?_, stops⟩
      rcases List.mem_cons.mp member with rfl | member
      · exact passes
      · exact all b member
    · rename_i stops
      cases found
      exact ⟨[], a, l, rfl, rfl, by simp, by simpa using stops⟩

end

/-! ## Digits -/

/-- The character of a digit. -/
def digitChar (d : Nat) : BitVec 8 := BitVec.ofNat 8 (if d < 10 then 48 + d else 87 + d)

/-- The digit of a character; a letter may be of either case. -/
def digitOf (c : BitVec 8) : Option Nat :=
  if 48 ≤ c.toNat ∧ c.toNat ≤ 57 then some (c.toNat - 48)
  else if 97 ≤ c.toNat ∧ c.toNat ≤ 102 then some (c.toNat - 87)
  else if 65 ≤ c.toNat ∧ c.toNat ≤ 70 then some (c.toNat - 55)
  else none

/-- Whether a character is a digit in a base. -/
def isDigitOf (base : Nat) (c : BitVec 8) : Bool := (digitOf c).any (· < base)

theorem digitOf_digitChar {d : Nat} (small : d < 16) : digitOf (digitChar d) = some d := by
  have value : (digitChar d).toNat = if d < 10 then 48 + d else 87 + d := by
    rw [digitChar, BitVec.toNat_ofNat, Nat.mod_eq_of_lt (by split <;> omega)]
  rw [digitOf, value]
  by_cases decimal : d < 10
  · rw [if_pos decimal, if_pos (by omega), Nat.add_sub_cancel_left]
  · rw [if_neg decimal, if_neg (by omega), if_pos (by omega), Nat.add_sub_cancel_left]

/-! ## Numerals -/

variable {base width value : Nat} {c : BitVec 8}

/-- A number with zeros in front, at least `width` characters in all. -/
def numeral (base width value : Nat) : Bytes :=
  let digits := (Nat.digits base value).reverse
  List.replicate (width - digits.length) 48#8 ++ digits.map digitChar

/-- The number that characters stand for. -/
def numeralValue (base : Nat) (text : Bytes) : Nat :=
  text.foldl (fun value c => base * value + (digitOf c).getD 0) 0

theorem length_numeral (base width value : Nat) :
    (numeral base width value).length = max width (Nat.digits base value).length := by
  simp only [numeral, List.length_append, List.length_replicate, List.length_map, List.length_reverse]
  omega

theorem length_numeral_le {k : Nat} (large : 1 < base) (small : value < base ^ k) (narrow : width ≤ k) :
    (numeral base width value).length ≤ k := by
  rw [length_numeral]
  exact Nat.max_le.mpr ⟨narrow, (Nat.digits_length_le_iff large value).mpr small⟩

theorem mem_numeral (large : 1 < base) (member : c ∈ numeral base width value) :
    ∃ d < base, c = digitChar d := by
  rcases List.mem_append.mp member with zero | digit
  · exact ⟨0, Nat.zero_lt_of_lt large, (List.mem_replicate.mp zero).2⟩
  · obtain ⟨d, isDigit, rfl⟩ := List.mem_map.mp digit
    exact ⟨d, Nat.digits_lt_base large (List.mem_reverse.mp isDigit), rfl⟩

theorem isDigitOf_numeral (large : 1 < base) (small : base ≤ 16)
    (member : c ∈ numeral base width value) :
    isDigitOf base c = true := by
  obtain ⟨d, below, rfl⟩ := mem_numeral large member
  rw [isDigitOf, digitOf_digitChar (by omega)]
  simpa using below

/-- Reading a number back. -/
theorem numeralValue_numeral (large : 1 < base) (small : base ≤ 16) :
    numeralValue base (numeral base width value) = value := by
  have zeros (k : Nat) : (List.replicate k 48#8).foldl (fun value c =>
      base * value + (digitOf c).getD 0) 0 = 0 := by
    induction k with
    | zero => rfl
    | succ k ih =>
      rw [List.replicate_succ, List.foldl_cons, show (digitOf 48#8).getD 0 = 0 from rfl,
        Nat.mul_zero, ih]
  have step (digits : List Nat) (inside : ∀ d ∈ digits, d < 16) :
      (digits.reverse.map digitChar).foldl (fun value c => base * value + (digitOf c).getD 0) 0 =
        Nat.ofDigits base digits := by
    induction digits with
    | nil => rfl
    | cons d rest ih =>
      rw [List.reverse_cons, List.map_append, List.foldl_append,
        ih fun d member => inside d (List.mem_cons_of_mem _ member),
        Nat.ofDigits_cons, List.map_singleton, List.foldl_cons, List.foldl_nil,
        digitOf_digitChar (inside d List.mem_cons_self)]
      exact Nat.add_comm _ _
  rw [numeralValue, numeral, List.foldl_append, zeros, step _ fun d member => ?_, Nat.ofDigits_digits]
  exact Nat.lt_of_lt_of_le (Nat.digits_lt_base large member) small

end Adbi.Lib
