import Mathlib.Algebra.Group.Int.Defs
import Mathlib.Algebra.Group.Nat.Defs
import Mathlib.Tactic.Common

/-! A fragment of C expressions: tokens, a parser by C precedence, and the typed
value of an expression on a machine with addresses of `w` bits, where `int` has 32
bits and the longest integer type has 64. -/
namespace Adbi.Lib.C

variable {ι : Type} {w : Nat}

inductive Token (ι : Type) where
  | lparen | rparen | plus | minus | star | void | char
  | hex (n : Nat)
  | dec (n : Nat)
  | ident (x : ι)
  deriving DecidableEq

/-- What a pointer type points to. -/
inductive Pointee where
  | void | char
  deriving DecidableEq

/-- An integer type. -/
structure IntTy where
  bits : Nat
  unsigned : Bool
  deriving DecidableEq

/-- A value with its type. -/
inductive Value (w : Nat) where
  | int (type : IntTy) (n : Int)
  | pointer (pointee : Pointee) (address : BitVec w)
  deriving DecidableEq

inductive Expr (ι : Type) where
  | number (n : Nat)
  | var (x : ι)
  | call (f : ι) (argument : Nat)
  | neg (e : Expr ι)
  | cast (pointee : Pointee) (e : Expr ι)
  | add (a b : Expr ι)
  | sub (a b : Expr ι)

/-! ## Parsing -/

mutual

/-- A cast expression: casts and signs bind tighter than sums. -/
def parseCast : Nat → List (Token ι) → Option (Expr ι × List (Token ι))
  | 0, _ => none
  | fuel + 1, .lparen :: .void :: .star :: .rparen :: rest =>
    (parseCast fuel rest).map fun (e, later) => (.cast .void e, later)
  | fuel + 1, .lparen :: .char :: .star :: .rparen :: rest =>
    (parseCast fuel rest).map fun (e, later) => (.cast .char e, later)
  | fuel + 1, .minus :: rest => (parseCast fuel rest).map fun (e, later) => (.neg e, later)
  | _ + 1, .hex n :: rest => some (.number n, rest)
  | _ + 1, .ident f :: .lparen :: .dec n :: .rparen :: rest => some (.call f n, rest)
  | _ + 1, .ident x :: rest => some (.var x, rest)
  | fuel + 1, .lparen :: rest =>
    match parseSum fuel rest with
    | some (e, .rparen :: later) => some (e, later)
    | _ => none
  | _ + 1, _ => none

/-- A sum, which associates to the left. -/
def parseSum : Nat → List (Token ι) → Option (Expr ι × List (Token ι))
  | 0, _ => none
  | fuel + 1, tokens => (parseCast fuel tokens).bind fun (e, rest) => parseTerms fuel e rest

/-- The terms after the first one. -/
def parseTerms : Nat → Expr ι → List (Token ι) → Option (Expr ι × List (Token ι))
  | 0, _, _ => none
  | fuel + 1, e, .plus :: rest =>
    (parseCast fuel rest).bind fun (term, later) => parseTerms fuel (.add e term) later
  | fuel + 1, e, .minus :: rest =>
    (parseCast fuel rest).bind fun (term, later) => parseTerms fuel (.sub e term) later
  | _ + 1, e, rest => some (e, rest)

end

/-- An expression that is all of the text. -/
def parse (tokens : List (Token ι)) : Option (Expr ι) :=
  match parseSum (2 * tokens.length + 1) tokens with
  | some (e, []) => some e
  | _ => none

/-! ## Values -/

/-- The variables, which are of type `char *`, and the functions, which return unsigned
integers of the width of an address. -/
structure Env (ι : Type) (w : Nat) where
  var : ι → BitVec w
  call : ι → Nat → BitVec w

/-- The conversion to an address. -/
def Value.address : Value w → BitVec w
  | .int _ n => BitVec.ofInt w n
  | .pointer _ a => a

/-- The type of a hexadecimal number: the first one that it fits into. -/
def hexType (n : Nat) : Option IntTy :=
  if n < 2 ^ 31 then some ⟨32, false⟩
  else if n < 2 ^ 32 then some ⟨32, true⟩
  else if n < 2 ^ 63 then some ⟨64, false⟩
  else if n < 2 ^ 64 then some ⟨64, true⟩
  else none

/-- The result of an operation in its type. It wraps around if the type is unsigned, and
has to fit otherwise. -/
def IntTy.wrap (type : IntTy) (n : Int) : Option (Value w) :=
  if type.unsigned then some (.int type (n % 2 ^ type.bits))
  else if -2 ^ (type.bits - 1) ≤ n ∧ n < 2 ^ (type.bits - 1) then some (.int type n)
  else none

/-- The usual arithmetic conversions: the longer type, and an unsigned one of two that are as long. -/
def IntTy.common (s t : IntTy) : IntTy :=
  ⟨max s.bits t.bits, (s.unsigned && t.bits ≤ s.bits) || (t.unsigned && s.bits ≤ t.bits)⟩

/-- The value of an expression; nothing for what breaks a constraint of the language or
overflows. A decimal number has to fit into the longest signed type, pointers cannot be
added, and only pointers to the same object type can be subtracted. -/
def eval (env : Env ι w) : Expr ι → Option (Value w)
  | .number n => (hexType n).map fun type => .int type n
  | .var x => some (.pointer .char (env.var x))
  | .call f argument =>
    if argument < 2 ^ 63 then some (.int ⟨w, true⟩ (env.call f argument).toNat) else none
  | .neg e =>
    match eval env e with
    | some (.int type n) => type.wrap (-n)
    | _ => none
  | .cast pointee e => (eval env e).map fun v => .pointer pointee v.address
  | .add a b =>
    match eval env a, eval env b with
    | some (.int s n), some (.int t m) => (s.common t).wrap (n + m)
    | some (.pointer p v), some (.int _ m) => some (.pointer p (v + BitVec.ofInt w m))
    | some (.int _ n), some (.pointer p v) => some (.pointer p (BitVec.ofInt w n + v))
    | _, _ => none
  | .sub a b =>
    match eval env a, eval env b with
    | some (.int s n), some (.int t m) => (s.common t).wrap (n - m)
    | some (.pointer p v), some (.int _ m) => some (.pointer p (v - BitVec.ofInt w m))
    | some (.pointer .char v), some (.pointer .char u) => some (.int ⟨w, false⟩ (v - u).toInt)
    | _, _ => none

/-! ## Numbers -/

section Numbers

variable {env : Env ι w} {n : Nat}

theorem eval_number (env : Env ι w) (small : n < 2 ^ 64) :
    ∃ type, hexType n = some type ∧ eval env (.number n) = some (.int type n) := by
  have fits : ∃ type, hexType n = some type := by
    unfold hexType
    split_ifs
    all_goals exact ⟨_, rfl⟩
  obtain ⟨type, has⟩ := fits
  exact ⟨type, has, by rw [eval, has, Option.map_some]⟩

theorem hexType_large (large : ¬n < 2 ^ 64) : hexType n = none := by
  unfold hexType
  rw [if_neg (by omega), if_neg (by omega), if_neg (by omega), if_neg large]

/-- The number that C has for the negation of a hexadecimal number. That of an `unsigned int` is
positive. -/
def negated (n : Nat) : Int := if 2 ^ 31 ≤ n ∧ n < 2 ^ 32 then 2 ^ 32 - n else -n

/-- A sum that wraps around at 64 bits is the same address. -/
private theorem ofInt_wrapped (width : w ≤ 64) (k : Int) :
    BitVec.ofInt w (k % 2 ^ 64) = BitVec.ofInt w k := by
  have divides : ((2 ^ w : Nat) : Int) ∣ 2 ^ 64 := Int.natCast_dvd_natCast.mpr (Nat.pow_dvd_pow 2 width)
  apply BitVec.eq_of_toNat_eq
  rw [BitVec.toNat_ofInt, BitVec.toNat_ofInt, Int.emod_emod_of_dvd k divides]

/-- A negation has this number as its address, where addresses have at most 64 bits. -/
theorem eval_neg_number (small : n < 2 ^ 64) (width : w ≤ 64) :
    ∃ v, eval env (.neg (.number n)) = some v ∧ v.address = BitVec.ofInt w (negated n) := by
  obtain ⟨type, has, number⟩ := eval_number env small
  rw [eval, number]
  unfold hexType at has
  split_ifs at has with int unsigned long
  all_goals obtain rfl := Option.some.inj has
  · exact ⟨.int ⟨32, false⟩ (-n), by simp [IntTy.wrap]; omega, by rw [negated, if_neg (by omega)]; rfl⟩
  · refine ⟨.int ⟨32, true⟩ (2 ^ 32 - n), ?_, by rw [negated, if_pos (by omega)]; rfl⟩
    simp [IntTy.wrap]
    omega
  · exact ⟨.int ⟨64, false⟩ (-n), by simp [IntTy.wrap]; omega, by rw [negated, if_neg (by omega)]; rfl⟩
  · refine ⟨.int ⟨64, true⟩ (-n % 2 ^ 64), rfl, ?_⟩
    rw [negated, if_neg (by omega)]
    exact ofInt_wrapped width _

end Numbers

/-! ## Texts -/

-- The equations are made once, here, and not in each of the proofs that unfold a definition.
attribute [local simp] parseCast parseSum parseTerms eval

/-- A text is parsed as the cast expression, where no argument list can follow. -/
def CastText (text : List (Token ι)) (e : Expr ι) : Prop :=
  ∀ fuel rest, 2 * text.length ≤ fuel → (∀ later, rest ≠ .lparen :: later) →
  parseCast fuel (text ++ rest) = some (e, rest)

/-- What ends a sum. -/
def Ends (rest : List (Token ι)) : Prop := rest = [] ∨ ∃ later, rest = .rparen :: later

/-- A text is parsed as the sum, where it ends. -/
def SumText (text : List (Token ι)) (e : Expr ι) : Prop :=
  ∀ fuel rest, 2 * text.length + 1 ≤ fuel → Ends rest → parseSum fuel (text ++ rest) = some (e, rest)

variable {text first second : List (Token ι)} {e a b : Expr ι}

private theorem no_argument {rest : List (Token ι)} (ends : Ends rest) (later : List (Token ι)) :
    rest ≠ .lparen :: later := by
  rintro rfl
  rcases ends with h | ⟨_, h⟩ <;> cases h

theorem castText_hex (n : Nat) : CastText [.hex n] (.number n : Expr ι) := by
  intro fuel rest enough _
  obtain ⟨fuel, rfl⟩ : ∃ k, fuel = k + 1 := ⟨fuel - 1, by simp at enough; omega⟩
  rfl

theorem castText_var (x : ι) : CastText [.ident x] (.var x) := by
  intro fuel rest enough free
  obtain ⟨fuel, rfl⟩ : ∃ k, fuel = k + 1 := ⟨fuel - 1, by simp at enough; omega⟩
  rw [List.singleton_append, parseCast]
  intro n later same
  exact free _ same

theorem castText_call (f : ι) (n : Nat) : CastText [.ident f, .lparen, .dec n, .rparen] (.call f n) := by
  intro fuel rest enough _
  obtain ⟨fuel, rfl⟩ : ∃ k, fuel = k + 1 := ⟨fuel - 1, by simp at enough; omega⟩
  rfl

theorem castText_neg (parsed : CastText text e) : CastText (.minus :: text) (.neg e) := by
  intro fuel rest enough free
  obtain ⟨fuel, rfl⟩ : ∃ k, fuel = k + 1 := ⟨fuel - 1, by simp at enough; omega⟩
  rw [List.cons_append, parseCast, parsed fuel rest (by simp at enough; omega) free]
  rfl

theorem castText_void (parsed : CastText text e) :
    CastText (.lparen :: .void :: .star :: .rparen :: text) (.cast .void e) := by
  intro fuel rest enough free
  obtain ⟨fuel, rfl⟩ : ∃ k, fuel = k + 1 := ⟨fuel - 1, by simp at enough; omega⟩
  simp only [List.cons_append, parseCast]
  rw [parsed fuel rest (by simp at enough; omega) free]
  rfl

theorem castText_char (parsed : CastText text e) :
    CastText (.lparen :: .char :: .star :: .rparen :: text) (.cast .char e) := by
  intro fuel rest enough free
  obtain ⟨fuel, rfl⟩ : ∃ k, fuel = k + 1 := ⟨fuel - 1, by simp at enough; omega⟩
  simp only [List.cons_append, parseCast]
  rw [parsed fuel rest (by simp at enough; omega) free]
  rfl

/-- No sum is empty or starts with the name of a type. -/
private theorem sum_starts (parsed : SumText text e) :
    ∃ token later, text = token :: later ∧ token ≠ .void ∧ token ≠ .char := by
  have whole := parsed (2 * text.length + 2) [] (by omega) (.inl rfl)
  cases text with
  | nil => cases whole
  | cons token later =>
    refine ⟨token, later, rfl, ?_, ?_⟩
    · rintro rfl
      cases whole
    · rintro rfl
      cases whole

theorem castText_paren (parsed : SumText text e) : CastText (.lparen :: text ++ [.rparen]) e := by
  intro fuel rest enough _
  obtain ⟨fuel, rfl⟩ : ∃ k, fuel = k + 1 := ⟨fuel - 1, by simp at enough; omega⟩
  have inner := parsed fuel (.rparen :: rest) (by simp at enough; omega) (.inr ⟨rest, rfl⟩)
  obtain ⟨token, later, rfl, notVoid, notChar⟩ := sum_starts parsed
  have shape : (.lparen :: token :: later ++ [.rparen]) ++ rest =
      .lparen :: token :: (later ++ .rparen :: rest) := by simp
  rw [shape, parseCast]
  · rw [List.cons_append] at inner
    rw [inner]
  · intro others same
    exact notVoid (List.cons.inj same).1
  · intro others same
    exact notChar (List.cons.inj same).1

private theorem terms_end {fuel : Nat} {rest : List (Token ι)} (ends : Ends rest) :
    parseTerms (fuel + 1) e rest = some (e, rest) := by
  rcases ends with rfl | ⟨later, rfl⟩ <;> rfl

private theorem terms_plus (fuel : Nat) (rest : List (Token ι)) :
    parseTerms (fuel + 1) e (.plus :: rest) = (parseCast fuel rest).bind fun (term, later) =>
    parseTerms fuel (.add e term) later := rfl

private theorem terms_minus (fuel : Nat) (rest : List (Token ι)) :
    parseTerms (fuel + 1) e (.minus :: rest) = (parseCast fuel rest).bind fun (term, later) =>
    parseTerms fuel (.sub e term) later := rfl

private theorem cast_nonempty (parsed : CastText text e) : 0 < text.length := by
  cases text with
  | nil =>
    have whole := parsed 1 [] (by simp) (by simp)
    cases whole
  | cons token later => exact Nat.succ_pos _

theorem sumText_cast (parsed : CastText text e) : SumText text e := by
  intro fuel rest enough ends
  have filled := cast_nonempty parsed
  obtain ⟨fuel, rfl⟩ : ∃ k, fuel = k + 2 := ⟨fuel - 2, by omega⟩
  rw [parseSum, parsed (fuel + 1) rest (by omega) (no_argument ends)]
  exact terms_end ends

theorem sumText_add (left : CastText first a) (right : CastText second b) :
    SumText (first ++ .plus :: second) (.add a b) := by
  intro fuel rest enough ends
  have filled := cast_nonempty left
  rw [List.length_append, List.length_cons] at enough
  obtain ⟨fuel, rfl⟩ : ∃ k, fuel = k + 3 := ⟨fuel - 3, by omega⟩
  rw [List.append_assoc, List.cons_append, parseSum, left (fuel + 2) _ (by omega) (by simp),
    Option.bind_some]
  change parseTerms (fuel + 1 + 1) a (.plus :: (second ++ rest)) = _
  rw [terms_plus, right (fuel + 1) rest (by omega) (no_argument ends)]
  exact terms_end ends

theorem sumText_sub (left : CastText first a) (right : CastText second b) :
    SumText (first ++ .minus :: second) (.sub a b) := by
  intro fuel rest enough ends
  have filled := cast_nonempty left
  rw [List.length_append, List.length_cons] at enough
  obtain ⟨fuel, rfl⟩ : ∃ k, fuel = k + 3 := ⟨fuel - 3, by omega⟩
  rw [List.append_assoc, List.cons_append, parseSum, left (fuel + 2) _ (by omega) (by simp),
    Option.bind_some]
  change parseTerms (fuel + 1 + 1) a (.minus :: (second ++ rest)) = _
  rw [terms_minus, right (fuel + 1) rest (by omega) (no_argument ends)]
  exact terms_end ends

theorem parse_of_sumText (parsed : SumText text e) : parse text = some e := by
  have whole := parsed (2 * text.length + 1) [] (Nat.le_refl _) (.inl rfl)
  rw [List.append_nil] at whole
  rw [parse, whole]

end Adbi.Lib.C
