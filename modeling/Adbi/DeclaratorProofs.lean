import Adbi.Declarators

/-! What a C compiler makes of the definitions of variables: a pointer to an array
comes out as an array of pointers, as the parentheses are never written, and a type
that is only reached through other types loses its definition, or the word `enum`.
All else is read back as it is. -/
namespace Adbi.DeclaratorProofs
open Adbi.Lib Adbi.Lib.CDecl Adbi.Declarators

/-! ## What the definition should say -/

/-- A name that is taken for one. -/
def Identifier (name : Text) : Prop := isIdentifier name = true ∧ name ≠ "restrict".toList ∧
    name ≠ "__restrict__".toList

/-- A name, if there is one, is an identifier. -/
def Named : Plain → Prop
  | .compound _ _ name _ | .enum _ name _ => name = [] ∨ Identifier name
  | .typedef _ name => Identifier name
  | _ => True

def intTokens : Nat → List Token
  | 1 => [.word "char".toList]
  | 2 => [.word "short".toList]
  | 4 => [.word "int".toList]
  | 8 => [.word "long".toList, .word "long".toList, .word "int".toList]
  | _ => [.word "__int128".toList]

def signToken (signed : Bool) : Token := .word (if signed then "signed".toList else "unsigned".toList)

/-- The words of the name that the code of the cache has for a type. -/
def codeTokens : Plain → List Token
  | .void | .unsupported => [.word "void".toList]
  | .int signed size => signToken signed :: intTokens size
  | .boolean size => intTokens size
  | .char signed _ => [signToken signed, .word "char".toList]
  | .float size => [.word ((floatCodename size).getD [])]
  | .compound kind tid name _ =>
    if name = [] then [.word (anonymousName tid)]
    else [.word (if kind = .union then "union".toList else "struct".toList), .word name]
  | .enum tid name _ => [.word (if name = [] then anonymousName tid else name)]
  | .typedef tid name => [.word (if name = [] then anonymousName tid else name)]

/-- How C refers to a type: the tag of an enumeration needs its word, and a type
without a name is there only in the braces of its definition. -/
def specifier : Plain → List Token
  | .compound kind tid name members => if name = [] then [.rbrace]
    else codeTokens (.compound kind tid name members)
  | .enum _ name _ => if name = [] then [.rbrace] else [.word "enum".toList, .word name]
  | p => codeTokens p

/-- The type in C, over what the innermost type is; `const` is left out on purpose, and
a reference is a pointer. -/
def shape (base : CType) : DataType → CType
  | .plain _ => base
  | .array dimensions inner => (shape base inner).arrays dimensions
  | .pointer inner | .reference inner | .rightReference inner => .pointer .none (shape base inner)
  | .const inner => shape base inner
  | .volatile inner => (shape base inner).qualify ⟨true, false⟩
  | .restrict inner => (shape base inner).qualify ⟨false, true⟩

def meaning (t : DataType) : CType := shape (.base (specifier t.innermost) .none) t

/-! ## What it says -/

/-- What stands in front of the name, from the innermost type on. -/
def marks : DataType → List Mark
  | .plain _ => []
  | .array _ inner | .const inner => marks inner
  | .pointer inner | .reference inner | .rightReference inner => marks inner ++ [.star]
  | .volatile inner => marks inner ++ [.volatile]
  | .restrict inner => marks inner ++ [.restrict]

/-- The sizes behind the name. -/
def sizes : DataType → List (Option Nat)
  | .plain _ => []
  | .array dimensions inner => dimensions ++ sizes inner
  | .pointer inner | .reference inner | .rightReference inner | .const inner | .volatile inner
  | .restrict inner => sizes inner

/-- The words for the innermost type. -/
def typeTokens : DataType → List Token
  | .plain p => specifier p
  | t => codeTokens t.innermost

def declaredOver (base : CType) (t : DataType) : CType :=
  ((marks t).foldl CType.marked base).arrays (sizes t)

def declared (t : DataType) : CType := declaredOver (.base (typeTokens t) .none) t

/-! ## When it says what it should -/

/-- No pointer stands in front of an array. -/
def Fits : DataType → Prop
  | .plain _ => True
  | .array _ inner | .const inner | .volatile inner | .restrict inner => Fits inner
  | .pointer inner | .reference inner | .rightReference inner => sizes inner = [] ∧ Fits inner

/-- The name of the code is how C refers to the type. -/
def Referable : Plain → Prop
  | .compound _ _ name _ => name ≠ []
  | .enum .. => False
  | _ => True

/-- The innermost type is spelt out, or its name is enough. -/
def Spelt : DataType → Prop
  | .plain _ => True
  | t => Referable t.innermost

/-! ## The texts -/

private theorem identifier_word {name : Text} (identifier : isIdentifier name = true) :
    name ≠ [] ∧ (∀ c ∈ name, isWordChar c = true) ∧ name ≠ "volatile".toList := by
  cases name with
  | nil => cases identifier
  | cons first rest =>
    simp only [isIdentifier, Bool.and_eq_true, Bool.not_eq_true', List.all_eq_true] at identifier
    obtain ⟨⟨free, start⟩, later⟩ := identifier
    have letter (c : Char) (here : idFirst c = true) : isWordChar c = true := by
      simp only [idFirst, Bool.or_eq_true] at here
      simp only [isWordChar, Char.isAlphanum, Bool.or_eq_true]
      tauto
    refine ⟨List.cons_ne_nil _ _, fun c member => ?_, fun same => ?_⟩
    · rcases List.mem_cons.mp member with rfl | inside
      · exact letter _ start
      · have other := later c inside
        simp only [idOther, Bool.or_eq_true] at other
        rcases other with here | digit
        · exact letter _ here
        · simp [isWordChar, Char.isAlphanum, digit]
    · rw [same] at free
      revert free
      decide

private theorem identifier_free {name : Text} (identifier : Identifier name) :
    qualifier name = none := by
  obtain ⟨is, notRestrict, notUnder⟩ := identifier
  rw [qualifier, if_neg (identifier_word is).2.2, if_neg (by tauto)]

private theorem closes_blank : Closes [' '] [] := ⟨rfl, rfl⟩

private theorem closes_identifier {name : Text} (identifier : isIdentifier name = true) :
    Closes (name ++ [' ']) [.word name] :=
  closes_word (identifier_word identifier).2.1 (identifier_word identifier).1 rfl
    (by decide) closes_blank

private theorem digit_word {n : Nat} {c : Char} (member : c ∈ Nat.toDigits 16 n) :
    isWordChar c = true := by
  have one (d : Nat) (small : d < 16) : isWordChar d.digitChar = true := by
    revert d
    decide
  induction n using Nat.strongRecOn with
  | _ n ih =>
    by_cases small : n < 16
    · rw [Nat.toDigits_of_lt_base small, List.mem_singleton] at member
      exact member ▸ one n small
    · rw [Nat.toDigits_of_base_le (by decide) (by omega)] at member
      rcases List.mem_append.mp member with earlier | last
      · exact ih (n / 16) (by omega) earlier
      · rw [List.mem_singleton.mp last]
        exact one _ (Nat.mod_lt _ (by decide))

private theorem anonymousName_eq (tid : Nat) : anonymousName tid =
    "__adbi_anon_type_".toList ++ List.replicate (6 - (Nat.toDigits 16 tid).length) '0' ++
      Nat.toDigits 16 tid := rfl

private theorem anonymous_long (tid : Nat) : 12 < (anonymousName tid).length := by
  have prefixed : "__adbi_anon_type_".toList.length = 17 := rfl
  rw [anonymousName_eq, List.length_append, List.length_append, prefixed]
  omega

private theorem anonymous_word (tid : Nat) : anonymousName tid ≠ [] ∧
    ∀ c ∈ anonymousName tid, isWordChar c = true := by
  refine ⟨List.ne_nil_of_length_pos (Nat.zero_lt_of_lt (anonymous_long tid)), fun c member => ?_⟩
  have literal : ∀ c ∈ "__adbi_anon_type_".toList, isWordChar c = true := List.all_eq_true.mp rfl
  rw [anonymousName_eq, List.mem_append, List.mem_append] at member
  rcases member with (fixed | zero) | digit
  · exact literal c fixed
  · rw [(List.mem_replicate.mp zero).2]
    rfl
  · exact digit_word digit

private theorem closes_anonymous (tid : Nat) : Closes (anonymousName tid ++ [' '])
    [.word (anonymousName tid)] := by
  obtain ⟨some, word⟩ := anonymous_word tid
  generalize anonymousName tid = name at some word
  exact closes_word word some rfl (by decide) closes_blank

/-- The qualifiers are shorter. -/
private theorem anonymous_free (tid : Nat) : qualifier (anonymousName tid) = none := by
  have long := anonymous_long tid
  generalize anonymousName tid = name at long
  rw [qualifier, if_neg, if_neg]
  · rintro (rfl | rfl)
    · revert long
      decide
    · revert long
      decide
  · rintro rfl
    revert long
    decide

/-- The names of the numbers. -/
private theorem closes_number {size : Nat} {text : Text} (defined : intCodename size = some text) :
    Closes (text ++ [' ']) (intTokens size) ∧ ∀ t ∈ intTokens size, specifies t = true := by
  simp only [intCodename] at defined
  split at defined
  · cases defined
    exact ⟨⟨rfl, rfl⟩, by decide⟩
  · cases defined
    exact ⟨⟨rfl, rfl⟩, by decide⟩
  · cases defined
    exact ⟨⟨rfl, rfl⟩, by decide⟩
  · cases defined
    exact ⟨⟨rfl, rfl⟩, by decide⟩
  · cases defined
    exact ⟨⟨rfl, rfl⟩, by decide⟩
  · cases defined

private theorem closes_signedness (signed : Bool) : Closes (signedness signed) [signToken signed] ∧
    specifies (signToken signed) = true := by
  cases signed <;> exact ⟨⟨rfl, rfl⟩, by decide⟩

private theorem closes_float {size : Nat} {text : Text} (defined : floatCodename size = some text) :
    Closes (text ++ [' ']) [.word text] ∧ specifies (.word text) = true := by
  simp only [floatCodename] at defined
  split at defined
  · cases defined
    exact ⟨⟨rfl, rfl⟩, by decide⟩
  · cases defined
    exact ⟨⟨rfl, rfl⟩, by decide⟩
  · cases defined
    exact ⟨⟨rfl, rfl⟩, by decide⟩
  · cases defined
    exact ⟨⟨rfl, rfl⟩, by decide⟩
  · cases defined

/-- A name that stands for the type on its own, or the one that is made up. -/
private theorem closes_name {tid : Nat} {name text : Text} (named : name = [] ∨ Identifier name)
    (defined : some (if name = [] then anonymousName tid else name) = some text) :
    Closes (text ++ [' ']) [.word (if name = [] then anonymousName tid else name)] ∧
      ∀ t ∈ [Token.word (if name = [] then anonymousName tid else name)], specifies t = true := by
  cases defined
  by_cases empty : name = []
  · simp only [if_pos empty]
    exact ⟨closes_anonymous tid, by simp [specifies, anonymous_free]⟩
  · have identifier := named.resolve_left empty
    simp only [if_neg empty]
    exact ⟨closes_identifier identifier.1, by simp [specifies, identifier_free identifier]⟩

/-- A name of the code is read as its words, none of which is a qualifier. -/
private theorem closes_codename {p : Plain} (named : Named p) {text : Text}
    (defined : p.codename = some text) :
    Closes (text ++ [' ']) (codeTokens p) ∧ ∀ t ∈ codeTokens p, specifies t = true := by
  cases p with
  | void =>
    cases defined
    exact ⟨⟨rfl, rfl⟩, by decide⟩
  | unsupported =>
    cases defined
    exact ⟨⟨rfl, rfl⟩, by decide⟩
  | int signed size =>
    obtain ⟨number, isNumber, rfl⟩ := Option.map_eq_some_iff.mp defined
    obtain ⟨closes, words⟩ := closes_number isNumber
    obtain ⟨sign, word⟩ := closes_signedness signed
    rw [List.append_assoc]
    exact ⟨closes_append sign closes, List.forall_mem_cons.mpr ⟨word, words⟩⟩
  | boolean size => exact closes_number defined
  | char signed size =>
    rw [Plain.codename] at defined
    split at defined
    · cases defined
      obtain ⟨sign, word⟩ := closes_signedness signed
      have character : Closes ("char".toList ++ [' ']) [.word "char".toList] := ⟨rfl, rfl⟩
      rw [List.append_assoc]
      exact ⟨closes_append sign character, List.forall_mem_cons.mpr ⟨word, by decide⟩⟩
    · cases defined
  | float size =>
    obtain ⟨closes, word⟩ := closes_float defined
    have tokens : codeTokens (.float size) = [.word text] := by
      have isFloat : floatCodename size = some text := defined
      rw [codeTokens, isFloat, Option.getD_some]
    rw [tokens]
    exact ⟨closes, List.forall_mem_singleton.mpr word⟩
  | compound kind tid name members =>
    rw [Plain.codename] at defined
    rw [codeTokens]
    split at defined
    · rename_i empty
      cases defined
      rw [if_pos empty]
      exact ⟨closes_anonymous tid, by simp [specifies, anonymous_free]⟩
    · rename_i some
      cases defined
      have identifier := named.resolve_left some
      rw [if_neg some, List.append_assoc]
      have first : Closes (kind.pre ++ [' '])
          [.word (if kind = .union then "union".toList else "struct".toList)] := by
        cases kind <;> exact ⟨rfl, rfl⟩
      have both := closes_append first (closes_identifier identifier.1)
      rw [List.append_assoc] at both
      refine ⟨both, ?_⟩
      have free := identifier_free identifier
      cases kind <;> simp [specifies, free] <;> decide
  | enum tid name enumerators => exact closes_name named defined
  | typedef tid name => exact closes_name (.inr named) defined

/-- What stands in front of the name. -/
private def front : DataType → Text
  | .plain _ => []
  | .array _ inner => front inner
  | .pointer inner => front inner ++ "* ".toList
  | .reference inner => front inner ++ "* /* ref */ ".toList
  | .rightReference inner => front inner ++ "* /* rref */ ".toList
  | .const inner => front inner ++ "/* const */ ".toList
  | .volatile inner => front inner ++ "volatile ".toList
  | .restrict inner => front inner ++ "__restrict__ ".toList

/-- No parenthesis is ever written: the marks come in front of the name, the sizes behind it. -/
theorem defineVarName_eq (t : DataType) (name : Text) :
    t.defineVarName name = front t ++ (name ++ (sizes t).flatMap DataType.dimensionText) := by
  induction t generalizing name with
  | plain p => simp [DataType.defineVarName, front, sizes]
  | array dimensions inner ih => simp [DataType.defineVarName, DataType.isArray, front, sizes, ih]
  | pointer inner ih | reference inner ih | rightReference inner ih | const inner ih
  | volatile inner ih | restrict inner ih =>
    simp only [DataType.defineVarName, front, sizes, ih, List.append_assoc]

private theorem closes_front (t : DataType) : Closes (front t) ((marks t).map Mark.token) := by
  induction t with
  | plain p => exact closes_nil
  | array dimensions inner ih => exact ih
  | const inner ih =>
    have blank : Closes "/* const */ ".toList [] := ⟨rfl, rfl⟩
    have both := closes_append ih blank
    rwa [List.append_nil] at both
  | pointer inner ih | reference inner ih | rightReference inner ih | volatile inner ih | restrict inner ih =>
    rw [marks, List.map_append]
    exact closes_append ih ⟨rfl, rfl⟩

private theorem closes_dimension (size : Option Nat) : Closes (DataType.dimensionText size)
    (sizeTokens size) := by
  cases size with
  | none => exact ⟨rfl, rfl⟩
  | some n =>
    have digits : ∀ c ∈ Nat.toDigits 10 n, isWordChar c = true := fun c member => by
      have digit := Nat.isDigit_of_mem_toDigits (by decide) (by decide) member
      simp [isWordChar, Char.isAlphanum, digit]
    have opened : Closes ['['] [.lbracket] := ⟨rfl, rfl⟩
    have closed : Closes [']'] [.rbracket] := ⟨rfl, rfl⟩
    exact closes_append opened (closes_word digits Nat.toDigits_ne_nil rfl (by decide) closed)

private theorem closes_sizes (sizes : List (Option Nat)) :
    Closes (sizes.flatMap DataType.dimensionText ++ [';'])
    (sizes.flatMap sizeTokens ++ [.semicolon]) := by
  induction sizes with
  | nil => exact ⟨rfl, rfl⟩
  | cons size rest ih =>
    rw [List.flatMap_cons, List.flatMap_cons, List.append_assoc, List.append_assoc]
    exact closes_append (closes_dimension size) ih

/-- Behind the name stands a bracket or the semicolon. -/
private theorem closes_declared {name : Text} (identifier : Identifier name)
    (sizes : List (Option Nat)) :
    Closes (name ++ (sizes.flatMap DataType.dimensionText ++ [';']))
    (.word name :: (sizes.flatMap sizeTokens ++ [.semicolon])) := by
  obtain ⟨some, word, -⟩ := identifier_word identifier.1
  have ends : ∃ c later, sizes.flatMap DataType.dimensionText ++ [';'] = c :: later ∧
      isWordChar c = false ∧ c ≠ '/' := by
    rcases sizes with _ | ⟨_ | n, rest⟩
    · exact ⟨';', _, rfl, rfl, by decide⟩
    · exact ⟨'[', _, rfl, rfl, by decide⟩
    · exact ⟨'[', _, rfl, rfl, by decide⟩
  obtain ⟨c, later, text, apart, code⟩ := ends
  have behind := closes_sizes sizes
  rw [text] at behind ⊢
  exact closes_word word some apart code behind

private theorem closes_coded {p : Plain} (named : Named p) {spec : List Text}
    (defined : p.codename.map ([·]) = some spec) :
    Closes (spec.getLastD [] ++ [' ']) (codeTokens p) ∧
    ∀ token ∈ codeTokens p, specifies token = true := by
  obtain ⟨text, isText, rfl⟩ := Option.map_eq_some_iff.mp defined
  exact closes_codename named isText

/-- A body ends with its brace. -/
private theorem closes_braced (before : List Text) :
    Closes ((before ++ ["\x7d".toList]).getLastD [] ++ [' ']) [.rbrace] ∧
    ∀ token ∈ [Token.rbrace], specifies token = true := by
  rw [List.getLastD_concat]
  exact ⟨⟨rfl, rfl⟩, by decide⟩

private theorem closes_plain {p : Plain} (named : Named p) {spec : List Text}
    (defined : p.defineVarType = some spec) :
    Closes (spec.getLastD [] ++ [' ']) (specifier p) ∧
    ∀ token ∈ specifier p, specifies token = true := by
  cases p with
  | compound kind tid name members =>
    rw [Plain.defineVarType] at defined
    rw [specifier]
    split at defined
    · rename_i anonymous
      cases defined
      rw [if_pos anonymous]
      exact closes_braced _
    · rename_i some
      rw [if_neg some]
      exact closes_coded named defined
  | enum tid name enumerators =>
    rw [Plain.defineVarType] at defined
    rw [specifier]
    split at defined
    · rename_i anonymous
      cases defined
      rw [if_pos anonymous]
      exact closes_braced _
    · rename_i some
      obtain ⟨text, isText, rfl⟩ := Option.map_eq_some_iff.mp defined
      have keyword : Closes "enum ".toList [.word "enum".toList] := ⟨rfl, rfl⟩
      have reference := closes_codename (p := .enum tid name enumerators) named isText
      rw [codeTokens, if_neg some] at reference
      rw [if_neg some]
      refine ⟨?_, List.forall_mem_cons.mpr ⟨by decide, reference.2⟩⟩
      show Closes (("enum ".toList ++ text) ++ [' ']) _
      rw [List.append_assoc]
      exact closes_append keyword reference.1
  | _ => exact closes_coded named defined

/-- What stands in front of the declarator, in the last line. -/
private theorem closes_type {t : DataType} (named : Named t.innermost) {spec : List Text}
    (defined : t.defineVarType = some spec) :
    Closes (spec.getLastD [] ++ [' ']) (typeTokens t) ∧
    ∀ token ∈ typeTokens t, specifies token = true := by
  cases t with
  | plain p => exact closes_plain named defined
  | _ => exact closes_coded named defined

/-- What is declared is read back from the last line of the definition. -/
theorem read_defineVar {t : DataType} (named : Named t.innermost) {name : Text}
    (identifier : Identifier name) {lines : List Text}
    (defined : t.defineVar (some name) = some lines) :
    read (lex (lines.getLastD [])) = some (name, declared t) := by
  obtain ⟨spec, isSpec, rfl⟩ := Option.map_eq_some_iff.mp defined
  obtain ⟨closes, words⟩ := closes_type named isSpec
  have line := closes_append closes
    (closes_append (closes_front t) (closes_declared identifier (sizes t)))
  have text : (spec.getLastD [] ++ [' ']) ++
      (front t ++ (name ++ ((sizes t).flatMap DataType.dimensionText ++ [';']))) =
      spec.getLastD [] ++ ' ' :: t.defineVarName name ++ [';'] := by
    simp only [defineVarName_eq, List.append_assoc, List.cons_append, List.nil_append]
  rw [text] at line
  show read (lex ((spec.dropLast ++
      [spec.getLastD [] ++ ' ' :: t.defineVarName name ++ [';']]).getLastD [])) = _
  rw [List.getLastD_concat, lex_of_closes line]
  exact read_declaration words (identifier_free identifier) (sizes t) (marks t)

/-! ## The types -/

section
variable {b : CType} {s r : List Token} {inner : DataType}

private theorem declaredOver_array (dimensions : List (Option Nat)) :
    declaredOver b (.array dimensions inner) = (declaredOver b inner).arrays dimensions :=
  CType.arrays_append _ _ _

private theorem declaredOver_qualified (m : Mark) (q : Qualifiers)
    (applied : ∀ t : CType, t.marked m = t.qualify q) :
    ((marks inner ++ [m]).foldl CType.marked b).arrays (sizes inner) =
      (declaredOver b inner).qualify q := by
  rw [List.foldl_append, List.foldl_cons, List.foldl_nil, applied, declaredOver, CType.qualify_arrays]

private theorem bare_qualified (m : Mark) (q : Qualifiers)
    (applied : ∀ t : CType, t.marked m = t.qualify q) :
    (((marks inner ++ [m]).foldl CType.marked b).arrays (sizes inner)).bare =
      (declaredOver b inner).bare := by
  rw [declaredOver_qualified m q applied, CType.bare_qualify]

/-- A star comes to stand in front of the sizes, so there must be none. -/
private theorem declaredOver_star :
    ((marks inner ++ [Mark.star]).foldl CType.marked b).arrays (sizes inner) =
      (CType.pointer .none ((marks inner).foldl CType.marked b)).arrays (sizes inner) := by
  rw [List.foldl_append]
  rfl

private theorem declaredOver_pointer (none : sizes inner = []) :
    ((marks inner ++ [Mark.star]).foldl CType.marked b).arrays (sizes inner) =
      .pointer .none (declaredOver b inner) := by
  rw [declaredOver_star, declaredOver, none]
  rfl

private theorem none_of_pointer {target : CType}
    (same : (((marks inner ++ [Mark.star]).foldl CType.marked b).arrays (sizes inner)).bare =
      .pointer .none target.bare) :
    sizes inner = [] ∧ (declaredOver b inner).bare = target.bare := by
  cases none : sizes inner with
  | nil =>
    rw [declaredOver_pointer none] at same
    exact ⟨rfl, (CType.pointer.inj same).2⟩
  | cons n rest =>
    rw [declaredOver_star, none] at same
    cases same

private theorem declaredOver_eq {t : DataType} (fits : Fits t) : declaredOver b t = shape b t := by
  induction t with
  | plain p => rfl
  | array dimensions inner ih => rw [declaredOver_array, ih fits, shape]
  | const inner ih => exact ih fits
  | volatile inner ih =>
    rw [shape, ← ih fits]
    exact declaredOver_qualified .volatile _ fun _ => rfl
  | restrict inner ih =>
    rw [shape, ← ih fits]
    exact declaredOver_qualified .restrict _ fun _ => rfl
  | pointer inner ih | reference inner ih | rightReference inner ih =>
    rw [shape, ← ih fits.2]
    exact declaredOver_pointer fits.1

/-- Even up to qualifiers, the two types are the same only as far as no pointer stands in front of
an array. -/
private theorem fits_of_bare {t : DataType}
    (same : (declaredOver (.base s .none) t).bare = (shape (.base r .none) t).bare) :
    Fits t ∧ s = r := by
  induction t with
  | plain p => exact ⟨trivial, (CType.base.inj same).1⟩
  | array dimensions inner ih =>
    rw [declaredOver_array, shape, CType.bare_arrays, CType.bare_arrays] at same
    exact ih (CType.arrays_inj same)
  | const inner ih => exact ih same
  | volatile inner ih =>
    rw [shape, CType.bare_qualify] at same
    exact ih ((bare_qualified .volatile _ fun _ => rfl).symm.trans same)
  | restrict inner ih =>
    rw [shape, CType.bare_qualify] at same
    exact ih ((bare_qualified .restrict _ fun _ => rfl).symm.trans same)
  | pointer inner ih | reference inner ih | rightReference inner ih =>
    obtain ⟨none, inside⟩ := none_of_pointer same
    obtain ⟨fits, words⟩ := ih inside
    exact ⟨⟨none, fits⟩, words⟩

end

private theorem typeTokens_eq_iff (t : DataType) : typeTokens t = specifier t.innermost ↔ Spelt t := by
  have referable (p : Plain) : codeTokens p = specifier p ↔ Referable p := by
    cases p with
    | compound kind tid name members =>
      by_cases anonymous : name = []
      · simp [codeTokens, specifier, Referable, anonymous]
      · simp [specifier, Referable, anonymous]
    | enum tid name enumerators =>
      by_cases anonymous : name = []
      · simp [codeTokens, specifier, Referable, anonymous]
      · simp [codeTokens, specifier, Referable, anonymous]
    | _ => exact iff_of_true rfl trivial
  cases t with
  | plain p => exact iff_of_true rfl trivial
  | _ => exact referable _

theorem declared_eq_meaning_iff (t : DataType) : declared t = meaning t ↔ Fits t ∧ Spelt t := by
  rw [← typeTokens_eq_iff, declared, meaning]
  constructor
  · intro same
    exact fits_of_bare (congrArg CType.bare same)
  · rintro ⟨fits, words⟩
    rw [words, declaredOver_eq fits]

/-- The definition of a variable declares it with its type exactly if no pointer stands in front of an
array and the innermost type is not lost. -/
theorem defineVar_means_iff {t : DataType} (named : Named t.innermost) {name : Text}
    (identifier : Identifier name)
    {lines : List Text} (defined : t.defineVar (some name) = some lines) :
    read (lex (lines.getLastD [])) = some (name, meaning t) ↔ Fits t ∧ Spelt t := by
  rw [read_defineVar named identifier defined, ← declared_eq_meaning_iff]
  simp only [Option.some.injEq, Prod.mk.injEq, true_and]

/-- An array of pointers and a pointer to an array have the same definition, which is that of the
first. -/
theorem only_array_of_pointers : read (lex "signed int * x[2];".toList) =
      some (['x'], meaning (.array [some 2] (.pointer (.plain (.int true 4))))) ∧
    read (lex "signed int * x[2];".toList) ≠ some (['x'],
      meaning (.pointer (.array [some 2] (.plain (.int true 4))))) := by
  have identifier : Identifier ['x'] := ⟨rfl, by decide, by decide⟩
  refine ⟨(defineVar_means_iff (t :=
    .array [some 2] (.pointer (.plain (.int true 4)))) trivial identifier rfl).mpr
    ⟨⟨rfl, trivial⟩, trivial⟩, fun right => ?_⟩
  have fits := ((defineVar_means_iff (t :=
    .pointer (.array [some 2] (.plain (.int true 4)))) trivial identifier rfl).mp right).1
  cases fits.1

end Adbi.DeclaratorProofs
