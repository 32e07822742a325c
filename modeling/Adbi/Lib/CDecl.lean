import Adbi.Lib.Transducer

/-! Declarations of C: their tokens, a reader of declarators, and the types that
they declare. Comments stand for blanks. A specifier may be any words, or the brace
that closes a body; of the qualifiers `volatile` and `restrict` are read. -/
namespace Adbi.Lib.CDecl

abbrev Word := List Char

inductive Token where
  | word (w : Word)
  | star | lparen | rparen | lbracket | rbracket | lbrace | rbrace | semicolon
  | other (c : Char)
  deriving DecidableEq

/-! ## Tokens of a text -/

def isWordChar (c : Char) : Bool := c.isAlphanum || c == '_'

/-- The token of a character that belongs to no word; a blank has none. -/
def mark (c : Char) : List Token :=
  if c.isWhitespace then []
  else if c = '*' then [.star]
  else if c = '(' then [.lparen]
  else if c = ')' then [.rparen]
  else if c = '[' then [.lbracket]
  else if c = ']' then [.rbracket]
  else if c = '{' then [.lbrace]
  else if c = '}' then [.rbrace]
  else if c = ';' then [.semicolon]
  else [.other c]

/-- A word that has come to its end. -/
def flush (w : Word) : List Token := if w = [] then [] else [.word w]

inductive LexState where
  | code (w : Word)
  | slash
  | comment
  | aster
  deriving DecidableEq

/-- In code, behind the beginning of a word. -/
def codeNext (w : Word) (c : Char) : LexState :=
  if isWordChar c then .code (w ++ [c]) else if c = '/' then .slash else .code []

def codeOut (w : Word) (c : Char) : List Token :=
  if isWordChar c then [] else flush w ++ if c = '/' then [] else mark c

def lexer : Transducer LexState Char Token where
  next
    | .code w, c => codeNext w c
    | .slash, c => if c = '*' then .comment else codeNext [] c
    | .comment, c => if c = '*' then .aster else .comment
    | .aster, c => if c = '/' then .code [] else if c = '*' then .aster else .comment
  out
    | .code w, c => codeOut w c
    | .slash, c => if c = '*' then [] else .other '/' :: codeOut [] c
    | .comment, _ => []
    | .aster, _ => []

/-- What is left at the end of a text. -/
def LexState.rest : LexState → List Token
  | .code w => flush w
  | .slash => [.other '/']
  | .comment | .aster => []

def lex (text : List Char) : List Token :=
  lexer.run (.code []) text ++ (lexer.after (.code []) text).rest

/-- The text ends behind its last token. -/
def Closes (text : List Char) (tokens : List Token) : Prop :=
  lexer.after (.code []) text = .code [] ∧ lexer.run (.code []) text = tokens

section
variable {a b : List Char} {s t : List Token} {w v : Word} {c : Char}

theorem closes_nil : Closes [] [] := ⟨rfl, rfl⟩

theorem closes_append (first : Closes a s) (second : Closes b t) : Closes (a ++ b) (s ++ t) := by
  rw [Closes, Transducer.after_append, Transducer.run_append, first.1, first.2, second.1, second.2]
  exact ⟨rfl, rfl⟩

theorem lex_of_closes (closes : Closes a s) : lex a = s := by
  rw [lex, closes.1, closes.2]
  exact List.append_nil s

/-- Behind a word stands a character that belongs to none. -/
theorem closes_word (word : ∀ c ∈ w, isWordChar c = true) (some : w ≠ [])
    (ends : isWordChar c = false) (code : c ≠ '/')
    (closes : Closes (c :: a) s) : Closes (w ++ c :: a) (.word w :: s) := by
  have inside (v w : Word) (word : ∀ c ∈ w, isWordChar c = true) :
      lexer.after (.code v) w = .code (v ++ w) ∧ lexer.run (.code v) w = [] := by
    induction w generalizing v with
    | nil => simp
    | cons c rest ih =>
      have here : isWordChar c = true := word c List.mem_cons_self
      obtain ⟨state, out⟩ := ih (v ++ [c]) fun d member => word d (List.mem_cons_of_mem _ member)
      rw [List.append_assoc] at state
      simp only [Transducer.after_cons, Transducer.run_cons, lexer, codeNext, codeOut, here,
        if_true, List.nil_append]
      exact ⟨state, out⟩
  have behind (v : Word) : lexer.next (.code v) c = .code [] ∧ lexer.out (.code v) c =
      flush v ++ mark c := by
    simp [lexer, codeNext, codeOut, ends, code]
  obtain ⟨state, out⟩ := inside [] w word
  obtain ⟨next, given⟩ := closes
  rw [Transducer.after_cons, (behind []).1] at next
  rw [Transducer.run_cons, (behind []).1, (behind []).2] at given
  rw [Closes, Transducer.after_append, Transducer.run_append, state, out, List.nil_append,
    Transducer.after_cons, Transducer.run_cons,
    (behind w).1, (behind w).2, ← given, flush, if_neg some]
  exact ⟨next, rfl⟩

end

/-! ## Types -/

structure Qualifiers where
  isVolatile : Bool
  isRestrict : Bool
  deriving DecidableEq

namespace Qualifiers

def none : Qualifiers := ⟨false, false⟩

def union (q r : Qualifiers) : Qualifiers := ⟨q.isVolatile || r.isVolatile, q.isRestrict || r.isRestrict⟩

theorem union_none (q : Qualifiers) : q.union none = q := by
  simp [union, none]

theorem union_assoc (q r s : Qualifiers) : (q.union r).union s = q.union (r.union s) := by
  simp [union, Bool.or_assoc]

theorem union_comm (q r : Qualifiers) : q.union r = r.union q := by
  simp [union, Bool.or_comm]

end Qualifiers

/-- The type of an object, down to what the specifier names. -/
inductive CType where
  | base (specifier : List Token) (quals : Qualifiers)
  | pointer (quals : Qualifiers) (target : CType)
  | array (size : Option Nat) (element : CType)
  deriving DecidableEq

namespace CType

/-- A qualified type; what qualifies an array qualifies its elements. -/
def qualify (q : Qualifiers) : CType → CType
  | base s r => base s (q.union r)
  | pointer r t => pointer (q.union r) t
  | array n t => array n (t.qualify q)

/-- An array of arrays, the outermost size first. -/
def arrays (t : CType) (sizes : List (Option Nat)) : CType := sizes.foldr array t

@[simp] theorem qualify_none (t : CType) : t.qualify .none = t := by
  induction t with
  | base | pointer => rfl
  | array n t ih => rw [qualify, ih]

theorem qualify_qualify (q r : Qualifiers) (t : CType) :
    (t.qualify r).qualify q = t.qualify (q.union r) := by
  induction t with
  | base | pointer => simp [qualify, Qualifiers.union_assoc]
  | array n t ih => rw [qualify, qualify, qualify, ih]

theorem qualify_arrays (q : Qualifiers) (t : CType) (sizes : List (Option Nat)) :
    (t.arrays sizes).qualify q = (t.qualify q).arrays sizes := by
  induction sizes with
  | nil => rfl
  | cons n rest ih =>
    show array n ((t.arrays rest).qualify q) = _
    rw [ih]
    rfl

theorem arrays_append (t : CType) (outer sizes : List (Option Nat)) :
    t.arrays (outer ++ sizes) = (t.arrays sizes).arrays outer :=
  List.foldr_append

theorem arrays_inj {t u : CType} {sizes : List (Option Nat)}
    (same : t.arrays sizes = u.arrays sizes) : t = u := by
  induction sizes with
  | nil => exact same
  | cons n rest ih => exact ih (array.inj same).2

/-- The type without its qualifiers. -/
def bare : CType → CType
  | base s _ => base s .none
  | pointer _ t => pointer .none t.bare
  | array n t => array n t.bare

theorem bare_qualify (q : Qualifiers) (t : CType) : (t.qualify q).bare = t.bare := by
  induction t with
  | base | pointer => rfl
  | array n t ih => rw [qualify, bare, bare, ih]

theorem bare_arrays (t : CType) (sizes : List (Option Nat)) :
    (t.arrays sizes).bare = t.bare.arrays sizes := by
  induction sizes with
  | nil => rfl
  | cons n rest ih => exact congrArg (array n) ih

end CType

/-! ## The reader -/

inductive Declarator where
  | name (w : Word)
  | pointer (quals : Qualifiers) (inner : Declarator)
  | array (inner : Declarator) (size : Option Nat)
  deriving DecidableEq

namespace Declarator

def identifier : Declarator → Word
  | name w => w
  | pointer _ d => d.identifier
  | array d _ => d.identifier

/-- The type of what is declared, when the specifier says `t`. -/
def type : Declarator → CType → CType
  | name _, t => t
  | pointer q d, t => d.type (.pointer q t)
  | array d n, t => d.type (.array n t)

end Declarator

def qualifier (w : Word) : Option Qualifiers :=
  if w = "volatile".toList then some ⟨true, false⟩
  else if w = "__restrict__".toList ∨ w = "restrict".toList then some ⟨false, true⟩
  else none

def readQualifiers : List Token → Qualifiers × List Token
  | .word w :: rest =>
    match qualifier w with
    | some q => (q.union (readQualifiers rest).1, (readQualifiers rest).2)
    | none => (.none, .word w :: rest)
  | tokens => (.none, tokens)

/-- A decimal number. -/
def number (w : Word) : Option Nat := if w.all Char.isDigit then some (Nat.ofDigitChars 10 w 0) else none

/-- The sizes of arrays behind a declarator. -/
def readSizes : Declarator → List Token → Option (Declarator × List Token)
  | d, .lbracket :: .rbracket :: rest => readSizes (.array d none) rest
  | d, .lbracket :: .word w :: .rbracket :: rest =>
    (number w).bind fun n => readSizes (.array d (some n)) rest
  | d, rest => some (d, rest)

def readDeclarator : Nat → List Token → Option (Declarator × List Token)
  | 0, _ => none
  | fuel + 1, .star :: rest =>
    (readDeclarator fuel (readQualifiers rest).2).map fun read =>
      (.pointer (readQualifiers rest).1 read.1, read.2)
  | fuel + 1, .lparen :: rest =>
    (readDeclarator fuel rest).bind fun read =>
      match read.2 with
      | .rparen :: later => readSizes read.1 later
      | _ => none
  | _ + 1, .word w :: rest => readSizes (.name w) rest
  | _ + 1, _ => none

/-- What may stand in a specifier. -/
def specifies : Token → Bool
  | .word w => (qualifier w).isNone
  | .rbrace => true
  | _ => false

/-- The declarator must be all there is up to the semicolon. -/
def readRest (specifier : List Token) (q : Qualifiers) (tokens : List Token) : Option (Word × CType) :=
  match readDeclarator tokens.length tokens with
  | some (d, [.semicolon]) => some (d.identifier, d.type (.base specifier q))
  | _ => none

/-- What a declaration declares, and as what. The name is the last word of the
specifier, if nothing comes between them. -/
def read (tokens : List Token) : Option (Word × CType) :=
  match tokens.dropWhile specifies with
  | .lbracket :: rest => readNamed (tokens.takeWhile specifies) (.lbracket :: rest)
  | .semicolon :: rest => readNamed (tokens.takeWhile specifies) (.semicolon :: rest)
  | rest => readRest (tokens.takeWhile specifies) (readQualifiers rest).1 (readQualifiers rest).2
where
  readNamed (words rest : List Token) : Option (Word × CType) :=
    readRest words.dropLast .none (words.getLast?.toList ++ rest)

/-! ## What is read from a text in the usual order -/

/-- What stands between the specifier and the name. -/
inductive Mark where
  | star | volatile | restrict
  deriving DecidableEq

def Mark.token : Mark → Token
  | star => .star
  | volatile => .word "volatile".toList
  | restrict => .word "__restrict__".toList

def CType.marked (t : CType) : Mark → CType
  | .star => .pointer .none t
  | .volatile => t.qualify ⟨true, false⟩
  | .restrict => t.qualify ⟨false, true⟩

def sizeTokens : Option Nat → List Token
  | none => [.lbracket, .rbracket]
  | some n => [.lbracket, .word (Nat.toDigits 10 n), .rbracket]

theorem number_toDigits (n : Nat) : number (Nat.toDigits 10 n) = some n := by
  have digits : (Nat.toDigits 10 n).all Char.isDigit = true :=
    List.all_eq_true.mpr fun c member => Nat.isDigit_of_mem_toDigits (by decide) (by decide) member
  rw [number, if_pos digits, Nat.ofDigitChars_ten_toDigits]

theorem readSizes_sizes (sizes : List (Option Nat)) (d : Declarator) :
    readSizes d (sizes.flatMap sizeTokens ++ [.semicolon]) =
      some (sizes.foldl .array d, [.semicolon]) := by
  induction sizes generalizing d with
  | nil => rfl
  | cons size rest ih =>
    cases size with
    | none => exact ih _
    | some n =>
      show (number (Nat.toDigits 10 n)).bind (fun n =>
          readSizes (.array d (some n)) (rest.flatMap sizeTokens ++ [.semicolon])) = _
      rw [number_toDigits]
      exact ih _

theorem type_sizes (sizes : List (Option Nat)) (d : Declarator) (t : CType) :
    (sizes.foldl Declarator.array d).type t = d.type (t.arrays sizes) ∧
    (sizes.foldl Declarator.array d).identifier = d.identifier := by
  induction sizes generalizing d with
  | nil => exact ⟨rfl, rfl⟩
  | cons size rest ih => exact ih _

theorem length_readQualifiers (tokens : List Token) :
    (readQualifiers tokens).2.length ≤ tokens.length := by
  induction tokens with
  | nil => exact Nat.le_refl _
  | cons t rest ih =>
    rw [readQualifiers.eq_def]
    split
    · rename_i w later same
      cases same
      split
      · exact Nat.le_succ_of_le ih
      · exact Nat.le_refl _
    · exact Nat.le_refl _

/-- The marks make the type from the inside out: the qualifiers behind a star belong to its pointer. -/
theorem read_marks {n : Word} (free : qualifier n = none) (sizes : List (Option Nat))
    (marks : List Mark) :
    ∃ q rest d, readQualifiers (marks.map Mark.token ++
      .word n :: (sizes.flatMap sizeTokens ++ [.semicolon])) = (q, rest) ∧
      (∀ fuel, rest.length ≤ fuel → readDeclarator fuel rest = some (d, [.semicolon])) ∧
      d.identifier = n ∧
      ∀ t : CType, d.type (t.qualify q) = (marks.foldl CType.marked t).arrays sizes := by
  induction marks with
  | nil =>
    refine ⟨.none, .word n :: (sizes.flatMap sizeTokens ++ [.semicolon]),
      sizes.foldl .array (.name n), ?_, fun fuel enough => ?_, ?_,
      fun t => ?_⟩
    · show readQualifiers (.word n :: _) = _
      rw [readQualifiers, free]
    · obtain ⟨fuel, rfl⟩ : ∃ less, fuel = less + 1 := ⟨fuel - 1, by simp at enough; omega⟩
      exact readSizes_sizes sizes (.name n)
    · exact (type_sizes sizes (.name n) (.base [] .none)).2
    · rw [CType.qualify_none]
      exact (type_sizes sizes (.name n) t).1
  | cons m marks ih =>
    obtain ⟨q, rest, d, quals, declarator, identifier, type⟩ := ih
    have qualified (r : Qualifiers) (w : Word) (here : m.token = .word w) (known : qualifier w = some r)
        (applied : ∀ t : CType, t.marked m = t.qualify r) :
        ∃ q rest d, readQualifiers ((m :: marks).map Mark.token ++
          .word n :: (sizes.flatMap sizeTokens ++ [.semicolon])) = (q, rest) ∧
          (∀ fuel, rest.length ≤ fuel → readDeclarator fuel rest = some (d, [.semicolon])) ∧
          d.identifier = n ∧
          ∀ t : CType, d.type (t.qualify q) = ((m :: marks).foldl CType.marked t).arrays sizes := by
      refine ⟨r.union q, rest, d, ?_, declarator, identifier, fun t => ?_⟩
      · rw [List.map_cons, List.cons_append, here, readQualifiers, known, quals]
      · rw [Qualifiers.union_comm, ← CType.qualify_qualify, type, List.foldl_cons, applied]
    cases m with
    | volatile => exact qualified _ _ rfl rfl fun _ => rfl
    | restrict => exact qualified _ _ rfl rfl fun _ => rfl
    | star =>
      refine ⟨.none, .star :: (marks.map Mark.token ++
        .word n :: (sizes.flatMap sizeTokens ++ [.semicolon])), .pointer q d, rfl,
        fun fuel enough => ?_, identifier, fun t => ?_⟩
      · obtain ⟨fuel, rfl⟩ : ∃ less, fuel = less + 1 := ⟨fuel - 1, by simp at enough; omega⟩
        have shorter := length_readQualifiers (marks.map Mark.token ++
          .word n :: (sizes.flatMap sizeTokens ++ [.semicolon]))
        rw [quals] at shorter
        rw [readDeclarator, quals,
          declarator fuel (Nat.le_trans shorter (Nat.le_of_succ_le_succ enough))]
        rfl
      · have inner := type (.pointer .none t)
        rw [CType.qualify, Qualifiers.union_none] at inner
        rw [CType.qualify_none]
        exact inner

private theorem rest_sizes (sizes : List (Option Nat)) :
    ∃ later, sizes.flatMap sizeTokens ++ [.semicolon] = .semicolon :: later ∨
    sizes.flatMap sizeTokens ++ [.semicolon] = .lbracket :: later := by
  cases sizes with
  | nil => exact ⟨[], .inl rfl⟩
  | cons size rest =>
    cases size with
    | none => exact ⟨_, .inr rfl⟩
    | some n => exact ⟨_, .inr rfl⟩

/-- Without marks the name is the last word before the sizes. -/
private theorem read_named {specifier : List Token} (all : ∀ t ∈ specifier, specifies t = true)
    {n : Word} (free : qualifier n = none)
    (sizes : List (Option Nat)) :
    read (specifier ++ .word n :: (sizes.flatMap sizeTokens ++ [.semicolon])) =
      some (n, (CType.base specifier .none).arrays sizes) := by
  have sized := readSizes_sizes sizes (.name n)
  have type := type_sizes sizes (.name n) (.base specifier .none)
  have words : ∀ t ∈ specifier ++ [.word n], specifies t = true := by
    intro t member
    rcases List.mem_append.mp member with inside | last
    · exact all t inside
    · rw [List.mem_singleton.mp last, specifies, free]
      rfl
  have named : read.readNamed (specifier ++ [.word n]) (sizes.flatMap sizeTokens ++ [.semicolon]) =
      some (n, (CType.base specifier .none).arrays sizes) := by
    rw [read.readNamed, List.dropLast_concat, List.getLast?_concat]
    show (match readSizes (.name n) (sizes.flatMap sizeTokens ++ [.semicolon]) with
      | some (d, [.semicolon]) => some (d.identifier, d.type (.base specifier .none))
      | _ => none) = _
    rw [sized]
    simp only [type.1, type.2]
    rfl
  have around : specifier ++ .word n :: (sizes.flatMap sizeTokens ++ [.semicolon]) =
      (specifier ++ [.word n]) ++ (sizes.flatMap sizeTokens ++ [.semicolon]) :=
      by rw [List.append_assoc]; rfl
  rw [around, read, List.takeWhile_append_of_pos words, List.dropWhile_append_of_pos words]
  obtain ⟨later, semicolon | bracket⟩ := rest_sizes sizes
  · rw [semicolon] at named ⊢
    have stops : specifies .semicolon = false := rfl
    simp only [List.takeWhile_cons, List.dropWhile_cons, stops, Bool.false_eq_true, if_false,
      List.append_nil]
    exact named
  · rw [bracket] at named ⊢
    have stops : specifies .lbracket = false := rfl
    simp only [List.takeWhile_cons, List.dropWhile_cons, stops, Bool.false_eq_true, if_false,
      List.append_nil]
    exact named

/-- The declarator that comes after a specifier is read back as a whole. -/
theorem read_declaration {specifier : List Token} (all : ∀ t ∈ specifier, specifies t = true) {n : Word}
    (free : qualifier n = none) (sizes : List (Option Nat)) (marks : List Mark) :
    read (specifier ++ (marks.map Mark.token ++ .word n :: (sizes.flatMap sizeTokens ++ [.semicolon]))) =
      some (n, (marks.foldl CType.marked (.base specifier .none)).arrays sizes) := by
  cases marks with
  | nil => exact read_named all free sizes
  | cons m marks =>
    obtain ⟨q, rest, d, quals, declarator, identifier, type⟩ := read_marks free sizes (m :: marks)
    have stops : specifies m.token = false := by cases m <;> rfl
    have marked : m.token ≠ .lbracket ∧ m.token ≠ .semicolon := by cases m <;> decide
    have read_rest : readRest specifier q rest =
        some (n, ((m :: marks).foldl CType.marked (.base specifier .none)).arrays sizes) := by
      have inner := type (.base specifier .none)
      rw [CType.qualify, Qualifiers.union_none] at inner
      rw [readRest, declarator _ (Nat.le_refl _)]
      simp only [identifier, inner]
    rw [read, List.takeWhile_append_of_pos all, List.dropWhile_append_of_pos all]
    rw [List.map_cons, List.cons_append] at quals ⊢
    simp only [List.takeWhile_cons, List.dropWhile_cons, stops, Bool.false_eq_true, if_false,
      List.append_nil]
    split
    · rename_i same
      exact absurd (List.cons.inj same).1 marked.1
    · rename_i same
      exact absurd (List.cons.inj same).1 marked.2
    · rw [quals]
      exact read_rest

example : read (lex "struct foo * /* const */ volatile (*x[2])[3];".toList) = some ("x".toList,
    .array (some 2) (.pointer .none
      (.array (some 3) (.pointer ⟨true,
        false⟩ (.base [.word "struct".toList, .word "foo".toList] .none))))) :=
  by decide

end Adbi.Lib.CDecl
