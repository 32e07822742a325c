import Adbi.InjfileProofs
import Adbi.Lib.Runs
import Adbi.ProcfsMaps

/-! What is read of a line of `/proc/PID/maps`. A line that fits the buffer is read up to
its newline; one that does not has lost it, and nothing else stops the scan. -/
namespace Adbi.ProcfsMapsProofs
open Adbi.Lib Adbi.ProcfsMaps
open Adbi.Injfile (cString)
open Adbi.InjfileProofs (cString_written)

variable {p : BitVec 8 → Bool} {l rest : Bytes} {c : BitVec 8} {width value : Nat}

/-! ## Steps -/

theorem check_cons (passes : p c = true) : check p (c :: rest) = .ok rest := by
  show (if p c = true then Except.ok rest else .error Stop.exit) = _
  rw [if_pos passes]

theorem check_fails (stops : p c = false) : check p (c :: rest) = .error .exit := by
  show (if p c = true then Except.ok rest else .error Stop.exit) = _
  rw [if_neg (by simp [stops])]

theorem skip_stop (all : ∀ c ∈ l, p c = true) (stops : p c = false) :
    skip p (l ++ c :: rest) = .ok (c :: rest) := by
  rw [skip, skipWhile_stop all stops]

theorem checkHex2_run {k : Nat} (all : ∀ c ∈ l, isxdigit c = true) (long : k ≤ l.length)
    (stops : isxdigit c = false) :
    checkHex2 k (l ++ c :: rest) = .ok (c :: rest) := by
  induction k generalizing l with
  | zero => exact skip_stop all stops
  | succ k ih =>
    cases l with
    | nil => cases long
    | cons a l =>
      rw [List.cons_append, checkHex2, check_cons (all a List.mem_cons_self)]
      exact ih (fun c member => all c (List.mem_cons_of_mem a member)) (Nat.le_of_succ_le_succ long)

theorem checkHex2_short {k : Nat} (all : ∀ c ∈ l, isxdigit c = true) (short : l.length < k)
    (stops : isxdigit c = false) :
    checkHex2 k (l ++ c :: rest) = .error .exit := by
  induction k generalizing l with
  | zero => cases short
  | succ k ih =>
    rw [checkHex2]
    cases l with
    | nil =>
      rw [List.nil_append, check_fails stops]
      rfl
    | cons a l =>
      rw [List.cons_append, check_cons (all a List.mem_cons_self)]
      exact ih (fun c member => all c (List.mem_cons_of_mem a member)) (Nat.lt_of_succ_lt_succ short)

/-- The characters of hexadecimal numbers. -/
theorem isxdigit_range (digit : isxdigit c = true) :
    48 ≤ c.toNat ∧ c.toNat ≤ 57 ∨ 65 ≤ c.toNat ∧ c.toNat ≤ 70 ∨ 97 ≤ c.toNat ∧ c.toNat ≤ 102 := by
  unfold isxdigit isDigitOf digitOf at digit
  split at digit
  · omega
  · split at digit
    · omega
    · split at digit
      · omega
      · cases digit

theorem hex_numeral (member : c ∈ numeral 16 width value) : isxdigit c = true :=
  isDigitOf_numeral (by decide) (by decide) member

theorem skipPrefix_plain {a d : BitVec 8}
    (plain : d ≠ BitVec.ofNat 8 'x'.toNat ∧ d ≠ BitVec.ofNat 8 'X'.toNat) :
    skipPrefix (a :: d :: rest) = .ok (a :: d :: rest) := by
  have other : ¬(d = BitVec.ofNat 8 'x'.toNat || d = BitVec.ofNat 8 'X'.toNat) = true := by
    rw [Bool.or_eq_true, not_or, decide_eq_true_eq, decide_eq_true_eq]
    exact plain
  rw [skipPrefix, peek, ok_bind]
  split
  · rw [show (a :: d :: rest).drop 1 = d :: rest from rfl, peek, ok_bind, if_neg other]
    rfl
  · rfl

/-- A number is read up to the character behind it. -/
theorem strtoll_numeral (wide : 0 < width) (small : value < 2 ^ 63) (stops : isxdigit c = false)
    (plain : c ≠ BitVec.ofNat 8 'x'.toNat ∧ c ≠ BitVec.ofNat 8 'X'.toNat) :
    strtoll (numeral 16 width value ++ c :: rest) = .ok ((value : Int), c :: rest) := by
  have long : width ≤ (numeral 16 width value).length := by
    rw [length_numeral]
    exact Nat.le_max_left _ _
  have all : ∀ d ∈ numeral 16 width value, isxdigit d = true := fun d => hex_numeral
  have isValue : numeralValue 16 (numeral 16 width value) = value :=
    numeralValue_numeral (by decide) (by decide)
  generalize numeral 16 width value = text at long all isValue
  cases text with
  | nil => cases Nat.lt_of_lt_of_le wide long
  | cons a l =>
    have first := isxdigit_range (all a List.mem_cons_self)
    have notSpace : isspace a = false := by
      unfold isspace ProcfsMaps.space
      simp [BitVec.le_def, ← BitVec.toNat_inj]
      omega
    have digit := all a List.mem_cons_self
    have notSign : (a = minus || a = plus) = false := by
      have first := isxdigit_range digit
      simp [minus, plus, ← BitVec.toNat_inj]
      omega
    -- what stands behind the first digit does not make it a prefix
    have second : ∃ d later, l ++ c :: rest = d :: later ∧ d ≠ BitVec.ofNat 8 'x'.toNat ∧
        d ≠ BitVec.ofNat 8 'X'.toNat := by
      cases l with
      | nil => exact ⟨c, rest, rfl, plain⟩
      | cons d l =>
        have next := isxdigit_range (all d (List.mem_cons_of_mem a List.mem_cons_self))
        refine ⟨d, l ++ c :: rest, rfl, ?_, ?_⟩
        · rintro rfl
          simp at next
        · rintro rfl
          simp at next
    obtain ⟨d, later, isLater, noPrefix⟩ := second
    have spaces : skip isspace (a :: l ++ c :: rest) = .ok (a :: l ++ c :: rest) :=
      skip_stop (l := []) (fun _ member => by cases member) notSpace
    have digits : skip isxdigit (a :: l ++ c :: rest) = .ok (c :: rest) := skip_stop all stops
    have taken : (a :: l ++ c :: rest).take ((a :: l ++ c :: rest).length - (c :: rest).length) =
        a :: l := by
      rw [List.length_append, Nat.add_sub_cancel, List.take_left]
    have noPrefix : skipPrefix (a :: l ++ c :: rest) = .ok (a :: l ++ c :: rest) := by
      rw [List.cons_append, isLater]
      exact skipPrefix_plain noPrefix
    rw [strtoll, spaces, ok_bind]
    show (skipPrefix (if (a = minus || a = plus) = true then l ++ c :: rest else a :: l ++
        c :: rest) >>= _) = _
    rw [notSign, if_neg Bool.false_ne_true, noPrefix, ok_bind, digits, ok_bind, taken]
    show Except.ok (if a :: l = [] then _ else _) = _
    rw [if_neg (List.cons_ne_nil a l)]
    have positive : decide (a = minus) = false := (Bool.or_eq_false_iff.mp notSign).1
    rw [positive, toLongLong, if_neg Bool.false_ne_true, isValue]
    have least : min (value : Int) (2 ^ 63 - 1) = value := by omega
    rw [least]

/-! ## A line with its newline -/

section
variable {m : Mapping}

theorem check_permission (given : Bool) (letter : Char) (rest : Bytes) :
    checkPermission letter (ProcfsMaps.letter given letter '-' :: rest) = .ok rest := by
  refine check_cons ?_
  cases given with
  | true => simp [ProcfsMaps.letter]
  | false => simp [ProcfsMaps.letter, minus]

theorem hex_run (k width value : Nat) (long : k ≤ width) (stops : isxdigit c = false) :
    checkHex2 k (numeral 16 width value ++ c :: rest) = .ok (c :: rest) := by
  refine checkHex2_run (fun c => hex_numeral) ?_ stops
  rw [length_numeral]
  exact Nat.le_trans long (Nat.le_max_left _ _)

/-- The check gets to the device, whatever stands from there on. -/
theorem check_head (device : Bytes) :
    procfsMapsFormatCheck false (m.head device) = checkDevice device >>= fun _ => .ok () := by
  have hyphen : isxdigit minus = false := by decide
  have blank : isxdigit space = false := by decide
  rw [procfsMapsFormatCheck, if_neg Bool.false_ne_true, Mapping.head,
    hex_run 0 8 _ (by decide) hyphen, ok_bind,
    check_cons (by decide), ok_bind, hex_run 0 8 _ (by decide) blank, ok_bind,
    check_cons (by decide), ok_bind,
    check_permission, ok_bind, check_permission, ok_bind, check_permission, ok_bind]
  rw [check_cons (by cases m.shared <;> decide), ok_bind, check_cons (by decide), ok_bind,
    hex_run 8 8 _ (by decide) blank, ok_bind, check_cons (by decide), ok_bind]

theorem check_device (tail : Bytes) : checkDevice (m.device tail) = checkDec tail := by
  rw [checkDevice, Mapping.device, hex_run 2 2 _ (Nat.le_refl _) (by decide), ok_bind,
    check_cons (by decide), ok_bind,
    hex_run 2 2 _ (Nat.le_refl _) (by decide), ok_bind, check_cons (by decide), ok_bind]

theorem head_append (device rest : Bytes) : m.head (device ++ rest) = m.head device ++ rest := by
  simp [Mapping.head]

theorem device_append (tail rest : Bytes) : m.device (tail ++ rest) = m.device tail ++ rest := by
  simp [Mapping.device]

/-- `flags` of the mapping. -/
def flagsOf (m : Mapping) : BitVec 32 :=
  (if m.readable then 1 else 0) ||| (if m.writeable then 2 else 0) |||
    (if m.executable then 4 else 0) |||
    (if m.shared then 8 else 0)

theorem read_flags (rest : Bytes) :
    readFlags (space :: letter m.readable 'r' '-' :: letter m.writeable 'w' '-' :: letter
      m.executable 'x' '-' ::
      letter m.shared 's' 'p' :: rest) = .ok (flagsOf m) := by
  have found (given : Bool) (yes no : Char) (differ : BitVec.ofNat 8 no.toNat ≠
      BitVec.ofNat 8 yes.toNat) :
      decide (letter given yes no = BitVec.ofNat 8 yes.toNat) = given := by
    cases given with
    | true => exact decide_eq_true rfl
    | false => exact decide_eq_false differ
  show Except.ok _ = _
  rw [found _ 'r' '-' (by decide), found _ 'w' '-' (by decide), found _ 'x' '-' (by decide),
    found _ 's' 'p' (by decide)]
  rfl

theorem number_read (small : value < 2 ^ 63) (stops : c = minus ∨ c = space) (rest : Bytes) :
    strtoll (numeral 16 8 value ++ c :: rest) = .ok ((value : Int), c :: rest) := by
  refine strtoll_numeral (by decide) small ?_ ?_
  · rcases stops with rfl | rfl <;> decide
  · rcases stops with rfl | rfl <;> decide

/-- The parser gets to the device with the numbers in front of it. -/
theorem parse_head (n : Nat) (mapsVerified : Bool) (device : Bytes) :
    procfsMapsParseSegment n mapsVerified (m.head device) =
      procfsMapsFormatCheck mapsVerified (m.head device) >>= fun _ =>
        skipToFilename (space :: device) >>= fun buf =>
          readFilename (m.head device) buf >>= fun read =>
            .ok (⟨BitVec.ofInt n m.start, BitVec.ofInt n m.stop, flagsOf m, BitVec.ofInt n m.offset,
              read.1⟩, read.2) := by
  have small : m.start < 2 ^ 63 := Nat.lt_trans m.ordered m.stop_bound
  rw [procfsMapsParseSegment, Mapping.head]
  congr 1
  funext _
  rw [number_read small (.inl rfl), ok_bind]
  show (strtoll (numeral 16 8 m.stop ++ space :: _) >>= _) = _
  rw [number_read m.stop_bound (.inr rfl), ok_bind]
  show (readFlags (space :: _) >>= _) = _
  rw [read_flags, ok_bind]
  show (strtoll (numeral 16 8 m.offset ++ space :: device) >>= _) = _
  rw [number_read m.offset_bound (.inr rfl), ok_bind]
  rfl

theorem inode_digits : ∃ d l, numeral 10 1 m.inode = d :: l ∧ ∀ c ∈ d :: l, isdigit c = true := by
  have all : ∀ c ∈ numeral 10 1 m.inode, isdigit c = true :=
    fun c => isDigitOf_numeral (by decide) (by decide)
  have long : 1 ≤ (numeral 10 1 m.inode).length := by
    rw [length_numeral]
    exact Nat.le_max_left _ _
  generalize numeral 10 1 m.inode = digits at all long
  cases digits with
  | nil => cases long
  | cons d l => exact ⟨d, l, rfl, all⟩

/-- The format of a line is right. -/
theorem check_line (mapsVerified : Bool) (rest : Bytes) :
    procfsMapsFormatCheck mapsVerified (m.head (m.device (m.tail ++ rest))) = .ok () := by
  cases mapsVerified with
  | true => rfl
  | false =>
    obtain ⟨d, l, isInode, all⟩ := inode_digits (m := m)
    rw [check_head, check_device, Mapping.tail, isInode, List.replicate_succ]
    simp only [List.append_assoc, List.cons_append]
    rw [checkDec, check_cons (all d List.mem_cons_self), ok_bind,
      skip_stop (fun c member => all c (List.mem_cons_of_mem d member)) (by decide), ok_bind]

/-- From the device to what stands behind the spaces. -/
theorem skip_fields {later : Bytes} (stops : c ≠ space) :
    skipToFilename (space :: m.device (numeral 10 1 m.inode ++
      (List.replicate (m.padding + 1) space ++ c :: later))) =
      .ok (c :: later) := by
  have noSpace : ∀ c ∈ numeral 16 2 m.major ++ colon :: numeral 16 2 m.minor,
      decide (c ≠ space) = true := by
    intro c member
    rw [decide_eq_true_iff]
    rintro rfl
    rcases List.mem_append.mp member with digit | other
    · exact absurd (hex_numeral digit) (by decide)
    · rcases List.mem_cons.mp other with same | digit
      · cases same
      · exact absurd (hex_numeral digit) (by decide)
  have spaces : ∀ c ∈ List.replicate (m.padding + 1) space, decide (c = space) = true := fun c member =>
    decide_eq_true (List.mem_replicate.mp member).2
  have device (tail : Bytes) : m.device tail =
      (numeral 16 2 m.major ++ colon :: numeral 16 2 m.minor) ++ space :: tail := by
    simp [Mapping.device]
  have digits : ∀ c ∈ numeral 10 1 m.inode, isdigit c = true :=
    fun c => isDigitOf_numeral (by decide) (by decide)
  rw [skipToFilename, List.drop_succ_cons, List.drop_zero, device, skip_stop noSpace (by decide),
    ok_bind, List.drop_succ_cons,
    List.drop_zero]
  show (skip isdigit (_ ++ space :: (List.replicate m.padding space ++ c :: later)) >>= _) = _
  rw [skip_stop digits (by decide), ok_bind]
  exact skip_stop (l := List.replicate (m.padding + 1) space) spaces (decide_eq_false stops)

/-- The same mapping is read, whatever follows the newline, and so nothing of it. -/
def ReadBack (n : Nat) (mapsVerified : Bool) (m : Mapping) : Prop :=
  ∀ rest, ∃ segment line, procfsMapsParseSegment n mapsVerified (m.line ++ rest) = .ok (segment, line) ∧
    segment.start.toNat = m.start ∧ segment.stop.toNat = m.stop ∧ segment.flags = flagsOf m ∧
    segment.offset.toNat = m.offset ∧
    segment.filename.map (fun place => cString (line.drop place)) = m.name.map some

/-- What is read of a line that has its newline. -/
theorem parse_line (n : Nat) (mapsVerified : Bool) (rest : Bytes) :
    ∃ filename line, procfsMapsParseSegment n mapsVerified (m.line ++ rest) =
        .ok (⟨BitVec.ofInt n m.start, BitVec.ofInt n m.stop, flagsOf m, BitVec.ofInt n m.offset,
          filename⟩, line) ∧
      filename.map (fun place => cString (line.drop place)) = m.name.map some := by
  have whole : m.line ++ rest = m.head (m.device (m.tail ++ rest)) :=
    by rw [Mapping.line, ← head_append, ← device_append]
  rw [whole, parse_head, check_line, ok_bind, ← whole]
  have tail : m.tail ++ rest =
      numeral 10 1 m.inode ++ (List.replicate (m.padding + 1) space ++
        (m.name.getD [] ++ newline :: rest)) := by
    simp [Mapping.tail]
  have line : m.line = m.head (m.device (numeral 10 1 m.inode ++
      List.replicate (m.padding + 1) space)) ++
      (m.name.getD [] ++ [newline]) := by
    rw [← head_append, ← device_append, Mapping.line, Mapping.tail, List.append_assoc]
  rw [tail, line]
  generalize m.head (m.device (numeral 10 1 m.inode ++ List.replicate (m.padding + 1) space)) = before
  cases isName : m.name with
  | none =>
    rw [Option.getD_none, List.nil_append, skip_fields (by decide), ok_bind]
    exact ⟨none, _, rfl, rfl⟩
  | some name =>
    obtain ⟨noNewline, plain, c, later, rfl, noSpace⟩ := m.name_text name isName
    have read : readFilename (before ++ (c :: later ++ [newline]) ++ rest)
        (c :: later ++ newline :: rest) =
        .ok (some before.length, before ++ (c :: later ++ 0#8 :: rest)) := by
      have isLine : before ++ (c :: later ++ [newline]) ++ rest =
          before ++ (c :: later ++ newline :: rest) := by simp
      have found : skip (fun c => decide (c ≠ newline)) (c :: later ++ newline :: rest) =
          .ok (newline :: rest) :=
        skip_stop (fun d member => decide_eq_true fun same => noNewline (same ▸ member))
          (decide_eq_false (by simp))
      have other : c ≠ newline := fun same => noNewline (same ▸ List.mem_cons_self)
      have some : c ≠ 0#8 := fun same => plain (same ▸ List.mem_cons_self)
      rw [isLine, readFilename]
      show (if c = newline then _ else if c = 0#8 then _ else _) = _
      rw [if_neg other, if_neg some, found, ok_bind, List.length_append, Nat.add_sub_cancel]
      have here : (before ++ (c :: later ++ newline :: rest)).length - (newline :: rest).length =
          (before ++ c :: later).length := by
        simp only [List.length_append, List.length_cons]
        omega
      rw [List.length_append] at here
      rw [here, ← List.append_assoc, List.set_append_right _ _ (Nat.le_refl _), Nat.sub_self,
        List.set_cons_zero,
        List.append_assoc]
      rfl
    rw [Option.getD_some]
    show ∃ filename line, (skipToFilename
        (space :: m.device (_ ++ (_ ++ c :: (later ++ newline :: rest)))) >>= _) = _ ∧ _
    rw [skip_fields noSpace, ok_bind]
    show ∃ filename line, (readFilename _ (c :: later ++ newline :: rest) >>= _) = _ ∧ _
    rw [read, ok_bind]
    refine ⟨some before.length, _, rfl, ?_⟩
    rw [Option.map_some, List.drop_left, Option.map_some]
    exact congrArg some (cString_written plain)

/-! ## A line without its newline -/

theorem skip_result (p : BitVec 8 → Bool) (l : Bytes) :
    skip p l = .error .outside ∨ ∃ passed c later, l = passed ++ c :: later ∧
    skip p l = .ok (c :: later) ∧ p c = false := by
  unfold skip
  cases found : skipWhile p l with
  | none => exact .inl rfl
  | some rest =>
    obtain ⟨passed, c, later, isLine, rfl, -, stops⟩ := skipWhile_some found
    exact .inr ⟨passed, c, later, isLine, rfl, stops⟩

/-- Without a newline the scan of the file name has no end inside the buffer. -/
theorem lost_newline (line : Bytes) {device : Bytes} (lost : newline ∉ device) :
    (skipToFilename (space :: device) >>= readFilename line) = .error .outside ∨
      (skipToFilename (space :: device) >>= readFilename line) = .error .freed := by
  have skips (p : BitVec 8 → Bool) {buf : Bytes} (none : newline ∉ buf) (next : Bytes →
      Except Stop (Option Nat × Bytes))
      (then_ : ∀ rest, newline ∉ rest → next rest = .error .outside ∨ next rest = .error .freed) :
      (skip p buf >>= next) = .error .outside ∨ (skip p buf >>= next) = .error .freed := by
    rcases skip_result p buf with overrun | ⟨passed, c, later, rfl, found, -⟩
    · rw [overrun]
      exact .inl rfl
    · rw [found]
      exact then_ _ fun member => none (List.mem_append_right passed member)
  have fewer {buf : Bytes} (none : newline ∉ buf) : newline ∉ buf.drop 1 :=
    fun member => none (List.mem_of_mem_drop member)
  rw [skipToFilename, bind_assoc]
  refine skips _ lost _ fun buf none => ?_
  rw [bind_assoc]
  refine skips _ (fewer none) _ fun buf none => ?_
  refine skips _ none _ fun buf none => ?_
  cases buf with
  | nil => exact .inl rfl
  | cons c rest =>
    have other : c ≠ newline := fun same => none (same ▸ List.mem_cons_self)
    show (if c = newline then _ else if c = 0#8 then _ else _) = _ ∨
        (if c = newline then _ else if c = 0#8 then _ else _) = _
    rw [if_neg other]
    split
    · exact .inr rfl
    · refine .inl ?_
      rcases skip_result (fun c => decide (c ≠ newline)) (c :: rest) with
          overrun | ⟨passed, d, later, isLine, -, stops⟩
      · rw [overrun]
        rfl
      · have same : d = newline := by simpa using stops
        exact absurd (isLine ▸ List.mem_append_right passed (same ▸ List.mem_cons_self)) none

/-- A field that the end of the buffer cuts off fails the check. -/
theorem hex_cut {α : Type} {k : Nat} {next : Bytes → Except Stop α} (all : ∀ c ∈ l, isxdigit c = true)
    (fails : next [0#8] = .error .exit) : (checkHex2 k (l ++ [0#8]) >>= next) = .error .exit := by
  by_cases long : k ≤ l.length
  · rw [checkHex2_run all long (by decide), ok_bind, fails]
  · rw [checkHex2_short all (Nat.lt_of_not_le long) (by decide)]
    rfl

/-- A line that is cut off before the inode fails the check. -/
theorem device_cut {k : Nat} (short : k ≤ (m.device []).length) :
    checkDevice ((m.device []).take k ++ [0#8]) = .error .exit := by
  have hex {width value k : Nat} : ∀ c ∈ (numeral 16 width value).take k, isxdigit c = true :=
    fun c member => hex_numeral (List.mem_of_mem_take member)
  have colons : isxdigit colon = false := by decide
  rw [Mapping.device, List.length_append, List.length_cons, List.length_append,
    List.length_singleton] at short
  rw [checkDevice, Mapping.device, List.take_append]
  by_cases inMajor : k ≤ (numeral 16 2 m.major).length
  · rw [Nat.sub_eq_zero_of_le inMajor, List.take_zero, List.append_nil]
    exact hex_cut hex rfl
  · obtain ⟨j, isK⟩ : ∃ j, k = (numeral 16 2 m.major).length + (j + 1) :=
      ⟨k - (numeral 16 2 m.major).length - 1, by omega⟩
    rw [List.take_of_length_le (by omega), isK, Nat.add_sub_cancel_left, List.take_succ_cons,
      List.append_assoc,
      List.cons_append, hex_run 2 2 _ (Nat.le_refl _) colons, ok_bind, check_cons (by decide),
      ok_bind, List.take_append]
    by_cases inMinor : j ≤ (numeral 16 2 m.minor).length
    · rw [Nat.sub_eq_zero_of_le inMinor, List.take_zero, List.append_nil]
      exact hex_cut hex rfl
    · have last : j - (numeral 16 2 m.minor).length = 1 := by omega
      rw [List.take_of_length_le (by omega), last, List.append_assoc]
      show (checkHex2 2 (numeral 16 2 m.minor ++ space :: [0#8]) >>= _) = _
      rw [hex_run 2 2 _ (Nat.le_refl _) (by decide), ok_bind, check_cons (by decide)]
      rfl

theorem skip_terminated (stops : p c = false) : ∃ rest, skip p (l ++ [c]) = .ok rest := by
  rcases skip_result p (l ++ [c]) with overrun | ⟨passed, d, later, -, found, -⟩
  · induction l with
    | nil =>
      rw [List.nil_append, skip, skipWhile, if_neg (by simp [stops])] at overrun
      cases overrun
    | cons a l ih =>
      by_cases passes : p a = true
      · rw [List.cons_append, skip, skipWhile, if_pos passes] at overrun ⊢
        exact ih overrun
      · rw [List.cons_append, skip, skipWhile, if_neg passes] at overrun
        cases overrun
  · exact ⟨_, found⟩

/-- A line that is cut off behind a digit of the inode passes it. -/
theorem inode_cut (tail : Bytes) (digit : isdigit c = true) :
    ∃ rest, checkDevice (m.device (c :: tail ++ [0#8])) = .ok rest := by
  rw [check_device, List.cons_append, checkDec, check_cons digit, ok_bind]
  exact skip_terminated (by decide)

theorem head_short : (m.head []).length ≤ 56 := by
  have width {value : Nat} (small : value < 2 ^ 63) : (numeral 16 8 value).length ≤ 16 :=
    length_numeral_le (by decide) (Nat.lt_trans small (by decide)) (by decide)
  have start := width (Nat.lt_trans m.ordered m.stop_bound)
  have stop := width m.stop_bound
  have offset := width m.offset_bound
  simp only [Mapping.head, List.length_append, List.length_cons, List.length_nil]
  omega

/-- The newline is the last character of a line, and no other. -/
theorem newline_last : ∃ text, m.device m.tail = text ++ [newline] ∧ newline ∉ text := by
  have hex {width value : Nat} : newline ∉ numeral 16 width value :=
    fun member => absurd (hex_numeral member) (by decide)
  have decimal : newline ∉ numeral 10 1 m.inode := fun member =>
    absurd (isDigitOf_numeral (by decide) (by decide) member) (show isDigitOf 10 newline ≠
      true by decide)
  have spaces : newline ∉ List.replicate (m.padding + 1) space := fun member =>
    absurd (List.mem_replicate.mp member).2 (by decide)
  have name : newline ∉ m.name.getD [] := by
    cases isName : m.name with
    | none => simp
    | some text => exact (m.name_text text isName).1
  have colons : newline ≠ colon := by decide
  have other : newline ≠ space := by decide
  refine ⟨m.device (numeral 10 1 m.inode ++
    (List.replicate (m.padding + 1) space ++ m.name.getD [])), ?_, ?_⟩
  · rw [Mapping.tail, ← device_append]
    simp
  · rw [Mapping.device]
    simp only [List.mem_append, List.mem_cons, hex, decimal, spaces, name, colons, other, or_self,
      not_false_eq_true]

/-- How much the buffer has of what follows the offset. -/
def kept (m : Mapping) : Nat := bufferSize - 1 - (m.head []).length

/-- What the buffer has of a line that does not fit. -/
theorem fgets_cut (long : bufferSize ≤ m.line.length) (stale : Bytes) :
    fgets m.line stale = m.head ((m.device m.tail).take (kept m) ++ [0#8]) ∧
      newline ∉ (m.device m.tail).take (kept m) ++ [0#8] := by
  have split : m.line = m.head [] ++ m.device m.tail :=
    by rw [Mapping.line, ← head_append, List.nil_append]
  have short := head_short (m := m)
  constructor
  · rw [fgets, if_neg (Nat.not_lt.mpr long), ← List.nil_append ((m.device m.tail).take (kept m)),
      head_append, head_append,
      split, List.take_append, List.take_of_length_le (Nat.le_trans short (by decide))]
    rfl
  · obtain ⟨text, isLine, plain⟩ := newline_last (m := m)
    have fits : kept m ≤ text.length := by
      rw [split, isLine, List.length_append, List.length_append, List.length_singleton] at long
      unfold kept
      unfold bufferSize at long ⊢
      omega
    rw [isLine, List.take_append_of_le_length fits, List.mem_append, List.mem_singleton, not_or]
    exact ⟨fun member => plain (List.mem_of_mem_take member), by decide⟩

/-- The line is cut off before its inode, and its format not known yet. -/
def Rejected (mapsVerified : Bool) (m : Mapping) : Prop :=
  mapsVerified = false ∧ bufferSize - 1 ≤ (m.head (m.device [])).length

theorem rejected_iff (mapsVerified : Bool) : Rejected mapsVerified m ↔
    mapsVerified = false ∧ kept m ≤ (m.device []).length := by
  have short := head_short (m := m)
  have whole : m.head (m.device []) = m.head [] ++ m.device [] := by rw [← head_append, List.nil_append]
  rw [Rejected, whole, List.length_append, kept]
  unfold bufferSize
  exact and_congr_right fun _ => by omega

/-- Whether the format of the line is found to be right depends on where it is cut off. -/
theorem check_cut (mapsVerified : Bool) :
    procfsMapsFormatCheck mapsVerified (m.head ((m.device m.tail).take (kept m) ++ [0#8])) =
      .ok () ∧ ¬Rejected mapsVerified m ∨
    procfsMapsFormatCheck mapsVerified (m.head ((m.device m.tail).take (kept m) ++ [0#8])) =
      .error .exit ∧
      Rejected mapsVerified m := by
  rw [rejected_iff]
  cases mapsVerified with
  | true => exact .inl ⟨rfl, fun rejected => absurd rejected.1 (by decide)⟩
  | false =>
    have parts : m.device m.tail = m.device [] ++ m.tail := by rw [← device_append, List.nil_append]
    rw [check_head, parts]
    by_cases short : kept m ≤ (m.device []).length
    · rw [List.take_append_of_le_length short, device_cut short]
      exact .inr ⟨rfl, rfl, short⟩
    · obtain ⟨d, l, isInode, all⟩ := inode_digits (m := m)
      obtain ⟨j, isKept⟩ : ∃ j, kept m = (m.device []).length + (j + 1) :=
        ⟨kept m - (m.device []).length - 1, by omega⟩
      obtain ⟨rest, passed⟩ := inode_cut (m := m) (c := d)
        ((l ++ (List.replicate (m.padding + 1) space ++ (m.name.getD [] ++ [newline]))).take j)
          (all d List.mem_cons_self)
      rw [Mapping.tail, isInode, List.cons_append, isKept, List.take_length_add_append,
        List.take_succ_cons, List.append_assoc,
        ← device_append, List.nil_append, passed]
      exact .inl ⟨rfl, fun rejected => absurd rejected.2 (by omega)⟩

/-- A line that is cut off is rejected, or its scan leaves the buffer. -/
theorem parse_cut (n : Nat) (mapsVerified : Bool) (long : bufferSize ≤ m.line.length) (stale : Bytes) :
    procfsMapsParseSegment n mapsVerified (fgets m.line stale) = .error .exit ∧ Rejected mapsVerified m ∨
      (procfsMapsParseSegment n mapsVerified (fgets m.line stale) = .error .outside ∨
        procfsMapsParseSegment n mapsVerified (fgets m.line stale) = .error .freed) ∧
        ¬Rejected mapsVerified m := by
  obtain ⟨isCut, lost⟩ := fgets_cut long stale
  rw [isCut, parse_head]
  rcases check_cut (m := m) mapsVerified with ⟨passes, accepted⟩ | ⟨fails, rejected⟩
  · refine .inr ⟨?_, accepted⟩
    rw [passes, ok_bind, ← bind_assoc]
    rcases lost_newline (m.head ((m.device m.tail).take (kept m) ++ [0#8])) lost with overrun | freed
    · rw [overrun]
      exact .inl rfl
    · rw [freed]
      exact .inr rfl
  · rw [fails]
    exact .inl ⟨rfl, rejected⟩

end

/-- A line that fits the buffer is read back, and of a longer one nothing outside the buffer is
touched. -/
def Faithful (n : Nat) (mapsVerified : Bool) (m : Mapping) : Prop :=
  if m.line.length < bufferSize then ReadBack n mapsVerified m
  else ∀ stale, procfsMapsParseSegment n mapsVerified (fgets m.line stale) ≠ .error .outside ∧
    procfsMapsParseSegment n mapsVerified (fgets m.line stale) ≠ .error .freed

/-- The numbers of a line that fits are addresses of the server, and a longer line is rejected. -/
def Suits (n : Nat) (mapsVerified : Bool) (m : Mapping) : Prop :=
  if m.line.length < bufferSize then m.stop < 2 ^ n ∧ m.offset < 2 ^ n else Rejected mapsVerified m

theorem address_iff (n value : Nat) : (BitVec.ofInt n value).toNat = value ↔ value < 2 ^ n := by
  rw [BitVec.ofInt_natCast, BitVec.toNat_ofNat]
  constructor
  · intro same
    rw [← same]
    exact Nat.mod_lt _ (Nat.two_pow_pos n)
  · exact Nat.mod_eq_of_lt

theorem read_back_iff (n : Nat) (mapsVerified : Bool) (m : Mapping) :
    ReadBack n mapsVerified m ↔ m.stop < 2 ^ n ∧ m.offset < 2 ^ n := by
  constructor
  · intro back
    obtain ⟨segment, line, ran, -, stop, -, offset, -⟩ := back []
    obtain ⟨filename, line', ran', -⟩ := parse_line (m := m) n mapsVerified []
    cases ran'.symm.trans ran
    exact ⟨(address_iff n m.stop).mp stop, (address_iff n m.offset).mp offset⟩
  · rintro ⟨stop, offset⟩ rest
    obtain ⟨filename, line, ran, name⟩ := parse_line (m := m) n mapsVerified rest
    exact ⟨_, line, ran, (address_iff n m.start).mpr (Nat.lt_trans m.ordered stop),
      (address_iff n m.stop).mpr stop, rfl,
      (address_iff n m.offset).mpr offset, name⟩

private theorem rejected_of_safe {n : Nat} {mapsVerified : Bool} {m : Mapping}
    (long : ¬m.line.length < bufferSize)
    (faithful : Faithful n mapsVerified m) : Rejected mapsVerified m := by
  rw [Faithful, if_neg long] at faithful
  rcases parse_cut n mapsVerified (Nat.not_lt.mp long) [] with ⟨-, rejected⟩ | ⟨overrun | freed, -⟩
  · exact rejected
  · exact absurd overrun (faithful []).1
  · exact absurd freed (faithful []).2

/-- Lines are read as they should be if and only if the numbers fit the server's addresses, and those
that do not fit the buffer are cut off before the inode while the format has not been verified. -/
theorem faithful_iff (n : Nat) (mapsVerified : Bool) (m : Mapping) :
    Faithful n mapsVerified m ↔ Suits n mapsVerified m := by
  by_cases fits : m.line.length < bufferSize
  · rw [Faithful, if_pos fits, Suits, if_pos fits, read_back_iff]
  · constructor
    · intro faithful
      rw [Suits, if_neg fits]
      exact rejected_of_safe fits faithful
    · intro rejected
      rw [Suits, if_neg fits] at rejected
      rw [Faithful, if_neg fits]
      intro stale
      rcases parse_cut n mapsVerified (Nat.not_lt.mp fits) stale with ⟨exits, -⟩ | ⟨-, accepted⟩
      · rw [exits]
        exact ⟨by simp, by simp⟩
      · exact absurd rejected accepted

/-- Once the format has been verified, the scan of a long name leaves the buffer. -/
private theorem long_name_overrun (n : Nat) (m : Mapping)
    (long : bufferSize ≤ (m.name.getD []).length) : ¬Faithful n true m := by
  intro faithful
  have longLine : ¬m.line.length < bufferSize := by
    simp only [Mapping.line, Mapping.head, Mapping.device, Mapping.tail, List.length_append,
      List.length_cons]
    omega
  cases (rejected_of_safe longLine faithful).1

/-- A mapping of a file whose path has 600 characters. -/
private def longPath : Mapping where
  start := 0x10000
  stop := 0x11000
  readable := true
  writeable := false
  executable := true
  shared := false
  offset := 0
  major := 8
  minor := 1
  inode := 42
  padding := 25
  name := some (List.replicate 600 0x61#8)
  ordered := by decide
  stop_bound := by decide
  offset_bound := by decide
  name_text := by
    intro text isText
    cases isText
    have letters {c : BitVec 8} (member : c ∈ List.replicate 600 0x61#8) : c = 0x61#8 :=
      (List.mem_replicate.mp member).2
    exact ⟨fun member => absurd (letters member) (by decide),
      fun member => absurd (letters member) (by decide),
      0x61#8, List.replicate 599 0x61#8, List.replicate_succ, by decide⟩

/-- Its line is scanned beyond the end of the buffer. -/
theorem long_path_overrun : ¬Faithful 64 true longPath := by
  refine long_name_overrun 64 longPath ?_
  show bufferSize ≤ (List.replicate 600 0x61#8).length
  rw [List.length_replicate]
  decide

end Adbi.ProcfsMapsProofs
