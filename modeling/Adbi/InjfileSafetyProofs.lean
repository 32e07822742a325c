import Adbi.InjfileReaders
import Adbi.Lib.Sentinel
import Adbi.Lib.SortedSearch
import Mathlib.Data.Int.Order.Basic
import Mathlib.Tactic.Common

/-! `injfile_init` looks at the header and the end of the code only. When that is
enough for everything that reads the file afterwards: all tables and strings that
the header leads to have their ends in the file. -/
namespace Adbi.InjfileSafetyProofs
open Adbi.Lib Adbi.Injfile Adbi.InjfileLookup Adbi.InjfileReaders
open Adbi.Payload (CString)

variable {w : Nat} {bytes : Bytes} {file : File} {name : CString} {offset : Int}

/-! ## Strings -/

/-- A comparison with every other string stays inside exactly if there is a terminator. -/
theorem strcmp_isSome : (∀ path : CString, (strcmp bytes (path ++ [0#8])).isSome) ↔ 0#8 ∈ bytes := by
  constructor
  · intro all
    by_contra unended
    have beyond : ∀ l : Bytes, 0#8 ∉ l → strcmp l (l ++ [0#8]) = none := by
      intro l plain
      induction l with
      | nil => rfl
      | cons char rest ih =>
        obtain ⟨more, later⟩ := not_or.mp (fun either => plain (List.mem_cons.mpr either))
        rw [List.cons_append, strcmp, if_pos rfl, if_neg (Ne.symm more), ih later]
    have read := all bytes
    rw [beyond bytes unended] at read
    cases read
  · intro ended path
    induction bytes generalizing path with
    | nil => cases ended
    | cons char rest ih =>
      cases path with
      | nil =>
        rw [List.nil_append, strcmp]
        by_cases last : char = 0#8 <;> simp [last]
      | cons first others =>
        rw [List.cons_append, strcmp]
        by_cases same : char = first
        · by_cases last : char = 0#8
          · rw [if_pos same, if_pos last]
            rfl
          · rw [if_pos same, if_neg last]
            exact ih ((List.mem_cons.mp ended).resolve_left (Ne.symm last)) others
        · rw [if_neg same]
          rfl

/-! ## Symbol tables -/

/-- The symbol without a name that ends a table. -/
def NoSymbol (l : Bytes) : Prop := l.head? = some 0#8

private theorem noSymbol_inside : ¬NoSymbol [] := nofun

private theorem mem_of_ends {first : Nat} (ends : Ends 32 NoSymbol first bytes) : 0#8 ∈ bytes := by
  obtain ⟨k, -, last⟩ := ends
  exact List.mem_of_mem_drop (List.mem_of_mem_head? (by rw [last]; rfl))

private theorem empty_name (string : cString bytes = some []) : NoSymbol bytes := by
  cases bytes with
  | nil => cases string
  | cons char rest =>
    rw [cString] at string
    split at string
    · rename_i last
      rw [NoSymbol, last]
      rfl
    · cases later : cString rest <;> simp [later] at string

private theorem noSymbol_name (ended : NoSymbol bytes) : cString bytes = some [] := by
  obtain ⟨rest, rfl⟩ := List.head?_eq_some_iff.mp ended
  rfl

theorem iterSymbols_isSome : (iterSymbols bytes).isSome ↔ Ends 32 NoSymbol 0 bytes := by
  constructor
  · refine ends_of_reads (fun l => (iterSymbols l).isSome = true) (by decide) (fun l read => ?_)
    rw [iterSymbols] at read
    cases string : cString l with
    | none => simp [string] at read
    | some name =>
      simp only [string] at read
      by_cases empty : name.isEmpty = true
      · rw [List.isEmpty_iff.mp empty] at string
        exact .inl (empty_name string)
      · rw [if_neg empty] at read
        by_cases short : l.length < 32
        · rw [if_pos short] at read
          cases read
        · rw [if_neg short, Option.isSome_map] at read
          exact .inr ⟨Nat.le_of_not_lt short, read⟩
  · refine reads_of_ends (fun l => (iterSymbols l).isSome = true) noSymbol_inside (fun l ended =>
      ?_) (fun l fits later => ?_)
    · rw [iterSymbols, noSymbol_name ended]
      rfl
    · have ended : 0#8 ∈ l := by
        rw [iterSymbols] at later
        cases string : cString (l.drop 32) with
        | none => simp [string] at later
        | some name =>
          exact List.mem_of_mem_drop (cString_isSome.mp (Option.isSome_iff_exists.mpr ⟨name, string⟩))
      obtain ⟨name, string⟩ := Option.isSome_iff_exists.mp (cString_isSome.mpr ended)
      rw [iterSymbols, string]
      simp only
      split
      · rfl
      · rw [if_neg (Nat.not_lt_of_le fits), Option.isSome_map]
        exact later

/-- The macro looks at the second symbol, whatever the first one is. -/
theorem iterAllSymbols_isSome : (iterAllSymbols bytes).isSome ↔ Ends 32 NoSymbol 1 bytes := by
  constructor
  · intro read
    obtain ⟨symbols, all⟩ := Option.isSome_iff_exists.mp read
    obtain ⟨name, string, rest⟩ := Option.bind_eq_some_iff.mp all
    split at rest
    · cases rest
    · obtain ⟨later, walked, -⟩ := Option.map_eq_some_iff.mp rest
      exact ends_of_drop (iterSymbols_isSome.mp (walked ▸ rfl))
  · intro ends
    obtain ⟨fits, later⟩ := ends_behind noSymbol_inside ends
    obtain ⟨name, string⟩ := Option.isSome_iff_exists.mp (cString_isSome.mpr (mem_of_ends ends))
    obtain ⟨symbols, walked⟩ := Option.isSome_iff_exists.mp (iterSymbols_isSome.mpr later)
    rw [iterAllSymbols, string]
    simp only [Option.bind_eq_bind, Option.bind_some, if_neg (Nat.not_lt_of_le fits), walked]
    rfl

theorem strncmp_isSome {n : Nat} (inside : n ≤ bytes.length) : (strncmp n name bytes).isSome := by
  induction n generalizing name bytes with
  | zero => rw [strncmp]; rfl
  | succ n ih =>
    cases bytes with
    | nil => cases inside
    | cons byte rest =>
      cases name with
      | nil => rfl
      | cons char later =>
        rw [strncmp]
        split
        · exact ih (Nat.le_of_succ_le_succ inside)
        · rfl

/-- The search for a name that no symbol has goes through the whole table. -/
theorem getSymbol_isSome : (∀ name, (getSymbol name bytes).isSome) ↔ Ends 32 NoSymbol 0 bytes := by
  constructor
  · intro all
    refine ends_of_reads (fun l => (getSymbol [] l).isSome = true) (by decide)
      (fun l read => ?_) (all [])
    cases l with
    | nil => simp [getSymbol] at read
    | cons char rest =>
      by_cases last : char = 0#8
      · exact .inl (by rw [NoSymbol, last]; rfl)
      · rw [getSymbol] at read
        simp only [List.head?_cons, if_neg last, strncmp, beq_eq_false_iff_ne.mpr last] at read
        split at read
        · cases read
        · rename_i fits
          exact .inr ⟨Nat.le_of_not_lt fits, read⟩
  · refine reads_of_ends (fun l => ∀ name, (getSymbol name l).isSome = true) noSymbol_inside
      (fun l ended name => ?_)
      (fun l fits later name => ?_)
    · rw [getSymbol, show l.head? = some 0#8 from ended]
      rfl
    · obtain ⟨char, rest, rfl⟩ : ∃ char rest, l = char :: rest :=
        List.exists_cons_of_length_pos (by omega)
      have read : (strncmp 28 name (char :: rest)).isSome := strncmp_isSome (by omega)
      obtain ⟨equal, compared⟩ := Option.isSome_iff_exists.mp read
      rw [getSymbol]
      simp only [List.head?_cons, compared, if_neg (Nat.not_lt_of_le fits)]
      split
      · rfl
      · cases equal with
        | true => rfl
        | false => exact later name

/-! ## Tracepoints -/

/-- The entry without an address that ends the table. -/
def NoTPoint (l : Bytes) : Prop := 4 ≤ l.length ∧ field 32 l 0 = 0#32

private theorem noTPoint_inside : ¬NoTPoint [] := fun ended => absurd ended.1 (by decide)

theorem iterTPoints_isSome : (iterTPoints bytes).isSome ↔ Ends 8 NoTPoint 0 bytes := by
  constructor
  · refine ends_of_reads (fun l => (iterTPoints l).isSome = true) (by decide) (fun l read => ?_)
    rw [iterTPoints] at read
    split at read
    · cases read
    · rename_i long
      split at read
      · rename_i last
        exact .inl ⟨Nat.le_of_not_lt long, last⟩
      · split at read
        · cases read
        · rename_i fits
          rw [Option.isSome_map] at read
          exact .inr ⟨Nat.le_of_not_lt fits, read⟩
  · refine reads_of_ends (fun l => (iterTPoints l).isSome = true) noTPoint_inside (fun l ended =>
      ?_) (fun l fits later => ?_)
    · rw [iterTPoints, if_neg (Nat.not_lt_of_le ended.1), if_pos ended.2]
      rfl
    · rw [iterTPoints, if_neg (by omega), if_neg (Nat.not_lt_of_le fits)]
      split
      · rfl
      · rw [Option.isSome_map]
        exact later

theorem iterAllTPoints_isSome : (iterAllTPoints bytes).isSome ↔ Ends 8 NoTPoint 1 bytes := by
  rw [iterAllTPoints]
  constructor
  · intro read
    split at read
    · cases read
    · rw [Option.isSome_map] at read
      exact ends_of_drop (iterTPoints_isSome.mp read)
  · intro ends
    obtain ⟨fits, later⟩ := ends_behind noTPoint_inside ends
    rw [if_neg (Nat.not_lt_of_le fits), Option.isSome_map]
    exact iterTPoints_isSome.mpr later

/-! ## Lines -/

/-- The entry of zeros that ends the table. -/
def NoLine (l : Bytes) : Prop :=
  12 ≤ l.length ∧ (lineInfo l).addr ||| (lineInfo l).file ||| (lineInfo l).line = 0#32

/-- The entries before the last one. -/
def entries (table : Bytes) (n : Nat) : List LineInfo :=
  (List.range n).map fun i => lineInfo (table.drop (12 * i))

/-- The table ends with its entry `n`. -/
structure Lines (table : Bytes) (n : Nat) : Prop where
  last : NoLine (table.drop (12 * n))
  before : ∀ i < n, ¬NoLine (table.drop (12 * i))

/-- No entry is greater than an address that the server cannot exceed. -/
private theorem small_addr (li : LineInfo) : ¬(2 ^ 31 : Int) < li.addr.toInt := by
  have := BitVec.toInt_lt (x := li.addr)
  omega

/-- The walk over the whole table needs its end. -/
private theorem lines_of_walked {previous : Option LineInfo}
    (read : (lineBefore (2 ^ 31) previous bytes).isSome) :
    ∃ n, Lines bytes n := by
  have ends : Ends 12 NoLine 0 bytes := by
    refine ends_of_reads (fun l => ∃ previous, (lineBefore (2 ^ 31) previous l).isSome = true)
      (by decide) (fun l read => ?_)
      ⟨previous, read⟩
    obtain ⟨previous, read⟩ := read
    rw [lineBefore] at read
    split at read
    · cases read
    · rename_i long
      simp only at read
      split at read
      · rename_i last
        exact .inl ⟨Nat.le_of_not_lt long, last⟩
      · rw [if_neg (small_addr _)] at read
        exact .inr ⟨Nat.le_of_not_lt long, _, read⟩
  obtain ⟨k, -, last⟩ := ends
  induction k using Nat.strongRecOn with
  | ind k ih =>
    by_cases earlier : ∃ i < k, NoLine (bytes.drop (12 * i))
    · obtain ⟨i, below, ended⟩ := earlier
      exact ih i below ended
    · exact ⟨k, last, fun i below ended => earlier ⟨i, below, ended⟩⟩

private theorem entries_succ (n : Nat) :
    entries bytes (n + 1) = lineInfo bytes :: entries (bytes.drop 12) n := by
  rw [entries, List.range_succ_eq_map, List.map_cons, List.map_map, entries]
  refine congrArg₂ _ rfl (List.map_congr_left fun i _ => ?_)
  rw [Function.comp, List.drop_drop, Nat.mul_succ, Nat.add_comm]

/-- The server stops in front of the first entry that is above the offset. -/
private theorem walked {n : Nat} (lines : Lines bytes n) (offset : Int) (previous : Option LineInfo) :
    lineBefore offset previous bytes =
      some (((entries bytes n).takeWhile fun li => li.addr.toInt ≤ offset).getLast?.or previous) := by
  induction n generalizing bytes previous with
  | zero =>
    obtain ⟨long, zeros⟩ : NoLine bytes := lines.last
    rw [lineBefore, if_neg (Nat.not_lt_of_le long)]
    exact if_pos zeros
  | succ n ih =>
    have long := lines.last.1
    rw [List.length_drop] at long
    have fits : ¬bytes.length < 12 := by omega
    have more : ¬((lineInfo bytes).addr ||| (lineInfo bytes).file ||| (lineInfo bytes).line = 0#32) :=
      fun zeros => lines.before 0 (Nat.succ_pos n) ⟨Nat.le_of_not_lt fits, zeros⟩
    have rest : Lines (bytes.drop 12) n := by
      refine ⟨?_, fun i below ended => lines.before (i + 1) (Nat.succ_lt_succ below) ?_⟩
      · rw [List.drop_drop, Nat.add_comm, ← Nat.mul_succ]
        exact lines.last
      · rw [List.drop_drop, Nat.add_comm, ← Nat.mul_succ] at ended
        exact ended
    rw [lineBefore, if_neg fits, entries_succ, List.takeWhile_cons]
    simp only [if_neg more]
    by_cases above : offset < (lineInfo bytes).addr.toInt
    · rw [if_pos above, if_neg (by simpa using above)]
      rfl
    · rw [if_neg above, if_pos (by simpa using above), ih rest]
      cases (entries (bytes.drop 12) n).takeWhile fun li => li.addr.toInt ≤ offset with
      | nil => rfl
      | cons next others => simp [List.getLast?_cons]

/-! ## The whole file -/

def symbolTables : List Part := [.adbi, .imports, .exports]

/-- Nothing that the server does with an accepted file reads outside of it or
through a null name: the comparisons of its name, the searches for symbols and all
iterations, the copy of the code and the search for a line. -/
structure Safe (w : Nat) (file : File) : Prop where
  name : ∀ path : CString, (nameIs file (some (path ++ [0#8]))).isSome
  comment : ∀ bytes, file.behind .comment = some bytes → (cString bytes).isSome
  lookup : ∀ part ∈ symbolTables, ∀ name, (injfileGetSymbol file part name).isSome
  iteration : ∀ part ∈ symbolTables, (injfileIterSymbols file part).isSome
  imports : (injfileIterAllImports file).isSome
  tpoints : (injfileIterTPoints file).isSome
  allTPoints : (injfileIterAllTPoints file).isSome
  code : (injectedCode file).isSome
  lines : ∀ offset, (addr2line w file offset).isSome

/-- The header has an offset for a part. -/
def Present (bytes : Bytes) (part : Part) : Prop := field 64 bytes (fieldPlace part) ≠ 0#64

/-- Where the pointer to a part points to. -/
def place (w : Nat) (bytes : Bytes) (part : Part) : Nat :=
  (field 64 bytes (fieldPlace part)).toNat % 2 ^ w

/-- What stands there. -/
def table (w : Nat) (bytes : Bytes) (part : Part) : Bytes := bytes.drop (place w bytes part)

/-- The server can stop behind an entry: the next one is above all entries so far, or there is none. -/
def Stops (before : List LineInfo) (li : LineInfo) (after : List LineInfo) : Prop :=
  ∀ next ∈ after.head?, ∀ earlier ∈ before ++ [li], earlier.addr.toInt < next.addr.toInt

/-- What `injfile_init` leaves unchecked: there is a name and the code does not
wrap, every string has its terminator in the file, and every table its last entry. The
last entry is not the first one where a macro takes the first one as it is. -/
structure Sound (w : Nat) (bytes : Bytes) : Prop where
  code : field 32 bytes 12 = 0#32 ∨
    Present bytes .code ∧ place w bytes .code + (field 32 bytes 12).toNat ≤ bytes.length
  name : Present bytes .name ∧ 0#8 ∈ table w bytes .name
  comment : Present bytes .comment → 0#8 ∈ table w bytes .comment
  adbi : Present bytes .adbi → Ends 32 NoSymbol 0 (table w bytes .adbi)
  exports : Present bytes .exports → Ends 32 NoSymbol 0 (table w bytes .exports)
  imports : Present bytes .imports → Ends 32 NoSymbol 1 (table w bytes .imports)
  tpoints : Present bytes .tpoints → Ends 8 NoTPoint 1 (table w bytes .tpoints)
  lines : Present bytes .lines → ∃ n, Lines (table w bytes .lines) n ∧
    ∀ before li after, entries (table w bytes .lines) n = before ++ li :: after → Stops before li after →
      Present bytes .strings → 0#8 ∈ bytes.drop ((place w bytes .strings + li.file.toNat) % 2 ^ w)

/-- Over a table that ends, the search needs the string of the entry that it stops behind. -/
private theorem addr2line_iff {n : Nat} {l : Bytes} (behind : file.behind .lines = some l)
    (lines : Lines l n) (offset : Int) : (addr2line w file offset).isSome ↔
      ∀ li, ((entries l n).takeWhile fun y => y.addr.toInt ≤ offset).getLast? = some li →
        (stringAt w file li.file).isSome := by
  rw [addr2line, behind]
  simp only [walked lines offset none, Option.or_none, Option.bind_eq_bind, Option.bind_some]
  cases ((entries l n).takeWhile fun y => y.addr.toInt ≤ offset).getLast? with
  | none => simp
  | some li => cases string : stringAt w file li.file <;> simp [string]

section
variable (accepted : injfileInit bytes = some file)
include accepted

private theorem accepted_file : file = ⟨bytes, field 16 bytes 10, field 32 bytes 12, fixPtr bytes⟩ := by
  unfold injfileInit at accepted
  split at accepted
  · cases accepted
  split at accepted
  · split at accepted
    · simp only at accepted
      split at accepted
      · cases accepted
      · exact (Option.some.inj accepted).symm
    · cases accepted
  · cases accepted

private theorem pointer_cases (w : Nat) (part : Part) :
    (¬Present bytes part ∧ (onServer w file).pointer part = none) ∨
      (Present bytes part ∧ (onServer w file).pointer part = some (place w bytes part)) := by
  rw [accepted_file accepted]
  by_cases absent : field 64 bytes (fieldPlace part) = 0#64
  · have null : fixPtr bytes part = none := if_pos absent
    exact .inl ⟨not_not.mpr absent, congrArg (Option.map (· % 2 ^ w)) null⟩
  · have fixed : fixPtr bytes part = some (field 64 bytes (fieldPlace part)).toNat := if_neg absent
    exact .inr ⟨absent, congrArg (Option.map (· % 2 ^ w)) fixed⟩

private theorem behind_cases (w : Nat) (part : Part) :
    (¬Present bytes part ∧ (onServer w file).behind part = none) ∨
      (Present bytes part ∧ (onServer w file).behind part = some (table w bytes part)) := by
  have own : (onServer w file).bytes = bytes := by rw [accepted_file accepted]; rfl
  rcases pointer_cases accepted w part with ⟨absent, pointer⟩ | ⟨present, pointer⟩
  · exact .inl ⟨absent, by rw [File.behind, pointer]; rfl⟩
  · exact .inr ⟨present, by rw [File.behind, pointer, own]; rfl⟩

private theorem name_iff : (∀ path : CString, (nameIs (onServer w file) (some (path ++ [0#8]))).isSome) ↔
    Present bytes .name ∧ 0#8 ∈ table w bytes .name := by
  rcases behind_cases accepted w .name with ⟨absent, behind⟩ | ⟨present, behind⟩
  · simp [nameIs, behind, absent]
  · simp [nameIs, behind, present, ← strcmp_isSome]

private theorem lookup_iff {part : Part} :
    (∀ name, (injfileGetSymbol (onServer w file) part name).isSome) ↔
    (Present bytes part → Ends 32 NoSymbol 0 (table w bytes part)) := by
  rcases behind_cases accepted w part with ⟨absent, behind⟩ | ⟨present, behind⟩
  · simp [injfileGetSymbol, behind, absent]
  · simp [injfileGetSymbol, behind, present, ← getSymbol_isSome]

private theorem iteration_iff {part : Part} : (injfileIterSymbols (onServer w file) part).isSome ↔
    (Present bytes part → Ends 32 NoSymbol 0 (table w bytes part)) := by
  rcases behind_cases accepted w part with ⟨absent, behind⟩ | ⟨present, behind⟩
  · simp [injfileIterSymbols, behind, absent]
  · simp [injfileIterSymbols, behind, present, ← iterSymbols_isSome]

private theorem imports_iff : (injfileIterAllImports (onServer w file)).isSome ↔
    (Present bytes .imports → Ends 32 NoSymbol 1 (table w bytes .imports)) := by
  rcases behind_cases accepted w .imports with ⟨absent, behind⟩ | ⟨present, behind⟩
  · simp [injfileIterAllImports, behind, absent]
  · simp [injfileIterAllImports, behind, present, ← iterAllSymbols_isSome]

private theorem tpoints_iff : (injfileIterTPoints (onServer w file)).isSome ↔
    (Present bytes .tpoints → Ends 8 NoTPoint 0 (table w bytes .tpoints)) := by
  rcases behind_cases accepted w .tpoints with ⟨absent, behind⟩ | ⟨present, behind⟩
  · simp [injfileIterTPoints, behind, absent]
  · simp [injfileIterTPoints, behind, present, ← iterTPoints_isSome]

private theorem allTPoints_iff : (injfileIterAllTPoints (onServer w file)).isSome ↔
    (Present bytes .tpoints → Ends 8 NoTPoint 1 (table w bytes .tpoints)) := by
  rcases behind_cases accepted w .tpoints with ⟨absent, behind⟩ | ⟨present, behind⟩
  · simp [injfileIterAllTPoints, behind, absent]
  · simp [injfileIterAllTPoints, behind, present, ← iterAllTPoints_isSome]

private theorem comment_iff : (∀ l, (onServer w file).behind .comment = some l → (cString l).isSome) ↔
    (Present bytes .comment → 0#8 ∈ table w bytes .comment) := by
  rcases behind_cases accepted w .comment with ⟨absent, behind⟩ | ⟨present, behind⟩
  · simp [behind, absent]
  · simp [behind, present, ← cString_isSome]

private theorem code_iff : (injectedCode (onServer w file)).isSome ↔ (field 32 bytes 12 = 0#32 ∨
    Present bytes .code ∧ place w bytes .code + (field 32 bytes 12).toNat ≤ bytes.length) := by
  have size : (onServer w file).codeSize = field 32 bytes 12 := by rw [accepted_file accepted]; rfl
  rw [injectedCode, size]
  by_cases empty : field 32 bytes 12 = 0#32
  · simp [empty]
  · rw [if_neg empty, or_iff_right empty]
    rcases behind_cases accepted w .code with ⟨absent, behind⟩ | ⟨present, behind⟩
    · simp [behind, absent]
    · have some : 0 < (field 32 bytes 12).toNat :=
        Nat.pos_of_ne_zero fun zero => empty (BitVec.eq_of_toNat_eq zero)
      have length : (table w bytes .code).length = bytes.length - place w bytes .code := List.length_drop
      simp only [behind, present, true_and]
      split
      · rename_i short
        exact ⟨nofun, fun fits => absurd short (by omega)⟩
      · rename_i long
        exact ⟨fun _ => by omega, fun _ => rfl⟩

private theorem string_iff (offset : BitVec 32) : (stringAt w (onServer w file) offset).isSome ↔
    (Present bytes .strings → 0#8 ∈ bytes.drop ((place w bytes .strings + offset.toNat) % 2 ^ w)) := by
  have own : (onServer w file).bytes = bytes := by rw [accepted_file accepted]; rfl
  rcases pointer_cases accepted w .strings with ⟨absent, pointer⟩ | ⟨present, pointer⟩
  · simp [stringAt, pointer, absent]
  · simp [stringAt, pointer, present, own, ← cString_isSome]

private theorem lines_iff : (∀ offset, (addr2line w (onServer w file) offset).isSome) ↔
    (Present bytes .lines →
    ∃ n, Lines (table w bytes .lines) n ∧
      ∀ before li after, entries (table w bytes .lines) n = before ++ li :: after →
      Stops before li after →
        Present bytes .strings →
        0#8 ∈ bytes.drop ((place w bytes .strings + li.file.toNat) % 2 ^ w)) := by
  rcases behind_cases accepted w .lines with ⟨absent, behind⟩ | ⟨present, behind⟩
  · simp [addr2line, behind, absent]
  constructor
  · intro all _
    have read := all (2 ^ 31)
    rw [addr2line, behind] at read
    obtain ⟨_, answer⟩ := Option.isSome_iff_exists.mp read
    obtain ⟨_, whole, -⟩ := Option.bind_eq_some_iff.mp answer
    obtain ⟨n, lines⟩ := lines_of_walked (Option.isSome_iff_exists.mpr ⟨_, whole⟩)
    refine ⟨n, lines, fun before li after split stops => (string_iff accepted li.file).mp ?_⟩
    obtain ⟨offset, last⟩ := (exists_bound_iff fun y : LineInfo => y.addr.toInt).mpr ⟨before, after,
      split, stops⟩
    exact (addr2line_iff behind lines offset).mp (all offset) li last
  · intro ended offset
    obtain ⟨n, lines, strings⟩ := ended present
    refine (addr2line_iff behind lines offset).mpr fun li last => (string_iff accepted li.file).mpr ?_
    obtain ⟨before, after, split, stops⟩ :=
      (exists_bound_iff fun y : LineInfo => y.addr.toInt).mp ⟨offset, last⟩
    exact strings before li after split stops

end

/-- An accepted file is safe to use exactly if it is sound. -/
theorem safe_iff (accepted : injfileInit bytes = some file) : Safe w (onServer w file) ↔
    Sound w bytes := by
  constructor
  · intro safe
    exact {
      code := (code_iff accepted).mp safe.code
      name := (name_iff accepted).mp safe.name
      comment := (comment_iff accepted).mp safe.comment
      adbi := (lookup_iff accepted).mp (safe.lookup .adbi (by decide))
      exports := (lookup_iff accepted).mp (safe.lookup .exports (by decide))
      imports := (imports_iff accepted).mp safe.imports
      tpoints := (allTPoints_iff accepted).mp safe.allTPoints
      lines := (lines_iff accepted).mp safe.lines }
  · intro sound
    have tables : ∀ part ∈ symbolTables, Present bytes part →
        Ends 32 NoSymbol 0 (table w bytes part) := by
      intro part member present
      simp only [symbolTables, List.mem_cons, List.not_mem_nil, or_false] at member
      rcases member with rfl | rfl | rfl
      · exact sound.adbi present
      · exact (sound.imports present).earlier
      · exact sound.exports present
    exact {
      name := (name_iff accepted).mpr sound.name
      comment := (comment_iff accepted).mpr sound.comment
      lookup := fun part member => (lookup_iff accepted).mpr (tables part member)
      iteration := fun part member => (iteration_iff accepted).mpr (tables part member)
      imports := (imports_iff accepted).mpr sound.imports
      tpoints := (tpoints_iff accepted).mpr fun present => (sound.tpoints present).earlier
      allTPoints := (allTPoints_iff accepted).mpr sound.tpoints
      code := (code_iff accepted).mpr sound.code
      lines := (lines_iff accepted).mpr sound.lines }

/-! ## Safe files together -/

/-- Two strings with terminators are compared inside of both. -/
private theorem strcmp_both {left right : Bytes} (leftEnds : 0#8 ∈ left) (rightEnds : 0#8 ∈ right) :
    (strcmp left right).isSome := by
  induction left generalizing right with
  | nil => cases leftEnds
  | cons char rest ih =>
    cases right with
    | nil => cases rightEnds
    | cons other later =>
      rw [strcmp]
      by_cases same : char = other
      · by_cases last : char = 0#8
        · rw [if_pos same, if_pos last]
          rfl
        · rw [if_pos same, if_neg last]
          exact ih ((List.mem_cons.mp leftEnds).resolve_left (Ne.symm last))
            ((List.mem_cons.mp rightEnds).resolve_left (same ▸ Ne.symm last))
      · rw [if_neg same]
        rfl

private theorem name_of_safe (safe : Safe w file) : ∃ l, file.behind .name = some l ∧ 0#8 ∈ l := by
  cases behind : file.behind .name with
  | none =>
    have read := safe.name []
    simp [nameIs, behind] at read
  | some l =>
    have read := safe.name
    simp only [nameIs, behind, Option.bind_eq_bind, Option.bind_some] at read
    exact ⟨l, rfl, strcmp_isSome.mp read⟩

/-- The search for a binding or a library by a name that ends stays inside of safe files. -/
theorem getByName_safe {files : List File} (safe : ∀ injfile ∈ files, Safe w injfile) {l : Bytes}
    (ends : 0#8 ∈ l) :
    (injectableGetByName (some l) files).isSome := by
  induction files with
  | nil => rfl
  | cons injfile rest ih =>
    obtain ⟨own, behind, ended⟩ := name_of_safe (safe injfile List.mem_cons_self)
    obtain ⟨equal, compared⟩ := Option.isSome_iff_exists.mp (strcmp_both ended ends)
    have answer : nameIs injfile (some l) = some equal := by
      simp only [nameIs, behind, Option.bind_eq_bind, Option.bind_some, compared]
    rw [injectableGetByName, answer]
    cases equal with
    | true => rfl
    | false => exact ih fun other member => safe other (List.mem_cons_of_mem _ member)

/-- Loading a sound file besides safe ones stays inside of all of them. -/
theorem load_safe {bindings : List File} (safe : ∀ injfile ∈ bindings, Safe w injfile)
    (sound : ∀ injfile, injfileInit bytes = some injfile → Safe w (onServer w injfile)) :
    (injectableLoad w bindings bytes).isSome := by
  rw [injectableLoad]
  cases accepted : injfileInit bytes with
  | none => rfl
  | some injfile =>
    obtain ⟨l, behind, ends⟩ := name_of_safe (sound injfile accepted)
    obtain ⟨found, search⟩ := Option.isSome_iff_exists.mp (getByName_safe safe ends)
    simp only [Option.map_some, behind, search]
    cases found <;> split <;> rfl

private theorem exportingLibrary_safe {libraries : List (Nat × File)}
    (safe : ∀ node ∈ libraries, Safe w node.2) :
    (exportingLibrary name libraries).isSome := by
  induction libraries with
  | nil => rfl
  | cons node rest ih =>
    obtain ⟨found, search⟩ := Option.isSome_iff_exists.mp
      ((safe node List.mem_cons_self).lookup .exports (by decide) name)
    have later := ih fun other member => safe other (List.mem_cons_of_mem _ member)
    rw [exportingLibrary, injfileGetExport, search]
    simp only
    split
    · rfl
    · exact later

/-- The dependency search of a safe file among safe libraries stays inside of all of them. -/
theorem dependencies_safe {libraries : List (Nat × File)} (own : Safe w file)
    (safe : ∀ node ∈ libraries, Safe w node.2) :
    (injectableGetDependencies libraries file).isSome := by
  obtain ⟨symbols, read⟩ := Option.isSome_iff_exists.mp own.imports
  rw [injectableGetDependencies, read]
  simp only [Option.bind_eq_bind, Option.bind_some]
  clear read
  induction symbols with
  | nil => rfl
  | cons symbol rest ih =>
    obtain ⟨found, search⟩ := Option.isSome_iff_exists.mp (exportingLibrary_safe safe)
    obtain ⟨others, later⟩ := Option.isSome_iff_exists.mp ih
    rw [List.mapM_cons, search, later]
    rfl

/-! ## Two files -/

/-- A header without a name. -/
def bareHeader : Bytes := Injectable.magic ++ [0x10#8, 0x02#8] ++ List.replicate 78 0#8

/-- Offsets below 256 in their fields of 64 bits. -/
private def offsetFields (places : List (BitVec 8)) : Bytes :=
  places.flatMap fun place => place :: List.replicate 7 0#8

/-- A symbol with the offset 0; without a name it is the end of a table. -/
private def symbolEntry (char : BitVec 8) : Bytes := char :: List.replicate 31 0#8

/-- A tracepoint at the address 4, and the end of the table. -/
private def tpointTable : Bytes := 4#8 :: List.replicate 15 0#8

/-- The first line of the file `x`, for the address 0, and the end of the table. -/
private def lineTable : Bytes := List.replicate 8 0#8 ++ 1#8 :: List.replicate 15 0#8

/-- A file with the name `a`, four bytes of code, the string `x` and a table of every kind but
`#adbi` symbols; a comment is missing too. -/
def wholeFile : Bytes :=
  Injectable.magic ++ [0x10#8, 0x02#8, 0#8, 0#8, 4#8, 0#8, 0#8, 0#8] ++
    offsetFields [0x5a#8, 0x58#8, 0#8, 0#8, 0xa0#8, 0x60#8, 0xe0#8, 0x5e#8, 0xf0#8] ++
    [0x61#8, 0#8, 0x1e#8, 0xff#8, 0x2f#8, 0xe1#8, 0x78#8, 0#8] ++
    (symbolEntry 0x66#8 ++ symbolEntry 0#8) ++ (symbolEntry 0x67#8 ++ symbolEntry 0#8) ++
      tpointTable ++ lineTable

private theorem wholeFile_lines : Lines (table 64 wholeFile .lines) 1 := by
  refine ⟨⟨by decide, by decide +kernel⟩, fun i before => ?_⟩
  obtain rfl := Nat.lt_one_iff.mp before
  exact fun ended => absurd ended.2 (by decide +kernel)

private theorem wholeFile_entries : entries (table 64 wholeFile .lines) 1 = [⟨0#32, 0#32, 1#32⟩] :=
  by decide +kernel

/-- All that the readers look for ends in the file. -/
theorem whole_file_safe : ∃ file, injfileInit wholeFile = some file ∧ Safe 64 (onServer 64 file) := by
  obtain ⟨file, accepted⟩ := Option.isSome_iff_exists.mp (show (injfileInit wholeFile).isSome by
    decide +kernel)
  refine ⟨file, accepted, (safe_iff accepted).mpr {
    code := .inr ⟨show field 64 wholeFile 16 ≠ 0#64 by decide, by decide +kernel⟩
    name := ⟨show field 64 wholeFile 24 ≠ 0#64 by decide, by decide⟩
    comment := fun present => absurd (show field 64 wholeFile 32 = 0#64 by decide) present
    adbi := fun present => absurd (show field 64 wholeFile 40 = 0#64 by decide) present
    exports := fun _ => ⟨1, by decide, show List.head? _ = _ by decide⟩
    imports := fun _ => ⟨1, by decide, show List.head? _ = _ by decide⟩
    tpoints := fun _ => ⟨1, by decide, by decide, by decide +kernel⟩
    lines := fun _ => ⟨1, wholeFile_lines, fun before li after split _ _ => ?_⟩ }⟩
  have only : li ∈ entries (table 64 wholeFile .lines) 1 := by simp [split]
  rw [wholeFile_entries] at only
  obtain rfl := List.mem_singleton.mp only
  decide

/-- An accepted file whose name is a null pointer. -/
theorem bare_header_unsafe : ∃ file, injfileInit bareHeader = some file ∧
    ¬Safe 64 (onServer 64 file) := by
  obtain ⟨file, accepted⟩ := Option.isSome_iff_exists.mp (show (injfileInit bareHeader).isSome by decide)
  refine ⟨file, accepted, fun safe => ?_⟩
  obtain ⟨present, -⟩ := (name_iff accepted).mp safe.name
  exact present (by decide)

end Adbi.InjfileSafetyProofs
