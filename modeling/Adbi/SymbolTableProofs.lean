import Adbi.InjfileProofs
import Adbi.InjfileLookup

/-! A symbol entry has 28 bytes of a name, and the server searches with 28 bytes
of the name it looks for. A name needs its terminator in these bytes to be found
alone, and the empty name ends the table. -/
namespace Adbi.SymbolTableProofs
open Adbi.Lib Adbi.Injfile Adbi.Injfile.Injectable Adbi.InjfileLookup Adbi.InjfileProofs
open Adbi.Payload (CString)
open Adbi.Client (packUnsigned_some)

variable {inj : Injectable} {bytes header rest : Bytes} {file : File} {name : CString}
  {symbol : CString × Int}
  {symbols : List (CString × Int)} {blocks : List Bytes}

/-- The offset of a symbol, as the server has it. -/
def serverOffset (symbol : CString × Int) : Int := (BitVec.ofInt 32 symbol.2).toInt

/-- The entry that a search stops at. -/
def hit (name : CString) (symbols : List (CString × Int)) : Option (CString × Int) :=
  symbols.find? fun s => name.take 28 = s.1.take 28

/-! ## One entry -/

/-- The comparison sees as many bytes of the name as the field has. -/
private theorem strncmp_field (n : Nat) {m : Nat} (enough : n ≤ m) (name other : CString)
    (plain : 0#8 ∉ name) (clean : 0#8 ∉ other)
    (tail : Bytes) : strncmp n name ((other ++ List.replicate m 0#8).take n ++ tail) =
      some (decide (name.take n = other.take n)) := by
  induction n generalizing name other m with
  | zero => rfl
  | succ n ih =>
    obtain ⟨m, rfl⟩ : ∃ k, m = k + 1 := ⟨m - 1, by omega⟩
    cases other with
    | nil =>
      cases name with
      | nil => rfl
      | cons char later =>
        have different : char ≠ 0#8 := fun zero => plain (zero ▸ List.mem_cons_self)
        simp [List.replicate_succ, strncmp, different]
    | cons byte others =>
      have nonzero : byte ≠ 0#8 := fun zero => clean (zero ▸ List.mem_cons_self)
      cases name with
      | nil => simp [strncmp, nonzero]
      | cons char later =>
        rw [List.cons_append, List.take_succ_cons, List.cons_append, strncmp]
        by_cases same : char = byte
        · rw [if_pos same, ih (by omega) later others (fun member =>
            plain (List.mem_cons_of_mem _ member))
            fun member => clean (List.mem_cons_of_mem _ member)]
          simp [same]
        · simp [same]

/-- An entry, of a name of any length. -/
private theorem entry_some (packed : packSymbol symbol = some bytes) : Fits symbol.2 ∧
    bytes = (symbol.1 ++ List.replicate 28 0#8).take 28 ++ littleEndian (BitVec.ofInt 32 symbol.2) := by
  unfold packSymbol at packed
  obtain ⟨number, offset, rfl⟩ := Option.map_eq_some_iff.mp packed
  obtain ⟨fits, rfl⟩ := packUnsigned_some offset
  exact ⟨fits, rfl⟩

private theorem field_length (name : CString) :
    ((name ++ List.replicate 28 0#8).take 28).length = 28 := by
  simp

/-- What the server sees of an entry with a name. -/
private structure Seen (symbol : CString × Int) (bytes tail : Bytes) : Prop where
  first : ∃ char, (bytes ++ tail).head? = some char ∧ char ≠ 0#8
  compared : ∀ name, 0#8 ∉ name →
      strncmp 28 name (bytes ++ tail) = some (decide (name.take 28 = symbol.1.take 28))
  length : ¬(bytes ++ tail).length < 32
  offset : (field 32 (bytes ++ tail) 28).toInt = serverOffset symbol
  later : (bytes ++ tail).drop 32 = tail

private theorem entry_seen (packed : packSymbol symbol = some bytes) (nonempty : symbol.1 ≠ [])
    (plain : 0#8 ∉ symbol.1) (tail : Bytes) :
    Seen symbol bytes tail := by
  obtain ⟨-, rfl⟩ := entry_some packed
  have front := field_length symbol.1
  constructor
  · obtain ⟨char, later, eq⟩ := List.exists_cons_of_ne_nil nonempty
    exact ⟨char, by simp [eq], fun zero => plain (by simp [eq, zero])⟩
  · intro name clean
    rw [List.append_assoc]
    exact strncmp_field 28 (Nat.le_refl 28) name symbol.1 clean plain _
  · simp
    omega
  · rw [field_of_drop (by decide) tail (by rw [List.append_assoc, List.drop_left' front])]
    rfl
  · exact List.drop_left' (by simp)

/-! ## A whole table -/

private theorem terminator_seen (packed : packSymbol ([], 0) = some bytes) (tail : Bytes) :
    (bytes ++ tail).head? = some 0#8 ∧ 0#8 ∈ bytes := by
  obtain ⟨-, rfl⟩ := entry_some packed
  exact ⟨rfl, List.mem_append_left _ (by simp)⟩

private theorem split_table (packed : (symbol :: symbols ++ [([], 0)]).mapM packSymbol = some blocks) :
    ∃ block later, blocks = block :: later ∧ packSymbol symbol = some block ∧
    (symbols ++ [([], 0)]).mapM packSymbol = some later := by
  simp only [List.cons_append, List.mapM_cons, Option.bind_eq_bind, Option.bind_eq_some_iff] at packed
  obtain ⟨block, first, later, others, eq⟩ := packed
  cases eq
  exact ⟨block, later, rfl, first, others⟩

private theorem last_table (packed : [(([] : CString), (0 : Int))].mapM packSymbol = some blocks) :
    ∃ block, blocks = [block] ∧ packSymbol ([], 0) = some block := by
  simp only [List.mapM_cons, List.mapM_nil, Option.bind_eq_bind, Option.bind_eq_some_iff] at packed
  obtain ⟨block, first, _, last, eq⟩ := packed
  cases last
  cases eq
  exact ⟨block, rfl, first⟩

private theorem table_fits (packed : (symbols ++ [([], 0)]).mapM packSymbol = some blocks) :
    ∀ s ∈ symbols, Fits s.2 := by
  induction symbols generalizing blocks with
  | nil => simp
  | cons symbol symbols ih =>
    obtain ⟨block, later, rfl, first, others⟩ := split_table packed
    intro s member
    rcases List.mem_cons.mp member with rfl | member
    · exact (entry_some first).1
    · exact ih others s member

/-- A search walks the table up to its hit. -/
theorem get_walked (packed : (symbols ++ [([], 0)]).mapM packSymbol = some blocks)
    (nonempty : ∀ s ∈ symbols, s.1 ≠ [])
    (plain : ∀ s ∈ symbols, 0#8 ∉ s.1) (clean : 0#8 ∉ name) (rest : Bytes) :
    getSymbol name (blocks.flatten ++ rest) =
      some (((hit name symbols).map serverOffset).getD (-1)) := by
  induction symbols generalizing blocks with
  | nil =>
    obtain ⟨block, rfl, first⟩ := last_table packed
    rw [getSymbol, List.flatten_singleton, (terminator_seen first rest).1]
    rfl
  | cons symbol symbols ih =>
    obtain ⟨block, later, rfl, first, others⟩ := split_table packed
    have walked := ih others (fun s member => nonempty s (List.mem_cons_of_mem _ member))
      fun s member => plain s (List.mem_cons_of_mem _ member)
    have seen := entry_seen first (nonempty symbol List.mem_cons_self)
      (plain symbol List.mem_cons_self) (later.flatten ++ rest)
    obtain ⟨char, head, nonzero⟩ := seen.first
    rw [getSymbol, List.flatten_cons, List.append_assoc]
    simp only [head, if_neg nonzero, seen.compared name clean, if_neg seen.length, seen.offset,
      seen.later, walked]
    by_cases same : name.take 28 = symbol.1.take 28
    · simp [hit, same]
    · simp [hit, same]

/-- The iteration has an entry with the offset of every symbol, whatever name it sees there. -/
theorem iterated_offsets (packed : (symbols ++ [([], 0)]).mapM packSymbol = some blocks)
    (nonempty : ∀ s ∈ symbols, s.1 ≠ [])
    (plain : ∀ s ∈ symbols, 0#8 ∉ s.1) (rest : Bytes) :
    0#8 ∈ blocks.flatten ∧ ∃ entries, iterSymbols (blocks.flatten ++ rest) = some entries ∧
      entries.map Prod.snd = symbols.map serverOffset := by
  induction symbols generalizing blocks with
  | nil =>
    obtain ⟨block, rfl, first⟩ := last_table packed
    obtain ⟨head, ended⟩ := terminator_seen first rest
    obtain ⟨later, starts⟩ : ∃ later, block ++ rest = 0#8 :: later := List.head?_eq_some_iff.mp head
    refine ⟨by simpa using ended, [], ?_, rfl⟩
    rw [iterSymbols, List.flatten_singleton, starts]
    simp [cString]
  | cons symbol symbols ih =>
    obtain ⟨block, later, rfl, first, others⟩ := split_table packed
    obtain ⟨ended, entries, walked, same⟩ :=
      ih others (fun s member => nonempty s (List.mem_cons_of_mem _ member))
      fun s member => plain s (List.mem_cons_of_mem _ member)
    have seen := entry_seen first (nonempty symbol List.mem_cons_self)
      (plain symbol List.mem_cons_self) (later.flatten ++ rest)
    obtain ⟨char, head, nonzero⟩ := seen.first
    obtain ⟨others, starts⟩ : ∃ others, block ++ (later.flatten ++ rest) = char :: others :=
      List.head?_eq_some_iff.mp head
    have inside : 0#8 ∈ block ++ (later.flatten ++ rest) :=
      List.mem_append_right _ (List.mem_append_left _ ended)
    obtain ⟨text, found⟩ := Option.isSome_iff_exists.mp (cString_isSome.mpr inside)
    have filled : text.isEmpty = false := by
      rw [starts, cString, if_neg nonzero] at found
      obtain ⟨_, _, rfl⟩ := Option.map_eq_some_iff.mp found
      rfl
    refine ⟨by rw [List.flatten_cons]; exact List.mem_append_right _ ended,
      (text, serverOffset symbol) :: entries, ?_, by simp [same]⟩
    rw [iterSymbols, List.flatten_cons, List.append_assoc]
    simp only [found, filled, if_neg seen.length, seen.later, walked, seen.offset]
    rfl

/-! ## The table of a dictionary -/

/-- The table of a dictionary, read back by the iteration and by the search. -/
structure RoundTrip (symbols : Dict CString Int) (entries : Option (List (CString × Int)))
    (lookup : CString → Option Int) : Prop where
  iterated : Reads entries symbols
  found : ∀ s ∈ symbols.items, lookup s.1 = some s.2
  missing : ∀ name, 0#8 ∉ name → (∀ s ∈ symbols.items, s.1 ≠ name) → lookup name = some (-1)

/-- A symbol that the table can hold: a name with its terminator, and an offset
that is not negative for the server. -/
structure Holdable (symbol : CString × Int) : Prop where
  nonempty : symbol.1 ≠ []
  short : symbol.1.length ≤ 27
  offset : symbol.2 < 2 ^ 31

private theorem serverOffset_nonneg (fits : Fits symbol.2) : 0 ≤ serverOffset symbol ↔
    symbol.2 < 2 ^ 31 := by
  obtain ⟨low, high⟩ := fits
  rw [serverOffset, BitVec.toInt_ofInt, Int.bmod]
  omega

private theorem serverOffset_of_small (fits : Fits symbol.2) (small : symbol.2 < 2 ^ 31) :
    serverOffset symbol = symbol.2 := by
  obtain ⟨low, high⟩ := fits
  rw [serverOffset, BitVec.toInt_ofInt, Int.bmod_eq_of_le (by omega) (by omega)]

private theorem eq_of_take (other : CString) (short : other.length ≤ 27)
    (same : name.take 28 = other.take 28) : name = other := by
  have whole : other.take 28 = other := List.take_of_length_le (by omega)
  have length := congrArg List.length (same.trans whole)
  rw [List.length_take] at length
  rwa [whole, List.take_of_length_le (by omega)] at same

/-- The empty name is never found. -/
theorem empty_not_found (bytes : Bytes) {found : Int} (search : getSymbol [] bytes = some found) :
    found = -1 := by
  induction size : bytes.length using Nat.strong_induction_on generalizing bytes with
  | h n ih =>
    rw [getSymbol] at search
    cases bytes with
    | nil => cases search
    | cons first later =>
      simp only [List.head?_cons, strncmp] at search
      by_cases zero : first = 0#8
      · rw [if_pos zero] at search
        exact (Option.some.inj search).symm
      · have different : (first == 0#8) = false := beq_eq_false_iff_ne.mpr zero
        simp only [if_neg zero, different] at search
        split at search
        · cases search
        · subst size
          exact ih _ (by rw [List.length_drop, List.length_cons]; omega) _ search rfl

private theorem hit_mem {d : Dict CString Int} (found : hit name d.sorted = some symbol) :
    symbol ∈ d.items ∧ name.take 28 = symbol.1.take 28 :=
  ⟨(sorted_perm d).mem_iff.mp (List.mem_of_find?_eq_some found), by simpa using List.find?_some found⟩

private theorem longest_name (symbols : List (CString × Int)) : ∃ n, ∀ s ∈ symbols, s.1.length ≤ n := by
  induction symbols with
  | nil => exact ⟨0, by simp⟩
  | cons first later ih =>
    obtain ⟨n, bound⟩ := ih
    refine ⟨n + first.1.length, fun s member => ?_⟩
    rcases List.mem_cons.mp member with rfl | member
    · omega
    · exact Nat.le_trans (bound s member) (Nat.le_add_right _ _)

section Dictionary
variable {d : Dict CString Int} {element : Bytes} (plain : ∀ s ∈ d.items, 0#8 ∉ s.1)
  (packed : symtabBin d = some element)
include packed

theorem dictionary_fits : ∀ s ∈ d.items, Fits s.2 := by
  intro s member
  obtain ⟨blocks, made, -⟩ := Option.map_eq_some_iff.mp packed
  exact table_fits made s ((sorted_perm d).mem_iff.mpr member)

include plain

private theorem dictionary_walked (nonempty : ∀ s ∈ d.items, s.1 ≠ []) (clean : 0#8 ∉ name)
    (rest : Bytes) :
    getSymbol name (element ++ rest) = some (((hit name d.sorted).map serverOffset).getD (-1)) := by
  obtain ⟨blocks, made, rfl⟩ := Option.map_eq_some_iff.mp packed
  exact get_walked made (fun s member => nonempty s ((sorted_perm d).mem_iff.mp member))
    (fun s member => plain s ((sorted_perm d).mem_iff.mp member)) clean rest

/-- A table of holdable symbols is read back. -/
theorem round_trip_of_holdable (holdable : ∀ s ∈ d.items, Holdable s) (rest : Bytes) :
    RoundTrip d (iterSymbols (element ++ rest)) fun name => getSymbol name (element ++ rest) := by
  have fits := dictionary_fits packed
  have nonempty (s) (member : s ∈ d.items) : s.1 ≠ [] := (holdable s member).nonempty
  constructor
  · obtain ⟨range, server, -⟩ :=
      symtab_read (fun s member => ⟨nonempty s member, (holdable s member).short, plain s member⟩)
        packed rest
    refine ⟨d.sorted, ?_, sorted_perm d⟩
    rw [server, signed_of_small range fun s member =>
      (holdable s ((sorted_perm d).mem_iff.mp member)).offset]
  · intro s member
    obtain ⟨t, found⟩ : ∃ t, hit s.1 d.sorted = some t :=
      Option.isSome_iff_exists.mp
        (List.find?_isSome.mpr ⟨s, (sorted_perm d).mem_iff.mpr member, by simp⟩)
    obtain ⟨inside, same⟩ := hit_mem found
    have here : t = s := List.inj_on_of_nodup_map d.distinct inside member
      (eq_of_take t.1 (holdable t inside).short same).symm
    show getSymbol s.1 (element ++ rest) = _
    rw [dictionary_walked plain packed nonempty (plain s member) rest, found, here, Option.map_some,
      Option.getD_some,
      serverOffset_of_small (fits s member) (holdable s member).offset]
  · intro name clean absent
    have nothing : hit name d.sorted = none := by
      cases found : hit name d.sorted with
      | none => rfl
      | some t =>
        obtain ⟨inside, same⟩ := hit_mem found
        exact absurd (eq_of_take t.1 (holdable t inside).short same).symm (absent t inside)
    show getSymbol name (element ++ rest) = _
    rw [dictionary_walked plain packed nonempty clean rest, nothing]
    rfl

private theorem small_of_round_trip (nonempty : ∀ s ∈ d.items, s.1 ≠ []) (rest : Bytes)
    (reads : Reads (iterSymbols (element ++ rest)) d) : ∀ s ∈ d.items, s.2 < 2 ^ 31 := by
  have fits := dictionary_fits packed
  obtain ⟨blocks, made, rfl⟩ := Option.map_eq_some_iff.mp packed
  obtain ⟨-, entries, walked, offsets⟩ :=
    iterated_offsets made (fun s member => nonempty s ((sorted_perm d).mem_iff.mp member))
    (fun s member => plain s ((sorted_perm d).mem_iff.mp member)) rest
  obtain ⟨same, read, perm⟩ := reads
  cases walked.symm.trans read
  intro s member
  have listed : serverOffset s ∈ entries.map Prod.snd :=
    offsets ▸ List.mem_map_of_mem ((sorted_perm d).mem_iff.mpr member)
  obtain ⟨t, inside, eq⟩ := List.mem_map.mp ((perm.map Prod.snd).mem_iff.mp listed)
  exact (serverOffset_nonneg (fits s member)).mp (eq ▸ (fits t inside).1)

/-- A name of 28 bytes or more is also found under longer names. -/
private theorem short_of_round_trip (nonempty : ∀ s ∈ d.items, s.1 ≠ [])
    (small : ∀ s ∈ d.items, s.2 < 2 ^ 31) (rest : Bytes)
    (missing : ∀ name, 0#8 ∉ name → (∀ s ∈ d.items, s.1 ≠ name) →
      getSymbol name (element ++ rest) = some (-1)) :
    ∀ s ∈ d.items, s.1.length ≤ 27 := by
  intro s member
  by_contra long
  obtain ⟨n, bound⟩ := longest_name d.items
  have clean : 0#8 ∉ s.1 ++ List.replicate (n + 1) 1#8 := by
    simp [plain s member]
  have absent : ∀ t ∈ d.items, t.1 ≠ s.1 ++ List.replicate (n + 1) 1#8 := by
    intro t inside same
    have length := congrArg List.length same
    have limit := bound t inside
    simp at length
    omega
  have lost := missing _ clean absent
  obtain ⟨t, found⟩ : ∃ t, hit (s.1 ++ List.replicate (n + 1) 1#8) d.sorted = some t :=
    Option.isSome_iff_exists.mp (List.find?_isSome.mpr ⟨s, (sorted_perm d).mem_iff.mpr member,
      decide_eq_true (List.take_append_of_le_length (by omega))⟩)
  obtain ⟨inside, -⟩ := hit_mem found
  have fits := dictionary_fits packed t inside
  rw [dictionary_walked plain packed nonempty clean rest, found, Option.map_some,
    Option.getD_some] at lost
  have negative := Option.some.inj lost
  have nonneg := (serverOffset_nonneg fits).mpr (small t inside)
  omega

/-- Only a table of holdable symbols is read back. -/
theorem holdable_of_round_trip (rest : Bytes)
    (trip : RoundTrip d (iterSymbols (element ++ rest)) fun name =>
      getSymbol name (element ++ rest)) : ∀ s ∈ d.items, Holdable s := by
  have nonempty (s) (member : s ∈ d.items) : s.1 ≠ [] := by
    intro empty
    have negative := empty_not_found _ (empty ▸ trip.found s member)
    have low := (dictionary_fits packed s member).1
    omega
  have small := small_of_round_trip plain packed nonempty rest trip.iterated
  have short := short_of_round_trip plain packed nonempty small rest trip.missing
  exact fun s member => ⟨nonempty s member, short s member, small s member⟩

end Dictionary

/-! ## The file -/

/-- The tables of symbols in a file. -/
inductive Table where
  | adbi | imports | exports

def Table.part : Table → Part
  | .adbi => .adbi
  | .imports => .imports
  | .exports => .exports

def Table.dictionary (inj : Injectable) : Table → Dict CString Int
  | .adbi => inj.adbi
  | .imports => inj.imports
  | .exports => inj.exports

/-- The table of the file, read back by the server. -/
def ReadBack (inj : Injectable) (file : File) (table : Table) : Prop :=
  RoundTrip (table.dictionary inj) (injfileIterSymbols file table.part)
    (injfileGetSymbol file table.part)

/-- The file is the one of the injectable, as the server has it. -/
theorem file_written (written : inj.image = some bytes) (read : injfileInit bytes = some file) :
    Packed inj ∧ ∃ header, HeaderWritten inj header ∧ file = fileOf inj header := by
  obtain ⟨packed, header, made, rfl⟩ := image_some written
  have headed := header_some packed made
  exact ⟨packed, header, headed, (Option.some.inj ((init_written headed).symm.trans read)).symm⟩

private theorem table_located (table : Table) (written : inj.image = some bytes)
    (read : injfileInit bytes = some file) :
    (∃ element rest, symtabBin (table.dictionary inj) = some element ∧ file.behind table.part =
      some (element ++ rest)) ∨
    ((table.dictionary inj).items = [] ∧ file.behind table.part = none) := by
  obtain ⟨packed, header, headed, rfl⟩ := file_written written read
  have same : inj.bin table.part = symtabBin (table.dictionary inj) ∧ inj.stored table.part =
      !(table.dictionary inj).items.isEmpty := by
    cases table
    case adbi => exact ⟨rfl, rfl⟩
    case imports => exact ⟨rfl, rfl⟩
    case exports => exact ⟨rfl, rfl⟩
  rcases behind_file packed headed table.part with ⟨-, element, rest, made, behind⟩ | ⟨missing, behind⟩
  · exact .inl ⟨element, rest, same.1 ▸ made, behind⟩
  · exact .inr ⟨by simpa [same.2] using missing, behind⟩

/-- An injectable that exports one function at the start of its code. -/
def exporting (name : CString) : Injectable :=
  { InjfileProofs.library (List.replicate 4 0#8) 0 with exports := ⟨[(name, 0)], by simp⟩ }

theorem exporting_written (name : CString) : ∃ bytes, (exporting name).image = some bytes := by
  have strings : (exporting name).strings = [] :=
    by simp [Injectable.strings, exporting, InjfileProofs.library, List.dedup_nil]
  have numbers : Numbers (exporting name) := by
    refine ⟨by simp [exporting, InjfileProofs.library], by simp [exporting, InjfileProofs.library],
      by simp [exporting, InjfileProofs.library], by simp [exporting, InjfileProofs.library], ?_,
      by simp [exporting, InjfileProofs.library], by simp [exporting, InjfileProofs.library], by
        simp [strings]⟩
    intro s member
    rw [List.mem_singleton.mp member]
    exact zero_fits
  refine image_of_numbers numbers ?_
  rw [elementsSize, strings]
  simp only [headerSize, exporting, InjfileProofs.library, List.length_cons, List.length_nil,
    List.length_replicate]
  omega

theorem exporting_read (name : CString) : ∃ bytes file, (exporting name).image = some bytes ∧
    injfileInit bytes = some file := by
  obtain ⟨bytes, written⟩ := exporting_written name
  obtain ⟨packed, header, made, rfl⟩ := image_some written
  exact ⟨_, _, written, init_written (header_some packed made)⟩

/-- A table is read back whole exactly when all its symbols can be held. -/
theorem holdable_iff (table : Table) (plain : ∀ s ∈ (table.dictionary inj).items, 0#8 ∉ s.1)
    (written : inj.image = some bytes)
    (read : injfileInit bytes = some file) : ReadBack inj file table ↔
    ∀ s ∈ (table.dictionary inj).items, Holdable s := by
  unfold ReadBack injfileIterSymbols injfileGetSymbol
  rcases table_located table written read with ⟨element, rest, packed, behind⟩ | ⟨empty, behind⟩
  · simp only [behind]
    exact ⟨holdable_of_round_trip plain packed rest,
      fun holdable => round_trip_of_holdable plain packed holdable rest⟩
  · simp only [behind, empty, List.not_mem_nil, false_implies, implies_true, iff_true]
    exact ⟨no_items (by rw [empty]; rfl), by simp [empty], fun _ _ _ => rfl⟩

/-- The table of a function with a short name is read back. -/
theorem short_name_read_back : ∃ bytes file, (exporting [0x66#8]).image = some bytes ∧
    injfileInit bytes = some file ∧
    ReadBack (exporting [0x66#8]) file .exports := by
  obtain ⟨bytes, file, written, read⟩ := exporting_read [0x66#8]
  have holdable : ∀ s ∈ (Table.exports.dictionary (exporting [0x66#8])).items, Holdable s := by
    intro s member
    obtain rfl : s = ([0x66#8], 0) := List.mem_singleton.mp member
    exact ⟨by simp, by decide, by decide⟩
  exact ⟨bytes, file, written, read,
    (holdable_iff .exports (by simp [Table.dictionary, exporting]) written read).mpr holdable⟩

/-- A name of 28 bytes is found under every longer name that begins with it. -/
theorem long_name_shared : ¬∀ (inj : Injectable) (bytes : Bytes) (file : File) (table : Table),
    (∀ s ∈ (table.dictionary inj).items, 0#8 ∉ s.1) → inj.image = some bytes →
    injfileInit bytes = some file →
    ReadBack inj file table := by
  intro all
  obtain ⟨bytes, file, written, read⟩ := exporting_read (List.replicate 28 0x61#8)
  have plain : ∀ s ∈ (Table.exports.dictionary (exporting (List.replicate 28 0x61#8))).items,
      0#8 ∉ s.1 := by
    simp [Table.dictionary, exporting]
  have trip := all _ bytes file .exports plain written read
  rcases table_located .exports written read with ⟨element, rest, packed, behind⟩ | ⟨empty, -⟩
  · unfold ReadBack injfileIterSymbols injfileGetSymbol at trip
    simp only [behind] at trip
    have short := (holdable_of_round_trip plain packed rest trip _ List.mem_cons_self).short
    simp at short
  · cases empty

end Adbi.SymbolTableProofs
