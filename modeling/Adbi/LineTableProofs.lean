import Adbi.SymbolTableProofs
import Adbi.Lib.SortedSearch
import Mathlib.Data.Int.Order.Basic

/-! The line table of a file, read back. The writer sorts addresses of 32 bits
without a sign and the server compares them with one, and a file name is found by
a search in the text of all names, which may hit the inside of another name. -/
namespace Adbi.LineTableProofs
open Adbi.Lib Adbi.Injfile Adbi.Injfile.Injectable Adbi.InjfileLookup Adbi.InjfileProofs
  Adbi.SymbolTableProofs
open Adbi.Payload (CString)
open Adbi.Client (packUnsigned packUnsigned_some)

variable {inj : Injectable} {bytes rest header : Bytes} {file : File} {offset : Int}

/-- An item of the line table: an address, and the file and line there. -/
abbrev Line := Int × CString × Int

/-! ## Entries -/

/-- An entry, as the server has it. -/
def infoOf (inj : Injectable) (line : Line) : LineInfo :=
  ⟨BitVec.ofInt 32 line.1, BitVec.ofNat 32 ((inj.getStringOffset line.2.1).getD 0),
    BitVec.ofInt 32 line.2.2⟩

theorem packLine_some {addr place number : Int} (packed : packLine addr place number = some bytes) :
    Fits addr ∧ Fits place ∧ Fits number ∧
      bytes = littleEndian (BitVec.ofInt 32 addr) ++ littleEndian (BitVec.ofInt 32 place) ++
        littleEndian (BitVec.ofInt 32 number) := by
  unfold packLine at packed
  simp only [Option.bind_eq_bind, Option.bind_eq_some_iff] at packed
  obtain ⟨_, address, _, position, _, line, eq⟩ := packed
  obtain ⟨addressFits, rfl⟩ := packUnsigned_some address
  obtain ⟨placeFits, rfl⟩ := packUnsigned_some position
  obtain ⟨numberFits, rfl⟩ := packUnsigned_some line
  exact ⟨addressFits, placeFits, numberFits, (Option.some.inj eq).symm⟩

private theorem line_parts (addr place number : BitVec 32) (tail : Bytes) :
    let entry := littleEndian addr ++ littleEndian place ++ littleEndian number ++ tail
    entry.drop 12 = tail ∧ lineInfo entry = ⟨addr, place, number⟩ ∧ ¬entry.length < 12 := by
  refine ⟨List.drop_left' (by simp), ?_, by simp; omega⟩
  unfold lineInfo
  congr 1
  · exact field_of_drop (by decide) (littleEndian place ++ littleEndian number ++ tail)
      (by simp only [List.drop_zero, List.append_assoc])
  · exact field_of_drop (by decide) (littleEndian number ++ tail)
      (by rw [List.append_assoc, List.append_assoc, List.drop_left' (by simp)])
  · exact field_of_drop (by decide) tail (by rw [List.append_assoc, List.drop_left' (by simp)])

private theorem line_nonzero (addr place : BitVec 32) {number : Int} (fits : Fits number)
    (positive : 1 ≤ number) :
    addr ||| place ||| BitVec.ofInt 32 number ≠ 0#32 := by
  intro zero
  have last := (BitVec.or_eq_zero_iff.mp zero).2
  have value := congrArg BitVec.toNat last
  rw [BitVec.toNat_ofInt] at value
  obtain ⟨low, high⟩ := fits
  simp at value
  omega

/-! ## The walk -/

/-- The server goes on behind an entry. -/
def passes (offset : Int) (line : Line) : Bool := decide ((BitVec.ofInt 32 line.1).toInt ≤ offset)

/-- The item whose entry the server answers with. -/
def answer (offset : Int) (lines : List Line) : Option Line := (lines.takeWhile (passes offset)).getLast?

private theorem ended (packed : packLine 0 0 0 = some bytes) (previous : Option LineInfo) :
    lineBefore offset previous (bytes ++ rest) = some previous := by
  obtain ⟨-, -, -, rfl⟩ := packLine_some packed
  obtain ⟨-, info, length⟩ := line_parts (BitVec.ofInt 32 0) (BitVec.ofInt 32 0) (BitVec.ofInt 32 0) rest
  rw [lineBefore, if_neg length]
  simp only [info]
  rfl

/-- The walk over a written table. -/
theorem walked (offset : Int) (rest : Bytes) {lines : List Line} {blocks : List Bytes} {last : Bytes}
    (positive : ∀ l ∈ lines, 1 ≤ l.2.2) (previous : Option LineInfo)
    (packed : lines.mapM (fun l => do packLine l.1 (← inj.getStringOffset l.2.1) l.2.2) = some blocks)
    (terminated : packLine 0 0 0 = some last) :
    (∀ l ∈ lines, Fits l.1 ∧ Fits l.2.2 ∧ (inj.getStringOffset l.2.1).getD 0 < 2 ^ 32) ∧
    lineBefore offset previous (blocks.flatten ++ (last ++ rest)) =
      some (((answer offset lines).map (infoOf inj)).or previous) := by
  induction lines generalizing blocks previous with
  | nil =>
    cases packed
    exact ⟨by simp, ended terminated previous⟩
  | cons line later ih =>
    simp only [List.mapM_cons, Option.bind_eq_bind, Option.bind_eq_some_iff] at packed
    obtain ⟨block, ⟨place, found, entry⟩, blocks, others, eq⟩ := packed
    cases eq
    obtain ⟨addrFits, placeFits, lineFits, rfl⟩ := packLine_some entry
    have number : BitVec.ofInt 32 (place : Int) =
        BitVec.ofNat 32 ((inj.getStringOffset line.2.1).getD 0) := by
      rw [found, Option.getD_some, BitVec.ofInt_natCast]
    obtain ⟨behind, info, length⟩ :=
      line_parts (BitVec.ofInt 32 line.1) (BitVec.ofInt 32 place) (BitVec.ofInt 32 line.2.2)
      (blocks.flatten ++ (last ++ rest))
    have same : (⟨BitVec.ofInt 32 line.1, BitVec.ofInt 32 place,
        BitVec.ofInt 32 line.2.2⟩ : LineInfo) = infoOf inj line := by
      rw [number]
      rfl
    obtain ⟨fits, continued⟩ := ih (fun l member => positive l (List.mem_cons_of_mem _ member))
      (some (infoOf inj line)) others
    refine ⟨fun l member => ?_, ?_⟩
    · rcases List.mem_cons.mp member with rfl | member
      · refine ⟨addrFits, lineFits, ?_⟩
        rw [found, Option.getD_some]
        exact_mod_cast placeFits.2
      · exact fits l member
    rw [lineBefore, List.flatten_cons, List.append_assoc, if_neg length]
    simp only [info, behind, if_neg (line_nonzero _ _ lineFits (positive line List.mem_cons_self))]
    by_cases further : (BitVec.ofInt 32 line.1).toInt ≤ offset
    · have pass : passes offset line = true := decide_eq_true further
      rw [if_neg (Int.not_lt.mpr further), same, continued, answer, answer,
        List.takeWhile_cons, if_pos pass]
      cases rested : later.takeWhile (passes offset) with
      | nil => rfl
      | cons next others => simp [List.getLast?_cons]
    · have stop : passes offset line = false := decide_eq_false further
      rw [if_pos (Int.not_le.mp further), answer, List.takeWhile_cons, stop]
      rfl

/-! ## File names -/

/-- A name stands in the text as another one, if a search for it leads to that one. -/
def StandsAs (text : Bytes) (name other : CString) : Prop :=
  ∃ i after, FirstAt name text i ∧ text.drop i = other ++ 0#8 :: after ∧ 0#8 ∉ other

private theorem cString_terminated {text : CString} (terminated : 0#8 ∈ bytes)
    (found : cString (bytes ++ rest) = some text) :
    0#8 ∉ text ∧ ∃ after, bytes = text ++ 0#8 :: after := by
  induction bytes generalizing text with
  | nil => cases terminated
  | cons char later ih =>
    rw [List.cons_append, cString] at found
    split at found
    · rename_i zero
      cases found
      exact ⟨List.not_mem_nil, later, by rw [zero]; rfl⟩
    · rename_i nonzero
      obtain ⟨others, followed, rfl⟩ := Option.map_eq_some_iff.mp found
      obtain ⟨plain, after, eq⟩ :=
        ih ((List.mem_cons.mp terminated).resolve_left fun same => nonzero same.symm) followed
      refine ⟨fun member => ?_, after, by rw [eq]; rfl⟩
      rcases List.mem_cons.mp member with same | member
      · exact nonzero same.symm
      · exact plain member

/-- What the server reads at the offset of a name. -/
theorem read_iff_standsAs {line : Line} (member : line ∈ inj.lines.items) (rest : Bytes)
    (other : CString) :
    cString ((inj.strings ++ rest).drop ((inj.getStringOffset line.2.1).getD 0)) = some other ↔
    StandsAs inj.strings line.2.1 other := by
  obtain ⟨i, found, inside, first, terminated⟩ := getStringOffset_some member
  rw [found, Option.getD_some, List.drop_append_of_le_length inside]
  constructor
  · intro read
    obtain ⟨plain, after, eq⟩ := cString_terminated terminated read
    exact ⟨i, after, first, eq, plain⟩
  · rintro ⟨j, after, firstHere, eq, plain⟩
    have same : j = i := by
      rcases Nat.lt_trichotomy j i with below | same | above
      · exact absurd firstHere.here (first.first j below)
      · exact same
      · exact absurd first.here (firstHere.first i above)
    rw [← same, eq, List.append_assoc]
    exact cString_written plain

/-! ## The greatest address -/

/-- The item with the greatest mapped address that is not behind the offset. -/
structure Greatest (items : List Line) (offset : Int) (line : Line) : Prop where
  mapped : line ∈ items
  reached : line.1 ≤ offset
  greatest : ∀ other ∈ items, other.1 ≤ offset → other.1 ≤ line.1

/-- An address that the server has as a negative number. -/
def Far (line : Line) : Prop := 2 ^ 31 ≤ line.1

/-- A walk that goes on behind the item passes all near ones, and then the far ones too. -/
def Overruns (items : List Line) (line : Line) : Prop :=
  (∃ far ∈ items, Far far) ∧ ∀ near ∈ items, ¬Far near → near.1 ≤ line.1

/-- The item whose entry the server answers with for the address of an item. -/
def Serves (items : List Line) (line entry : Line) : Prop :=
  (Overruns items line → ∀ other ∈ items, other.1 ≤ entry.1) ∧ (¬Overruns items line → entry = line)

private theorem passes_near {line : Line} (fits : Fits line.1) (near : ¬Far line) :
    passes offset line = decide (line.1 ≤ offset) := by
  have below : line.1 < 2 ^ 31 := Int.not_le.mp near
  have low := fits.1
  rw [passes, BitVec.toInt_ofInt, Int.bmod_eq_of_le (by omega) (by omega)]

private theorem passes_far {line : Line} (fits : Fits line.1) (far : Far line)
    (nonneg : 0 ≤ offset) : passes offset line = true := by
  have above : 2 ^ 31 ≤ line.1 := far
  have high := fits.2
  refine decide_eq_true ?_
  rw [BitVec.toInt_ofInt, Int.bmod]
  omega

section Walk
variable {d : Dict Int (CString × Int)} {line entry : Line} (fits : ∀ l ∈ d.items, Fits l.1)

theorem ascending : Ascending Prod.fst d.sorted := by
  have ordered : d.sorted.Pairwise fun x y => decide (x.1 ≤ y.1) = true :=
    List.pairwise_mergeSort (fun a b c first second => by simp at *; omega) (fun a b =>
      by simp; omega) d.items
  have distinct : d.sorted.Pairwise fun x y => x.1 ≠ y.1 := List.pairwise_map.mp (sorted_distinct d)
  refine (ordered.and distinct).imp fun both => ?_
  have below := of_decide_eq_true both.1
  have apart := both.2
  omega

include fits

private theorem passes_all (near : ∀ l ∈ d.items, ¬Far l → l.1 ≤ offset) (nonneg : 0 ≤ offset) :
    ∀ l ∈ d.items, passes offset l = true := by
  intro l member
  by_cases far : Far l
  · exact passes_far (fits l member) far nonneg
  · rw [passes_near (fits l member) far]
    exact decide_eq_true (near l member far)

private theorem answer_of_all (offset : Int) (near : ∀ l ∈ d.items, ¬Far l → l.1 ≤ offset)
    (nonneg : 0 ≤ offset) (mapped : entry ∈ d.items)
    (last : ∀ l ∈ d.items, l.1 ≤ entry.1) : answer offset d.sorted = some entry := by
  have all := passes_all fits near nonneg
  refine getLast?_takeWhile_of_next ascending ((sorted_perm d).mem_iff.mpr mapped)
    (fun l member _ => all l ((sorted_perm d).mem_iff.mp member)) ?_
  intro l member behind _
  exact absurd (last l ((sorted_perm d).mem_iff.mp member)) (Int.not_le.mpr behind)

/-- The server answers with the item that serves the greatest one. -/
theorem answer_of_greatest (at_offset : Greatest d.items offset line) (mapped : entry ∈ d.items)
    (serves : Serves d.items line entry) :
    answer offset d.sorted = some entry := by
  have nonneg : 0 ≤ offset := Int.le_trans (fits line at_offset.mapped).1 at_offset.reached
  by_cases all : ∀ near ∈ d.items, ¬Far near → near.1 ≤ offset
  · refine answer_of_all fits offset all nonneg mapped ?_
    have below (near) (member : near ∈ d.items) (close : ¬Far near) : near.1 ≤ line.1 :=
      at_offset.greatest near member (all near member close)
    by_cases overruns : Overruns d.items line
    · exact serves.1 overruns
    · rw [serves.2 overruns]
      intro l member
      by_cases far : Far l
      · exact absurd ⟨⟨l, member, far⟩, below⟩ overruns
      · exact below l member far
  · -- a near address behind the offset stops the walk
    simp only [not_forall, Int.not_le] at all
    obtain ⟨stop, stopMapped, close, behind⟩ := all
    have limit : stop.1 < 2 ^ 31 := Int.not_le.mp close
    have reached := at_offset.reached
    have within : ¬Overruns d.items line := by
      rintro ⟨-, overrun⟩
      have before := overrun stop stopMapped close
      omega
    rw [serves.2 within]
    refine getLast?_takeWhile_of_next ascending ((sorted_perm d).mem_iff.mpr at_offset.mapped) ?_ ?_
    · intro l member below
      have near : ¬Far l := Int.not_le.mpr (by omega)
      rw [passes_near (fits l ((sorted_perm d).mem_iff.mp member)) near]
      exact decide_eq_true (Int.le_trans below reached)
    · intro l member above least
      have member := (sorted_perm d).mem_iff.mp member
      have before := least stop ((sorted_perm d).mem_iff.mpr stopMapped) (by omega)
      have near : ¬Far l := Int.not_le.mpr (by omega)
      rw [passes_near (fits l member) near]
      refine decide_eq_false fun inside => ?_
      have lower := at_offset.greatest l member inside
      omega

/-- No address is reached, and the walk stops at the first near one. -/
theorem answer_none (unreached : ∀ l ∈ d.items, ¬l.1 ≤ offset) (near : (∃ far ∈ d.items, Far far) →
      ∃ near ∈ d.items, ¬Far near) :
    answer offset d.sorted = none := by
  rw [answer, takeWhile_of_least ascending]
  · rfl
  · intro l member least
    have member := (sorted_perm d).mem_iff.mp member
    have close : ¬Far l := by
      intro far
      obtain ⟨other, mapped, close⟩ := near ⟨l, member, far⟩
      have above := least other ((sorted_perm d).mem_iff.mpr mapped)
      exact close (Int.le_trans far above)
    rw [passes_near (fits l member) close]
    exact decide_eq_false (unreached l member)

end Walk

theorem exists_serving (items : List Line) {line : Line} (mapped : line ∈ items) :
    ∃ entry ∈ items, Serves items line entry := by
  by_cases overruns : Overruns items line
  · obtain ⟨entry, inside, last⟩ := exists_greatest Prod.fst (List.ne_nil_of_mem mapped)
    exact ⟨entry, inside, fun _ => last, fun missing => absurd overruns missing⟩
  · exact ⟨line, mapped, fun overrun => absurd overrun overruns, fun _ => rfl⟩

/-! ## The file -/

private theorem strings_located (mapped : inj.lines.items ≠ []) (packed : Packed inj)
    (written : HeaderWritten inj header) :
    ∃ rest, (fileOf inj header).behind .strings = some (inj.strings ++ rest) := by
  obtain ⟨line, member⟩ := List.exists_mem_of_ne_nil _ mapped
  obtain ⟨i, -, -, -, terminated⟩ := getStringOffset_some member
  have filled : inj.strings ≠ [] := List.ne_nil_of_mem (List.mem_of_mem_drop terminated)
  rcases behind_file packed written .strings with ⟨-, element, rest, made, behind⟩ | ⟨missing, -⟩
  · cases made
    exact ⟨rest, behind⟩
  · exact absurd (by simpa [Injectable.stored] using missing) filled

/-- `injfile_addr2line` on a written file. -/
theorem addr2line_written (positive : ∀ l ∈ inj.lines.items, 1 ≤ l.2.2)
    (written : inj.image = some bytes)
    (read : injfileInit bytes = some file) :
    (∀ l ∈ inj.lines.items, Fits l.1 ∧ Fits l.2.2) ∧ ∃ rest, ∀ offset, injfileAddr2line file offset =
      match answer offset inj.lines.sorted with
      | none => some none
      | some entry => (cString ((inj.strings ++ rest).drop ((inj.getStringOffset entry.2.1).getD 0))).map
          fun name => some (name, BitVec.ofInt 32 entry.2.2) := by
  obtain ⟨packed, header, headed, rfl⟩ := file_written written read
  unfold injfileAddr2line
  rcases behind_file packed headed .lines with ⟨stored, element, later, made, behind⟩ | ⟨missing, behind⟩
  · obtain ⟨strings, standing⟩ :=
      strings_located (by simpa [Injectable.stored] using stored) packed headed
    change inj.linesBin = some element at made
    unfold linesBin at made
    simp only [Option.bind_eq_bind, Option.bind_eq_some_iff] at made
    obtain ⟨blocks, entries, last, terminated, eq⟩ := made
    cases eq
    have walk (offset : Int) := walked offset later (fun l member =>
      positive l ((sorted_perm inj.lines).mem_iff.mp member)) none
      entries terminated
    refine ⟨fun l member => ?_, strings, fun offset => ?_⟩
    · obtain ⟨addr, line, -⟩ := (walk 0).1 l ((sorted_perm inj.lines).mem_iff.mpr member)
      exact ⟨addr, line⟩
    · simp only [behind, List.append_assoc, (walk offset).2, Option.or_none]
      cases answered : answer offset inj.lines.sorted with
      | none => rfl
      | some entry =>
        have member : entry ∈ inj.lines.sorted :=
          (List.takeWhile_sublist _).subset (List.mem_of_getLast? answered)
        have small := ((walk offset).1 entry member).2.2
        simp only [Option.map_some, Option.bind_eq_bind, Option.bind_some, infoOf, injfileGetString,
          standing, BitVec.toNat_ofNat,
          Nat.mod_eq_of_lt small]
        cases cString ((inj.strings ++ strings).drop ((inj.getStringOffset entry.2.1).getD 0)) with
        | none => rfl
        | some name => rfl
  · have empty : inj.lines.items = [] := by simpa [Injectable.stored] using missing
    have sorted : inj.lines.sorted = [] := List.Perm.eq_nil (empty ▸ sorted_perm inj.lines)
    refine ⟨by simp [empty], [], fun offset => ?_⟩
    rw [behind, sorted]
    rfl

/-! ## The round trip -/

/-- The line table, read back with an `offset_t` of `w` bits. -/
structure Answers (w : Nat) (inj : Injectable) (file : File) : Prop where
  mapped : ∀ (offset : BitVec w) line, Greatest inj.lines.items offset.toInt line →
    injfileAddr2line file offset.toInt = some (some (line.2.1, BitVec.ofInt 32 line.2.2))
  unmapped : ∀ offset : BitVec w, (∀ l ∈ inj.lines.items, ¬l.1 ≤ offset.toInt) →
      injfileAddr2line file offset.toInt = some none

/-- The names lead to themselves and the walk to the right line: a file name is
followed by its terminator where it first stands in the text of all names. With a far
address there is a near one too, and what is behind the near ones has the line of the
last far one. -/
structure Readable (w : Nat) (inj : Injectable) : Prop where
  near : (∃ far ∈ inj.lines.items, Far far) → ∃ near ∈ inj.lines.items, ¬Far near
  names : ∀ line ∈ inj.lines.items, line.1 < 2 ^ (w - 1) → ¬Overruns inj.lines.items line →
    StandsAs inj.strings line.2.1 line.2.1
  overrun : ∀ line ∈ inj.lines.items, line.1 < 2 ^ (w - 1) → Overruns inj.lines.items line →
    ∀ last ∈ inj.lines.items, (∀ other ∈ inj.lines.items, other.1 ≤ last.1) →
      StandsAs inj.strings last.2.1 line.2.1 ∧ last.2.2 = line.2.2

/-- What the server answers with for an entry is right exactly when the name of the
entry leads to the file and the line is the same. -/
private theorem answered_iff {line entry : Line} (mapped : entry ∈ inj.lines.items) (rest : Bytes)
    (own : Fits entry.2.2) (fits : Fits line.2.2) :
    ((cString ((inj.strings ++ rest).drop ((inj.getStringOffset entry.2.1).getD 0))).map fun name =>
      some (name, BitVec.ofInt 32 entry.2.2)) =
      some (some (line.2.1, BitVec.ofInt 32 line.2.2)) ↔ StandsAs inj.strings entry.2.1 line.2.1 ∧
      entry.2.2 = line.2.2 := by
  have number : BitVec.ofInt 32 entry.2.2 = BitVec.ofInt 32 line.2.2 ↔ entry.2.2 = line.2.2 := by
    refine ⟨fun same => ?_, fun same => by rw [same]⟩
    rw [← toNat_of_fits own, ← toNat_of_fits fits, same]
  rw [← read_iff_standsAs mapped rest, Option.map_eq_some_iff]
  constructor
  · rintro ⟨name, read, eq⟩
    have parts := Prod.mk.inj (Option.some.inj eq)
    exact ⟨parts.1 ▸ read, number.mp parts.2⟩
  · rintro ⟨read, same⟩
    exact ⟨line.2.1, read, by rw [same]⟩

section RoundTrip
variable {w : Nat} (positive : ∀ l ∈ inj.lines.items, 1 ≤ l.2.2) (written : inj.image = some bytes)
  (read : injfileInit bytes = some file)
include positive written read

private theorem answers_of_readable (readable : Readable w inj) : Answers w inj file := by
  obtain ⟨fits, rest, answers⟩ := addr2line_written positive written read
  have addresses (l) (member : l ∈ inj.lines.items) : Fits l.1 := (fits l member).1
  constructor
  · intro offset line greatest
    obtain ⟨entry, mapped, serves⟩ := exists_serving inj.lines.items greatest.mapped
    have small : line.1 < 2 ^ (w - 1) := by
      have limit := BitVec.toInt_lt (x := offset)
      have reached := greatest.reached
      omega
    simp only [answers, answer_of_greatest addresses greatest mapped serves]
    refine (answered_iff mapped rest (fits entry mapped).2 (fits line greatest.mapped).2).mpr ?_
    by_cases overruns : Overruns inj.lines.items line
    · exact readable.overrun line greatest.mapped small overruns entry mapped (serves.1 overruns)
    · rw [serves.2 overruns]
      exact ⟨readable.names line greatest.mapped small overruns, rfl⟩
  · intro offset unreached
    simp only [answers, answer_none addresses unreached readable.near]

private theorem readable_of_answers (wide : 32 ≤ w) (right : Answers w inj file) : Readable w inj := by
  obtain ⟨fits, rest, answers⟩ := addr2line_written positive written read
  have addresses (l) (member : l ∈ inj.lines.items) : Fits l.1 := (fits l member).1
  -- every address is an offset at which its item is the greatest one
  have served (line) (member : line ∈ inj.lines.items) (small : line.1 < 2 ^ (w - 1)) (entry)
      (mapped : entry ∈ inj.lines.items)
      (serves : Serves inj.lines.items line entry) : StandsAs inj.strings entry.2.1 line.2.1 ∧
        entry.2.2 = line.2.2 := by
    have offset : (BitVec.ofInt w line.1).toInt = line.1 := by
      have low := (addresses line member).1
      have double : (2 : Int) ^ w = 2 * 2 ^ (w - 1) := by rw [← pow_succ', Nat.sub_add_cancel (by omega)]
      rw [BitVec.toInt_ofInt, Int.bmod_eq_of_le (by push_cast; omega) (by push_cast; omega)]
    have greatest : Greatest inj.lines.items (BitVec.ofInt w line.1).toInt line :=
      ⟨member, by rw [offset], fun other _ reached => by rwa [offset] at reached⟩
    have right := right.mapped (BitVec.ofInt w line.1) line greatest
    simp only [answers, answer_of_greatest addresses greatest mapped serves] at right
    exact (answered_iff mapped rest (fits entry mapped).2 (fits line member).2).mp right
  constructor
  · rintro ⟨far, mapped, behind⟩
    by_contra missing
    have all : ∀ l ∈ inj.lines.items, Far l :=
      fun l member => by_contra fun near => missing ⟨l, member, near⟩
    have zero : (0#w).toInt = 0 := BitVec.toInt_zero
    have unmapped : ∀ l ∈ inj.lines.items, ¬l.1 ≤ (0#w).toInt := by
      intro l member reached
      have above : 2 ^ 31 ≤ l.1 := all l member
      omega
    obtain ⟨last, lastMapped, greatest⟩ := exists_greatest Prod.fst (List.ne_nil_of_mem mapped)
    have walked := answer_of_all addresses (0#w).toInt (fun l member near =>
      absurd (all l member) near) (by omega)
      lastMapped greatest
    have right := right.unmapped 0#w unmapped
    rw [answers, walked] at right
    obtain ⟨_, -, eq⟩ := Option.map_eq_some_iff.mp right
    cases eq
  · intro line member small within
    exact (served line member small line member ⟨fun overruns => absurd overruns within, fun _ => rfl⟩).1
  · intro line member small overruns last mapped greatest
    exact served line member small last mapped ⟨fun _ => greatest, fun within => absurd overruns within⟩

end RoundTrip

/-- A library whose code has lines. -/
def lined (lines : Dict Int (CString × Int)) : Injectable :=
  { InjfileProofs.library (List.replicate 8 0#8) 0 with lines := lines }

theorem lined_read (lines : Dict Int (CString × Int))
    (fits : ∀ l ∈ lines.items, Fits l.1 ∧ Fits l.2.2) (few : lines.items.length < 2 ^ 32)
    (strings : (lined lines).strings.length < 2 ^ 32) :
    ∃ bytes file, (lined lines).image = some bytes ∧ injfileInit bytes = some file := by
  have numbers : Numbers (lined lines) := by
    refine ⟨by simp [lined, InjfileProofs.library], by simp [lined, InjfileProofs.library], nofun,
      nofun, ?_, nofun, fits, strings⟩
    intro s member
    rw [List.mem_singleton.mp member]
    exact zero_fits
  have size : headerSize + elementsSize (lined lines) < 2 ^ 64 := by
    unfold elementsSize
    simp only [headerSize, lined, InjfileProofs.library, List.length_cons, List.length_nil,
      List.length_replicate] at *
    omega
  obtain ⟨bytes, written⟩ := image_of_numbers numbers size
  obtain ⟨packed, header, made, rfl⟩ := image_some written
  exact ⟨_, _, written, init_written (header_some packed made)⟩

/-- One line of the file `a`. -/
def oneFile : Dict Int (CString × Int) := ⟨[(0, [0x61#8], 1)], by simp⟩

/-- The file `b` is found inside the name of the file `abc`. -/
def twoFiles : Dict Int (CString × Int) :=
  ⟨[(0, [0x61#8, 0x62#8, 0x63#8], 1), (4, [0x62#8], 1)], by simp⟩

theorem oneFile_strings : (lined oneFile).strings = [0x61#8, 0#8] := by
  show (List.mergeSort (List.dedup [[0x61#8, 0#8]]) _).flatten = _
  rw [show List.dedup [[0x61#8, 0#8]] = [[0x61#8, 0#8]] by decide, List.mergeSort_singleton]
  rfl

theorem twoFiles_strings : (lined twoFiles).strings = [0x61#8, 0x62#8, 0x63#8, 0#8, 0x62#8, 0#8] := by
  have sorted : ([[0x61#8, 0x62#8, 0x63#8, 0#8], [0x62#8, 0#8]] : List Bytes).Pairwise fun x y =>
      decide (x ≤ y) = true := by decide
  show (List.mergeSort (List.dedup [[0x61#8, 0x62#8, 0x63#8, 0#8], [0x62#8, 0#8]]) _).flatten = _
  rw [show List.dedup [[0x61#8, 0x62#8, 0x63#8, 0#8], [0x62#8, 0#8]] =
    [[0x61#8, 0x62#8, 0x63#8, 0#8], [0x62#8, 0#8]] by decide,
    List.mergeSort_of_pairwise sorted]
  rfl

/-- The line table is read back exactly when it is readable. -/
theorem answers_iff {w : Nat} (wide : 32 ≤ w) (positive : ∀ l ∈ inj.lines.items, 1 ≤ l.2.2)
    (written : inj.image = some bytes)
    (read : injfileInit bytes = some file) : Answers w inj file ↔ Readable w inj :=
  ⟨readable_of_answers positive written read wide, answers_of_readable positive written read⟩

/-- The only line of the file is near, and its name is all of the text. -/
theorem oneFile_readable : Readable 64 (lined oneFile) := by
  have near : ¬∃ far ∈ (lined oneFile).lines.items, Far far := by
    rintro ⟨far, member, above⟩
    obtain rfl : far = (0, [0x61#8], 1) := List.mem_singleton.mp member
    exact absurd above (by unfold Far; decide)
  refine ⟨fun far => absurd far near, fun line member _ _ => ?_,
    fun _ _ _ overrun => absurd overrun.1 near⟩
  obtain rfl : line = (0, [0x61#8], 1) := List.mem_singleton.mp member
  rw [oneFile_strings]
  exact ⟨0, [], ⟨⟨[0#8], rfl⟩, fun _ before => absurd before (Nat.not_lt_zero _)⟩, rfl, by decide⟩

/-- The server names the file `a` for its line. -/
theorem oneFile_answers : ∃ bytes file, (lined oneFile).image = some bytes ∧
    injfileInit bytes = some file ∧
    Answers 64 (lined oneFile) file := by
  obtain ⟨bytes, file, written, read⟩ := lined_read oneFile (by simp [oneFile, Fits]) (by simp [oneFile])
    (by rw [oneFile_strings]; simp)
  exact ⟨bytes, file, written, read,
    (answers_iff (by decide) (by simp [lined, oneFile]) written read).mpr oneFile_readable⟩

/-- The server names the file `bc` for the line of the file `b`. -/
theorem twoFiles_confused : ¬∀ (inj : Injectable) (bytes : Bytes) (file : File),
    (∀ l ∈ inj.lines.items, 1 ≤ l.2.2) →
    inj.image = some bytes → injfileInit bytes = some file → Answers 64 inj file := by
  intro all
  obtain ⟨bytes, file, written, read⟩ :=
    lined_read twoFiles (by simp [twoFiles, Fits]) (by simp [twoFiles])
    (by rw [twoFiles_strings]; simp)
  have positive : ∀ l ∈ (lined twoFiles).lines.items, 1 ≤ l.2.2 := by simp [lined, twoFiles]
  have readable := readable_of_answers positive written read (by decide)
    (all _ bytes file positive written read)
  have near : ¬Overruns (lined twoFiles).lines.items (4, [0x62#8], 1) := by
    rintro ⟨⟨far, member, above⟩, -⟩
    have above : 2 ^ 31 ≤ far.1 := above
    simp [lined, twoFiles] at member
    rcases member with rfl | rfl
    · cases above
    · cases above
  obtain ⟨i, after, found, eq, -⟩ :=
    readable.names (4, [0x62#8], 1) (by simp [lined, twoFiles]) (by decide) near
  rw [twoFiles_strings] at found eq
  -- the first `b` of the text is the second letter of `abc`
  have early : i ≤ 1 := by
    by_contra later
    exact found.first 1 (Nat.lt_of_not_le later) ⟨_, rfl⟩
  obtain rfl | rfl : i = 0 ∨ i = 1 := by omega
  · cases eq
  · cases eq

end Adbi.LineTableProofs
