import Adbi.Injfile
import Mathlib.Data.List.Dedup

/-! What `idk/inj` writes the server and `readinj` read back. The tables are
walked up to the zero entry that ends them, and the offsets of the header lead to
the elements that are stored. -/
namespace Adbi.InjfileProofs
open Adbi.Lib Adbi.Injfile Adbi.Injfile.Injectable
open Adbi.Payload (CString)
open Adbi.Client (packUnsigned packUnsigned_some packUnsigned_of_lt)

variable {w place : Nat} {bytes rest : Bytes} {name : CString}

/-! ## Numbers and strings -/

theorem field_of_drop {v : BitVec w} (whole : 8 ∣ w) (rest : Bytes)
    (stands : bytes.drop place = littleEndian v ++ rest) :
    field w bytes place = v := by
  rw [Injfile.field, stands, List.take_left' (by simp)]
  exact ofLittleEndian_littleEndian v whole

theorem cString_written (plain : 0#8 ∉ name) : cString (name ++ 0#8 :: rest) = some name := by
  induction name with
  | nil => simp [cString]
  | cons char later ih =>
    have first : char ≠ 0#8 := fun zero => plain (zero ▸ List.mem_cons_self)
    rw [List.cons_append, cString, if_neg first, ih fun member => plain (List.mem_cons_of_mem _ member)]
    rfl

/-- A value that the format `I` can hold. -/
def Fits (n : Int) : Prop := 0 ≤ n ∧ n < 2 ^ 32

theorem toNat_of_fits {n : Int} (fits : Fits n) : ((BitVec.ofInt 32 n).toNat : Int) = n := by
  obtain ⟨low, high⟩ := fits
  rw [BitVec.toNat_ofInt]
  omega

/-! ## Symbol tables -/

/-- A name that a symbol entry holds with its terminator. -/
structure SymbolName (name : CString) : Prop where
  nonempty : name ≠ []
  short : name.length ≤ 27
  plain : 0#8 ∉ name

private theorem padded_eq (short : name.length ≤ 27) :
    (name ++ List.replicate 28 0#8).take 28 = name ++ 0#8 :: List.replicate (27 - name.length) 0#8 := by
  rw [List.take_append, List.take_of_length_le (by omega), List.take_replicate, ← List.replicate_succ]
  congr 2
  omega

/-- An entry as it stands in the file. -/
theorem packSymbol_some {symbol : CString × Int} (short : symbol.1.length ≤ 27)
    (packed : packSymbol symbol = some bytes) :
    Fits symbol.2 ∧ bytes = (symbol.1 ++ 0#8 :: List.replicate (27 - symbol.1.length) 0#8) ++
      littleEndian (BitVec.ofInt 32 symbol.2) := by
  unfold packSymbol at packed
  obtain ⟨number, offset, rfl⟩ := Option.map_eq_some_iff.mp packed
  obtain ⟨fits, rfl⟩ := packUnsigned_some offset
  exact ⟨fits, by rw [padded_eq short]⟩

private theorem rdropWhile_zeros (plain : 0#8 ∉ name) (n : Nat) :
    (name ++ List.replicate n 0#8).rdropWhile (· = 0#8) = name := by
  induction n with
  | zero =>
    rw [List.replicate_zero, List.append_nil, List.rdropWhile_eq_self_iff]
    intro nonempty zero
    exact plain (by simpa using (of_decide_eq_true zero) ▸ List.getLast_mem nonempty)
  | succ n ih =>
    rw [List.replicate_succ', ← List.append_assoc, List.rdropWhile_concat_pos _ _ _ (by simp), ih]

private theorem entry_parts (symbol : CString × Int) (short : symbol.1.length ≤ 27) (tail : Bytes) :
    let entry := (symbol.1 ++ 0#8 :: List.replicate (27 - symbol.1.length) 0#8) ++
      littleEndian (BitVec.ofInt 32 symbol.2) ++ tail
    entry.drop 32 = tail ∧ entry.take 28 = symbol.1 ++ 0#8 :: List.replicate (27 - symbol.1.length) 0#8 ∧
      field 32 entry 28 = BitVec.ofInt 32 symbol.2 ∧ 32 ≤ entry.length := by
  have length : (symbol.1 ++ 0#8 :: List.replicate (27 - symbol.1.length) 0#8).length = 28 := by
    simp
    omega
  refine ⟨List.drop_left' (by simp; omega), ?_, ?_, by simp; omega⟩
  · rw [List.append_assoc, List.take_left' length]
  · exact field_of_drop (by decide) tail (by rw [List.append_assoc, List.drop_left' length])

/-- The server and `readinj` walk a table up to the empty name. -/
theorem symbols_written {symbols : List (CString × Int)} {blocks : List Bytes}
    (names : ∀ s ∈ symbols, SymbolName s.1)
    (packed : (symbols ++ [([], 0)]).mapM packSymbol = some blocks) (rest : Bytes) :
    (∀ s ∈ symbols, Fits s.2) ∧
    iterSymbols (blocks.flatten ++ rest) =
      some (symbols.map fun s => (s.1, (BitVec.ofInt 32 s.2).toInt)) ∧
    iterSyms (blocks.flatten ++ rest) = some symbols := by
  induction symbols generalizing blocks with
  | nil =>
    simp only [List.nil_append, List.mapM_cons, List.mapM_nil, Option.bind_eq_bind,
      Option.bind_eq_some_iff] at packed
    obtain ⟨block, first, _, last, eq⟩ := packed
    cases last
    obtain ⟨-, rfl⟩ := packSymbol_some (by simp) first
    cases eq
    refine ⟨by simp, ?_, ?_⟩
    · rw [iterSymbols]
      simp [cString]
    · obtain ⟨-, name, -, length⟩ := entry_parts ([], 0) (by simp) rest
      rw [iterSyms, List.flatten_singleton, if_neg (by omega), name]
      rfl
  | cons symbol later ih =>
    simp only [List.cons_append, List.mapM_cons, Option.bind_eq_bind, Option.bind_eq_some_iff] at packed
    obtain ⟨block, first, blocks, others, eq⟩ := packed
    obtain ⟨nonempty, short, plain⟩ := names symbol List.mem_cons_self
    obtain ⟨fits, rfl⟩ := packSymbol_some short first
    cases eq
    obtain ⟨range, server, reader⟩ := ih (fun s member => names s (List.mem_cons_of_mem _ member)) others
    obtain ⟨behind, front, offset, length⟩ := entry_parts symbol short (blocks.flatten ++ rest)
    have named : cString ((symbol.1 ++ 0#8 :: List.replicate (27 - symbol.1.length) 0#8) ++
        littleEndian (BitVec.ofInt 32 symbol.2) ++
        (blocks.flatten ++ rest)) = some symbol.1 := by
      rw [List.append_assoc, List.append_assoc, List.cons_append]
      exact cString_written plain
    have filled : symbol.1.isEmpty = false := List.isEmpty_eq_false_iff.mpr nonempty
    have stripped : (symbol.1 ++ 0#8 :: List.replicate (27 - symbol.1.length) 0#8).rdropWhile (· =
        0#8) = symbol.1 :=
      rdropWhile_zeros plain (27 - symbol.1.length + 1)
    rw [List.flatten_cons, List.append_assoc]
    refine ⟨?_, ?_, ?_⟩
    · intro s member
      rcases List.mem_cons.mp member with rfl | member
      · exact fits
      · exact range s member
    · rw [iterSymbols]
      simp only [named, filled, if_neg (Nat.not_lt.mpr length), behind, server, offset]
      rfl
    · rw [iterSyms]
      simp only [if_neg (Nat.not_lt.mpr length), front, stripped, filled, behind, reader, offset,
        toNat_of_fits fits]
      rfl

/-! ## Tracepoints -/

theorem packTPoint_some {tpoint : Int × Int} (packed : packTPoint tpoint = some bytes) :
    Fits tpoint.1 ∧ Fits tpoint.2 ∧
    bytes = littleEndian (BitVec.ofInt 32 tpoint.1) ++ littleEndian (BitVec.ofInt 32 tpoint.2) := by
  unfold packTPoint at packed
  simp only [Option.bind_eq_bind, Option.bind_eq_some_iff] at packed
  obtain ⟨_, address, _, handler, eq⟩ := packed
  obtain ⟨addressFits, rfl⟩ := packUnsigned_some address
  obtain ⟨handlerFits, rfl⟩ := packUnsigned_some handler
  exact ⟨addressFits, handlerFits, (Option.some.inj eq).symm⟩

private theorem tpoint_parts (tpoint : Int × Int) (tail : Bytes) :
    let entry := (littleEndian (BitVec.ofInt 32 tpoint.1) ++
      littleEndian (BitVec.ofInt 32 tpoint.2)) ++ tail
    entry.drop 8 = tail ∧ field 32 entry 0 = BitVec.ofInt 32 tpoint.1 ∧
      field 32 entry 4 = BitVec.ofInt 32 tpoint.2 ∧
      8 ≤ entry.length := by
  refine ⟨List.drop_left' (by simp), ?_, ?_, by simp; omega⟩
  · exact field_of_drop (by decide) (littleEndian (BitVec.ofInt 32 tpoint.2) ++ tail)
      (by rw [List.drop_zero, List.append_assoc])
  · exact field_of_drop (by decide) tail (by rw [List.append_assoc, List.drop_left' (by simp)])

/-- Both readers walk the tracepoints up to the address zero. -/
theorem tpoints_written {tpoints : List (Int × Int)} {blocks : List Bytes}
    (nonzero : ∀ t ∈ tpoints, t.1 ≠ 0)
    (packed : (tpoints ++ [(0, 0)]).mapM packTPoint = some blocks) (rest : Bytes) :
    (∀ t ∈ tpoints, Fits t.1 ∧ Fits t.2) ∧
    iterTPoints (blocks.flatten ++ rest) =
      some (tpoints.map fun t => (t.1, (BitVec.ofInt 32 t.2).toInt)) ∧
    iterTPointItems (blocks.flatten ++ rest) = some tpoints := by
  induction tpoints generalizing blocks with
  | nil =>
    simp only [List.nil_append, List.mapM_cons, List.mapM_nil, Option.bind_eq_bind,
      Option.bind_eq_some_iff] at packed
    obtain ⟨block, first, _, last, eq⟩ := packed
    cases last
    obtain ⟨-, -, rfl⟩ := packTPoint_some first
    cases eq
    obtain ⟨-, address, -, length⟩ := tpoint_parts (0, 0) rest
    rw [List.flatten_singleton]
    refine ⟨by simp, ?_, ?_⟩
    · rw [iterTPoints, if_neg (by omega), if_pos (by rw [address]; rfl)]
      rfl
    · rw [iterTPointItems, if_neg (by omega), if_pos (by rw [address]; rfl)]
  | cons tpoint later ih =>
    simp only [List.cons_append, List.mapM_cons, Option.bind_eq_bind, Option.bind_eq_some_iff] at packed
    obtain ⟨block, first, blocks, others, eq⟩ := packed
    obtain ⟨addressFits, handlerFits, rfl⟩ := packTPoint_some first
    cases eq
    obtain ⟨range, server, reader⟩ :=
      ih (fun t member => nonzero t (List.mem_cons_of_mem _ member)) others
    obtain ⟨behind, address, handler, length⟩ := tpoint_parts tpoint (blocks.flatten ++ rest)
    have goes : BitVec.ofInt 32 tpoint.1 ≠ 0#32 := by
      intro zero
      have number := toNat_of_fits addressFits
      rw [zero] at number
      exact nonzero tpoint List.mem_cons_self number.symm
    rw [List.flatten_cons, List.append_assoc]
    refine ⟨?_, ?_, ?_⟩
    · intro t member
      rcases List.mem_cons.mp member with rfl | member
      · exact ⟨addressFits, handlerFits⟩
      · exact range t member
    · rw [iterTPoints, if_neg (by omega), address, if_neg goes, if_neg (by omega), behind,
        server, handler,
        toNat_of_fits addressFits]
      rfl
    · rw [iterTPointItems, if_neg (by omega), address, if_neg goes, behind, reader, handler,
        toNat_of_fits addressFits,
        toNat_of_fits handlerFits]
      rfl

/-! ## Where the elements stand -/

variable {inj : Injectable}

/-- What the file holds for an attribute. -/
def content (inj : Injectable) (part : Part) : Bytes :=
  if inj.stored part then (inj.bin part).getD [] else []

/-- The elements before an attribute. -/
def earlier (part : Part) : List Part := elementOrder.takeWhile (· ≠ part)

/-- The offset of an attribute in the header. -/
def offset (inj : Injectable) (part : Part) : Nat :=
  if inj.stored part then headerSize + ((earlier part).flatMap (content inj)).length else 0

/-- The elements could be packed. -/
def Packed (inj : Injectable) : Prop :=
  ∀ part, inj.stored part = true → inj.bin part = some (content inj part)

private theorem elements_some {parts : List Part} {elements : List Bytes}
    (packed : (parts.filter inj.stored).mapM inj.bin = some elements) :
    (∀ part ∈ parts, inj.stored part = true → inj.bin part = some (content inj part)) ∧
      elements.flatten = parts.flatMap (content inj) := by
  induction parts generalizing elements with
  | nil =>
    cases packed
    exact ⟨by simp, rfl⟩
  | cons part later ih =>
    by_cases here : inj.stored part = true
    · rw [List.filter_cons_of_pos here] at packed
      simp only [List.mapM_cons, Option.bind_eq_bind, Option.bind_eq_some_iff] at packed
      obtain ⟨block, first, blocks, others, eq⟩ := packed
      cases eq
      obtain ⟨all, same⟩ := ih others
      have holds : content inj part = block := by rw [content, if_pos here, first, Option.getD_some]
      refine ⟨?_, by rw [List.flatten_cons, List.flatMap_cons, same, holds]⟩
      intro p member stored
      rcases List.mem_cons.mp member with rfl | member
      · rw [first, holds]
      · exact all p member stored
    · rw [List.filter_cons_of_neg here] at packed
      obtain ⟨all, same⟩ := ih packed
      refine ⟨?_, by rw [List.flatMap_cons, content, if_neg here, List.nil_append, same]⟩
      intro p member stored
      rcases List.mem_cons.mp member with rfl | member
      · exact absurd stored here
      · exact all p member stored

/-- The image is the header and the elements in their order. -/
theorem image_some (written : inj.image = some bytes) :
    Packed inj ∧ ∃ header, inj.headerBin = some header ∧
    bytes = header ++ elementOrder.flatMap (content inj) := by
  unfold image at written
  simp only [Option.bind_eq_bind, Option.bind_eq_some_iff] at written
  obtain ⟨elements, packed, header, made, eq⟩ := written
  obtain ⟨all, same⟩ := elements_some packed
  cases eq
  exact ⟨fun part => all part (by cases part <;> simp [elementOrder]), header, made, by rw [same]⟩

/-- The loop of `get_offset` adds up the elements before. -/
theorem offsetAfter_eq (packed : Packed inj) (before : List Part) :
    inj.offsetAfter before = some (headerSize + (before.reverse.flatMap (content inj)).length) := by
  induction before with
  | nil => rfl
  | cons prev before ih =>
    rw [offsetAfter, ih, List.reverse_cons, List.flatMap_append, List.length_append,
      List.flatMap_singleton]
    by_cases here : inj.stored prev = true
    · simp [here, packed prev here, headerSize]
      omega
    · simp [here, content]

theorem headerSize_le_offset {part : Part} (stored : inj.stored part = true) :
    headerSize ≤ offset inj part := by
  rw [offset, if_pos stored]
  omega

theorem getOffset_eq (packed : Packed inj) (part : Part) :
    inj.getOffset part = some (offset inj part) := by
  unfold getOffset offset
  split
  · rw [offsetAfter_eq packed, List.reverse_reverse]
    rfl
  · rfl

private theorem split_order (part : Part) : ∃ later, elementOrder = earlier part ++ part :: later := by
  cases part
  all_goals exact ⟨_, rfl⟩

/-- At its offset stands the element that was stored. -/
theorem element_located {header : Bytes} (size : header.length = headerSize) {part : Part}
    (stored : inj.stored part = true) :
    ∃ rest, (header ++ elementOrder.flatMap (content inj)).drop (offset inj part) =
      content inj part ++ rest := by
  obtain ⟨later, order⟩ := split_order part
  refine ⟨later.flatMap (content inj), ?_⟩
  rw [offset, if_pos stored, order, List.flatMap_append, List.flatMap_cons, ← List.append_assoc,
    List.drop_left' (by simp [size])]

/-! ## The header -/

private theorem offsets_some {parts : List Part} {fields : List Bytes} (packed : Packed inj)
    (written : parts.mapM (fun what => do packUnsigned 64 (← inj.getOffset what)) = some fields) :
    (∀ part ∈ parts, offset inj part < 2 ^ 64) ∧
      fields.flatten = parts.flatMap fun part => littleEndian (BitVec.ofNat 64 (offset inj part)) := by
  induction parts generalizing fields with
  | nil =>
    cases written
    exact ⟨by simp, rfl⟩
  | cons part later ih =>
    simp only [List.mapM_cons, Option.bind_eq_bind, Option.bind_eq_some_iff] at written
    obtain ⟨block, ⟨found, here, first⟩, blocks, others, eq⟩ := written
    rw [getOffset_eq packed] at here
    cases here
    obtain ⟨range, rfl⟩ := packUnsigned_some first
    cases eq
    obtain ⟨small, same⟩ := ih others
    refine ⟨?_, by rw [List.flatten_cons, List.flatMap_cons, same, BitVec.ofInt_natCast]⟩
    intro p member
    rcases List.mem_cons.mp member with rfl | member
    · exact_mod_cast range.2
    · exact small p member

/-- The header as it stands in the file. -/
structure HeaderWritten (inj : Injectable) (header : Bytes) : Prop where
  flags : inj.flags < 2 ^ 16
  code : inj.code.length < 2 ^ 32
  offsets : ∀ part, offset inj part < 2 ^ 64
  eq : header = magic ++ (littleEndian 0x0210#16 ++ (littleEndian (BitVec.ofNat 16 inj.flags) ++
    (littleEndian (BitVec.ofNat 32 inj.code.length) ++
      headerOrder.flatMap fun part => littleEndian (BitVec.ofNat 64 (offset inj part)))))

theorem header_some (packed : Packed inj) {header : Bytes} (written : inj.headerBin = some header) :
    HeaderWritten inj header := by
  unfold headerBin at written
  simp only [Option.bind_eq_bind, Option.bind_eq_some_iff] at written
  obtain ⟨_, flags, _, code, fields, offsets, eq⟩ := written
  obtain ⟨flagsFit, rfl⟩ := packUnsigned_some flags
  obtain ⟨codeFits, rfl⟩ := packUnsigned_some code
  obtain ⟨small, same⟩ := offsets_some packed offsets
  refine ⟨by exact_mod_cast flagsFit.2, by exact_mod_cast codeFits.2, ?_, ?_⟩
  · exact fun part => small part (by cases part <;> simp [headerOrder])
  · rw [← Option.some.inj eq, same, BitVec.ofInt_natCast, BitVec.ofInt_natCast]
    simp only [List.append_assoc]

variable {header : Bytes}

theorem length_header (written : HeaderWritten inj header) : header.length = headerSize := by
  rw [written.eq]
  simp [magic, headerOrder, headerSize]

/-- The offset of every part stands where the server looks for it. -/
theorem offset_field (written : HeaderWritten inj header) (part : Part) (rest : Bytes) :
    field 64 (header ++ rest) (fieldPlace part) = BitVec.ofNat 64 (offset inj part) := by
  obtain ⟨before, after, order, place⟩ : ∃ before after, headerOrder = before ++ part :: after ∧
      fieldPlace part = 16 + 8 * before.length := by
    cases part
    case code => exact ⟨[], _, rfl, rfl⟩
    case name => exact ⟨[.code], _, rfl, rfl⟩
    case comment => exact ⟨[.code, .name], _, rfl, rfl⟩
    case adbi => exact ⟨[.code, .name, .comment], _, rfl, rfl⟩
    case imports => exact ⟨[.code, .name, .comment, .adbi], _, rfl, rfl⟩
    case exports => exact ⟨[.code, .name, .comment, .adbi, .imports], _, rfl, rfl⟩
    case tpoints => exact ⟨[.code, .name, .comment, .adbi, .imports, .exports], _, rfl, rfl⟩
    case strings => exact ⟨[.code, .name, .comment, .adbi, .imports, .exports, .tpoints], _, rfl, rfl⟩
    case lines =>
      exact ⟨[.code, .name, .comment, .adbi, .imports, .exports, .tpoints, .strings], _, rfl, rfl⟩
  refine field_of_drop (by decide)
    ((after.flatMap fun part => littleEndian (BitVec.ofNat 64 (offset inj part))) ++ rest) ?_
  have split : header ++ rest = (magic ++ littleEndian 0x0210#16 ++
      littleEndian (BitVec.ofNat 16 inj.flags) ++
      littleEndian (BitVec.ofNat 32 inj.code.length) ++ before.flatMap fun part =>
      littleEndian (BitVec.ofNat 64 (offset inj part))) ++
      (littleEndian (BitVec.ofNat 64 (offset inj part)) ++
        ((after.flatMap fun part => littleEndian (BitVec.ofNat 64 (offset inj part))) ++ rest)) := by
    rw [written.eq, order, List.flatMap_append, List.flatMap_cons]
    simp only [List.append_assoc]
  have size : (before.flatMap fun part => littleEndian (BitVec.ofNat 64 (offset inj part))).length =
      8 * before.length := by
    simp [List.length_flatMap, Nat.mul_comm]
  rw [split, place, List.drop_left']
  simp only [List.length_append, length_littleEndian, size, magic, List.length_cons, List.length_nil]

theorem version_field (written : HeaderWritten inj header) (rest : Bytes) :
    field 16 (header ++ rest) 8 = 0x0210#16 := by
  rw [written.eq, List.append_assoc, List.append_assoc]
  exact field_of_drop (by decide) _ (List.drop_left' rfl)

theorem flags_field (written : HeaderWritten inj header) (rest : Bytes) :
    field 16 (header ++ rest) 10 = BitVec.ofNat 16 inj.flags := by
  have split : header ++ rest = (magic ++ littleEndian 0x0210#16) ++
      (littleEndian (BitVec.ofNat 16 inj.flags) ++
      (littleEndian (BitVec.ofNat 32 inj.code.length) ++
        ((headerOrder.flatMap fun part => littleEndian (BitVec.ofNat 64 (offset inj part))) ++
          rest))) := by
    rw [written.eq]
    simp only [List.append_assoc]
  rw [split]
  exact field_of_drop (by decide) _ (List.drop_left' rfl)

theorem code_size_field (written : HeaderWritten inj header) (rest : Bytes) :
    field 32 (header ++ rest) 12 = BitVec.ofNat 32 inj.code.length := by
  have split : header ++ rest = (magic ++ littleEndian 0x0210#16 ++
      littleEndian (BitVec.ofNat 16 inj.flags)) ++
      (littleEndian (BitVec.ofNat 32 inj.code.length) ++
        ((headerOrder.flatMap fun part => littleEndian (BitVec.ofNat 64 (offset inj part))) ++
          rest)) := by
    rw [written.eq]
    simp only [List.append_assoc]
  rw [split]
  exact field_of_drop (by decide) _ (List.drop_left' (by simp [magic]))

/-! ## What the readers find -/

/-- `injfile_init` accepts the file and finds the elements. -/
theorem init_written (written : HeaderWritten inj header) :
    injfileInit (header ++ elementOrder.flatMap (content inj)) =
      some ⟨header ++ elementOrder.flatMap (content inj),
      BitVec.ofNat 16 inj.flags, BitVec.ofNat 32 inj.code.length,
      fun part => if inj.stored part then some (offset inj part) else none⟩ := by
  have size := length_header written
  have front : (header ++ elementOrder.flatMap (content inj)).take 8 = magic := by
    rw [written.eq, List.append_assoc]
    exact List.take_left' rfl
  have inside : offset inj .code + inj.code.length ≤
      (header ++ elementOrder.flatMap (content inj)).length := by
    by_cases stored : inj.stored .code = true
    · obtain ⟨rest, stands⟩ := element_located size stored
      have kept : content inj .code = inj.code := by rw [content, if_pos stored]; rfl
      have lengths := congrArg List.length stands
      have sum : (inj.code ++ rest).length = inj.code.length + rest.length := List.length_append
      rw [List.length_drop, kept, sum] at lengths
      have filled : 0 < inj.code.length :=
        List.length_pos_iff.mpr (by simpa [Injectable.stored] using stored)
      omega
    · have empty : inj.code = [] := by simpa [Injectable.stored] using stored
      simp [offset, stored, empty]
  have room : ¬(header ++ elementOrder.flatMap (content inj)).length <
      (BitVec.ofNat 64 (offset inj .code) + (BitVec.ofNat 32 inj.code.length).setWidth 64).toNat := by
    have code := written.code
    simp only [BitVec.toNat_add, BitVec.toNat_setWidth, BitVec.toNat_ofNat]
    omega
  have pointers : fixPtr (header ++ elementOrder.flatMap (content inj)) =
      fun part => if inj.stored part then some (offset inj part) else none := by
    funext part
    have fits := written.offsets part
    have number : (BitVec.ofNat 64 (offset inj part)).toNat = offset inj part := by
      rw [BitVec.toNat_ofNat, Nat.mod_eq_of_lt fits]
    rw [fixPtr, offset_field written]
    by_cases stored : inj.stored part = true
    · have nonzero : BitVec.ofNat 64 (offset inj part) ≠ 0 := by
        intro zero
        have behind := headerSize_le_offset stored
        rw [← number, zero] at behind
        exact absurd behind (by decide)
      simp only [if_neg nonzero, number, stored, if_true]
    · simp [offset, stored]
  rw [injfileInit, if_neg (by rw [List.length_append, size]; simp [headerSize]), if_pos front,
    if_pos (version_field written _)]
  simp only [code_size_field written, flags_field written, offset_field written, if_neg room, pointers]

/-- The bytes behind an offset: those of the element that was stored there, or nothing. -/
theorem behind_written (packed : Packed inj) (written : HeaderWritten inj header) (part : Part) :
    (inj.stored part = true ∧ ∃ element rest, inj.bin part = some element ∧ offset inj part ≠ 0 ∧
      (header ++ elementOrder.flatMap (content inj)).drop (offset inj part) = element ++ rest) ∨
    (inj.stored part = false ∧ offset inj part = 0) := by
  by_cases stored : inj.stored part = true
  · obtain ⟨rest, stands⟩ := element_located (length_header written) stored
    have behind := headerSize_le_offset stored
    exact .inl ⟨stored, _, rest, packed part stored, by simp only [headerSize] at behind; omega, stands⟩
  · exact .inr ⟨by simpa using stored, by rw [offset, if_neg stored]⟩

private theorem dict_append {κ ν : Type} [DecidableEq κ] {items : List (κ × ν)}
    (distinct : (items.map Prod.fst).Nodup)
    (d : List (κ × ν)) (apart : ∀ e ∈ d, ∀ item ∈ items, e.1 ≠ item.1) :
    items.foldl (fun d item => d.filter (fun e => e.1 ≠ item.1) ++ [item]) d = d ++ items := by
  induction items generalizing d with
  | nil => simp
  | cons item rest ih =>
    obtain ⟨new, later⟩ := List.nodup_cons.mp distinct
    have kept : d.filter (fun e => e.1 ≠ item.1) = d :=
      List.filter_eq_self.mpr fun e member => decide_eq_true (apart e member item List.mem_cons_self)
    rw [List.foldl_cons, kept, ih later, List.append_assoc, List.singleton_append]
    intro e member other listed
    rcases List.mem_append.mp member with member | member
    · exact apart e member other (List.mem_cons_of_mem _ listed)
    · rw [List.mem_singleton.mp member]
      exact fun same => new (same ▸ List.mem_map_of_mem listed)

/-- A list without repeated keys is the dictionary made of it. -/
theorem dict_of_distinct {κ ν : Type} [DecidableEq κ] {items : List (κ × ν)}
    (distinct : (items.map Prod.fst).Nodup) :
    dict items = items := by
  rw [dict, dict_append distinct [] (by simp), List.nil_append]

section Dictionaries
variable {κ ν : Type} [LE κ] [DecidableLE κ] (d : Dict κ ν)

theorem sorted_perm : d.sorted.Perm d.items := List.mergeSort_perm _ _

theorem sorted_distinct : (d.sorted.map Prod.fst).Nodup :=
  ((sorted_perm d).map Prod.fst).nodup_iff.mpr d.distinct

end Dictionaries

/-- The numbers of a table below 2^31 are the same in the server, which has them with a sign. -/
theorem signed_of_small {κ : Type} {l : List (κ × Int)} (fits : ∀ e ∈ l, Fits e.2)
    (small : ∀ e ∈ l, e.2 < 2 ^ 31) :
    (l.map fun e => (e.1, (BitVec.ofInt 32 e.2).toInt)) = l := by
  refine (List.map_congr_left fun e member => ?_).trans (List.map_id l)
  have low := (fits e member).1
  have high := small e member
  rw [BitVec.toInt_ofInt, Int.bmod_eq_of_le (by omega) (by omega)]
  rfl

/-- The readers have the symbols of a table. -/
theorem symtab_read {symbols : Dict CString Int} {element : Bytes}
    (names : ∀ s ∈ symbols.items, SymbolName s.1)
    (packed : symtabBin symbols = some element) (rest : Bytes) :
    (∀ s ∈ symbols.sorted, Fits s.2) ∧
    iterSymbols (element ++ rest) =
      some (symbols.sorted.map fun s => (s.1, (BitVec.ofInt 32 s.2).toInt)) ∧
    (iterSyms (element ++ rest)).map dict = some symbols.sorted := by
  unfold symtabBin at packed
  obtain ⟨blocks, made, rfl⟩ := Option.map_eq_some_iff.mp packed
  obtain ⟨fits, server, reader⟩ :=
    symbols_written (fun s member => names s ((sorted_perm symbols).mem_iff.mp member)) made rest
  exact ⟨fits, server, by rw [reader, Option.map_some, dict_of_distinct (sorted_distinct symbols)]⟩

/-- The readers have the tracepoints. -/
theorem tpoints_read {element : Bytes} (nonzero : ∀ t ∈ inj.tpoints.items, t.1 ≠ 0)
    (packed : inj.tpointsBin = some element)
    (rest : Bytes) :
    (∀ t ∈ inj.tpoints.sorted, Fits t.2) ∧
    iterTPoints (element ++ rest) =
      some (inj.tpoints.sorted.map fun t => (t.1, (BitVec.ofInt 32 t.2).toInt)) ∧
    (iterTPointItems (element ++ rest)).map dict = some inj.tpoints.sorted := by
  unfold tpointsBin at packed
  obtain ⟨blocks, made, rfl⟩ := Option.map_eq_some_iff.mp packed
  obtain ⟨fits, server, reader⟩ :=
    tpoints_written (fun t member => nonzero t ((sorted_perm inj.tpoints).mem_iff.mp member)) made rest
  exact ⟨fun t member => (fits t member).2, server,
    by rw [reader, Option.map_some, dict_of_distinct (sorted_distinct inj.tpoints)]⟩

/-! ## The round trip -/

/-- What `idk/inj` makes: names and comments come from the command line or are
cut at a NUL, a symbol entry holds its name, and no tracepoint is zero. -/
structure Built (inj : Injectable) : Prop where
  name : 0#8 ∉ inj.name
  comment : 0#8 ∉ inj.comment
  adbi : ∀ s ∈ inj.adbi.items, SymbolName s.1
  imports : ∀ s ∈ inj.imports.items, SymbolName s.1
  exports : ∀ s ∈ inj.exports.items, SymbolName s.1
  tpoints : ∀ t ∈ inj.tpoints.items, t.1 ≠ 0

/-- Offsets that `inj_offset_t` can hold. -/
structure Small (inj : Injectable) : Prop where
  adbi : ∀ s ∈ inj.adbi.items, s.2 < 2 ^ 31
  imports : ∀ s ∈ inj.imports.items, s.2 < 2 ^ 31
  exports : ∀ s ∈ inj.exports.items, s.2 < 2 ^ 31
  tpoints : ∀ t ∈ inj.tpoints.items, t.2 < 2 ^ 31

/-- The entries that were read are those of the dictionary. -/
def Reads {κ ν : Type} (read : Option (List (κ × ν))) (d : Dict κ ν) : Prop :=
  ∃ entries, read = some entries ∧ entries.Perm d.items

/-- The server has the injectable in its file. -/
structure ServerReads (inj : Injectable) (file : File) : Prop where
  located : ∀ part, (inj.stored part = true ∧ ∃ element rest, inj.bin part = some element ∧
      file.behind part = some (element ++ rest)) ∨
    (inj.stored part = false ∧ file.behind part = none)
  code : file.code = inj.code
  name : file.string .name = some inj.name
  comment : file.string .comment = if inj.comment = [] then none else some inj.comment
  adbi : Reads (injfileIterAdbi file) inj.adbi
  imports : Reads (injfileIterImports file) inj.imports
  exports : Reads (injfileIterExports file) inj.exports
  tpoints : Reads (injfileIterTPoints file) inj.tpoints

/-- `readinj` has the injectable. -/
structure ReaderReads (inj : Injectable) (read : ReadInjectable) : Prop where
  code : read.code = inj.code
  name : read.name = some inj.name
  comment : read.comment = if inj.comment = [] then none else some inj.comment
  adbi : Reads (some read.adbi) inj.adbi
  imports : Reads (some read.imports) inj.imports
  exports : Reads (some read.exports) inj.exports
  tpoints : Reads (some read.tpoints) inj.tpoints

/-- The file in the server. -/
def fileOf (inj : Injectable) (header : Bytes) : File :=
  ⟨header ++ elementOrder.flatMap (content inj), BitVec.ofNat 16 inj.flags,
    BitVec.ofNat 32 inj.code.length,
    fun part => if inj.stored part then some (offset inj part) else none⟩

theorem behind_file (packed : Packed inj) (written : HeaderWritten inj header) (part : Part) :
    (inj.stored part = true ∧ ∃ element rest, inj.bin part = some element ∧
      (fileOf inj header).behind part = some (element ++ rest)) ∨
    (inj.stored part = false ∧ (fileOf inj header).behind part = none) := by
  rcases behind_written packed written part with ⟨stored, element, rest, made, -, stands⟩ | ⟨missing, -⟩
  · exact .inl ⟨stored, element, rest, made, by simp [File.behind, fileOf, stored, stands]⟩
  · exact .inr ⟨missing, by simp [File.behind, fileOf, missing]⟩

theorem no_items {κ ν : Type} {d : Dict κ ν} (empty : d.items.isEmpty = true) : Reads (some []) d :=
  ⟨[], rfl, by rw [List.isEmpty_iff.mp empty]⟩

private theorem symbols_in_file (packed : Packed inj) (written : HeaderWritten inj header)
    {part : Part} {symbols : Dict CString Int}
    (stored : inj.stored part = !symbols.items.isEmpty) (bin : inj.bin part = symtabBin symbols)
    (names : ∀ s ∈ symbols.items, SymbolName s.1) (small : ∀ s ∈ symbols.items, s.2 < 2 ^ 31) :
    Reads (injfileIterSymbols (fileOf inj header) part) symbols := by
  unfold injfileIterSymbols
  rcases behind_file packed written part with ⟨-, element, rest, made, behind⟩ | ⟨missing, behind⟩
  · obtain ⟨fits, server, -⟩ := symtab_read names (bin ▸ made) rest
    rw [behind]
    refine ⟨symbols.sorted, ?_, sorted_perm symbols⟩
    simp only [server, signed_of_small fits fun s member =>
      small s ((sorted_perm symbols).mem_iff.mp member)]
  · rw [behind]
    exact no_items (by simpa [stored] using missing)

theorem server_reads (built : Built inj) (small : Small inj) (packed : Packed inj)
    (written : HeaderWritten inj header) :
    ServerReads inj (fileOf inj header) where
  located := behind_file packed written
  code := by
    have codeSize : (fileOf inj header).codeSize.toNat = inj.code.length := by
      rw [fileOf, BitVec.toNat_ofNat, Nat.mod_eq_of_lt written.code]
    unfold File.code
    rw [codeSize]
    rcases behind_file packed written .code with ⟨-, element, rest, made, behind⟩ | ⟨missing, behind⟩
    · cases made
      rw [behind, Option.getD_some, List.take_left]
    · have empty : inj.code = [] := by simpa [Injectable.stored] using missing
      rw [behind, empty]
      rfl
  name := by
    unfold File.string
    rcases behind_file packed written .name with ⟨-, element, rest, made, behind⟩ | ⟨missing, -⟩
    · cases made
      rw [behind, Option.bind_some, List.append_assoc]
      exact cString_written built.name
    · exact absurd (by simpa [Injectable.stored] using missing) inj.named
  comment := by
    unfold File.string
    rcases behind_file packed written .comment with
        ⟨stored, element, rest, made, behind⟩ | ⟨missing, behind⟩
    · cases made
      rw [behind, Option.bind_some, List.append_assoc,
        if_neg (by simpa [Injectable.stored] using stored)]
      exact cString_written built.comment
    · rw [behind, if_pos (by simpa [Injectable.stored] using missing)]
      rfl
  adbi := symbols_in_file packed written rfl rfl built.adbi small.adbi
  imports := symbols_in_file packed written rfl rfl built.imports small.imports
  exports := symbols_in_file packed written rfl rfl built.exports small.exports
  tpoints := by
    unfold injfileIterTPoints
    rcases behind_file packed written .tpoints with ⟨-, element, rest, made, behind⟩ | ⟨missing, behind⟩
    · obtain ⟨fits, server, -⟩ := tpoints_read built.tpoints made rest
      rw [behind]
      refine ⟨inj.tpoints.sorted, ?_, sorted_perm inj.tpoints⟩
      simp only [server, signed_of_small fits fun t member =>
        small.tpoints t ((sorted_perm inj.tpoints).mem_iff.mp member)]
    · rw [behind]
      exact no_items (by simpa [Injectable.stored] using missing)

/-- `readinj` unpacks the offsets. -/
theorem header_read (written : HeaderWritten inj header) (rest : Bytes) :
    unpackHeader 64 (header ++ rest) =
    some ⟨0x0210#16, BitVec.ofNat 16 inj.flags, inj.code.length, offset inj .code, offset inj .name,
      offset inj .comment,
      offset inj .adbi, offset inj .imports, offset inj .exports, offset inj .tpoints⟩ := by
  have size := length_header written
  have number (part : Part) : (field 64 (header ++ rest) (fieldPlace part)).toNat = offset inj part := by
    rw [offset_field written, BitVec.toNat_ofNat, Nat.mod_eq_of_lt (written.offsets part)]
  have code : (field 32 (header ++ rest) 12).toNat = inj.code.length := by
    rw [code_size_field written, BitVec.toNat_ofNat, Nat.mod_eq_of_lt written.code]
  rw [unpackHeader, if_neg (by rw [List.length_append, size, headerSize]; omega),
    version_field written, flags_field written, code,
    ← number .code, ← number .name, ← number .comment, ← number .adbi, ← number .imports, ← number
      .exports, ← number .tpoints]
  rfl

private theorem string_read (packed : Packed inj) (written : HeaderWritten inj header) (part : Part)
    {text : CString}
    (stored : inj.stored part = !text.isEmpty) (bin : inj.bin part = some (text ++ [0#8]))
    (plain : 0#8 ∉ text) :
    readStr (header ++ elementOrder.flatMap (content inj)) (offset inj part) =
      some (if text = [] then none else some text) := by
  rcases behind_written packed written part with
      ⟨here, element, rest, made, nonzero, stands⟩ | ⟨missing, zero⟩
  · cases bin.symm.trans made
    rw [readStr, if_neg nonzero, stands, List.append_assoc, List.singleton_append, cString_written plain,
      if_neg (by simpa [stored] using here)]
    rfl
  · rw [readStr, if_pos zero, if_pos (by simpa [stored] using missing)]

private theorem syms_read (packed : Packed inj) (written : HeaderWritten inj header) (part : Part)
    {symbols : Dict CString Int}
    (stored : inj.stored part = !symbols.items.isEmpty) (bin : inj.bin part = symtabBin symbols)
    (names : ∀ s ∈ symbols.items, SymbolName s.1) :
    Reads (readSyms (header ++ elementOrder.flatMap (content inj)) (offset inj part)) symbols := by
  rcases behind_written packed written part with
      ⟨-, element, rest, made, nonzero, stands⟩ | ⟨missing, zero⟩
  · obtain ⟨-, -, reader⟩ := symtab_read names (bin ▸ made) rest
    rw [readSyms, if_neg nonzero, stands]
    exact ⟨symbols.sorted, reader, sorted_perm symbols⟩
  · rw [readSyms, if_pos zero]
    exact no_items (by simpa [stored] using missing)

theorem reader_reads (built : Built inj) (packed : Packed inj) (written : HeaderWritten inj header) :
    ∃ read, readinj (header ++ elementOrder.flatMap (content inj)) = some read ∧
    ReaderReads inj read := by
  have size := length_header written
  have name := string_read packed written .name rfl rfl built.name
  have comment := string_read packed written .comment rfl rfl built.comment
  obtain ⟨adbi, adbiRead, adbiSame⟩ := syms_read packed written .adbi rfl rfl built.adbi
  obtain ⟨imports, importsRead, importsSame⟩ := syms_read packed written .imports rfl rfl built.imports
  obtain ⟨exports, exportsRead, exportsSame⟩ := syms_read packed written .exports rfl rfl built.exports
  have tpoints : Reads (readTPoints (header ++ elementOrder.flatMap (content inj))
      (offset inj .tpoints)) inj.tpoints := by
    rcases behind_written packed written .tpoints with
        ⟨-, element, rest, made, nonzero, stands⟩ | ⟨missing, zero⟩
    · obtain ⟨-, -, reader⟩ := tpoints_read built.tpoints made rest
      rw [readTPoints, if_neg nonzero, stands]
      exact ⟨inj.tpoints.sorted, reader, sorted_perm inj.tpoints⟩
    · rw [readTPoints, if_pos zero]
      exact no_items (by simpa [Injectable.stored] using missing)
  obtain ⟨tpoints, tpointsRead, tpointsSame⟩ := tpoints
  have code : ((header ++ elementOrder.flatMap (content inj)).drop (offset inj .code)).take
      inj.code.length = inj.code := by
    rcases behind_written packed written .code with ⟨-, element, rest, made, -, stands⟩ | ⟨missing, -⟩
    · cases made
      rw [stands, List.take_left]
    · have empty : inj.code = [] := by simpa [Injectable.stored] using missing
      rw [empty]
      rfl
  obtain ⟨old, oldRead, version⟩ :
      ∃ old, unpackHeader 32 (header ++ elementOrder.flatMap (content inj)) = some old ∧
      old.version = 0x0210#16 := by
    rw [unpackHeader, if_neg (by rw [List.length_append, size, headerSize]; omega)]
    exact ⟨_, rfl, version_field written _⟩
  refine ⟨⟨inj.code, some inj.name, if inj.comment = [] then none else some inj.comment, adbi,
    imports, exports, tpoints,
    BitVec.ofNat 16 inj.flags⟩, ?_,
    ⟨rfl, rfl, rfl, ⟨adbi, rfl, adbiSame⟩, ⟨imports, rfl, importsSame⟩, ⟨exports, rfl, exportsSame⟩,
    ⟨tpoints, rfl, tpointsSame⟩⟩⟩
  rw [if_neg inj.named] at name
  simp only [readinj, oldRead, version, if_true, header_read written, Option.bind_eq_bind,
    Option.bind_some, name, comment, adbiRead,
    importsRead, exportsRead, tpointsRead, code]
  rfl

/-- What `idk/inj` writes both readers have back. -/
theorem image_read_back (built : Built inj) (small : Small inj) (written : inj.image = some bytes) :
    ∃ file read, injfileInit bytes = some file ∧ ServerReads inj file ∧ readinj bytes = some read ∧
    ReaderReads inj read := by
  obtain ⟨packed, header, made, rfl⟩ := image_some written
  have headed := header_some packed made
  obtain ⟨read, found, same⟩ := reader_reads built packed headed
  exact ⟨fileOf inj header, read, init_written headed, server_reads built small packed headed,
    found, same⟩

private theorem mapM_of_some {α β : Type} {f : α → Option β} {g : α → β} {l : List α}
    (all : ∀ a ∈ l, f a = some (g a)) :
    l.mapM f = some (l.map g) := by
  induction l with
  | nil => rfl
  | cons a rest ih =>
    rw [List.mapM_cons, all a List.mem_cons_self,
      ih fun b member => all b (List.mem_cons_of_mem _ member)]
    rfl

/-- Writing fails on nothing but a part that cannot be packed or a number that is too large. -/
theorem image_of_packed (packed : Packed inj) (flags : inj.flags < 2 ^ 16)
    (code : inj.code.length < 2 ^ 32)
    (offsets : ∀ part, offset inj part < 2 ^ 64) : ∃ bytes, inj.image = some bytes := by
  have elements : (elementOrder.filter inj.stored).mapM inj.bin =
      some ((elementOrder.filter inj.stored).map (content inj)) :=
    mapM_of_some fun part member => packed part (List.mem_filter.mp member).2
  have fields : headerOrder.mapM (fun what => (inj.getOffset what).bind fun place =>
      packUnsigned 64 place) =
      some (headerOrder.map fun part => littleEndian (BitVec.ofNat 64 (offset inj part))) := by
    refine mapM_of_some fun part _ => ?_
    rw [getOffset_eq packed, Option.bind_some, packUnsigned_of_lt (offsets part)]
  unfold image headerBin
  simp only [elements, packUnsigned_of_lt flags, packUnsigned_of_lt code, fields,
    Option.bind_eq_bind, Option.bind_some]
  exact ⟨_, rfl⟩

/-! ## What can be written -/

/-- The numbers of an injectable fit their formats. -/
structure Numbers (inj : Injectable) : Prop where
  flags : inj.flags < 2 ^ 16
  code : inj.code.length < 2 ^ 32
  adbi : ∀ s ∈ inj.adbi.items, Fits s.2
  imports : ∀ s ∈ inj.imports.items, Fits s.2
  exports : ∀ s ∈ inj.exports.items, Fits s.2
  tpoints : ∀ t ∈ inj.tpoints.items, Fits t.1 ∧ Fits t.2
  lines : ∀ l ∈ inj.lines.items, Fits l.1 ∧ Fits l.2.2
  strings : inj.strings.length < 2 ^ 32

/-- A bound on the bytes of all elements. -/
def elementsSize (inj : Injectable) : Nat :=
  inj.name.length + 1 + (inj.comment.length + 1) + inj.code.length + 8 * (inj.tpoints.items.length + 1) +
    32 * (inj.adbi.items.length + 1) + 32 * (inj.imports.items.length + 1) + 32 *
      (inj.exports.items.length + 1) +
    12 * (inj.lines.items.length + 1) + inj.strings.length

private theorem length_flatten_of_same {k : Nat} {blocks : List Bytes}
    (same : ∀ block ∈ blocks, block.length = k) :
    blocks.flatten.length = k * blocks.length := by
  induction blocks with
  | nil => rfl
  | cons block later ih =>
    rw [List.flatten_cons, List.length_append, same block List.mem_cons_self,
      ih fun b member => same b (List.mem_cons_of_mem _ member),
      List.length_cons, Nat.mul_succ, Nat.add_comm]

private theorem packs_of_fits {n : Int} (fits : Fits n) :
    packUnsigned 32 n = some (littleEndian (BitVec.ofInt 32 n)) := if_pos fits

theorem zero_fits : Fits 0 := ⟨Int.le_refl 0, by decide⟩

private theorem symtab_some {symbols : Dict CString Int} (fits : ∀ s ∈ symbols.items, Fits s.2) :
    ∃ element, symtabBin symbols = some element ∧ element.length = 32 * (symbols.items.length + 1) := by
  have entry (s : CString × Int) (number : Fits s.2) :
      packSymbol s = some ((s.1 ++ List.replicate 28 0#8).take 28 ++
        littleEndian (BitVec.ofInt 32 s.2)) := by
    rw [packSymbol, packs_of_fits number]
    rfl
  have all : ∀ s ∈ symbols.sorted ++ [([], 0)], Fits s.2 := by
    intro s member
    rcases List.mem_append.mp member with member | member
    · exact fits s ((sorted_perm symbols).mem_iff.mp member)
    · rw [List.mem_singleton.mp member]
      exact zero_fits
  refine ⟨_, by rw [symtabBin, mapM_of_some fun s member => entry s (all s member), Option.map_some], ?_⟩
  rw [length_flatten_of_same fun block member => by
    obtain ⟨s, -, rfl⟩ := List.mem_map.mp member
    rw [List.length_append, length_littleEndian, List.length_take, List.length_append,
      List.length_replicate,
      Nat.min_eq_left (Nat.le_add_left _ _)], List.length_map, List.length_append,
      (sorted_perm symbols).length_eq]
  rfl

private theorem tpoints_some (fits : ∀ t ∈ inj.tpoints.items, Fits t.1 ∧ Fits t.2) :
    ∃ element, inj.tpointsBin = some element ∧ element.length = 8 * (inj.tpoints.items.length + 1) := by
  have entry (t : Int × Int) (address : Fits t.1) (handler : Fits t.2) :
      packTPoint t = some (littleEndian (BitVec.ofInt 32 t.1) ++
        littleEndian (BitVec.ofInt 32 t.2)) := by
    rw [packTPoint, packs_of_fits address, packs_of_fits handler]
    rfl
  have all : ∀ t ∈ inj.tpoints.sorted ++ [(0, 0)], Fits t.1 ∧ Fits t.2 := by
    intro t member
    rcases List.mem_append.mp member with member | member
    · exact fits t ((sorted_perm inj.tpoints).mem_iff.mp member)
    · rw [List.mem_singleton.mp member]
      exact ⟨zero_fits, zero_fits⟩
  refine ⟨_, by
    rw [tpointsBin, mapM_of_some fun t member => entry t (all t member).1 (all t member).2,
      Option.map_some], ?_⟩
  rw [length_flatten_of_same fun block member => by
    obtain ⟨t, -, rfl⟩ := List.mem_map.mp member
    rw [List.length_append, length_littleEndian, length_littleEndian], List.length_map,
    List.length_append,
    (sorted_perm inj.tpoints).length_eq]
  rfl

/-- The strings of the line table before they are joined. -/
def pool (inj : Injectable) : List Bytes :=
  (inj.lines.items.map fun (line : Int × CString × Int) => line.2.1 ++ [0#8]).dedup.mergeSort fun x
    y => decide (x ≤ y)

theorem mem_pool {string : Bytes} : string ∈ pool inj ↔
    ∃ line ∈ inj.lines.items, line.2.1 ++ [0#8] = string := by
  rw [pool, (List.mergeSort_perm _ _).mem_iff, List.mem_dedup, List.mem_map]

/-- Where a text search finds a string in the text: at its first place. -/
structure FirstAt (string text : Bytes) (i : Nat) : Prop where
  here : string <+: text.drop i
  first : ∀ j < i, ¬string <+: text.drop j

/-- A file name is found, and a terminator stands behind it. -/
theorem getStringOffset_some {line : Int × CString × Int} (member : line ∈ inj.lines.items) :
    ∃ i, inj.getStringOffset line.2.1 = some i ∧ i ≤ inj.strings.length ∧
    FirstAt line.2.1 inj.strings i ∧
      0#8 ∈ inj.strings.drop i := by
  obtain ⟨before, after, split⟩ := List.append_of_mem (mem_pool.mpr ⟨line, member, rfl⟩)
  have strings : inj.strings = before.flatten ++ (line.2.1 ++ 0#8 :: after.flatten) := by
    rw [show inj.strings = (pool inj).flatten from rfl, split, List.flatten_append,
      List.flatten_cons, List.append_assoc]
    rfl
  have own : inj.strings.drop before.flatten.length = line.2.1 ++ 0#8 :: after.flatten := by
    rw [strings, List.drop_left]
  have here : line.2.1.isPrefixOf (inj.strings.drop before.flatten.length) = true := by
    rw [own, List.isPrefixOf_iff_prefix]
    exact List.prefix_append _ _
  have inside : before.flatten.length ≤ inj.strings.length := by
    rw [strings, List.length_append]
    exact Nat.le_add_right _ _
  have found : (inj.getStringOffset line.2.1).isSome = true :=
    List.find?_isSome.mpr ⟨_, List.mem_range.mpr (Nat.lt_succ_of_le inside), here⟩
  obtain ⟨i, eq⟩ := Option.isSome_iff_exists.mp found
  obtain ⟨starts, bound, earlier⟩ := List.find?_range_eq_some.mp eq
  have least : i ≤ before.flatten.length := by
    by_contra above
    have missed := earlier _ (Nat.lt_of_not_le above)
    rw [here] at missed
    cases missed
  refine ⟨i, eq, Nat.le_trans least inside,
    ⟨List.isPrefixOf_iff_prefix.mp starts, fun j below starts => ?_⟩, ?_⟩
  · have missed := earlier j below
    simp [List.isPrefixOf_iff_prefix.mpr starts] at missed
  · have suffix : inj.strings.drop before.flatten.length =
        (inj.strings.drop i).drop (before.flatten.length - i) := by
      rw [List.drop_drop, Nat.add_sub_cancel' least]
    refine List.mem_of_mem_drop (?_ : 0#8 ∈ (inj.strings.drop i).drop (before.flatten.length - i))
    rw [← suffix, own]
    exact List.mem_append_right _ List.mem_cons_self

private theorem lines_some (fits : ∀ l ∈ inj.lines.items, Fits l.1 ∧ Fits l.2.2)
    (strings : inj.strings.length < 2 ^ 32) :
    ∃ element, inj.linesBin = some element ∧ element.length = 12 * (inj.lines.items.length + 1) := by
  have entry (addr file line : Int) (address : Fits addr) (place : Fits file) (number : Fits line) :
      packLine addr file line =
      some (littleEndian (BitVec.ofInt 32 addr) ++ littleEndian (BitVec.ofInt 32 file) ++
        littleEndian (BitVec.ofInt 32 line)) := by
    rw [packLine, packs_of_fits address, packs_of_fits place, packs_of_fits number]
    rfl
  have all : ∀ l ∈ inj.lines.sorted, (do packLine l.1 (← inj.getStringOffset l.2.1) l.2.2) =
      some (littleEndian (BitVec.ofInt 32 l.1) ++
        littleEndian (BitVec.ofInt 32 ((inj.getStringOffset l.2.1).getD 0 : Nat)) ++
        littleEndian (BitVec.ofInt 32 l.2.2)) := by
    intro l member
    have member := (sorted_perm inj.lines).mem_iff.mp member
    obtain ⟨i, found, inside, -, -⟩ := getStringOffset_some member
    rw [found]
    exact entry l.1 i l.2.2 (fits l member).1 ⟨by omega, by omega⟩ (fits l member).2
  refine ⟨_, by rw [linesBin, mapM_of_some all, entry 0 0 0 zero_fits zero_fits zero_fits]; rfl, ?_⟩
  rw [List.length_append, length_flatten_of_same (k := 12) fun block member => by
    obtain ⟨l, -, rfl⟩ := List.mem_map.mp member
    simp, List.length_map, (sorted_perm inj.lines).length_eq]
  simp
  omega

private theorem element_some (numbers : Numbers inj) (part : Part) :
    ∃ element, inj.bin part = some element := by
  cases part
  case name => exact ⟨_, rfl⟩
  case comment => exact ⟨_, rfl⟩
  case code => exact ⟨_, rfl⟩
  case strings => exact ⟨_, rfl⟩
  case tpoints => exact (tpoints_some numbers.tpoints).imp fun _ made => made.1
  case adbi => exact (symtab_some numbers.adbi).imp fun _ made => made.1
  case imports => exact (symtab_some numbers.imports).imp fun _ made => made.1
  case exports => exact (symtab_some numbers.exports).imp fun _ made => made.1
  case lines => exact (lines_some numbers.lines numbers.strings).imp fun _ made => made.1

private theorem content_length_le (inj : Injectable) (part : Part) {element : Bytes}
    (made : inj.bin part = some element) :
    (content inj part).length ≤ element.length := by
  unfold content
  split
  · rw [made]
    exact Nat.le_refl _
  · exact Nat.zero_le _

private theorem elements_length_le (numbers : Numbers inj) :
    (elementOrder.flatMap (content inj)).length ≤ elementsSize inj := by
  obtain ⟨tpoints, tpointsMade, tpointsLength⟩ := tpoints_some numbers.tpoints
  obtain ⟨adbi, adbiMade, adbiLength⟩ := symtab_some numbers.adbi
  obtain ⟨imports, importsMade, importsLength⟩ := symtab_some numbers.imports
  obtain ⟨exports, exportsMade, exportsLength⟩ := symtab_some numbers.exports
  obtain ⟨lines, linesMade, linesLength⟩ := lines_some numbers.lines numbers.strings
  have nameLe := content_length_le inj .name rfl
  have commentLe := content_length_le inj .comment rfl
  have codeLe := content_length_le inj .code rfl
  have stringsLe := content_length_le inj .strings rfl
  have tpointsLe := content_length_le inj .tpoints tpointsMade
  have adbiLe := content_length_le inj .adbi adbiMade
  have importsLe := content_length_le inj .imports importsMade
  have exportsLe := content_length_le inj .exports exportsMade
  have linesLe := content_length_le inj .lines linesMade
  simp only [List.length_append, List.length_singleton] at nameLe commentLe
  simp only [elementOrder, List.flatMap_cons, List.flatMap_nil, List.length_append, List.length_nil,
    elementsSize]
  omega

/-- An injectable is written, if its numbers fit and the file has less than 2^64 bytes. -/
theorem image_of_numbers (numbers : Numbers inj) (size : headerSize + elementsSize inj < 2 ^ 64) :
    ∃ bytes, inj.image = some bytes := by
  have packed : Packed inj := by
    intro part stored
    obtain ⟨element, made⟩ := element_some numbers part
    rw [content, if_pos stored, made, Option.getD_some]
  refine image_of_packed packed numbers.flags numbers.code fun part => ?_
  have total := elements_length_le numbers
  obtain ⟨later, order⟩ := split_order part
  rw [order, List.flatMap_append, List.length_append] at total
  unfold offset
  split
  · omega
  · exact Nat.two_pow_pos 64

/-- A library with one function. -/
def library (code : Bytes) (function : Int) : Injectable where
  code := code
  name := [0x61#8]
  comment := []
  imports := ⟨[], List.nodup_nil⟩
  exports := ⟨[([0x66#8], function)], by simp⟩
  adbi := ⟨[], List.nodup_nil⟩
  tpoints := ⟨[], List.nodup_nil⟩
  flags := 1
  lines := ⟨[], List.nodup_nil⟩
  named := List.cons_ne_nil _ _
  library := fun _ => rfl

theorem library_built (code : Bytes) (function : Int) : Built (library code function) := by
  constructor <;> simp [library]
  constructor <;> simp

/-- It is written, if its numbers have 32 bits. -/
theorem library_written (code : Bytes) (size : code.length < 2 ^ 32) (function : Nat)
    (fits : function < 2 ^ 32) :
    ∃ bytes, (library code function).image = some bytes := by
  have strings : (library code function).strings = [] :=
    by simp [Injectable.strings, library, List.dedup_nil]
  have numbers : Numbers (library code function) := by
    refine ⟨by simp [library], size, nofun, nofun, ?_, nofun, nofun, by simp [strings]⟩
    intro s member
    rw [List.mem_singleton.mp member]
    exact ⟨by omega, by omega⟩
  refine image_of_numbers numbers ?_
  rw [elementsSize, strings]
  simp only [headerSize, library, List.length_cons, List.length_nil]
  omega

/-- A function at the start of four bytes of code. -/
theorem library_read_back : ∃ bytes file read, (library (List.replicate 4 0#8) 0).image =
    some bytes ∧ injfileInit bytes = some file ∧
    injfileIterExports file = some [([0x66#8], 0)] ∧ readinj bytes = some read ∧
    read.code = List.replicate 4 0#8 := by
  obtain ⟨bytes, written⟩ := library_written (List.replicate 4 0#8) (by simp) 0 (by simp)
  have small : Small (library (List.replicate 4 0#8) 0) := by constructor <;> simp [library]
  obtain ⟨file, read, accepted, server, found, reader⟩ :=
    image_read_back (library_built _ _) small written
  obtain ⟨entries, iterated, same⟩ := server.exports
  exact ⟨bytes, file, read, written, accepted, by rw [iterated, List.perm_singleton.mp same],
    found, reader.code⟩

/-- An offset of 2^31, which a code section of more than 2 GiB has, is negative in the server. -/
theorem far_function_lost : ¬∀ inj : Injectable, ∀ bytes, Built inj →
    (∀ s ∈ inj.exports.items, s.2 < inj.code.length) →
    inj.image = some bytes → ∃ file, injfileInit bytes = some file ∧
    Reads (injfileIterExports file) inj.exports := by
  intro all
  obtain ⟨code, length⟩ : ∃ code : Bytes, code.length = 2 ^ 31 + 4 :=
    ⟨List.replicate (2 ^ 31 + 4) 0#8, List.length_replicate⟩
  obtain ⟨bytes, written⟩ := library_written code (by omega) (2 ^ 31) (by omega)
  obtain ⟨file, accepted, entries, iterated, same⟩ :=
    all _ bytes (library_built code _) (by simp [library, length]) written
  obtain ⟨packed, header, made, rfl⟩ := image_some written
  have headed := header_some packed made
  rw [init_written headed] at accepted
  cases accepted
  change injfileIterSymbols (fileOf (library code ((2 ^ 31 : Nat) : Int)) header) .exports =
    some entries at iterated
  have sorted : (library code ((2 ^ 31 : Nat) : Int)).exports.sorted =
      [([0x66#8], ((2 ^ 31 : Nat) : Int))] := List.mergeSort_singleton _
  rcases behind_file packed headed .exports with ⟨-, element, rest, table, behind⟩ | ⟨missing, -⟩
  · obtain ⟨-, server, -⟩ := symtab_read (library_built code _).exports table rest
    rw [sorted] at server
    simp only [injfileIterSymbols, behind, server] at iterated
    cases iterated
    rw [List.map_singleton] at same
    have number := congrArg (List.map Prod.snd) (List.perm_singleton.mp same)
    exact absurd number (by decide)
  · cases missing

end Adbi.InjfileProofs
