import Adbi.Client
import Mathlib.Data.List.DropRight

/-! The injectable file: the writer of `idk/inj`, the reader of the server in
`injectable/injfile.c` and the reader `idk/readinj`. What raises an exception has
no result, and neither has what reads behind the end of the file. -/
namespace Adbi.Injfile
open Adbi.Lib
open Adbi.Payload (CString)
open Adbi.Client (packUnsigned)

/-- A Python dictionary, with its items in any order. -/
structure Dict (κ ν : Type) where
  items : List (κ × ν)
  distinct : (items.map Prod.fst).Nodup

/-- `sorted(d.items())`. The keys are distinct, so that no two values are compared. -/
def Dict.sorted {κ ν : Type} [LE κ] [DecidableLE κ] (d : Dict κ ν) : List (κ × ν) :=
  d.items.mergeSort fun x y => decide (x.1 ≤ y.1)

/-- The attributes of an injectable that the file stores. -/
inductive Part where
  | name | comment | code | tpoints | adbi | imports | exports | lines | strings
  deriving DecidableEq

/-- `Injectable` of `idk/inj`. No comment is an empty one. -/
structure Injectable where
  code : Bytes
  name : CString
  comment : CString
  imports : Dict CString Int
  exports : Dict CString Int
  adbi : Dict CString Int
  tpoints : Dict Int Int
  flags : Nat
  lines : Dict Int (CString × Int)
  named : name ≠ []
  library : flags % 2 = 1 → tpoints.items = []

namespace Injectable

/-! ## The writer -/

def elementOrder : List Part := [.name, .comment, .code, .tpoints, .adbi, .imports, .exports,
      .lines, .strings]

/-- The strings of the line table, each with its terminator. -/
def strings (inj : Injectable) : Bytes :=
  ((inj.lines.items.map fun (line : Int × CString × Int) => line.2.1 ++ [0#8]).dedup.mergeSort fun x
    y => decide (x ≤ y)).flatten

/-- `self.strings.find(string)`, which the assertion requires to succeed. -/
def getStringOffset (inj : Injectable) (string : CString) : Option Nat :=
  (List.range (inj.strings.length + 1)).find? fun i => string.isPrefixOf (inj.strings.drop i)

/-- `SymbolStruct`: 28 bytes of the name, filled up with zeros, and the offset. -/
def packSymbol (symbol : CString × Int) : Option Bytes :=
  (packUnsigned 32 symbol.2).map ((symbol.1 ++ List.replicate 28 0#8).take 28 ++ ·)

/-- `TPointStruct`. -/
def packTPoint (tpoint : Int × Int) : Option Bytes := do
  return (← packUnsigned 32 tpoint.1) ++ (← packUnsigned 32 tpoint.2)

/-- `LineStruct`. -/
def packLine (addr file line : Int) : Option Bytes := do
  return (← packUnsigned 32 addr) ++ (← packUnsigned 32 file) ++ (← packUnsigned 32 line)

def symtabBin (symbols : Dict CString Int) : Option Bytes :=
  ((symbols.sorted ++ [([], 0)]).mapM packSymbol).map List.flatten

def tpointsBin (inj : Injectable) : Option Bytes :=
  ((inj.tpoints.sorted ++ [(0, 0)]).mapM packTPoint).map List.flatten

def linesBin (inj : Injectable) : Option Bytes := do
  let entries ← inj.lines.sorted.mapM fun line =>
      do packLine line.1 (← inj.getStringOffset line.2.1) line.2.2
  return entries.flatten ++ (← packLine 0 0 0)

/-- Whether the attribute is true, which an empty string or dictionary is not. -/
def stored (inj : Injectable) : Part → Bool
  | .name => !inj.name.isEmpty
  | .comment => !inj.comment.isEmpty
  | .code => !inj.code.isEmpty
  | .tpoints => !inj.tpoints.items.isEmpty
  | .adbi => !inj.adbi.items.isEmpty
  | .imports => !inj.imports.items.isEmpty
  | .exports => !inj.exports.items.isEmpty
  | .lines => !inj.lines.items.isEmpty
  | .strings => !inj.strings.isEmpty

/-- The property `..._bin` of an attribute. -/
def bin (inj : Injectable) : Part → Option Bytes
  | .name => some (inj.name ++ [0#8])
  | .comment => some (inj.comment ++ [0#8])
  | .code => some inj.code
  | .tpoints => inj.tpointsBin
  | .adbi => symtabBin inj.adbi
  | .imports => symtabBin inj.imports
  | .exports => symtabBin inj.exports
  | .lines => inj.linesBin
  | .strings => some inj.strings

/-- `HeaderStruct.size`. -/
def headerSize : Nat := 88

/-- The loop of `get_offset` over the elements before the wanted one, the last
of them first. The offset of the previous element is found by the same loop. -/
def offsetAfter (inj : Injectable) : List Part → Option Nat
  | [] => some headerSize
  | prev :: before => do
    let prevOffset ← if inj.stored prev then inj.offsetAfter before else some 0
    if prevOffset = 0 then inj.offsetAfter before
    else return prevOffset + (← inj.bin prev).length

/-- `get_offset`. -/
def getOffset (inj : Injectable) (what : Part) : Option Nat :=
  if inj.stored what then inj.offsetAfter (elementOrder.takeWhile (· ≠ what)).reverse else some 0

/-- The magic `adbi3inj`. -/
def magic : Bytes := [0x61#8, 0x64#8, 0x62#8, 0x69#8, 0x33#8, 0x69#8, 0x6e#8, 0x6a#8]

/-- The parts in the order of their offsets in the header. -/
def headerOrder : List Part := [.code, .name, .comment, .adbi, .imports, .exports, .tpoints,
      .strings, .lines]

/-- `header_bin`. -/
def headerBin (inj : Injectable) : Option Bytes := do
  let flags ← packUnsigned 16 inj.flags
  let codeSize ← packUnsigned 32 inj.code.length
  let offsets ← headerOrder.mapM fun what => do packUnsigned 64 (← inj.getOffset what)
  return magic ++ littleEndian 0x0210#16 ++ flags ++ codeSize ++ offsets.flatten

/-- The property `inj`: the contents of the file. -/
def image (inj : Injectable) : Option Bytes := do
  let elements ← (elementOrder.filter inj.stored).mapM inj.bin
  return (← inj.headerBin) ++ elements.flatten

end Injectable

/-! ## The reader of the server -/

/-- A number of the file. -/
def field (w : Nat) (bytes : Bytes) (place : Nat) : BitVec w :=
  ofLittleEndian w ((bytes.drop place).take (w / 8))

/-- A NUL-terminated string at the start of the bytes. -/
def cString : Bytes → Option CString
  | [] => none
  | char :: rest => if char = 0#8 then some [] else (cString rest).map (char :: ·)

/-- A string ends where its terminator is. -/
theorem cString_isSome : (cString bytes).isSome ↔ 0#8 ∈ bytes := by
  induction bytes with
  | nil => simp [cString]
  | cons char rest ih =>
    rw [cString]
    by_cases last : char = 0#8
    · simp [last]
    · rw [if_neg last, Option.isSome_map, ih, List.mem_cons, or_iff_right (Ne.symm last)]

/-- The place of an offset in `struct injfile_t`. -/
def fieldPlace : Part → Nat
  | .code => 16
  | .name => 24
  | .comment => 32
  | .adbi => 40
  | .imports => 48
  | .exports => 56
  | .tpoints => 64
  | .strings => 72
  | .lines => 80

/-- `injfile_t` after `injfile_init`. A pointer is relative to the start of the file. -/
structure File where
  bytes : Bytes
  flags : BitVec 16
  codeSize : BitVec 32
  pointer : Part → Option Nat

/-- `fix_ptr`. -/
def fixPtr (bytes : Bytes) (part : Part) : Option Nat :=
  let offset := field 64 bytes (fieldPlace part)
  if offset = 0 then none else some offset.toNat

/-- `injfile_init`. -/
def injfileInit (bytes : Bytes) : Option File :=
  if bytes.length < 88 then none
  else if bytes.take 8 = Injectable.magic then
    if field 16 bytes 8 = 0x0210#16 then
      let codeSize := field 32 bytes 12
      if bytes.length < (field 64 bytes (fieldPlace .code) + codeSize.setWidth 64).toNat then none
      else some ⟨bytes, field 16 bytes 10, codeSize, fixPtr bytes⟩
    else none
  else none

/-- The bytes behind a pointer. -/
def File.behind (file : File) (part : Part) : Option Bytes := (file.pointer part).map file.bytes.drop

/-- The code, as the server copies it. -/
def File.code (file : File) : Bytes := ((file.behind .code).getD []).take file.codeSize.toNat

/-- The strings `name` and `comment`. -/
def File.string (file : File) (part : Part) : Option CString := (file.behind part).bind cString

/-- The loop of `injfile_iter_tpoints`: what the callback is called with. -/
def iterTPoints (bytes : Bytes) : Option (List (Int × Int)) :=
  if bytes.length < 4 then none
  else if field 32 bytes 0 = 0#32 then some []
  else if bytes.length < 8 then none
  else (iterTPoints (bytes.drop 8)).map ((((field 32 bytes 0).toNat : Int),
    (field 32 bytes 4).toInt) :: ·)
termination_by bytes.length
decreasing_by
  simp
  omega

/-- `injfile_iter_tpoints`. -/
def injfileIterTPoints (file : File) : Option (List (Int × Int)) :=
  match file.behind .tpoints with
  | none => some []
  | some bytes => iterTPoints bytes

/-- The loop of `injfile_iter_symbols`. -/
def iterSymbols (bytes : Bytes) : Option (List (CString × Int)) :=
  match cString bytes with
  | none => none
  | some name =>
    if name.isEmpty then some []
    else if bytes.length < 32 then none
    else (iterSymbols (bytes.drop 32)).map ((name, (field 32 bytes 28).toInt) :: ·)
termination_by bytes.length
decreasing_by
  simp
  omega

/-- `injfile_iter_symbols`, on the table `adbi`, `imports` or `exports`. -/
def injfileIterSymbols (file : File) (part : Part) : Option (List (CString × Int)) :=
  match file.behind part with
  | none => some []
  | some bytes => iterSymbols bytes

def injfileIterImports (file : File) := injfileIterSymbols file .imports
def injfileIterExports (file : File) := injfileIterSymbols file .exports
def injfileIterAdbi (file : File) := injfileIterSymbols file .adbi

/-! ## `readinj` -/

/-- `dict(items)`: a later item of a key replaces an earlier one. -/
def dict {κ ν : Type} [DecidableEq κ] (items : List (κ × ν)) : List (κ × ν) :=
  items.foldl (fun d item => d.filter (fun e => e.1 ≠ item.1) ++ [item]) []

/-- `HeaderStruct` and `HeaderStructv21`: the offsets have 4 or 8 bytes. -/
structure ReadHeader where
  version : BitVec 16
  flags : BitVec 16
  codeSize : Nat
  code : Nat
  name : Nat
  comment : Nat
  adbi : Nat
  imports : Nat
  exports : Nat
  tpoints : Nat

/-- Reads and unpacks a header with offsets of the width. -/
def unpackHeader (w : Nat) (bytes : Bytes) : Option ReadHeader :=
  if bytes.length < 16 + 7 * (w / 8) then none
  else
    let offset (i : Nat) := (field w bytes (16 + i * (w / 8))).toNat
    some ⟨field 16 bytes 8, field 16 bytes 10, (field 32 bytes 12).toNat, offset 0, offset 1,
      offset 2, offset 3, offset 4, offset 5,
      offset 6⟩

/-- `_read_str`. -/
def readStr (bytes : Bytes) (pos : Nat) : Option (Option CString) :=
  if pos = 0 then some none else (cString (bytes.drop pos)).map some

/-- The items that `_read_syms` reads. -/
def iterSyms (bytes : Bytes) : Option (List (CString × Int)) :=
  if bytes.length < 32 then none
  else
    let symbol := (bytes.take 28).rdropWhile (· = 0#8)
    if symbol.isEmpty then some []
    else (iterSyms (bytes.drop 32)).map ((symbol, ((field 32 bytes 28).toNat : Int)) :: ·)
termination_by bytes.length
decreasing_by
  simp
  omega

/-- `_read_syms`. -/
def readSyms (bytes : Bytes) (pos : Nat) : Option (List (CString × Int)) :=
  if pos = 0 then some [] else (iterSyms (bytes.drop pos)).map dict

/-- The items that `_read_tpoints` reads. -/
def iterTPointItems (bytes : Bytes) : Option (List (Int × Int)) :=
  if bytes.length < 8 then none
  else if field 32 bytes 0 = 0#32 then some []
  else (iterTPointItems (bytes.drop 8)).map ((((field 32 bytes 0).toNat : Int),
    ((field 32 bytes 4).toNat : Int)) :: ·)
termination_by bytes.length
decreasing_by
  simp
  omega

/-- `_read_tpoints`. -/
def readTPoints (bytes : Bytes) (pos : Nat) : Option (List (Int × Int)) :=
  if pos = 0 then some [] else (iterTPointItems (bytes.drop pos)).map dict

/-- `Injectable` of `idk/readinj`. -/
structure ReadInjectable where
  code : Bytes
  name : Option CString
  comment : Option CString
  adbi : List (CString × Int)
  imports : List (CString × Int)
  exports : List (CString × Int)
  tpoints : List (Int × Int)
  flags : BitVec 16

/-- Its constructor. -/
def readinj (bytes : Bytes) : Option ReadInjectable := do
  let old ← unpackHeader 32 bytes
  let header ← if old.version = 0x0210#16 then unpackHeader 64 bytes else some old
  let code := (bytes.drop header.code).take header.codeSize
  let name ← readStr bytes header.name
  let comment ← readStr bytes header.comment
  let adbi ← readSyms bytes header.adbi
  let imports ← readSyms bytes header.imports
  let exports ← readSyms bytes header.exports
  let tpoints ← readTPoints bytes header.tpoints
  return ⟨code, name, comment, adbi, imports, exports, tpoints, header.flags⟩

end Adbi.Injfile
