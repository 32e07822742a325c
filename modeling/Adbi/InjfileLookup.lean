import Adbi.Injfile

/-! The searches of the server in the tables of an injectable file: a symbol by
its name, and the line of the source at an offset of the code. -/
namespace Adbi.InjfileLookup
open Adbi.Lib Adbi.Injfile
open Adbi.Payload (CString)

/-! ## Symbols -/

/-- `strncmp(name, bytes, n) == 0`. -/
def strncmp : Nat → CString → Bytes → Option Bool
  | 0, _, _ => some true
  | _ + 1, _, [] => none
  | _ + 1, [], byte :: _ => some (byte == 0#8)
  | n + 1, char :: later, byte :: rest => if char = byte then strncmp n later rest else some false

/-- The loop of `injfile_get_symbol`. -/
def getSymbol (name : CString) (bytes : Bytes) : Option Int :=
  match bytes.head? with
  | none => none
  | some first =>
    if first = 0#8 then some (-1)
    else
      match strncmp 28 name bytes with
      | none => none
      | some true => if bytes.length < 32 then none else some (field 32 bytes 28).toInt
      | some false => if bytes.length < 32 then none else getSymbol name (bytes.drop 32)
termination_by bytes.length
decreasing_by
  simp
  omega

/-- `injfile_get_symbol`, on the table `adbi`, `imports` or `exports`. -/
def injfileGetSymbol (file : File) (part : Part) (name : CString) : Option Int :=
  match file.behind part with
  | none => some (-1)
  | some bytes => getSymbol name bytes

def injfileGetImport (file : File) := injfileGetSymbol file .imports
def injfileGetExport (file : File) := injfileGetSymbol file .exports
def injfileGetAdbi (file : File) := injfileGetSymbol file .adbi

/-! ## Lines -/

/-- `struct injfile_lineinfo_t`. -/
structure LineInfo where
  addr : BitVec 32
  file : BitVec 32
  line : BitVec 32
  deriving DecidableEq

def lineInfo (bytes : Bytes) : LineInfo := ⟨field 32 bytes 0, field 32 bytes 4, field 32 bytes 8⟩

/-- The string `<error>`. -/
def errorString : CString := [0x3c#8, 0x65#8, 0x72#8, 0x72#8, 0x6f#8, 0x72#8, 0x3e#8]

/-- `injfile_get_string`, and the string that stands there. -/
def injfileGetString (file : File) (offset : BitVec 32) : Option CString :=
  match file.behind .strings with
  | none => some errorString
  | some bytes => cString (bytes.drop offset.toNat)

/-- The loop of `injfile_addr2line`: the entry before the one where it stops,
if that is not the first one. -/
def lineBefore (offset : Int) (previous : Option LineInfo) (bytes : Bytes) : Option (Option LineInfo) :=
  if bytes.length < 12 then none
  else
    let li := lineInfo bytes
    if li.addr ||| li.file ||| li.line = 0#32 then some previous
    -- the address is signed
    else if offset < li.addr.toInt then some previous
    else lineBefore offset (some li) (bytes.drop 12)
termination_by bytes.length
decreasing_by
  simp
  omega

/-- `injfile_addr2line`. -/
def injfileAddr2line (file : File) (offset : Int) : Option (Option (CString × BitVec 32)) :=
  match file.behind .lines with
  | none => some none
  | some bytes => do
    match ← lineBefore offset none bytes with
    | none => return none
    | some li => return some (← injfileGetString file li.file, li.line)

end Adbi.InjfileLookup
