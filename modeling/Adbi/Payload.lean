import Adbi.Lib.Bytes
import Adbi.Lib.Traced

/-! The client payload format of `communication/payload.c`: the element
checker, the linear search and the typed accessors. Everything is written over
the memory of the 32-bit server, so that an element whose header lies about its
size is followed exactly where the C code would follow it. -/
namespace Adbi.Payload
open Adbi.Lib Adbi.Lib.Traced

/-- A pointer or a `size_t` of the 32-bit target. Pointers are taken relative
to the start of the buffer, so an index into the buffer is the pointer itself. -/
abbrev Word := BitVec 32

/-- The address space around the buffer. The bytes outside `[0, size)` are
whatever the server happens to hold there. -/
abbrev Memory := Word → BitVec 8

/-- A NUL-terminated C string, without its terminator. -/
abbrev CString := List (BitVec 8)

/-- `enum payload_type`. -/
inductive PayloadType where
  | terminator | u32 | i32 | u64 | i64 | str
  deriving DecidableEq, Repr

/-- The byte that stands for a type in an element header. -/
def PayloadType.code : PayloadType → BitVec 8
  | .terminator => 0x00#8
  | .u32 => 0x10#8
  | .i32 => 0x11#8
  | .u64 => 0x20#8
  | .i64 => 0x21#8
  | .str => 0x80#8

/-! ## Element headers -/

/-- `sizeof(payload_element_info_t)`: type, reserved byte, name size, data size. -/
def headerSize : Word := 8#32

/-- A little-endian halfword. -/
def loadU16 (memory : Memory) (address : Word) : Traced Word (BitVec 16) := do
  let low ← load memory address
  let high ← load memory (address + 1#32)
  return high ++ low

/-- A little-endian word. -/
def loadU32 (memory : Memory) (address : Word) : Traced Word Word := do
  let low ← loadU16 memory address
  let high ← loadU16 memory (address + 2#32)
  return high ++ low

/-- `payload_element_get_type`, the raw byte. -/
def payloadElementGetType (memory : Memory) (element : Word) : Traced Word (BitVec 8) :=
  load memory element

/-- The header field `name_size`. -/
def elementNameSize (memory : Memory) (element : Word) : Traced Word (BitVec 16) :=
  loadU16 memory (element + 2#32)

/-- The header field `data_size`. -/
def elementDataSize (memory : Memory) (element : Word) : Traced Word Word :=
  loadU32 memory (element + 4#32)

/-- `payload_element_get_size`: a sum of attacker-controlled fields in
`size_t`, which wraps. -/
def payloadElementGetSize (memory : Memory) (element : Word) : Traced Word Word := do
  let nameSize ← elementNameSize memory element
  let dataSize ← elementDataSize memory element
  return nameSize.setWidth 32 + dataSize + headerSize

/-- `payload_element_get_name`. -/
def payloadElementGetName (element : Word) : Word := element + headerSize

/-- `payload_element_get_data`. -/
def payloadElementGetData (memory : Memory) (element : Word) : Traced Word Word := do
  let nameSize ← elementNameSize memory element
  return element + headerSize + nameSize.setWidth 32

/-- `payload_element_get_next`. -/
def payloadElementGetNext (memory : Memory) (element : Word) : Traced Word Word := do
  let size ← payloadElementGetSize memory element
  return element + size

/-! ## Checking -/

/-- `strlen`, looking at no more than `limit` bytes. The only caller has just
seen a NUL inside the limit, so the limit is never what ends the scan. -/
def strlen (memory : Memory) : Nat → Word → Traced Word Nat
  | 0, _ => return 0
  | limit + 1, address => do
    if (← load memory address) = 0#8 then return 0
    let rest ← strlen memory limit (address + 1#32)
    return rest + 1

/-- The `switch` on the element type at the end of `payload_check_element`. -/
def checkElementData (memory : Memory) (element : Word) (type : BitVec 8) (dataSize : Word) :
    Traced Word Bool := do
  if type = PayloadType.terminator.code then return dataSize == 0#32
  else if type = PayloadType.i32.code then return dataSize == 4#32
  else if type = PayloadType.u32.code then return dataSize == 4#32
  else if type = PayloadType.i64.code then return dataSize == 8#32
  else if type = PayloadType.u64.code then return dataSize == 8#32
  else if type = PayloadType.str.code then
    -- `data_size - 1` is unsigned: an empty string looks at the byte before its data
    let data ← payloadElementGetData memory element
    let last ← load memory (data + (dataSize - 1#32))
    return last == 0#8
  else return false

/-- `payload_check_element`: do the `size` bytes at `element` represent a
correct payload element? -/
def payloadCheckElement (memory : Memory) (element size : Word) : Traced Word Bool := do
  if size < headerSize then return false
  if size < (← payloadElementGetSize memory element) then return false
  let nameSize ← elementNameSize memory element
  if nameSize = 0#16 then return false
  let name := payloadElementGetName element
  if (← load memory (name + (nameSize.setWidth 32 - 1#32))) ≠ 0#8 then return false
  if (← strlen memory nameSize.toNat name) + 1 ≠ nameSize.toNat then return false
  checkElementData memory element (← payloadElementGetType memory element)
    (← elementDataSize memory element)

/-- The loop of `payload_check`. `none` means that the fuel ran out, which is
what an element of size zero does to the C loop. The assertion
`size >= payload_element_get_size(element)` repeats a test the element check
has just passed. -/
def payloadCheckLoop (memory : Memory) : Nat → Word → Word → Traced Word (Option Bool)
  | 0, _, _ => return none
  | fuel + 1, element, size => do
    if !(← payloadCheckElement memory element size) then return some false
    let left := size - (← payloadElementGetSize memory element)
    if (← payloadElementGetType memory element) = PayloadType.terminator.code then
      return some (left == 0#32)
    payloadCheckLoop memory fuel (← payloadElementGetNext memory element) left

/-- `payload_check`. -/
def payloadCheck (memory : Memory) (fuel : Nat) (size : Word) : Traced Word (Option Bool) :=
  payloadCheckLoop memory fuel 0 size

/-! ## Reading fields -/

/-- `strcmp(name, address) == 0` for a C string `name`. The comparison stops
at the first difference. -/
def strcmp (memory : Memory) : CString → Word → Traced Word Bool
  | [], address => do return (← load memory address) == 0#8
  | char :: rest, address => do
    if (← load memory address) = char then strcmp memory rest (address + 1#32) else return false

/-- The loop of `payload_find`: `some (some element)` at a match, `some none`
at the terminator. -/
def payloadFindLoop (memory : Memory) (name : CString) :
    Nat → Word → Traced Word (Option (Option Word))
  | 0, _ => return none
  | fuel + 1, element => do
    if (← payloadElementGetType memory element) = PayloadType.terminator.code then
      return some none
    if ← strcmp memory name (payloadElementGetName element) then return some (some element)
    payloadFindLoop memory name fuel (← payloadElementGetNext memory element)

/-- `payload_find`. -/
def payloadFind (memory : Memory) (name : CString) (fuel : Nat) :
    Traced Word (Option (Option Word)) :=
  payloadFindLoop memory name fuel 0

/-- `payload_find_typed`. -/
def payloadFindTyped (memory : Memory) (name : CString) (type : PayloadType) (fuel : Nat) :
    Traced Word (Option (Option Word)) := do
  match ← payloadFind memory name fuel with
  | none => return none
  | some none => return some none
  | some (some element) =>
    if (← payloadElementGetType memory element) ≠ type.code then return some none
    return some (some element)

/-- The `payload_get` macro: a pointer to the data of the element found. -/
def payloadGet (type : PayloadType) (memory : Memory) (name : CString) (fuel : Nat) :
    Traced Word (Option (Option Word)) := do
  match ← payloadFindTyped memory name type fuel with
  | none => return none
  | some none => return some none
  | some (some element) => return some (some (← payloadElementGetData memory element))

def payloadGetU64 := payloadGet .u64
def payloadGetI64 := payloadGet .i64
def payloadGetU32 := payloadGet .u32
def payloadGetI32 := payloadGet .i32
def payloadGetStr := payloadGet .str

/-! ## Construction -/

/-- What `payload_add_element` is called with. -/
structure Element where
  type : PayloadType
  name : CString
  data : Bytes

/-- `payload_add_element`: the header, as much of the name and its terminator
as the header says, and as much of the data. -/
def payloadAddElement (element : Element) : Bytes :=
  let nameSize := BitVec.ofNat 16 (element.name.length + 1)
  let dataSize := BitVec.ofNat 32 element.data.length
  [element.type.code, 0#8] ++ littleEndian nameSize ++ littleEndian dataSize ++
    (element.name ++ [0#8]).take nameSize.toNat ++ element.data.take dataSize.toNat

def payloadPutU64 (name : CString) (value : BitVec 64) : Element := ⟨.u64, name, littleEndian value⟩
def payloadPutI64 (name : CString) (value : BitVec 64) : Element := ⟨.i64, name, littleEndian value⟩
def payloadPutU32 (name : CString) (value : Word) : Element := ⟨.u32, name, littleEndian value⟩
def payloadPutI32 (name : CString) (value : Word) : Element := ⟨.i32, name, littleEndian value⟩

/-- `payload_put_str`: a missing string is stored as an empty one. -/
def payloadPutStr (name : CString) (value : Option CString) : Element :=
  ⟨.str, name, value.getD [] ++ [0#8]⟩

def payloadPutTerm : Element := ⟨.terminator, [], []⟩

/-- The contents of a payload buffer. -/
def payloadBytes (elements : List Element) : Bytes := elements.flatMap payloadAddElement

end Adbi.Payload
