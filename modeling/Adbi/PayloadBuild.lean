import Adbi.Payload

/-! The construction of a payload in the buffer of `communication/payload.c`, which
doubles until the next bytes fit. All sizes are `size_t` of the 32-bit target. -/
namespace Adbi.PayloadBuild
open Adbi.Lib Adbi.Payload

/-- A C string of the address space. -/
structure Text where
  chars : CString
  plain : 0#8 ∉ chars
  fits : chars.length + 1 < 2 ^ 32

/-- A value that a payload stores. -/
inductive Value where
  | u32 (value : Word)
  | i32 (value : Word)
  | u64 (value : BitVec 64)
  | i64 (value : BitVec 64)
  | str (text : Text)

def Value.type : Value → PayloadType
  | .u32 _ => .u32
  | .i32 _ => .i32
  | .u64 _ => .u64
  | .i64 _ => .i64
  | .str _ => .str

/-- A field of a payload, with a name that a header can describe. -/
structure Field where
  name : CString
  value : Value
  plain : 0#8 ∉ name
  short : name.length ≤ 65534

/-- `payload_buffer_t`. The `size` is the number of bytes that are filled. -/
structure PayloadBuffer where
  allocated : Word
  buf : Bytes
  within : buf.length ≤ allocated.toNat

def PayloadBuffer.size (pb : PayloadBuffer) : Word := BitVec.ofNat 32 pb.buf.length

/-- Why no payload comes out: the growth loop goes on for ever, or the copy would
write behind the allocation. -/
inductive Fault where
  | endless | overflow

/-- `payload_create`. -/
def payloadCreate : PayloadBuffer := ⟨64#32, [], Nat.zero_le _⟩

/-- The loop `while (count + pb->size > allocate)`. -/
def grow : Nat → Word → Word → Option Word
  | 0, _, _ => none
  | fuel + 1, need, allocate =>
    if allocate < need then grow fuel need (allocate * 2#32) else some allocate

/-- `payload_append_bytes`. `adbi_realloc` keeps the bytes, and aborts without memory. -/
def payloadAppendBytes (fuel : Nat) (pb : PayloadBuffer) (data : Bytes) (count : Word) :
    Except Fault PayloadBuffer :=
  match grow fuel (count + pb.size) pb.allocated with
  | none => .error .endless
  | some allocate =>
    if within : (pb.buf ++ data.take count.toNat).length ≤ allocate.toNat then
      .ok ⟨allocate, pb.buf ++ data.take count.toNat, within⟩
    else .error .overflow

/-- `payload_add_element`. The size of the name has 16 bits in the header. -/
def payloadAddElement (fuel : Nat) (pb : PayloadBuffer) (type : PayloadType) (name : CString)
    (data : Bytes) (count : Word) :
    Except Fault PayloadBuffer := do
  let nameSize := BitVec.ofNat 16 (name.length + 1)
  let info := [type.code, 0#8] ++ littleEndian nameSize ++ littleEndian count
  let pb ← payloadAppendBytes fuel pb info headerSize
  let pb ← payloadAppendBytes fuel pb (name ++ [0#8]) (nameSize.setWidth 32)
  payloadAppendBytes fuel pb data count

def payloadPutU64 (fuel : Nat) (pb : PayloadBuffer) (name : CString) (val : BitVec 64) :=
  payloadAddElement fuel pb .u64 name (littleEndian val) 8#32
def payloadPutI64 (fuel : Nat) (pb : PayloadBuffer) (name : CString) (val : BitVec 64) :=
  payloadAddElement fuel pb .i64 name (littleEndian val) 8#32
def payloadPutU32 (fuel : Nat) (pb : PayloadBuffer) (name : CString) (val : Word) :=
  payloadAddElement fuel pb .u32 name (littleEndian val) 4#32
def payloadPutI32 (fuel : Nat) (pb : PayloadBuffer) (name : CString) (val : Word) :=
  payloadAddElement fuel pb .i32 name (littleEndian val) 4#32

/-- `payload_put_str`: a missing string is stored as an empty one. -/
def payloadPutStr (fuel : Nat) (pb : PayloadBuffer) (name : CString) (val : Option Text) :
    Except Fault PayloadBuffer :=
  match val with
  | none => payloadAddElement fuel pb .str name [0#8] 1#32
  | some text =>
    payloadAddElement fuel pb .str name (text.chars ++ [0#8]) (BitVec.ofNat 32 text.chars.length + 1#32)

def payloadPutTerm (fuel : Nat) (pb : PayloadBuffer) := payloadAddElement fuel pb .terminator [] [] 0#32

/-- The `payload_put` function for the type of the field. -/
def payloadPut (fuel : Nat) (pb : PayloadBuffer) (field : Field) : Except Fault PayloadBuffer :=
  match field.value with
  | .u32 value => payloadPutU32 fuel pb field.name value
  | .i32 value => payloadPutI32 fuel pb field.name value
  | .u64 value => payloadPutU64 fuel pb field.name value
  | .i64 value => payloadPutI64 fuel pb field.name value
  | .str text => payloadPutStr fuel pb field.name (some text)

/-- A payload of the fields, with its terminator. -/
def build (fuel : Nat) (fields : List Field) : Except Fault PayloadBuffer := do
  let pb ← fields.foldlM (payloadPut fuel) payloadCreate
  payloadPutTerm fuel pb

end Adbi.PayloadBuild
