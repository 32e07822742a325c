import Adbi.Payload

/-! How the Python client packs its requests and unpacks responses, after
`adbiclient/adbi/packet.py`. A string is the list of its bytes; what raises an
exception has no result. -/
namespace Adbi.Client
open Adbi.Lib Adbi.Payload

/-- A Python value of an element. -/
inductive Value where
  | number (n : Int)
  | text (s : CString)
  deriving DecidableEq

/-- `Payload.Element`; its types go by the names of `Element.Type`. -/
structure Element where
  name : CString
  type : PayloadType
  value : Value
  deriving DecidableEq

/-- The numbers of `Element.Type`. -/
def Element.tag : PayloadType → BitVec 8
  | .terminator => 0x00#8
  | .u32 => 0x10#8
  | .i32 => 0x11#8
  | .u64 => 0x20#8
  | .i64 => 0x21#8
  | .str => 0x80#8

/-! ## `struct` -/

/-- The formats `B`, `H`, `I` and `Q`, in little-endian order. -/
def packUnsigned (width : Nat) (n : Int) : Option Bytes :=
  if 0 ≤ n ∧ n < 2 ^ width then some (littleEndian (BitVec.ofInt width n)) else none

theorem packUnsigned_some {width : Nat} {n : Int} {bytes : Bytes}
    (packed : packUnsigned width n = some bytes) :
    (0 ≤ n ∧ n < 2 ^ width) ∧ bytes = littleEndian (BitVec.ofInt width n) := by
  unfold packUnsigned at packed
  split at packed
  · rename_i fits
    exact ⟨fits, (Option.some.inj packed).symm⟩
  · cases packed

theorem packUnsigned_of_lt {width n : Nat} (fits : n < 2 ^ width) :
    packUnsigned width n = some (littleEndian (BitVec.ofNat width n)) := by
  have range : (0 : Int) ≤ n ∧ (n : Int) < 2 ^ width := ⟨by omega, by exact_mod_cast fits⟩
  rw [packUnsigned, if_pos range, BitVec.ofInt_natCast]

/-- The formats `i` and `q`. -/
def packSigned (width : Nat) (n : Int) : Option Bytes :=
  if -2 ^ (width - 1) ≤ n ∧ n < 2 ^ (width - 1) then some (littleEndian (BitVec.ofInt width n)) else none

/-- Unpacking needs exactly the bytes of the format. -/
def unpackUnsigned (width : Nat) (bytes : Bytes) : Option Int :=
  if bytes.length = width / 8 then some (ofLittleEndian width bytes).toNat else none

def unpackSigned (width : Nat) (bytes : Bytes) : Option Int :=
  if bytes.length = width / 8 then some (ofLittleEndian width bytes).toInt else none

/-! ## Packing -/

/-- `Element.binvalue`. -/
def Element.binvalue (element : Element) : Option Bytes :=
  match element.type, element.value with
  | .terminator, _ => some []
  | .u64, .number n => packUnsigned 64 n
  | .i64, .number n => packSigned 64 n
  | .u32, .number n => packUnsigned 32 n
  | .i32, .number n => packSigned 32 n
  | .str, .text s => some (s ++ [0#8])
  | _, _ => none

/-- `Element.pack`. -/
def Element.pack (element : Element) : Option Bytes := do
  let binvalue ← element.binvalue
  let nameSize ← packUnsigned 16 (element.name.length + 1)
  let dataSize ← packUnsigned 32 binvalue.length
  return [Element.tag element.type, 0#8] ++ nameSize ++ dataSize ++ (element.name ++ [0#8]) ++ binvalue

/-- The element that ends a payload; nothing looks at its value. -/
def Element.terminator : Element := ⟨[], .terminator, .text []⟩

/-- `Payload.pack`. -/
def payloadPack (elements : List Element) : Option Bytes :=
  ((elements ++ [Element.terminator]).mapM Element.pack).map List.flatten

/-- `Header.pack`, with the encoded type. -/
def headerPack (type : Word) (seq length : Int) : Option Bytes := do
  return littleEndian type ++ (← packUnsigned 32 seq) ++ (← packUnsigned 32 length)

/-- What `ADBI.request` sends. -/
def requestPack (type : Word) (seq : Int) (elements : List Element) : Option Bytes := do
  let payload ← payloadPack elements
  return (← headerPack type seq payload.length) ++ payload

/-! ## Unpacking -/

/-- The value of an element, as its type says. -/
def unpackValue (type : PayloadType) (bytes : Bytes) : Option Value :=
  match type with
  | .i64 => (unpackSigned 64 bytes).map .number
  | .u64 => (unpackUnsigned 64 bytes).map .number
  | .i32 => (unpackSigned 32 bytes).map .number
  | .u32 => (unpackUnsigned 32 bytes).map .number
  | .str => some (.text bytes.dropLast)
  | .terminator => some (.text [])

/-- The type that a number stands for. -/
def typeOfTag (tag : BitVec 8) : Option PayloadType :=
  [.i64, .u64, .i32, .u32, .str, .terminator].find? fun type => Element.tag type = tag

/-- `iter_elements`. A slice that starts behind its end is empty. -/
def iterElements : Bytes → Option (List Element)
  | tag :: _ :: n0 :: n1 :: d0 :: d1 :: d2 :: d3 :: rest => do
    let namelen := (ofLittleEndian 16 [n0, n1]).toNat
    let datalen := (ofLittleEndian 32 [d0, d1, d2, d3]).toNat
    let name := rest.take (namelen - 1)
    let value := (rest.drop namelen).take datalen
    let type ← typeOfTag tag
    let unpacked ← unpackValue type value
    if type = .terminator then return []
    let later ← iterElements ((rest.drop namelen).drop datalen)
    return ⟨name, type, unpacked⟩ :: later
  | _ => none
termination_by data => data.length
decreasing_by
  simp
  omega

/-- `Payload.unpack_from`. -/
def unpackFrom (data : Bytes) : Option (List Element) := iterElements data

end Adbi.Client
