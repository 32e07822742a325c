import Adbi.Payload

/-! Translating between addresses and offsets in a file, after
`process/segment.c` and `procutil/elf.c`. An `address_t` is 64 bits wide, and
the arithmetic on it wraps. -/
namespace Adbi.FileOffsets
open Adbi.Payload (CString)

abbrev Address := BitVec 64

/-- What the translations read of a `segment_t`. -/
structure Segment where
  start : Address
  stop : Address
  filename : Option CString
  offset : Address
  deriving DecidableEq

/-- An assertion failed. -/
inductive Fault where
  | assertion
  deriving DecidableEq

/-- `MAX_PATH`. -/
def maxPath : Nat := 256

/-- `segment_contains`. -/
def segmentContains (segment : Segment) (address : Address) : Bool :=
  segment.start ≤ address && address < segment.stop

/-- `segment_fo2addr`: zero when the offset is not mapped. -/
def segmentFo2addr (segment : Segment) (offset : Address) : Except Fault Address :=
  if segment.filename.isSome then
    let result := segment.start + offset - segment.offset
    .ok (if result < segment.start ∨ segment.stop ≤ result then 0 else result)
  else .error .assertion

/-- `segment_addr2fo`. -/
def segmentAddr2fo (segment : Segment) (address : Address) : Except Fault Address :=
  if segmentContains segment address then .ok (address - segment.start + segment.offset)
    else .error .assertion

/-- The loop of `segment_get_by_file`, over the values of `process->segments`. -/
def segmentGetByFileLoop (filename : CString) (offset : Address) : List Segment →
    Option (Segment × Address)
  | [] => none
  | segment :: rest =>
    if segment.filename ≠ some filename then segmentGetByFileLoop filename offset rest
    else if offset < segment.offset then segmentGetByFileLoop filename offset rest
    else
      let offsetInSegment := offset - segment.offset
      let address := segment.start + offsetInSegment
      if segment.stop ≤ address then segmentGetByFileLoop filename offset rest
        else some (segment, address)

/-- `segment_get_by_file`: the segment, with the address. -/
def segmentGetByFile (segments : List Segment) (filename : CString) (offset : Address) :
    Except Fault (Option (Segment × Address)) :=
  if filename.length < maxPath then .ok (segmentGetByFileLoop filename offset segments)
    else .error .assertion

/-- The inner function of `segment_iter_mapped`: the call that it makes for a segment. -/
def iterMappedInner (executable : CString) (fileOffset : Address) (segment : Segment) :
    Option (Segment × Address) :=
  if segment.filename = some executable then
    let lo := segment.offset
    let hi := lo + segment.stop - segment.start
    if lo ≤ fileOffset ∧ fileOffset <
      hi then some (segment, segment.start + fileOffset - segment.offset) else none
  else none

/-- `segment_iter_mapped`: the calls of the callback. -/
def segmentIterMapped (segments : List Segment) (executable : CString) (fileOffset : Address) :
    List (Segment × Address) :=
  segments.filterMap (iterMappedInner executable fileOffset)

end Adbi.FileOffsets
