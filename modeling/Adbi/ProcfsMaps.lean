import Adbi.Injfile
import Adbi.Lib.Numerals

/-! Lines of `/proc/PID/maps`, after `procutil/procfs_maps.c`, and the buffer they
are read into by `procfs_iter_segments`. A pointer into the line is what the
line has from there on; there is nothing behind the end of the buffer. -/
namespace Adbi.ProcfsMaps
open Adbi.Lib

/-- How the code ends without returning: with an access outside the buffer, with a `free` of the
caller's segment, which is not from the heap, or with an exit. -/
inductive Stop where
  | outside | freed | exit
  deriving DecidableEq

def newline : BitVec 8 := 0x0a#8
def space : BitVec 8 := 0x20#8
def minus : BitVec 8 := 0x2d#8
def colon : BitVec 8 := 0x3a#8
def plus : BitVec 8 := 0x2b#8
def zero : BitVec 8 := 0x30#8

def isdigit (c : BitVec 8) : Bool := isDigitOf 10 c
def isxdigit (c : BitVec 8) : Bool := isDigitOf 16 c
def isspace (c : BitVec 8) : Bool := c = space || (0x09#8 ≤ c && c ≤ 0x0d#8)

/-- `*buf`. -/
def peek : Bytes → Except Stop (BitVec 8)
  | [] => .error .outside
  | c :: _ => .ok c

/-- `while (p(*buf)) ++buf`. -/
def skip (p : BitVec 8 → Bool) (buf : Bytes) : Except Stop Bytes :=
  match skipWhile p buf with
  | none => .error .outside
  | some buf => .ok buf

/-! ## The check of the format -/

/-- `procfs_maps_format_check`, the macro. -/
def check (p : BitVec 8 → Bool) (buf : Bytes) : Except Stop Bytes := do
  let c ← peek buf
  if p c then .ok (buf.drop 1) else .error .exit

/-- `procfs_maps_format_check_dec`. -/
def checkDec (buf : Bytes) : Except Stop Bytes := do
  let buf ← check isdigit buf
  skip isdigit buf

/-- `procfs_maps_format_check_hex2`. -/
def checkHex2 : Nat → Bytes → Except Stop Bytes
  | 0, buf => skip isxdigit buf
  | n + 1, buf => do
    let buf ← check isxdigit buf
    checkHex2 n buf

def checkPermission (letter : Char) (buf : Bytes) : Except Stop Bytes :=
  check (fun c => c = minus || c = BitVec.ofNat 8 letter.toNat) buf

/-- The last part of `procfs_maps_format_check`, from the device on. -/
def checkDevice (buf : Bytes) : Except Stop Bytes := do
  let buf ← checkHex2 2 buf
  let buf ← check (· = colon) buf
  let buf ← checkHex2 2 buf
  let buf ← check (· = space) buf
  checkDec buf

/-- `procfs_maps_format_check`, with `maps_verified`, which it sets. -/
def procfsMapsFormatCheck (mapsVerified : Bool) (line : Bytes) : Except Stop Unit :=
  if mapsVerified then .ok ()
  else do
    let buf ← checkHex2 0 line
    let buf ← check (· = minus) buf
    let buf ← checkHex2 0 buf
    let buf ← check (· = space) buf
    let buf ← checkPermission 'r' buf
    let buf ← checkPermission 'w' buf
    let buf ← checkPermission 'x' buf
    let buf ← check (fun c => c = BitVec.ofNat 8 'p'.toNat || c = BitVec.ofNat 8 's'.toNat) buf
    let buf ← check (· = space) buf
    let buf ← checkHex2 8 buf
    let buf ← check (· = space) buf
    let _ ← checkDevice buf
    .ok ()

/-! ## Numbers -/

/-- `0x`, where a digit follows it. -/
def skipPrefix (buf : Bytes) : Except Stop Bytes := do
  let first ← peek buf
  if first = zero then do
    let second ← peek (buf.drop 1)
    if second = BitVec.ofNat 8 'x'.toNat || second = BitVec.ofNat 8 'X'.toNat then do
      let third ← peek (buf.drop 2)
      pure (if isxdigit third then buf.drop 2 else buf)
    else pure buf
  else pure buf

/-- A `long long` of the digits. -/
def toLongLong (negative : Bool) (digits : Bytes) : Int :=
  if negative then max (-numeralValue 16 digits) (-2 ^ 63) else min (numeralValue 16 digits) (2 ^ 63 - 1)

/-- `strtoll` in base 16: the number, and what follows it. -/
def strtoll (nptr : Bytes) : Except Stop (Int × Bytes) := do
  let buf ← skip isspace nptr
  let sign ← peek buf
  let buf ← skipPrefix (if sign = minus || sign = plus then buf.drop 1 else buf)
  let rest ← skip isxdigit buf
  let digits := buf.take (buf.length - rest.length)
  pure (if digits = [] then (0, nptr) else (toLongLong (sign = minus) digits, rest))

/-! ## The parser -/

/-- What is written of a `segment_t`; the file name is a place in the line. -/
structure Segment (n : Nat) where
  start : BitVec n
  stop : BitVec n
  flags : BitVec 32
  offset : BitVec n
  filename : Option Nat

/-- `buf[i] == c`. -/
def charAt (buf : Bytes) (i : Nat) (c : Char) : Except Stop Bool := do
  let d ← peek (buf.drop i)
  pure (d = BitVec.ofNat 8 c.toNat)

/-- The flags of the letters behind the space. -/
def readFlags (buf : Bytes) : Except Stop (BitVec 32) := do
  let readable ← charAt buf 1 'r'
  let writeable ← charAt buf 2 'w'
  let executable ← charAt buf 3 'x'
  let shared ← charAt buf 4 's'
  pure ((if readable then 1 else 0) ||| (if writeable then 2 else 0) |||
    (if executable then 4 else 0) |||
    (if shared then 8 else 0))

/-- From the space behind the offset up to the file name or the end of the line. -/
def skipToFilename (buf : Bytes) : Except Stop Bytes := do
  let buf ← skip (· ≠ space) (buf.drop 1)
  let buf ← skip isdigit (buf.drop 1)
  skip (· = space) buf

/-- The file name, and the line, where it is terminated. -/
def readFilename (line buf : Bytes) : Except Stop (Option Nat × Bytes) := do
  let c ← peek buf
  if c = newline then pure (none, line)
  else if c = 0#8 then .error .freed
  else do
    let t ← skip (· ≠ newline) buf
    pure (some (line.length - buf.length), line.set (line.length - t.length) 0#8)

/-- `procfs_maps_parse_segment`, on a server whose addresses have `n` bits. -/
def procfsMapsParseSegment (n : Nat) (mapsVerified : Bool) (line : Bytes) :
    Except Stop (Segment n × Bytes) := do
  procfsMapsFormatCheck mapsVerified line
  let (start, buf) ← strtoll line
  let (stop, buf) ← strtoll (buf.drop 1)
  let flags ← readFlags buf
  let (offset, buf) ← strtoll (buf.drop 6)
  let buf ← skipToFilename buf
  let (filename, line) ← readFilename line buf
  pure (⟨BitVec.ofInt n start, BitVec.ofInt n stop, flags, BitVec.ofInt n offset, filename⟩, line)

/-- The size of the buffer, `MAX_PATH * 2`. -/
def bufferSize : Nat := 512

/-- `fgets`, of a line that has its newline. Behind the terminator the buffer is as before. -/
def fgets (line stale : Bytes) : Bytes :=
  if line.length < bufferSize then line ++ 0#8 :: stale.drop (line.length + 1)
    else line.take (bufferSize - 1) ++ [0#8]

/-! ## The lines of the kernel -/

/-- A mapping, and the number of spaces with which its line is filled. -/
structure Mapping where
  start : Nat
  stop : Nat
  readable : Bool
  writeable : Bool
  executable : Bool
  shared : Bool
  offset : Nat
  major : Nat
  minor : Nat
  inode : Nat
  padding : Nat
  name : Option Bytes
  ordered : start < stop
  stop_bound : stop < 2 ^ 63
  offset_bound : offset < 2 ^ 63
  name_text : ∀ text, name = some text → newline ∉ text ∧ 0#8 ∉ text ∧
      ∃ c rest, text = c :: rest ∧ c ≠ space

def letter (given : Bool) (yes no : Char) : BitVec 8 := BitVec.ofNat 8 (if given then yes else no).toNat

/-- The line from the inode on. -/
def Mapping.tail (m : Mapping) : Bytes :=
  numeral 10 1 m.inode ++ (List.replicate (m.padding + 1) space ++ (m.name.getD [] ++ [newline]))

/-- The line from the device on. -/
def Mapping.device (m : Mapping) (tail : Bytes) : Bytes :=
  numeral 16 2 m.major ++ colon :: (numeral 16 2 m.minor ++ space :: tail)

/-- The line up to the device. -/
def Mapping.head (m : Mapping) (device : Bytes) : Bytes :=
  numeral 16 8 m.start ++ minus :: (numeral 16 8 m.stop ++ space ::
    letter m.readable 'r' '-' :: letter m.writeable 'w' '-' :: letter m.executable 'x' '-' :: letter
      m.shared 's' 'p' ::
    space :: (numeral 16 8 m.offset ++ space :: device))

/-- `%08lx-%08lx %c%c%c%c %08llx %02x:%02x %lu`, spaces and the name. -/
def Mapping.line (m : Mapping) : Bytes := m.head (m.device m.tail)

end Adbi.ProcfsMaps
