import Adbi.Lib.Bytes
import Adbi.Lib.Transducer

/-! `strip_comments` of the reader of C sources: the tables of its machine, and how a
byte is looked up in them. -/
namespace Adbi.StripComments
open Adbi.Lib

abbrev Byte := BitVec 8

def quote : Byte := 0x22#8
def apostrophe : Byte := 0x27#8
def slash : Byte := 0x2f#8
def backslash : Byte := 0x5c#8
def aster : Byte := 0x2a#8
def newline : Byte := 0x0a#8

inductive State where
  | code
  | string
  | stringEscape
  | char
  | charEscape
  | slash
  | lineComment
  | blockComment
  | blockAster
  | blockNewline
  deriving DecidableEq

/-- `transitions`. The key that is the empty string, which stands for all other bytes, is `none`. -/
def transitions : State → List (Option Byte × State)
  | .code => [(some quote, .string), (some apostrophe, .char), (some slash, .slash)]
  | .string => [(some quote, .code), (some backslash, .stringEscape)]
  | .stringEscape => [(none, .string)]
  | .char => [(some apostrophe, .code), (some backslash, .charEscape)]
  | .charEscape => [(none, .char)]
  | .slash => [(some slash, .lineComment), (some aster, .blockComment), (none, .code)]
  | .lineComment => [(some newline, .code)]
  | .blockComment => [(some aster, .blockAster), (some newline, .blockNewline)]
  | .blockAster =>
    [(some slash, .code), (some aster, .blockAster), (none, .blockComment),
      (some newline, .blockNewline)]
  | .blockNewline => [(some newline, .blockNewline), (some aster, .blockAster), (none, .blockComment)]

/-- The functions that make the output. -/
inductive Output where
  | silent
  | default
  | slashed

def Output.bytes : Output → Byte → Bytes
  | .silent, _ => []
  | .default, byte => [byte]
  | .slashed, byte => [StripComments.slash, byte]

/-- `transition_out`, by the states before and after a transition. -/
def transitionOut : List ((Option State × Option State) × Output) :=
  [((some .code, some .slash), .silent),
    ((some .slash, some .code), .slashed),
    ((some .slash, some .blockComment), .silent),
    ((some .slash, some .lineComment), .silent),
    ((some .lineComment, some .lineComment), .silent),
    ((some .lineComment, some .code), .default),
    ((some .blockComment, some .blockNewline), .default),
    ((some .blockAster, some .blockNewline), .default),
    ((some .blockNewline, some .blockNewline), .default),
    ((some .blockComment, none), .silent),
    ((some .blockAster, none), .silent),
    ((some .blockNewline, none), .silent)]

def next (state : State) (byte : Byte) : State :=
  ((transitions state).lookup (some byte)).getD (((transitions state).lookup none).getD state)

def output (state next : State) : Output :=
  (((transitionOut.lookup (some state, some next)).or (transitionOut.lookup (some state, none))).or
    (transitionOut.lookup (none, some next))).getD .default

def machine : Transducer State Byte Byte where
  next := next
  out := fun state byte => (output state (next state byte)).bytes byte

/-- The check of the last state. -/
def finalError : State → Option String
  | .string | .stringEscape => some "missing terminating '\"' character"
  | .char | .charEscape => some "missing terminating ' character"
  | .blockComment | .blockAster | .blockNewline => some "unterminated /* comment"
  | .code | .slash | .lineComment => none

/-- `strip_comments`: the bytes that it yields, and the exception that it ends with. -/
def stripComments (iterable : Bytes) (throwFinal : Bool) : Bytes × Option String :=
  (machine.run .code iterable, if throwFinal then finalError (machine.after .code iterable) else none)

end Adbi.StripComments
