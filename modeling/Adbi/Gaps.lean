import Adbi.Trampoline

/-! `tracepoint_iter_free_segments_around` with any callback. What the callback
answers may depend on all the calls that were made before. -/
namespace Adbi.Gaps
open Adbi.Trampoline

section
variable (m : Machine) (segments : List Segment) (low hi : Nat) (maxSize : Nat)

/-- Whether the loop below the tracepoints goes on. -/
def belowTurn (cursor : Cursor) : Bool :=
  cursor.beoffIsReachable && (cursor.beoff ≤ cursor.aboff || !cursor.aboffIsReachable)

/-- Whether the loop above the tracepoints goes on. -/
def aboveTurn (cursor : Cursor) : Bool :=
  cursor.aboffIsReachable && (cursor.aboff ≤ cursor.beoff || !cursor.beoffIsReachable)

/-- The calls of `fn` in so many rounds of the two loops, after `calls`. -/
def iterRooms (fn : List Room → Bool) : Nat → Bool → Cursor → List Room → List Room
  | 0, _, _, calls => calls
  | steps + 1, false, cursor, calls =>
    if belowTurn cursor then
      match lookBelow m segments low hi maxSize cursor with
      | (next, none) => iterRooms fn steps false next calls
      | (next, some room) =>
        if fn (calls ++ [room]) then calls ++ [room] else iterRooms fn steps false next (calls ++ [room])
    else iterRooms fn steps true cursor calls
  | steps + 1, true, cursor, calls =>
    if aboveTurn cursor then
      match lookAbove m segments low hi maxSize cursor with
      | (next, none) => iterRooms fn steps true next calls
      | (next, some room) =>
        if fn (calls ++ [room]) then calls ++ [room] else iterRooms fn steps true next (calls ++ [room])
    else if cursor.beoffIsReachable || cursor.aboffIsReachable then iterRooms fn steps false cursor calls
    else calls

/-- The calls that are made around tracepoints of `owner` from `low` to `hi`. -/
def iterFreeSegments (owner : Segment) (fn : List Room → Bool) (steps : Nat) : List Room :=
  iterRooms m segments low hi maxSize fn steps false (startCursor m owner low hi) []

/-- All the rooms around the tracepoints, as a callback meets them that takes none. -/
def rooms (owner : Segment) : List Room :=
  iterFreeSegments m segments low hi maxSize owner (fun _ => false) (4 * m.modulus)

end

/-- Whether `find_coherent` asks the kernel for this room. -/
def wide (size : Nat) : Room → Bool
  | .gap _ found => size ≤ found
  | .unused g => size ≤ g.stop - g.start

/-- What `find_coherent` takes of a room. -/
def takes : Room → Found
  | .gap start _ => ⟨start, false⟩
  | .unused g => ⟨g.start, true⟩

/-- Of the rooms that are large enough the first that the kernel grants; its answers come one for
each. -/
def granted (m : Machine) (size : Nat) (rooms : List Room) (answers : List Bool) : Option Room :=
  (((rooms.filter (wide size)).zip answers).find? fun asked =>
    asked.2 && (takes asked.1).start + size ≤ m.modulus).map Prod.fst

end Adbi.Gaps
