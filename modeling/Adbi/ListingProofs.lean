import Adbi.Direct
import Adbi.SessionProofs
import Adbi.ClientProofs
import Mathlib.Data.List.Nodup

/-! Listings: what the callbacks of the server put under numbered names the
client reads back, entry by entry and in the order of its own fields. -/
namespace Adbi.ListingProofs
open Adbi.Lib Adbi.Payload Adbi.PayloadPutProofs Adbi.Client Adbi.ClientProofs Adbi.Remote
open Adbi.Protocol (Server Handler Exit text decimal put indexed report)
open Adbi.SessionProofs (put_cases)
open Adbi.MemDumpProofs (decimal_plain)

variable {ω α : Type}

/-! ## Numbered names -/

/-- The number that digits stand for. -/
private def readDecimal (digits : CString) : Nat :=
  digits.foldl (fun value c => 10 * value + (c.toNat - 48)) 0

private theorem read_decimal (n : Nat) : readDecimal (decimal n) = n := by
  induction n using Nat.strongRecOn with
  | _ n ih =>
    by_cases small : n < 10
    · rw [decimal, if_pos small]
      simp only [readDecimal, List.foldl_cons, List.foldl_nil, BitVec.toNat_ofNat]
      omega
    · rw [decimal, if_neg small, readDecimal, List.foldl_append, ← readDecimal, ih (n / 10) (by omega)]
      simp only [List.foldl_cons, List.foldl_nil, BitVec.toNat_ofNat]
      omega

theorem decimal_inj {n m : Nat} (same : decimal n = decimal m) : n = m := by
  rw [← read_decimal n, same, read_decimal]

/-- The character that starts a number in a name. -/
def bracket : BitVec 8 := 0x5b#8

theorem mem_numbered (base : String) (i : Nat) : bracket ∈ numbered base i := by
  have opening : text "[" = [bracket] := by decide
  simp [numbered, opening]

/-- Up to the bracket there is the base, and behind it the number. -/
theorem numbered_inj {base other : String} (plain : bracket ∉ text base)
    (otherPlain : bracket ∉ text other) {i j : Nat}
    (same : numbered base i = numbered other j) : text base = text other ∧ i = j := by
  have opening : text "[" = [bracket] := by decide
  have front (name : String) (k : Nat) (plain : bracket ∉ text name) :
      (numbered name k).takeWhile (fun c => c ≠ bracket) = text name := by
    rw [numbered, opening, List.append_assoc, List.append_assoc, List.takeWhile_append_of_pos]
    · simp
    · intro c member
      simpa using fun is : c = bracket => plain (is ▸ member)
  have bases : text base = text other := by
    rw [← front base i plain, same, front other j otherPlain]
  refine ⟨bases, ?_⟩
  rw [numbered, numbered, bases] at same
  exact decimal_inj (List.append_cancel_left (List.append_cancel_right same))

/-! ## Tables -/

/-- A value in a response. -/
inductive Cell where
  | u64 (value : BitVec 64)
  | u32 (value : Word)
  | i32 (value : Word)
  | str (value : Option CString)

def Cell.put (name : CString) : Cell → Put
  | .u64 value => .u64 name value
  | .u32 value => .u32 name value
  | .i32 value => .i32 name value
  | .str value => .str name value

/-- What the client has for it. -/
def Cell.value : Cell → Value
  | .u64 value => .number value.toNat
  | .u32 value => .number value.toNat
  | .i32 value => .number value.toInt
  | .str value => .text (value.getD [])

/-- Strings that are in the memory of the server. -/
def Cell.Short : Cell → Prop
  | .str value => (value.getD []).length + 1 < 2 ^ 32
  | _ => True

@[simp] theorem name_put (name : CString) (cell : Cell) : (cell.put name).value.name = name := by
  cases cell <;> rfl

@[simp] theorem value_put (name : CString) (cell : Cell) : (cell.put name).value.value = cell.value := by
  cases cell <;> rfl

/-- The fields of each entry: the base of the name, and the value. -/
abbrev Columns (α : Type) := List (String × (Nat → α → Cell))

def rowPuts (columns : Columns α) (i : Nat) (a : α) : List Put :=
  columns.map fun c => (c.2 i a).put (numbered c.1 i)

def tablePuts (columns : Columns α) (entries : List α) : List Put :=
  entries.zipIdx.flatMap fun e => rowPuts columns e.2 e.1

/-- Columns whose names can be told apart. -/
structure Apart (columns : Columns α) : Prop where
  plain : ∀ c ∈ columns, bracket ∉ text c.1
  distinct : (columns.map fun c => text c.1).Nodup

/-! ## What the client reads -/

/-- The first field of a name is the one that is found, if all of that name are the same. -/
theorem get_of_mem {elements : List Client.Element} {e : Client.Element} (member : e ∈ elements)
    (unique : ∀ d ∈ elements, d.name = e.name → d = e) (default : Option Value) :
    getField elements e.name default = .ok e.value := by
  have found : elements.find? (fun d => d.name = e.name) = some e := by
    cases search : elements.find? (fun d => d.name = e.name) with
    | none => exact absurd (List.find?_eq_none.mp search e member) (by simp)
    | some d =>
      have named : d.name = e.name := by simpa using List.find?_some search
      rw [unique d (List.mem_of_find?_eq_some search) named]
  simp only [getField, found]

private theorem mem_tablePuts {columns : Columns α} {entries : List α} {p : Put} :
    p ∈ tablePuts columns entries ↔
    ∃ e ∈ entries.zipIdx, ∃ c ∈ columns, p = (c.2 e.2 e.1).put (numbered c.1 e.2) := by
  simp only [tablePuts, rowPuts, List.mem_flatMap, List.mem_map]
  exact ⟨fun ⟨e, among, c, column, eq⟩ => ⟨e, among, c, column, eq.symm⟩,
    fun ⟨e, among, c, column, eq⟩ => ⟨e, among, c, column, eq.symm⟩⟩

private theorem column_eq {columns : Columns α} (apart : Apart columns)
    {c d : String × (Nat → α → Cell)} (first : c ∈ columns)
    (second : d ∈ columns) (same : text c.1 = text d.1) : c = d :=
  List.inj_on_of_nodup_map apart.distinct first second same

private theorem entry_eq {entries : List α} {e d : α × Nat} (first : e ∈ entries.zipIdx)
    (second : d ∈ entries.zipIdx) (same : e.2 = d.2) :
    e = d := by
  obtain ⟨a, i⟩ := e
  obtain ⟨b, j⟩ := d
  obtain rfl : i = j := same
  have here : entries[i]? = some a := List.mem_zipIdx_iff_getElem?.mp first
  have there : entries[i]? = some b := List.mem_zipIdx_iff_getElem?.mp second
  rw [Option.some.inj (here.symm.trans there)]

/-- A field of the table, among others without a number. -/
theorem get_cell {columns : Columns α} {entries : List α} {others : List Put} (apart : Apart columns)
    (unnumbered : ∀ p ∈ others, bracket ∉ p.value.name) {e : α × Nat} (entry : e ∈ entries.zipIdx)
    {c : String × (Nat → α → Cell)}
    (column : c ∈ columns) :
    getField ((tablePuts columns entries ++ others).map Put.value) (numbered c.1 e.2) none =
      .ok (c.2 e.2 e.1).value := by
  have member : (c.2 e.2 e.1).put (numbered c.1 e.2) ∈ tablePuts columns entries :=
    mem_tablePuts.mpr ⟨e, entry, c, column, rfl⟩
  have found := get_of_mem (List.mem_map_of_mem (f :=
    Put.value) (List.mem_append_left others member)) ?_ none
  · rwa [name_put, value_put] at found
  · intro d among named
    rw [name_put] at named
    obtain ⟨p, placed, rfl⟩ := List.mem_map.mp among
    rcases List.mem_append.mp placed with inside | other
    · obtain ⟨e', entry', c', column', rfl⟩ := mem_tablePuts.mp inside
      rw [name_put] at named
      obtain ⟨base, index⟩ := numbered_inj (apart.plain c' column') (apart.plain c column) named
      rw [column_eq apart column' column base, entry_eq entry' entry index]
    · exact absurd (named ▸ mem_numbered c.1 e.2) (unnumbered p other)

/-- A field without a number, behind the table. -/
theorem get_other {columns : Columns α} {entries : List α} {others : List Put} {name : CString}
    (plain : bracket ∉ name) {cell : Cell}
    (found : others.find? (fun p => p.value.name = name) = some (cell.put name))
    (default : Option Value) :
    getField ((tablePuts columns entries ++ others).map Put.value) name default = .ok cell.value := by
  have none : (tablePuts columns entries).find? (fun p => p.value.name = name) = none := by
    rw [List.find?_eq_none]
    intro p member
    obtain ⟨e, entry, c, column, rfl⟩ := mem_tablePuts.mp member
    simp only [name_put, decide_eq_true_eq]
    exact fun named => plain (named ▸ mem_numbered c.1 e.2)
  have search : ((tablePuts columns entries ++ others).map Put.value).find? (fun e => e.name =
      name) = some (cell.put name).value := by
    rw [List.find?_map]
    simp only [Function.comp_def, List.find?_append, none, found, Option.none_or, Option.map_some]
  simp only [getField, search, value_put]

theorem mapM_except {β : Type} {f : α → Except Raised β} {g : α → β} {l : List α}
    (each : ∀ a ∈ l, f a = .ok (g a)) :
    l.mapM f = .ok (l.map g) := by
  induction l with
  | nil => rfl
  | cons a rest ih =>
    rw [List.mapM_cons, each a List.mem_cons_self,
      ih fun b member => each b (List.mem_cons_of_mem a member)]
    rfl

/-- The client reads the entries that the server listed. -/
theorem rows_read {columns picked : Columns α} {entries : List α} {others : List Put}
    {count : String} (apart : Apart columns)
    (among : ∀ c ∈ picked, c ∈ columns) (few : entries.length < 2 ^ 32)
    (unnumbered : ∀ p ∈ others, bracket ∉ p.value.name)
    (plain : bracket ∉ text count)
    (counted : others.find? (fun p => p.value.name = text count) =
      some ((Cell.u32 (BitVec.ofNat 32 entries.length)).put (text count))) :
    rows ((tablePuts columns entries ++ others).map Put.value) count (picked.map Prod.fst) =
      .ok (entries.zipIdx.map fun e => picked.map fun c => (c.2 e.2 e.1).value) := by
  have length : range ((tablePuts columns entries ++ others).map Put.value) count =
      .ok (List.range entries.length) := by
    rw [range, get_other plain counted]
    simp only [Cell.value, BitVec.toNat_ofNat, Nat.mod_eq_of_lt few]
    rfl
  have each : ∀ e ∈ entries.zipIdx, (picked.map Prod.fst).mapM (fun field =>
      getField ((tablePuts columns entries ++ others).map Put.value) (numbered field e.2) none) =
        .ok (picked.map fun c => (c.2 e.2 e.1).value) := by
    intro e entry
    rw [List.mapM_map]
    exact mapM_except fun c member => get_cell apart unnumbered entry (among c member)
  have indices : List.range entries.length = entries.zipIdx.map Prod.snd := by
    rw [List.zipIdx_map_snd, List.range_eq_range']
  rw [rows, length]
  show (List.range entries.length).mapM _ = _
  rw [indices, List.mapM_map]
  exact mapM_except each

end Adbi.ListingProofs
