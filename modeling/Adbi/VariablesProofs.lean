import Adbi.Variables
import Mathlib.Data.List.Nodup
import Mathlib.Tactic.Common

/-! Where a local variable is visible. The query that yields the variables at an
address follows the stored ranges; the property that `visible_at` asks never has any. -/
namespace Adbi.VariablesProofs
open Adbi.Variables

variable {db : Database} {v : Variable} {idx addr : Int}

/-- The address lies in a stored range of the variable. -/
def InScope (db : Database) (v : Variable) (addr : Int) : Prop :=
  ∃ row ∈ db.variables2ranges, row.var = v.idx ∧ row.lo ≤ addr ∧ addr < row.hi

/-- The database stores a range for the variable. -/
def HasRange (db : Database) (v : Variable) : Prop := ∃ row ∈ db.variables2ranges, row.var = v.idx

/-- The variable and the query have one notion of scope. -/
structure Consistent (db : Database) (v : Variable) (addr : Int) : Prop where
  visible : visibleAt db v addr = true ↔ InScope db v addr
  iterated : visibleAt db v addr = true ↔ v ∈ iterLocals db addr
  silent : ¬InScope db v addr → getExpression db v addr = none
  found : ∀ name, lookup db addr name = some v → visibleAt db v addr = true ∧ InScope db v addr

/-! ## Rows and variables -/

/-- A variable comes from the one row that has its id. -/
theorem variable_eq_some_iff : db.variable idx = some v ↔
    ∃ row ∈ db.variableRows, row.id = idx ∧ v = ⟨idx, row.type, row.name, row.global ≠ 0, row.loc⟩ := by
  unfold Database.variable
  rw [Option.map_eq_some_iff]
  constructor
  · rintro ⟨row, found, rfl⟩
    exact ⟨row, List.mem_of_find?_eq_some found, by simpa using List.find?_some found, rfl⟩
  · rintro ⟨row, member, rfl, rfl⟩
    cases found : db.variableRows.find? (fun other => decide (other.id = row.id)) with
    | none => simpa using List.find?_eq_none.mp found row member
    | some other =>
      have id : other.id = row.id := by simpa using List.find?_some found
      have same := List.inj_on_of_nodup_map db.primaryKey (List.mem_of_find?_eq_some found) member id
      exact ⟨other, rfl, by rw [same]⟩

theorem variable_idx (stored : db.variable idx = some v) : v.idx = idx := by
  obtain ⟨row, -, -, rfl⟩ := variable_eq_some_iff.mp stored
  rfl

/-- A variable is not global exactly if a row with its id is not. -/
theorem local_iff (stored : db.variable idx = some v) :
    (∃ row, (row ∈ db.variableRows ∧ row.global = 0) ∧ row.id = idx) ↔ v.isGlobal = false := by
  obtain ⟨row, member, id, rfl⟩ := variable_eq_some_iff.mp stored
  simp only [ne_eq, decide_not, Bool.not_eq_false', decide_eq_true_eq]
  constructor
  · rintro ⟨other, ⟨inside, zero⟩, same⟩
    rwa [List.inj_on_of_nodup_map db.primaryKey inside member (same.trans id.symm)] at zero
  · exact fun zero => ⟨row, ⟨member, zero⟩, id⟩

/-! ## Scopes -/

/-- A local variable is yielded at the addresses of its ranges. -/
theorem mem_iterLocals_iff (stored : db.variable idx = some v) :
    v ∈ iterLocals db addr ↔ v.isGlobal = false ∧ InScope db v addr := by
  simp only [iterLocals, List.mem_filterMap, List.mem_map, List.mem_filter, Bool.and_eq_true,
    decide_eq_true_eq,
    List.contains_iff_mem]
  constructor
  · rintro ⟨id, ⟨row, ⟨inside, ⟨low, high⟩, known⟩, rfl⟩, found⟩
    have same := variable_idx found
    exact ⟨(local_iff found).mp known, row, inside, same.symm, low, high⟩
  · rintro ⟨only, row, inside, same, low, high⟩
    rw [variable_idx stored] at same
    exact ⟨row.var, ⟨row, ⟨inside, ⟨low, high⟩, same ▸ (local_iff stored).mpr only⟩, rfl⟩, same ▸ stored⟩

/-- The property `ranges` has no ranges to offer, so that every variable is visible everywhere. -/
theorem visibleAt_eq_true (db : Database) (v : Variable) (addr : Int) : visibleAt db v addr = true := by
  simp [visibleAt, ranges]

/-- A local variable that a lookup finds is one of those that the query yields. -/
theorem inScope_of_lookup {name : String} (stored : db.variable idx = some v) (only : v.isGlobal = false)
    (found : lookup db addr name = some v) : InScope db v addr := by
  rcases List.mem_append.mp (List.mem_of_find?_eq_some found) with inside | global
  · exact ((mem_iterLocals_iff stored).mp inside).2
  · obtain ⟨id, listed, same⟩ := List.mem_filterMap.mp global
    obtain ⟨row, one, rfl⟩ := List.mem_map.mp listed
    obtain ⟨member, set⟩ := List.mem_filter.mp one
    obtain ⟨other, inside, id, rfl⟩ := variable_eq_some_iff.mp same
    rw [List.inj_on_of_nodup_map db.primaryKey inside member id] at only
    simp only [decide_eq_true_eq] at set
    simp [set] at only

/-- The two notions of scope agree at the addresses of the stored ranges, and there only. -/
theorem consistent_iff (stored : db.variable idx = some v) (only : v.isGlobal = false) :
    Consistent db v addr ↔ InScope db v addr := by
  constructor
  · exact fun consistent => consistent.visible.mp (visibleAt_eq_true db v addr)
  · intro inside
    exact {
      visible := ⟨fun _ => inside, fun _ => visibleAt_eq_true db v addr⟩
      iterated := ⟨fun _ => (mem_iterLocals_iff stored).mpr ⟨only, inside⟩,
        fun _ => visibleAt_eq_true db v addr⟩
      silent := fun outside => absurd inside outside
      found := fun _ found => ⟨visibleAt_eq_true db v addr, inScope_of_lookup stored only found⟩ }

/-! ## A variable of one block -/

/-- One local variable in the range from 16 to 32. -/
def oneLocal : Database where
  variableRows := [⟨1, 1, some "x", 0, none⟩]
  variables2ranges := [⟨1, 16, 32⟩]
  variables2expressions := [⟨1, none, none, [0x91#8, 0x00#8]⟩]
  primaryKey := by decide

def blockVariable : Variable := ⟨1, 1, some "x", false, none⟩

/-- At the start of its block the two notions agree. -/
theorem consistent_inside : Consistent oneLocal blockVariable 16 :=
  (consistent_iff (show oneLocal.variable 1 = some blockVariable by decide) rfl).mpr
    ⟨⟨1, 16, 32⟩, by decide, rfl, by decide, by decide⟩

/-- Behind its block the variable is still visible. -/
theorem visible_outside : ¬∀ (db : Database) (idx addr : Int) (v : Variable), db.variable idx =
    some v → v.isGlobal = false →
    HasRange db v → Consistent db v addr := by
  intro all
  have consistent := all oneLocal 1 48 blockVariable (by decide) rfl ⟨⟨1, 16, 32⟩, by decide, rfl⟩
  obtain ⟨row, member, -, -, high⟩ := consistent.visible.mp (by decide)
  simp only [oneLocal, List.mem_singleton] at member
  rw [member] at high
  exact absurd high (by decide)

end Adbi.VariablesProofs
