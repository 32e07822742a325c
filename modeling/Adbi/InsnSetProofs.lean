import Adbi.InsnSet
import Mathlib.Data.List.Forall2
import Mathlib.Data.List.Nodup

/-! The cache does not change the answers, whatever was asked before: what a query
stores for a range is the kind at each address of it. -/
namespace Adbi.InsnSetProofs
open Adbi.InsnSet

variable {Self : Type} [DecidableEq Self] {V : Type}

/-- The kind of the row with the greatest address at or below this one. -/
def KindAt (table : Table) (addr kind : Int) : Prop :=
  (∃ row ∈ table.rows, row.addr ≤ addr ∧
    (∀ other ∈ table.rows, other.addr ≤ addr → other.addr ≤ row.addr) ∧
    kind = row.kind) ∨
  (∀ row ∈ table.rows, addr < row.addr) ∧ kind = nocode

/-- There is only one such row. -/
theorem kind_at_unique {table : Table} {addr kind kind' : Int} (one : KindAt table addr kind)
    (two : KindAt table addr kind') : kind = kind' := by
  rcases one with ⟨row, member, below, greatest, rfl⟩ | ⟨none, rfl⟩
  · rcases two with ⟨row', member', below', greatest', rfl⟩ | ⟨none, rfl⟩
    · have same : row.addr = row'.addr :=
        le_antisymm (greatest' row member below) (greatest row' member' below')
      rw [List.inj_on_of_nodup_map table.distinct member member' same]
    · exact absurd below (not_le.mpr (none row member))
  · rcases two with ⟨row', member', below', _, rfl⟩ | ⟨_, rfl⟩
    · exact absurd below' (not_le.mpr (none row' member'))
    · rfl

/-! ## The query -/

theorem below_eq_some {table : Table} {addr : Int} {row : Row} (found : table.below addr = some row) :
    row ∈ table.rows ∧ row.addr ≤ addr ∧ ∀ other ∈ table.rows, other.addr ≤ addr →
    other.addr ≤ row.addr := by
  unfold Table.below at found
  obtain ⟨member, below⟩ := List.mem_filter.mp (List.maxOn?_mem found)
  refine ⟨member, of_decide_eq_true below, fun other member' below' => ?_⟩
  have inside : other ∈ table.rows.filter fun row => row.addr ≤ addr :=
    List.mem_filter.mpr ⟨member', decide_eq_true below'⟩
  have greatest := List.le_apply_get_maxOn?_of_mem (f := Row.addr) inside
  simpa only [found, Option.get_some] using greatest

theorem below_eq_none {table : Table} {addr : Int} (missing : table.below addr = none) :
    ∀ row ∈ table.rows, addr < row.addr := by
  intro row member
  by_contra below
  have inside : row ∈ table.rows.filter fun row => row.addr ≤ addr :=
    List.mem_filter.mpr ⟨member, decide_eq_true (not_lt.mp below)⟩
  have found := List.isSome_maxOn?_of_mem (f := Row.addr) inside
  unfold Table.below at missing
  rw [missing] at found
  exact absurd found Bool.false_ne_true

theorem above_eq_some {table : Table} {addr : Int} {row : Row} (found : table.above addr = some row) :
    addr < row.addr ∧ ∀ other ∈ table.rows, addr < other.addr → row.addr ≤ other.addr := by
  unfold Table.above at found
  obtain ⟨_, above⟩ := List.mem_filter.mp (List.minOn?_mem found)
  refine ⟨of_decide_eq_true above, fun other member' above' => ?_⟩
  have inside : other ∈ table.rows.filter fun row => addr < row.addr :=
    List.mem_filter.mpr ⟨member', decide_eq_true above'⟩
  have least := List.apply_get_minOn?_le_of_mem (f := Row.addr) inside
  simpa only [found, Option.get_some] using least

theorem above_eq_none {table : Table} {addr : Int} (missing : table.above addr = none) :
    ∀ row ∈ table.rows, row.addr ≤ addr := by
  intro row member
  by_contra above
  have inside : row ∈ table.rows.filter fun row => addr < row.addr :=
    List.mem_filter.mpr ⟨member, decide_eq_true (not_le.mp above)⟩
  have found := List.isSome_minOn?_of_mem (f := Row.addr) inside
  unfold Table.above at missing
  rw [missing] at found
  exact absurd found Bool.false_ne_true

/-- The bound that is stored, below which no other row starts. It is never the address
0, which the query would take for a missing one. -/
private theorem query_hi (table : Table) (addr : Nat) :
    (addr : Int) < (queryKindRange table addr).2.2 ∧
      ∀ row ∈ table.rows, (addr : Int) < row.addr → (queryKindRange table addr).2.2 ≤ row.addr := by
  unfold queryKindRange
  cases found : table.above addr with
  | none =>
    refine ⟨Int.lt_add_of_pos_right _ (by decide), fun row member above => ?_⟩
    exact absurd above (not_lt.mpr (above_eq_none found row member))
  | some next =>
    obtain ⟨above, first⟩ := above_eq_some found
    have nonzero : next.addr ≠ 0 := by omega
    simp only [Option.map_some, nonzero, ne_eq, not_false_eq_true, if_true]
    exact ⟨above, first⟩

/-- The range has the address that was asked for, and the kind is that of each address
in it. -/
theorem query_range (table : Table) (addr : Nat) {kind lo hi : Int}
    (queried : queryKindRange table addr = (kind, lo, hi)) :
    lo ≤ addr ∧ addr < hi ∧ ∀ i, lo ≤ i → i < hi → KindAt table i kind := by
  obtain ⟨above, first⟩ := query_hi table addr
  rw [queried] at above first
  cases found : table.below addr with
  | none =>
    have none := below_eq_none found
    simp only [queryKindRange, found, Prod.mk.injEq] at queried
    obtain ⟨rfl, rfl, _⟩ := queried
    refine ⟨Int.natCast_nonneg addr, above, fun i _ inside => .inr ⟨fun row member => ?_, rfl⟩⟩
    exact lt_of_lt_of_le inside (first row member (none row member))
  | some row =>
    obtain ⟨member, below, greatest⟩ := below_eq_some found
    simp only [queryKindRange, found, Prod.mk.injEq] at queried
    obtain ⟨rfl, rfl, _⟩ := queried
    refine ⟨below, above, fun i from_row inside =>
      .inl ⟨row, member, from_row, fun other member' below' => ?_, rfl⟩⟩
    refine greatest other member' (not_lt.mp fun beyond => ?_)
    exact absurd (first other member' beyond) (not_le.mpr (lt_of_le_of_lt below' inside))

/-! ## The dictionary -/

/-- Every stored answer is right. -/
def Right (tables : Self → Table) (memo : Memo Self Int) : Prop :=
  ∀ self i kind, memo self i = some kind → KindAt (tables self) i kind

theorem mem_range {lo hi i : Int} : i ∈ range lo hi ↔ lo ≤ i ∧ i < hi := by
  constructor
  · intro member
    obtain ⟨k, inside, rfl⟩ := List.mem_map.mp member
    have bound := List.mem_range.mp inside
    omega
  · rintro ⟨low, high⟩
    exact List.mem_map.mpr ⟨(i - lo).toNat, List.mem_range.mpr (by omega), by omega⟩

theorem right_set {tables : Self → Table} {memo : Memo Self Int} (right : Right tables memo)
    {self : Self} {i kind : Int}
    (here : KindAt (tables self) i kind) : Right tables (memo.set self i kind) := by
  intro self' i' kind' stored
  unfold Memo.set at stored
  split at stored
  case isTrue same =>
    obtain ⟨rfl, rfl⟩ := same
    exact Option.some.inj stored ▸ here
  case isFalse => exact right self' i' kind' stored

theorem right_fill {tables : Self → Table} {self : Self} {kind : Int} (places : List Int)
    (here : ∀ i ∈ places, KindAt (tables self) i kind) (memo : Memo Self Int)
    (right : Right tables memo) :
    Right tables (places.foldl (fun memo i => memo.set self i kind) memo) := by
  induction places generalizing memo with
  | nil => exact right
  | cons i places ih =>
    obtain ⟨first, rest⟩ := List.forall_mem_cons.mp here
    exact ih rest _ (right_set right first)

/-- One call gives the right kind, and what it stores is right. -/
theorem get_kind_range_right {tables : Self → Table} {memo : Memo Self Int}
    (right : Right tables memo) (self : Self)
    (addr : Nat) :
    KindAt (tables self) addr (getKindRange tables memo self addr).1.1 ∧
      Right tables (getKindRange tables memo self addr).2 := by
  unfold getKindRange rangecachedfn
  cases stored : memo self addr with
  | some kind => exact ⟨right self addr kind stored, right⟩
  | none =>
    rcases queried : queryKindRange (tables self) addr with ⟨kind, lo, hi⟩
    obtain ⟨low, high, inside⟩ := query_range (tables self) addr queried
    have nonzero : hi ≠ 0 := by omega
    simp only [queried, nonzero, ne_eq, not_false_eq_true, if_true]
    refine ⟨inside addr low high, right_fill (range lo hi) (fun i member => ?_) memo right⟩
    obtain ⟨low, high⟩ := mem_range.mp member
    exact inside i low high

/-- From a dictionary of right answers every sequence of queries is answered right. -/
theorem answers_right (tables : Self → Table) (queries : List (Self × Nat)) (memo : Memo Self Int)
    (right : Right tables memo) :
    List.Forall₂ (fun query kind => KindAt (tables query.1) query.2 kind) queries
      (answers tables memo queries) := by
  induction queries generalizing memo with
  | nil => exact .nil
  | cons query queries ih =>
    obtain ⟨self, addr⟩ := query
    obtain ⟨here, right'⟩ := get_kind_range_right right self addr
    exact .cons here (ih _ right')

/-- Whatever was asked before, each answer is the one kind that the table has at the
address. The objects of the class share the dictionary. -/
theorem answers_direct (tables : Self → Table) (queries : List (Self × Nat)) :
    List.Forall₂ (fun query kind => ∀ direct, KindAt (tables query.1) query.2 direct ↔ direct = kind)
      queries (answers tables Memo.empty queries) := by
  have right : Right tables Memo.empty := fun self i kind stored => absurd stored (by simp [Memo.empty])
  refine (answers_right tables queries Memo.empty right).imp fun query kind here direct => ?_
  constructor
  · exact fun other => kind_at_unique other here
  · rintro rfl
    exact here

/-- Two kinds of code, from 0 and from 8 on. -/
def twoRows : Table := ⟨[⟨0, 1⟩, ⟨8, 2⟩], by decide⟩

/-- The answers at the last address of the one and the first of the other, in either order. -/
theorem two_rows_answered : KindAt twoRows 7 1 ∧ KindAt twoRows 8 2 := by
  have answered := answers_direct (fun _ : Unit => twoRows) [((), 7), ((), 8), ((), 7)]
  rw [show answers (fun _ : Unit => twoRows) Memo.empty [((), 7), ((), 8), ((), 7)] = [1, 2,
    1] by decide] at answered
  cases answered with
  | cons first rest =>
    cases rest with
    | cons second _ => exact ⟨(first 1).mpr rfl, (second 2).mpr rfl⟩

end Adbi.InsnSetProofs
