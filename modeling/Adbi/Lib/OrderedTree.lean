import Mathlib.Data.List.MinMax
import Mathlib.Data.List.Pairwise
import Mathlib.Data.List.Sort

/-! Search trees seen from outside: the entries in the order of their keys. A
tree carries the order of its entries, so that a lookup, an insertion that
refuses a key that is there, a removal and the walk from the lowest key to the
highest need no precondition. -/
namespace Adbi.Lib

/-- The entries of a search tree, from the lowest key to the highest. -/
structure OrderedTree (κ α : Type) [LinearOrder κ] where
  entries : List (κ × α)
  sorted : entries.Pairwise fun a b => a.1 < b.1

namespace OrderedTree

variable {κ α : Type} [LinearOrder κ] {t u : OrderedTree κ α} {k l : κ} {v w : α} {e : κ × α}
  {p : κ × α → Bool}

def empty : OrderedTree κ α := ⟨[], .nil⟩

def singleton (k : κ) (v : α) : OrderedTree κ α := ⟨[(k, v)], List.pairwise_singleton _ _⟩

/-- The value at a key. -/
def get (t : OrderedTree κ α) (k : κ) : Option α := (t.entries.find? fun e => e.1 = k).map (·.2)

/-- The value at the highest key that is not above `k`. -/
def getLe (t : OrderedTree κ α) (k : κ) : Option α :=
  (t.entries.filter fun e => e.1 ≤ k).getLast?.map (·.2)

/-- The keys, from the lowest to the highest. -/
def keys (t : OrderedTree κ α) : List κ := t.entries.map (·.1)

/-- Put an entry before the first one with a higher key. -/
def place (k : κ) (v : α) : List (κ × α) → List (κ × α)
  | [] => [(k, v)]
  | e :: rest => if k < e.1 then (k, v) :: e :: rest else e :: place k v rest

theorem mem_place {entries : List (κ × α)} : e ∈ place k v entries ↔ e = (k, v) ∨ e ∈ entries := by
  induction entries with
  | nil => simp [place]
  | cons head rest ih =>
    simp only [place]
    split
    · exact List.mem_cons
    · simp only [List.mem_cons, ih]
      exact or_left_comm

theorem place_sorted {entries : List (κ × α)} (sorted : entries.Pairwise fun a b => a.1 < b.1)
    (absent : ∀ e ∈ entries, e.1 ≠ k) : (place k v entries).Pairwise fun a b => a.1 < b.1 := by
  induction entries with
  | nil => simp [place]
  | cons head rest ih =>
    obtain ⟨below, restSorted⟩ := List.pairwise_cons.mp sorted
    simp only [place]
    split
    · rename_i lower
      refine List.pairwise_cons.mpr ⟨?_, sorted⟩
      intro e member
      rcases List.mem_cons.mp member with rfl | later
      · exact lower
      · exact lower.trans (below e later)
    · rename_i notLower
      have different := absent head List.mem_cons_self
      refine List.pairwise_cons.mpr ⟨?_, ih restSorted fun e member =>
        absent e (List.mem_cons_of_mem _ member)⟩
      intro e member
      rcases mem_place.mp member with rfl | later
      · exact lt_of_le_of_ne (not_lt.mp notLower) different
      · exact below e later

/-- Insert an entry, unless the key is there. -/
def tryInsert (t : OrderedTree κ α) (k : κ) (v : α) : Option (OrderedTree κ α) :=
  if absent : ∀ e ∈ t.entries, e.1 ≠ k then some ⟨place k v t.entries, place_sorted t.sorted absent⟩
    else none

/-- Without the entry at a key. -/
def remove (t : OrderedTree κ α) (k : κ) : OrderedTree κ α :=
  ⟨t.entries.filter fun e => e.1 ≠ k, t.sorted.filter _⟩

/-- Change the value at a key, if there is one. -/
def adjust (t : OrderedTree κ α) (k : κ) (f : α → α) : OrderedTree κ α where
  entries := t.entries.map fun e => if e.1 = k then (e.1, f e.2) else e
  sorted := by
    refine List.pairwise_map.mpr (t.sorted.imp ?_)
    intro a b lower
    split <;> split <;> exact lower

/-- The entry with the lowest key. -/
def first (t : OrderedTree κ α) : Option (κ × α) := t.entries.head?

/-- The entry with the lowest key above `k`. -/
def next (t : OrderedTree κ α) (k : κ) : Option (κ × α) := t.entries.find? fun e => k < e.1

/-! ## Lookup -/

theorem value_unique (left : (k, v) ∈ t.entries) (right : (k, w) ∈ t.entries) : v = w := by
  by_contra different
  have distinct : t.entries.Pairwise fun a b => a.1 ≠ b.1 := t.sorted.imp fun lower => lower.ne
  have : Std.Symm fun a b : κ × α => a.1 ≠ b.1 := ⟨fun _ _ => Ne.symm⟩
  exact distinct.forall left right (fun same => different (Prod.mk.inj same).2) rfl

theorem entry_unique {a b : κ × α} (left : a ∈ t.entries) (right : b ∈ t.entries)
    (same : a.1 = b.1) : a = b := by
  obtain ⟨k, v⟩ := a
  obtain ⟨l, w⟩ := b
  cases same
  rw [value_unique left right]

theorem get_eq_some_iff : t.get k = some v ↔ (k, v) ∈ t.entries := by
  constructor
  · intro got
    obtain ⟨e, found, rfl⟩ := Option.map_eq_some_iff.mp got
    have same : e.1 = k := by simpa using List.find?_some found
    subst same
    exact List.mem_of_find?_eq_some found
  · intro member
    have some : (t.entries.find? fun e => e.1 = k).isSome := by
      rw [List.find?_isSome]
      exact ⟨_, member, by simp⟩
    obtain ⟨e, found⟩ := Option.isSome_iff_exists.mp some
    have same : e.1 = k := by simpa using List.find?_some found
    subst same
    have value := value_unique member (List.mem_of_find?_eq_some found)
    simp [get, found, value]

theorem get_eq_none_iff : t.get k = none ↔ ∀ e ∈ t.entries, e.1 ≠ k := by
  simp [get]

theorem getLe_eq_some_iff :
    t.getLe k = some v ↔ ∃ l, l ≤ k ∧ (l, v) ∈ t.entries ∧ ∀ e ∈ t.entries, e.1 ≤ k → e.1 ≤ l := by
  have sorted : (t.entries.filter fun e => e.1 ≤ k).Pairwise fun a b => a.1 < b.1 := t.sorted.filter _
  constructor
  · intro got
    obtain ⟨⟨l, _⟩, last, rfl⟩ := Option.map_eq_some_iff.mp got
    obtain ⟨before, split⟩ := List.getLast?_eq_some_iff.mp last
    have member := List.mem_filter.mp (split ▸ List.mem_append_right before List.mem_cons_self)
    refine ⟨l, by simpa using member.2, member.1, fun e inside below => ?_⟩
    have kept : e ∈ before ++ [(l, _)] := split ▸ List.mem_filter.mpr ⟨inside, by simpa using below⟩
    rw [split] at sorted
    rcases List.mem_append.mp kept with early | here
    · exact ((List.pairwise_append.mp sorted).2.2 e early _ List.mem_cons_self).le
    · rw [List.mem_singleton.mp here]
  · rintro ⟨l, below, member, highest⟩
    have kept : (l, v) ∈ t.entries.filter fun e => e.1 ≤ k :=
      List.mem_filter.mpr ⟨member, decide_eq_true below⟩
    obtain ⟨last, found⟩ := Option.ne_none_iff_exists'.mp
      fun nothing => List.ne_nil_of_mem kept (List.getLast?_eq_none_iff.mp nothing)
    obtain ⟨before, split⟩ := List.getLast?_eq_some_iff.mp found
    have inside := List.mem_filter.mp (split ▸ List.mem_append_right before List.mem_cons_self)
    have under := highest last inside.1 (by simpa using inside.2)
    have here : (l, v) ∈ before ++ [last] := split ▸ kept
    rw [split] at sorted
    rcases List.mem_append.mp here with early | here
    · exact absurd ((List.pairwise_append.mp sorted).2.2 _ early last List.mem_cons_self)
        (not_lt_of_ge under)
    · rw [getLe, found, ← List.mem_singleton.mp here]
      rfl

/-- Over the values alone, the lookup is the search for the one with the highest key that is not
above `k`. -/
theorem argmax_eq_getLe (t : OrderedTree κ α) {key : α → κ} (keyed : ∀ e ∈ t.entries, key e.2 = e.1)
    (k : κ) :
    (((t.entries.map (·.2)).filter fun v => key v ≤ k).argmax key) = t.getLe k := by
  have listed (v : α) : v ∈ (t.entries.map (·.2)).filter (fun v => key v ≤ k) ↔
      (key v, v) ∈ t.entries ∧ key v ≤ k := by
    simp only [List.mem_filter, List.mem_map, decide_eq_true_eq]
    constructor
    · rintro ⟨⟨e, member, rfl⟩, below⟩
      rw [keyed e member] at below ⊢
      exact ⟨member, below⟩
    · rintro ⟨member, below⟩
      exact ⟨⟨_, member, rfl⟩, below⟩
  refine Option.ext fun v => ⟨fun best => ?_, fun found => ?_⟩
  · obtain ⟨member, below⟩ := (listed v).mp (List.argmax_mem best)
    refine getLe_eq_some_iff.mpr ⟨key v, below, member, fun e inside under => ?_⟩
    have other : (key e.2, e.2) ∈ t.entries := by rwa [keyed e inside]
    rw [← keyed e inside] at under ⊢
    exact List.le_of_mem_argmax ((listed e.2).mpr ⟨other, under⟩) best
  · obtain ⟨l, below, member, greatest⟩ := getLe_eq_some_iff.mp found
    obtain rfl : key v = l := keyed _ member
    cases best : ((t.entries.map (·.2)).filter fun v => key v ≤ k).argmax key with
    | none =>
      rw [List.argmax_eq_none] at best
      exact absurd ((listed v).mpr ⟨member, below⟩) (best ▸ List.not_mem_nil)
    | some w =>
      obtain ⟨there, under⟩ := (listed w).mp (List.argmax_mem best)
      have least := greatest _ there under
      have most := List.le_of_mem_argmax ((listed v).mpr ⟨member, below⟩) best
      rw [show w = v from congrArg Prod.snd (entry_unique there member (le_antisymm least most))]

/-- Two trees with the same lookups are the same. -/
theorem ext_get (same : ∀ k, t.get k = u.get k) : t = u := by
  have perm : t.entries.Perm u.entries := by
    have nodup (s : OrderedTree κ α) : s.entries.Nodup :=
      s.sorted.imp fun lower equal => lower.ne (congrArg Prod.fst equal)
    refine (List.perm_ext_iff_of_nodup (nodup t) (nodup u)).mpr fun e => ?_
    rw [← get_eq_some_iff (t := t) (k := e.1), ← get_eq_some_iff (t := u), same]
  have equal := perm.eq_of_pairwise (fun a b _ _ left right => absurd left right.asymm) t.sorted u.sorted
  cases t
  cases u
  cases equal
  rfl

/-! ## Changes -/

theorem tryInsert_of_absent (absent : t.get k = none) : ∃ u, t.tryInsert k v = some u :=
  ⟨_, dif_pos (get_eq_none_iff.mp absent)⟩

theorem tryInsert_of_present (present : t.get k = some w) : t.tryInsert k v = none :=
  dif_neg fun absent => absent _ (get_eq_some_iff.mp present) rfl

theorem absent_of_tryInsert (inserted : t.tryInsert k v = some u) : t.get k = none := by
  by_contra present
  obtain ⟨w, got⟩ := Option.ne_none_iff_exists'.mp present
  rw [tryInsert_of_present got] at inserted
  cases inserted

theorem mem_tryInsert (inserted : t.tryInsert k v = some u) : e ∈ u.entries ↔
    e = (k, v) ∨ e ∈ t.entries := by
  have absent := get_eq_none_iff.mp (absent_of_tryInsert inserted)
  rw [tryInsert, dif_pos absent] at inserted
  cases inserted
  exact mem_place

theorem get_tryInsert (inserted : t.tryInsert k v = some u) (l : κ) :
    u.get l = if l = k then some v else t.get l := by
  have absent := absent_of_tryInsert inserted
  refine Option.ext fun w => ?_
  rw [get_eq_some_iff, mem_tryInsert inserted, Prod.mk.injEq]
  split
  · rename_i same
    subst same
    constructor
    · rintro (⟨-, rfl⟩ | member)
      · rfl
      · rw [get_eq_some_iff.mpr member] at absent
        cases absent
    · rintro ⟨⟩
      exact .inl ⟨rfl, rfl⟩
  · rename_i different
    rw [get_eq_some_iff]
    exact or_iff_right fun both => different both.1

theorem mem_remove : e ∈ (t.remove k).entries ↔ e ∈ t.entries ∧ e.1 ≠ k := by
  simp [remove]

theorem get_remove (l : κ) : (t.remove k).get l = if l = k then none else t.get l := by
  refine Option.ext fun w => ?_
  rw [get_eq_some_iff, mem_remove]
  split
  · rename_i same
    simp [same]
  · rename_i different
    rw [get_eq_some_iff]
    exact and_iff_left different

theorem get_adjust (f : α → α) (l : κ) : (t.adjust k f).get l = if l = k then (t.get l).map f
    else t.get l := by
  refine Option.ext fun w => ?_
  rw [get_eq_some_iff]
  split
  · rename_i same
    subst same
    simp only [adjust, List.mem_map, Option.map_eq_some_iff, get_eq_some_iff]
    constructor
    · rintro ⟨e, member, changed⟩
      split at changed
      · rename_i same
        cases changed
        exact ⟨e.2, same ▸ member, rfl⟩
      · rename_i different
        exact absurd (congrArg Prod.fst changed) different
    · rintro ⟨v, member, rfl⟩
      exact ⟨(l, v), member, if_pos rfl⟩
  · rename_i different
    simp only [adjust, List.mem_map, get_eq_some_iff]
    constructor
    · rintro ⟨e, member, changed⟩
      split at changed
      · rename_i same
        exact absurd ((congrArg Prod.fst changed).symm.trans same) different
      · cases changed
        exact member
    · intro member
      exact ⟨(l, w), member, if_neg different⟩

/-- Removing what was inserted leaves the tree as it was. -/
theorem remove_tryInsert (inserted : t.tryInsert k v = some u) : u.remove k = t := by
  refine ext_get fun l => ?_
  rw [get_remove, get_tryInsert inserted]
  split
  · rename_i same
    rw [same, absent_of_tryInsert inserted]
  · rfl

/-! ## The walk from the lowest key -/

/-- The walk stops at the lowest key of all the entries that are looked for. -/
theorem find?_le (found : t.entries.find? p = some e) {other : κ × α} (member : other ∈ t.entries)
    (wanted : p other = true) : e.1 ≤ other.1 := by
  obtain ⟨_, before, after, split, misses⟩ := List.find?_eq_some_iff_append.mp found
  rw [split] at member
  have ordered := t.sorted
  rw [split] at ordered
  rcases List.mem_append.mp member with early | late
  · have missed := misses other early
    rw [wanted] at missed
    cases missed
  · rcases List.mem_cons.mp late with rfl | later
    · exact le_rfl
    · exact ((List.pairwise_cons.mp (List.pairwise_append.mp ordered).2.1).1 other later).le

theorem next_lt (found : t.next k = some e) : k < e.1 := by
  simpa using List.find?_some found

/-- Behind an entry comes the next one. -/
theorem next_of_split {before after : List (κ × α)}
    (split : t.entries = before ++ (k, v) :: after) : t.next k = after.head? := by
  have sorted := t.sorted
  rw [split, List.pairwise_append, List.pairwise_cons] at sorted
  obtain ⟨-, ⟨above, -⟩, across⟩ := sorted
  have below : before.find? (fun e => decide (k < e.1)) = none := by
    refine List.find?_eq_none.mpr fun e member => ?_
    simpa using (across e member _ List.mem_cons_self).le
  rw [next, split, List.find?_append, below, Option.none_or, List.find?_cons_of_neg (by simp)]
  cases after with
  | nil => rfl
  | cons e rest =>
    exact List.find?_cons_of_pos (by simpa using above e List.mem_cons_self)

end OrderedTree
end Adbi.Lib
