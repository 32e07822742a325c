import Mathlib.Data.Set.Function
import Mathlib.Data.List.Forall2
import Mathlib.Data.List.Nodup
import Mathlib.Logic.Relation

/-! Graphs in which the successors of a node come in an order. Two nodes are alike when there is a
correspondence between what they reach, which may be given by a list of pairs. -/
namespace Adbi.Lib

variable {α β : Type}

/-- What a node reaches. -/
def Reaches (next : α → List α) : α → α → Prop := Relation.ReflTransGen fun a b => b ∈ next a

section
variable {next : α → List α} {other : β → List β} {t : α} {u : β} {f g : α → β}

/-- A map that takes successors to successors, wherever `t` reaches. -/
def Follows (next : α → List α) (other : β → List β) (f : α → β) (t : α) : Prop :=
  ∀ a, Reaches next t a → other (f a) = (next a).map f

theorem Follows.reaches (follows : Follows next other f t) {a : α} (reach : Reaches next t a) :
    Reaches other (f t) (f a) := by
  induction reach with
  | refl => exact .refl
  | tail before step ih =>
    refine ih.tail ?_
    show f _ ∈ other (f _)
    rw [follows _ before]
    exact List.mem_map_of_mem step

theorem Follows.reaches_image (follows : Follows next other f t) {b : β}
    (reach : Reaches other (f t) b) :
    ∃ a, Reaches next t a ∧ f a = b := by
  induction reach with
  | refl => exact ⟨t, .refl, rfl⟩
  | tail before step ih =>
    obtain ⟨a, reach, rfl⟩ := ih
    change _ ∈ other (f a) at step
    rw [follows a reach] at step
    obtain ⟨c, member, rfl⟩ := List.mem_map.mp step
    exact ⟨c, reach.tail member, rfl⟩

/-- Such a map is settled by where it takes `t`. -/
theorem Follows.unique (follows : Follows next other f t) (also : Follows next other g t)
    (root : f t = g t) {a : α}
    (reach : Reaches next t a) : f a = g a := by
  induction reach with
  | refl => exact root
  | @tail b c before step ih =>
    have same : (next b).map f = (next b).map g := by rw [← follows b before, ← also b before, ih]
    exact List.map_inj_left.mp same c step

theorem Follows.bijOn (follows : Follows next other f t)
    (injective : Set.InjOn f {a | Reaches next t a}) :
    Set.BijOn f {a | Reaches next t a} {b | Reaches other (f t) b} :=
  ⟨fun _ reach => follows.reaches reach, injective, fun _ reach => follows.reaches_image reach⟩

end

section
variable [DecidableEq α] {pairs : List (α × β)} {u : β}

/-- The second of the first pair with some first. -/
def partner (pairs : List (α × β)) (u : β) (a : α) : β := (pairs.lookup a).getD u

theorem partner_eq (nodup : (pairs.map Prod.fst).Nodup) {a : α} {b : β} (member : (a, b) ∈ pairs) :
    partner pairs u a = b := by
  induction pairs with
  | nil => cases member
  | cons pair rest ih =>
    obtain ⟨x, y⟩ := pair
    rw [List.map_cons, List.nodup_cons] at nodup
    rw [partner, List.lookup_cons]
    rcases List.mem_cons.mp member with same | later
    · cases same
      rw [beq_self_eq_true]
      rfl
    · have inRest : a ∈ rest.map Prod.fst := List.mem_map.mpr ⟨(a, b), later, rfl⟩
      have other : a ≠ x := fun same => nodup.1 (same ▸ inRest)
      rw [beq_eq_false_iff_ne.mpr other]
      exact ih nodup.2 later

theorem partner_follows {next : α → List α} {other : β → List β} {t : α}
    (nodup : (pairs.map Prod.fst).Nodup)
    (root : (t, u) ∈ pairs) (closed : ∀ p ∈ pairs,
      List.Forall₂ (fun a b => (a, b) ∈ pairs) (next p.1) (other p.2)) :
    (∀ a, Reaches next t a → (a, partner pairs u a) ∈ pairs) ∧
    Follows next other (partner pairs u) t := by
  have inPairs (a : α) (reach : Reaches next t a) : (a, partner pairs u a) ∈ pairs := by
    induction reach with
    | refl => rwa [partner_eq nodup root]
    | tail before step ih =>
      obtain ⟨lengths, each⟩ := List.forall₂_iff_get.mp (closed _ ih)
      obtain ⟨i, inside, rfl⟩ := List.mem_iff_getElem.mp step
      have member := each i inside (lengths ▸ inside)
      rw [List.get_eq_getElem] at member
      rwa [partner_eq nodup member]
  refine ⟨inPairs, fun a reach => ?_⟩
  have same := closed _ (inPairs a reach)
  generalize other (partner pairs u a) = images at same
  generalize next a = nodes at same
  induction same with
  | nil => rfl
  | cons member _ ih => rw [List.map_cons, partner_eq nodup member, ih]

theorem partner_injOn {s : Set α} (nodup : (pairs.map Prod.snd).Nodup)
    (inPairs : ∀ a ∈ s, (a, partner pairs u a) ∈ pairs) :
    Set.InjOn (partner pairs u) s := by
  intro a isIn b alsoIn same
  have first := inPairs a isIn
  have second := inPairs b alsoIn
  rw [← same] at second
  exact congrArg Prod.fst (List.inj_on_of_nodup_map nodup first second rfl)

end

end Adbi.Lib
