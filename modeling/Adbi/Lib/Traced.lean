import Mathlib.Tactic.Common

/-! Computations that leave a record, of the addresses they read or of whatever
else they do on the way. A C function that walks a buffer is written in this
monad once, and the same text then answers two questions: what it returns, and
which addresses it touched. -/
namespace Adbi.Lib

/-- A result together with the addresses read, or other things done, on the way to it. -/
structure Traced (ι α : Type) where
  value : α
  reads : List ι

namespace Traced

variable {ι α β : Type} {p : ι → Prop}

instance : Monad (Traced ι) where
  pure a := ⟨a, []⟩
  bind x f := ⟨(f x.value).value, x.reads ++ (f x.value).reads⟩

/-- Read one cell of a memory. -/
def load (memory : ι → α) (address : ι) : Traced ι α := ⟨memory address, [address]⟩

/-- Every address read satisfies `p`. -/
def Within (p : ι → Prop) (x : Traced ι α) : Prop := ∀ address ∈ x.reads, p address

@[simp] theorem value_pure (a : α) : (pure a : Traced ι α).value = a := rfl

@[simp] theorem value_bind (x : Traced ι α) (f : α → Traced ι β) :
    (x >>= f).value = (f x.value).value := rfl

@[simp] theorem value_load (memory : ι → α) (address : ι) :
    (load memory address).value = memory address := rfl

@[simp] theorem within_pure (a : α) : Within p (pure a : Traced ι α) :=
  fun _ member => absurd member List.not_mem_nil

@[simp] theorem within_bind (x : Traced ι α) (f : α → Traced ι β) :
    Within p (x >>= f) ↔ Within p x ∧ Within p (f x.value) := by
  constructor
  · intro all
    exact ⟨fun a member => all a (List.mem_append_left _ member),
      fun a member => all a (List.mem_append_right _ member)⟩
  · rintro ⟨first, second⟩ a member
    rcases List.mem_append.mp member with left | right
    · exact first a left
    · exact second a right

@[simp] theorem within_load (memory : ι → α) (address : ι) :
    Within p (load memory address) ↔ p address := by
  simp [Within, load]

/-- A loop keeps what each of its rounds keeps. -/
theorem within_foldlM {step : β → α → Traced ι β} {P : β → Prop}
    (kept : ∀ b a, P b → P (step b a).value ∧ Within p (step b a)) {l : List α} {b : β} (start : P b) :
    P (l.foldlM step b).value ∧ Within p (l.foldlM step b) := by
  induction l generalizing b with
  | nil => exact ⟨start, within_pure b⟩
  | cons a rest ih =>
    obtain ⟨holds, here⟩ := kept b a start
    obtain ⟨final, later⟩ := ih holds
    rw [List.foldlM_cons]
    exact ⟨final, (within_bind _ _).mpr ⟨here, later⟩⟩

/-- Every round of the loop is admitted by the state it starts from. -/
def Guarded (step : β → α → Traced ι β) (guard : β → α → Prop) : β → List α → Prop
  | _, [] => True
  | b, a :: rest => guard b a ∧ Guarded step guard (step b a).value rest

/-- A loop of admitted rounds keeps what each of them keeps. -/
theorem within_guarded_foldlM {step : β → α → Traced ι β} {guard : β → α → Prop} {P : β → Prop}
    (kept : ∀ b a, P b → guard b a → P (step b a).value ∧ Within p (step b a)) {l : List α} {b : β}
    (start : P b)
    (guarded : Guarded step guard b l) : P (l.foldlM step b).value ∧ Within p (l.foldlM step b) := by
  induction l generalizing b with
  | nil => exact ⟨start, within_pure b⟩
  | cons a rest ih =>
    obtain ⟨admitted, later⟩ := guarded
    obtain ⟨holds, here⟩ := kept b a start admitted
    obtain ⟨final, rest⟩ := ih holds later
    rw [List.foldlM_cons]
    exact ⟨final, (within_bind _ _).mpr ⟨here, rest⟩⟩

end Traced
end Adbi.Lib
