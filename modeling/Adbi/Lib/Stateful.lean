import Mathlib.Tactic.Common

/-! Programs that change a state and may halt in the middle, with the state
they halt in. `Keeps` is an invariant of the state at every point where such a
program can end, `Ensures` a postcondition of its normal end. -/
namespace Adbi.Lib

variable {ε σ α β : Type} {P R : σ → Prop} {x : EStateM ε σ α}

/-- The state a program ends in, normally or not. -/
def after (x : EStateM ε σ α) (s : σ) : σ :=
  match x s with
  | .ok _ s' => s'
  | .error _ s' => s'

theorem after_of_ok {a : α} {s s' : σ} (ran : x s = .ok a s') : after x s = s' := by
  simp only [after, ran]

theorem after_of_error {e : ε} {s s' : σ} (ran : x s = .error e s') : after x s = s' := by
  simp only [after, ran]

/-- Wherever the program ends, `P` still holds. -/
def Keeps (P : σ → Prop) (x : EStateM ε σ α) : Prop := ∀ s, P s → P (after x s)

/-- From a state with `P`, a normal end has `Q`. -/
def Ensures (P : σ → Prop) (x : EStateM ε σ α) (Q : α → σ → Prop) : Prop :=
  ∀ s, P s → ∀ a s', x s = .ok a s' → Q a s'

@[simp] theorem run_pure (a : α) (s : σ) : (pure a : EStateM ε σ α) s = .ok a s := rfl

@[simp] theorem run_throw (e : ε) (s : σ) : (throw e : EStateM ε σ α) s = .error e s := rfl

@[simp] theorem run_get (s : σ) : (get : EStateM ε σ σ) s = .ok s s := rfl

@[simp] theorem run_modify (f : σ → σ) (s : σ) : (modify f : EStateM ε σ Unit) s = .ok () (f s) := rfl

@[simp] theorem run_bind (x : EStateM ε σ α) (f : α → EStateM ε σ β) (s : σ) :
    (x >>= f) s = match x s with
      | .ok a s' => f a s'
      | .error e s' => .error e s' := rfl

/-- What comes to a normal end has done so in all its parts. -/
theorem bind_ran {f : α → EStateM ε σ β} {b : β} {s s' : σ} (ran : (x >>= f) s = .ok b s') :
    ∃ a t, x s = .ok a t ∧ f a t = .ok b s' := by
  rw [run_bind] at ran
  cases first : x s with
  | ok a t =>
    rw [first] at ran
    exact ⟨a, t, rfl, ran⟩
  | error e t =>
    rw [first] at ran
    cases ran

theorem get_bind_ran {f : σ → EStateM ε σ β} {b : β} {s s' : σ} (ran : (get >>= f) s = .ok b s') :
    f s s = .ok b s' := ran

theorem modify_bind_ran {f : σ → σ} {rest : PUnit → EStateM ε σ β} {b : β} {s s' : σ}
    (ran : (modify f >>= rest) s = .ok b s') : rest ⟨⟩ (f s) = .ok b s' := ran

theorem run_map (f : α → β) (x : EStateM ε σ α) (s : σ) :
    (f <$> x) s = match x s with
      | .ok a s' => .ok (f a) s'
      | .error e s' => .error e s' := rfl

theorem keeps_pure (a : α) : Keeps P (pure a : EStateM ε σ α) := fun _ holds => holds

theorem keeps_throw (e : ε) : Keeps P (throw e : EStateM ε σ α) := fun _ holds => holds

theorem keeps_modify {f : σ → σ} (kept : ∀ s, P s → P (f s)) :
    Keeps P (modify f : EStateM ε σ Unit) := kept

theorem keeps_bind {f : α → EStateM ε σ β} (first : Keeps P x) (second : ∀ a, Keeps P (f a)) :
    Keeps P (x >>= f) := by
  intro s holds
  have middle := first s holds
  unfold after at middle ⊢
  rw [run_bind]
  cases ran : x s with
  | ok a s' =>
    rw [ran] at middle
    exact second a s' middle
  | error e s' =>
    rw [ran] at middle
    exact middle

/-- What a program does after reading the state may depend on the state. -/
theorem keeps_get_bind {f : σ → EStateM ε σ β} (rest : ∀ s, P s → P (after (f s) s)) :
    Keeps P (get >>= f) := fun s holds => rest s holds

/-- An update need only keep `P` in the state where it happens. -/
theorem after_bind_modify_keeps {f : σ → σ} {rest : Unit → EStateM ε σ β} {s : σ}
    (later : Keeps P (rest ()))
    (updated : P (f s)) : P (after (modify f >>= rest) s) := later (f s) updated

theorem keeps_forM {f : α → EStateM ε σ PUnit} {l : List α} (each : ∀ a ∈ l, Keeps P (f a)) :
    Keeps P (l.forM f) := by
  induction l with
  | nil => exact keeps_pure _
  | cons a rest ih =>
    refine keeps_bind (each a List.mem_cons_self) fun _ => ?_
    exact ih fun b member => each b (List.mem_cons_of_mem _ member)

/-- Nothing to show when nothing is promised. -/
theorem ensures_true : Ensures P x fun _ _ => True := fun _ _ _ _ _ => trivial

theorem ensures_pure {Q : α → σ → Prop} {a : α} (holds : ∀ s, P s → Q a s) :
    Ensures P (pure a : EStateM ε σ α) Q := by
  rintro s before b s' ran
  cases ran
  exact holds s before

theorem ensures_throw {Q : α → σ → Prop} {e : ε} : Ensures P (throw e : EStateM ε σ α) Q := by
  rintro s _ a s' ran
  cases ran

theorem ensures_modify {f : σ → σ} {Q : Unit → σ → Prop} (holds : ∀ s, P s → Q () (f s)) :
    Ensures P (modify f : EStateM ε σ Unit) Q := by
  rintro s before a s' ran
  cases ran
  exact holds s before

theorem ensures_get {Q : β → σ → Prop} {f : σ → EStateM ε σ β} (rest : ∀ s, Ensures P (f s) Q) :
    Ensures P (get >>= f) Q := fun s before b s' ran => rest s s before b s' ran

/-- As `ensures_get`, when the rest relies on having read the state it starts in. -/
theorem ensures_get_bind {Q : β → σ → Prop} {f : σ → EStateM ε σ β}
    (rest : ∀ s, P s → Ensures (fun t => t = s) (f s) Q) : Ensures P (get >>= f) Q :=
  fun s before b s' ran => rest s before s rfl b s' ran

theorem ensures_bind {Q : α → σ → Prop} {S : β → σ → Prop} {f : α → EStateM ε σ β}
    (first : Ensures P x Q) (second : ∀ a, Ensures (Q a) (f a) S) : Ensures P (x >>= f) S := by
  intro s holds b s' ran
  obtain ⟨a, t, middle, rest⟩ := bind_ran ran
  exact second a t (first s holds a t middle) b s' rest

theorem ensures_forM {f : α → EStateM ε σ PUnit} {l : List α}
    (each : ∀ a ∈ l, Ensures P (f a) fun _ => P) : Ensures P (l.forM f) fun _ => P := by
  induction l with
  | nil =>
    rintro s holds a s' ran
    cases ran
    exact holds
  | cons a rest ih =>
    refine ensures_bind (each a List.mem_cons_self) fun _ => ?_
    exact ih fun b member => each b (List.mem_cons_of_mem _ member)

theorem ensures_foldlM {Q : β → σ → Prop} {f : β → α → EStateM ε σ β} {l : List α}
    (each : ∀ b, ∀ a ∈ l, Ensures (Q b) (f b a) Q) (b : β) : Ensures (Q b) (l.foldlM f b) Q := by
  induction l generalizing b with
  | nil => exact ensures_pure fun _ holds => holds
  | cons a rest ih =>
    rw [List.foldlM_cons]
    refine ensures_bind (each b a List.mem_cons_self) fun c => ?_
    exact ih (fun d other member => each d other (List.mem_cons_of_mem _ member)) c

/-- Every request of a run is made in a state that admits it. -/
def Along (perform : α → EStateM ε σ Unit) (admits : σ → α → Prop) : σ → List α → Prop
  | _, [] => True
  | s, request :: rest =>
    admits s request ∧ ∀ s', perform request s = .ok () s' → Along perform admits s' rest

/-- An invariant `P` of the states between admitted requests shows `R` wherever
a run ends, if every request ends in `R` and, when it ends normally, in `P`. -/
theorem along_run {perform : α → EStateM ε σ Unit} {admits : σ → α → Prop} (start : ∀ s, P s → R s)
    (step : ∀ s request, P s → admits s request →
      (∀ s', perform request s = .ok () s' → P s') ∧ R (after (perform request) s))
    {requests : List α} {s : σ} (holds : P s) (admitted : Along perform admits s requests) :
    R (after (requests.forM perform) s) := by
  induction requests generalizing s with
  | nil => exact start s holds
  | cons request rest ih =>
    obtain ⟨admits, later⟩ := admitted
    obtain ⟨kept, ended⟩ := step s request holds admits
    unfold after at ended ⊢
    cases ran : perform request s with
    | ok _ s' =>
      have final := ih (kept s' ran) (later s' ran)
      simpa [List.forM_cons, ran, after] using final
    | error e s' =>
      rw [ran] at ended
      simpa [List.forM_cons, ran] using ended

end Adbi.Lib
