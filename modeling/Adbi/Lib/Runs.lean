import Mathlib.Tactic.Common

/-! Runs of a machine whose steps may fail, and the rule by which an invariant
that every admitted step keeps is carried through every admitted run. -/
namespace Adbi.Lib

variable {σ ι ε α β : Type} {step : σ → ι → Except ε σ} {guard : σ → ι → Prop} {Inv : σ → Prop}

theorem ok_bind (a : α) (next : α → Except ε β) : (Except.ok a >>= next) = next a := rfl

theorem error_bind (failure : ε) (next : α → Except ε β) :
    (Except.error failure >>= next) = .error failure := rfl

/-- A sequence that succeeds does so step by step. -/
theorem bind_ok {first : Except ε α} {next : α → Except ε β} (ok : first >>= next = .ok b) :
    ∃ a, first = .ok a ∧ next a = .ok b := by
  cases first with
  | error failure => cases ok
  | ok a => exact ⟨a, rfl, ok⟩

/-- A sequence that fails does so in its first part or after it. -/
theorem bind_error {first : Except ε α} {next : α → Except ε β} {failure : ε}
    (failed : first >>= next = .error failure) :
    first = .error failure ∨ ∃ a, first = .ok a ∧ next a = .error failure := by
  cases first with
  | error earlier =>
    cases failed
    exact .inl rfl
  | ok a => exact .inr ⟨a, rfl, failed⟩

/-- A loop whose rounds all succeed. -/
theorem mapM_total {f : α → Except ε β} {l : List α} (each : ∀ a ∈ l, ∃ b, f a = .ok b) :
    ∃ bs, l.mapM f = .ok bs := by
  induction l with
  | nil => exact ⟨[], rfl⟩
  | cons a rest ih =>
    obtain ⟨b, here⟩ := each a List.mem_cons_self
    obtain ⟨bs, later⟩ := ih fun a' member => each a' (List.mem_cons_of_mem a member)
    rw [List.mapM_cons, here, ok_bind, later]
    exact ⟨b :: bs, rfl⟩

theorem mapM_ran {f : α → Except ε β} {l : List α} {bs : List β} (ran : l.mapM f = .ok bs) :
    ∀ a ∈ l, ∃ b ∈ bs, f a = .ok b := by
  induction l generalizing bs with
  | nil =>
    intro a none
    cases none
  | cons a rest ih =>
    rw [List.mapM_cons] at ran
    obtain ⟨first, here, ran⟩ := bind_ok ran
    obtain ⟨others, later, ran⟩ := bind_ok ran
    cases ran
    intro c member
    rcases List.mem_cons.mp member with rfl | member
    · exact ⟨first, List.mem_cons_self, here⟩
    · obtain ⟨b, found, ran⟩ := ih later c member
      exact ⟨b, List.mem_cons_of_mem first found, ran⟩

/-- The results of a loop are those of its rounds. -/
theorem mem_mapM {f : α → Except ε β} {l : List α} {bs : List β} (ran : l.mapM f = .ok bs) (b : β) :
    b ∈ bs ↔ ∃ a ∈ l, f a = .ok b := by
  induction l generalizing bs with
  | nil =>
    cases ran
    simp
  | cons a rest ih =>
    rw [List.mapM_cons] at ran
    obtain ⟨first, here, ran⟩ := bind_ok ran
    obtain ⟨others, later, ran⟩ := bind_ok ran
    cases ran
    have same : b = first ↔ f a = .ok b := by
      rw [here, Except.ok.injEq, eq_comm]
    rw [List.mem_cons, ih later, same]
    simp only [List.mem_cons, or_and_right, exists_or, exists_eq_left]

/-- A loop fails only as one of its rounds does. -/
theorem foldlM_error {round : β → α → Except ε β} {P : ε → Prop}
    (rounds : ∀ b a failure, round b a = .error failure → P failure) {l : List α} {b : β} {failure : ε}
    (failed : l.foldlM round b = .error failure) : P failure := by
  induction l generalizing b with
  | nil => cases failed
  | cons a rest ih =>
    rw [List.foldlM_cons] at failed
    rcases bind_error failed with here | ⟨middle, -, later⟩
    · exact rounds b a failure here
    · exact ih later

/-- Take the steps in order and stop at the first one that fails. -/
def runAll (step : σ → ι → Except ε σ) : σ → List ι → Except ε σ
  | state, [] => .ok state
  | state, op :: rest =>
    match step state op with
    | .error failure => .error failure
    | .ok next => runAll step next rest

/-- Every step of the run is taken in a state that admits it. -/
def Guarded (step : σ → ι → Except ε σ) (guard : σ → ι → Prop) : σ → List ι → Prop
  | _, [] => True
  | state, op :: rest =>
    guard state op ∧ ∀ next, step state op = .ok next → Guarded step guard next rest

theorem runAll_cons_ok (ran : runAll step state (op :: rest) = .ok final) :
    ∃ next, step state op = .ok next ∧ runAll step next rest = .ok final := by
  simp only [runAll] at ran
  cases stepped : step state op with
  | error failure =>
    rw [stepped] at ran
    cases ran
  | ok next =>
    rw [stepped] at ran
    exact ⟨next, rfl, ran⟩

/-- If every admitted step from a good state succeeds in a good state, then so
does every admitted run. -/
theorem guarded_run_keeps
    (kept : ∀ state op, Inv state → guard state op → ∃ next, step state op = .ok next ∧ Inv next)
    (start : Inv state) (guarded : Guarded step guard state ops) :
    ∃ final, runAll step state ops = .ok final ∧ Inv final := by
  induction ops generalizing state with
  | nil => exact ⟨state, rfl, start⟩
  | cons op rest ih =>
    obtain ⟨admitted, later⟩ := guarded
    obtain ⟨next, stepped, good⟩ := kept state op start admitted
    obtain ⟨final, ran, finalGood⟩ := ih good (later next stepped)
    exact ⟨final, by simp only [runAll, stepped, ran], finalGood⟩

/-- What every admitted step that succeeds keeps holds where an admitted run ends. -/
theorem guarded_keeps (kept : ∀ state op next, Inv state → guard state op →
      step state op = .ok next → Inv next) (start : Inv state)
    (guarded : Guarded step guard state ops) (ran : runAll step state ops = .ok final) : Inv final := by
  induction ops generalizing state with
  | nil =>
    cases ran
    exact start
  | cons op rest ih =>
    obtain ⟨admitted, later⟩ := guarded
    obtain ⟨next, stepped, ranLater⟩ := runAll_cons_ok ran
    exact ih (kept state op next start admitted stepped) (later next stepped) ranLater

/-- A fault that no admitted step from a good state raises is raised in no admitted run. -/
theorem guarded_avoids {failure : ε}
    (kept : ∀ state op next, Inv state → guard state op → step state op = .ok next → Inv next)
    (avoided : ∀ state op, Inv state → guard state op → step state op ≠ .error failure)
    (start : Inv state)
    (guarded : Guarded step guard state ops) : runAll step state ops ≠ .error failure := by
  induction ops generalizing state with
  | nil => simp [runAll]
  | cons op rest ih =>
    obtain ⟨admitted, later⟩ := guarded
    simp only [runAll]
    cases stepped : step state op with
    | error other =>
      intro same
      exact avoided state op start admitted (stepped.trans same)
    | ok next => exact ih (kept state op next start admitted stepped) (later next stepped)

/-- What every step that succeeds keeps holds where a run ends. -/
theorem run_keeps (kept : ∀ state op next, Inv state → step state op = .ok next → Inv next)
    (start : Inv state)
    (ran : runAll step state ops = .ok final) : Inv final := by
  induction ops generalizing state with
  | nil =>
    cases ran
    exact start
  | cons op rest ih =>
    obtain ⟨next, stepped, later⟩ := runAll_cons_ok ran
    exact ih (kept state op next start stepped) later

end Adbi.Lib
