import Adbi.Lib.Stateful

/-! Programs that may be left in the middle, specified at both kinds of their
ends: `Exits` has a postcondition of the normal end and one of the exits. -/
namespace Adbi.Lib

variable {ε σ α β : Type} {P P' : σ → Prop} {x : EStateM ε σ α} {Q Q' : α → σ → Prop}
  {E E' : ε → σ → Prop}

/-- From a state with `P`, a normal end has `Q`, and every other end `E`. -/
structure Exits (P : σ → Prop) (x : EStateM ε σ α) (Q : α → σ → Prop) (E : ε → σ → Prop) : Prop where
  normal : Ensures P x Q
  left : ∀ s, P s → ∀ e s', x s = .error e s' → E e s'

theorem Exits.weaken (ends : Exits P x Q E) (before : ∀ s, P' s → P s)
    (normal : ∀ a s, Q a s → Q' a s) (left : ∀ e s, E e s → E' e s) :
    Exits P' x Q' E' :=
  ⟨fun s holds a s' ran => normal a s' (ends.normal s (before s holds) a s' ran),
    fun s holds e s' ran => left e s' (ends.left s (before s holds) e s' ran)⟩

/-- What is required may be strengthened. -/
theorem Exits.strengthen (ends : Exits P x Q E) (before : ∀ s, P' s → P s) : Exits P' x Q E :=
  ends.weaken before (fun _ _ holds => holds) fun _ _ holds => holds

theorem exits_pure {a : α} (holds : ∀ s, P s → Q a s) : Exits P (pure a) Q E :=
  ⟨ensures_pure holds, by
    rintro s _ e s' ran
    cases ran⟩

theorem exits_throw {e : ε} (holds : ∀ s, P s → E e s) : Exits P (throw e) Q E :=
  ⟨ensures_throw, by
    rintro s before e s' ran
    cases ran
    exact holds s before⟩

theorem exits_modify {f : σ → σ} {Q : Unit → σ → Prop} (holds : ∀ s, P s → Q () (f s)) :
    Exits P (modify f) Q E :=
  ⟨ensures_modify holds, by
    rintro s _ e s' ran
    cases ran⟩

theorem exits_set {t : σ} {Q : PUnit → σ → Prop} (holds : Q ⟨⟩ t) : Exits P (set t) Q E :=
  ⟨fun _ _ _ _ ran => by cases ran; exact holds, fun _ _ _ _ ran => by cases ran⟩

theorem exits_bind {f : α → EStateM ε σ β} {S : β → σ → Prop} (first : Exits P x Q E)
    (second : ∀ a, Exits (Q a) (f a) S E) :
    Exits P (x >>= f) S E := by
  refine ⟨ensures_bind first.normal fun a => (second a).normal, fun s holds e s' ran => ?_⟩
  rw [run_bind] at ran
  cases middle : x s with
  | ok a t =>
    rw [middle] at ran
    exact (second a).left t (first.normal s holds a t middle) e s' ran
  | error d t =>
    rw [middle] at ran
    cases ran
    exact first.left s holds e s' middle

/-- What follows after reading the state may rely on the state it reads. -/
theorem exits_get {f : σ → EStateM ε σ β} {Q : β → σ → Prop}
    (rest : ∀ s, P s → Exits (fun t => t = s) (f s) Q E) :
    Exits P (get >>= f) Q E :=
  ⟨ensures_get_bind fun s holds => (rest s holds).normal,
    fun s holds e s' ran => (rest s holds).left s rfl e s' ran⟩

/-- Over a list, `I` says what holds after its first elements. -/
theorem exits_forM {I : List α → σ → Prop} {f : α → EStateM ε σ PUnit} {l : List α}
    (each : ∀ before a after, l = before ++ a :: after →
      Exits (I before) (f a) (fun _ => I (before ++ [a])) E) :
    Exits (I []) (l.forM f) (fun _ => I l) E := by
  suffices from_ : ∀ before after, l = before ++ after →
      Exits (I before) (after.forM f) (fun _ => I l) E from from_ [] l rfl
  intro before after
  induction after generalizing before with
  | nil =>
    rintro rfl
    rw [List.append_nil]
    exact exits_pure fun _ holds => holds
  | cons a rest ih =>
    intro split
    exact exits_bind (each before a rest split) fun _ =>
      ih (before ++ [a]) (by rw [split, List.append_assoc]; rfl)

/-- A program that is known to have no normal end is left. -/
theorem Exits.not_normal (ends : Exits P x (fun _ _ => False) E) {s : σ} (holds : P s) :
    ∃ e s', x s = .error e s' ∧ E e s' := by
  cases ran : x s with
  | ok a s' => exact (ends.normal s holds a s' ran).elim
  | error e s' => exact ⟨e, s', rfl, ends.left s holds e s' ran⟩

end Adbi.Lib
