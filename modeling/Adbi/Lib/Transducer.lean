import Mathlib.Tactic.Common

/-! Machines that read a word from left to right and answer each letter with a word.
A machine may hold back what it has not understood yet; it is compared with a
marking of its input that looks ahead. -/
namespace Adbi.Lib

/-- A machine with the states `σ`. -/
structure Transducer (σ α β : Type) where
  next : σ → α → σ
  out : σ → α → List β

namespace Transducer

variable {σ α β γ : Type} {T : Transducer σ α β} {state : σ} {letter : α} {word more : List α}

/-- The state behind a word. -/
def after (T : Transducer σ α β) (state : σ) (word : List α) : σ := word.foldl T.next state

/-- What the machine answers to a word. -/
def run (T : Transducer σ α β) : σ → List α → List β
  | _, [] => []
  | state, letter :: word => T.out state letter ++ T.run (T.next state letter) word

@[simp] theorem after_nil : T.after state [] = state := rfl

@[simp] theorem after_cons : T.after state (letter :: word) = T.after (T.next state letter) word := rfl

@[simp] theorem run_nil : T.run state [] = [] := rfl

@[simp] theorem run_cons : T.run state (letter :: word) =
    T.out state letter ++ T.run (T.next state letter) word := rfl

theorem after_append (T : Transducer σ α β) :
    T.after state (word ++ more) = T.after (T.after state word) more := List.foldl_append

theorem run_append (T : Transducer σ α β) :
    T.run state (word ++ more) = T.run state word ++ T.run (T.after state word) more := by
  induction word generalizing state with
  | nil => rfl
  | cons letter word ih => rw [List.cons_append, run_cons, run_cons, ih, after_cons, List.append_assoc]

/-- What a machine settles in one step: the marks in front of those of the rest are done, and
all that they show is given out, up to what was given out too early. -/
def Settles (T : Transducer σ α β) (marks : σ → List α → List γ) (shown : γ → List β)
    (early : σ → List β) (state : σ)
    (letter : α) (word : List α) (settled : List γ) : Prop :=
  marks state (letter :: word) = settled ++ marks (T.next state letter) word ∧
    early state ++ T.out state letter = settled.flatMap shown ++ early (T.next state letter)

/-- The marks of a word are settled up to those that belong to the last state. -/
theorem settled {marks : σ → List α → List γ} {shown : γ → List β} {early : σ → List β}
    {Good : List γ → Prop}
    (step : ∀ state letter word, Good (marks state (letter :: word)) →
      (∃ settled, T.Settles marks shown early state letter word settled) ∧
      Good (marks (T.next state letter) word))
    (good : Good (marks state word)) :
    ∃ settled, marks state word = settled ++ marks (T.after state word) [] ∧
      early state ++ T.run state word = settled.flatMap shown ++ early (T.after state word) := by
  induction word generalizing state with
  | nil => exact ⟨[], rfl, by simp⟩
  | cons letter word ih =>
    obtain ⟨⟨first, eq, given⟩, later⟩ := step state letter word good
    obtain ⟨others, rest, shows⟩ := ih later
    refine ⟨first ++ others, ?_, ?_⟩
    · rw [eq, rest, after_cons, List.append_assoc]
    · rw [run_cons, ← List.append_assoc, given, List.append_assoc, shows, List.flatMap_append,
        List.append_assoc, after_cons]

end Transducer

end Adbi.Lib
