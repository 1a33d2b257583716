/-
  Machines that perform labelled steps, and the traces of their runs.

  A machine is a step relation between states, with a label for each step.
  `Run.inv` is the invariant rule, `Run.simulate` the simulation rule,
  `Run.at_split` finds the step behind any position of a trace, and
  `reaches_goal` is the rule for progress under a measure.
-/
import Mathlib.Data.List.Basic
import Mathlib.Tactic.Common

namespace Base

section
variable {S A L : Type}

/-- The runs of a machine from a state, with their traces. -/
inductive Run (Step : S → L → S → Prop) (s₀ : S) : List L → S → Prop
  | start : Run Step s₀ [] s₀
  | snoc {tr : List L} {s s' : S} {l : L} (h : Run Step s₀ tr s) (hs : Step s l s') :
    Run Step s₀ (tr ++ [l]) s'

namespace Run
variable {Step : S → L → S → Prop} {Step' : A → L → A → Prop} {s₀ s s' : S} {tr tr' : List L}

theorem nil_iff : Run Step s₀ [] s ↔ s = s₀ := by
  constructor
  · intro h
    generalize heq : ([] : List L) = tr at h
    cases h with
    | start => rfl
    | snoc h hs => simp at heq
  · rintro rfl
    exact .start

theorem snoc_iff {l : L} : Run Step s₀ (tr ++ [l]) s' ↔ ∃ s, Run Step s₀ tr s ∧ Step s l s' := by
  constructor
  · intro h
    generalize heq : tr ++ [l] = tr' at h
    cases h with
    | start => simp at heq
    | snoc h hs =>
      obtain ⟨rfl, hl⟩ := List.append_inj' heq rfl
      obtain rfl : l = _ := by simpa using hl
      exact ⟨_, h, hs⟩
  · rintro ⟨s, h, hs⟩
    exact h.snoc hs

theorem of_prefix (h : Run Step s₀ tr s) (hpre : tr' <+: tr) : ∃ s', Run Step s₀ tr' s' := by
  induction h with
  | start => exact ⟨s₀, List.prefix_nil.1 hpre ▸ .start⟩
  | snoc h hs ih =>
    rcases List.prefix_concat_iff.1 hpre with rfl | hpre
    · exact ⟨_, h.snoc hs⟩
    · exact ih hpre

/-- A deterministic machine is in one state after a trace. -/
theorem unique (hdet : ∀ s l s' s'', Step s l s' → Step s l s'' → s' = s'')
    (h : Run Step s₀ tr s) (h' : Run Step s₀ tr s') : s = s' := by
  induction h generalizing s' with
  | start => exact (nil_iff.1 h').symm
  | snoc h hs ih =>
    obtain ⟨m, hm, hs'⟩ := snoc_iff.1 h'
    obtain rfl := ih hm
    exact hdet _ _ _ _ hs hs'

/-- **Invariant rule.** -/
theorem inv {I : List L → S → Prop} (h0 : I [] s₀)
    (hstep : ∀ tr s l s', I tr s → Step s l s' → I (tr ++ [l]) s') (h : Run Step s₀ tr s) :
    I tr s := by
  induction h with
  | start => exact h0
  | snoc h hs ih => exact hstep _ _ _ _ ih hs

/-- **Simulation rule.**  If related states stay related under steps with the same label, every
    trace of one machine is a trace of the other. -/
theorem simulate {R : S → A → Prop} {a₀ : A} (h0 : R s₀ a₀)
    (hstep : ∀ s a l s', R s a → Step s l s' → ∃ a', Step' a l a' ∧ R s' a')
    (h : Run Step s₀ tr s) : ∃ a, Run Step' a₀ tr a ∧ R s a := by
  induction h with
  | start => exact ⟨a₀, .start, h0⟩
  | snoc h hs ih =>
    obtain ⟨a, ha, hR⟩ := ih
    obtain ⟨a', ha', hR'⟩ := hstep _ _ _ _ hR hs
    exact ⟨a', .snoc ha ha', hR'⟩

/-- The step behind a position of a trace. -/
theorem at_split (h : Run Step s₀ tr s) : ∀ {pre post : List L} {l : L}, tr = pre ++ l :: post →
    ∃ m m', Run Step s₀ pre m ∧ Step m l m' := by
  induction h with
  | start => intro pre post l heq; simp at heq
  | @snoc tr s s' l' h hs ih =>
    intro pre post l heq
    rcases List.eq_nil_or_concat post with rfl | ⟨post, l'', rfl⟩
    · obtain ⟨rfl, hl⟩ := List.append_inj' heq rfl
      obtain rfl : l' = l := by simpa using hl
      exact ⟨s, s', h, hs⟩
    · rw [List.concat_eq_append, ← List.cons_append, ← List.append_assoc] at heq
      exact ih (List.append_inj' heq rfl).1

end Run

/-! ## Deterministic machines -/

/-- At most `n` steps of a deterministic machine, with their trace. -/
def runFor (step : S → Option (L × S)) : ℕ → S → List L × S
  | 0, s => ([], s)
  | n + 1, s =>
    let (tr, s') := runFor step n s
    match step s' with
    | some (l, s'') => (tr ++ [l], s'')
    | none => (tr, s')

theorem run_runFor (step : S → Option (L × S)) (s : S) : ∀ n,
    Run (fun s l s' => step s = some (l, s')) s (runFor step n s).1 (runFor step n s).2
  | 0 => .start
  | n + 1 => by
    have ih := run_runFor step s n
    rw [runFor]
    cases h : step (runFor step n s).2 with
    | none => simpa only [h] using ih
    | some x => simpa only [h] using Run.snoc ih h

/-- **Progress rule.**  If every good state that is not a goal has a smaller good successor, a
    good goal is reached from every good state. -/
theorem reaches_goal {Good Goal : S → Prop} (μ : S → ℕ)
    (h : ∀ s, Good s → ¬ Goal s → ∃ s', Good s' ∧ μ s' < μ s) {s : S} (hs : Good s) :
    ∃ s', Good s' ∧ Goal s' := by
  induction hn : μ s using Nat.strongRecOn generalizing s with
  | ind n ih =>
    by_cases hg : Goal s
    · exact ⟨s, hs, hg⟩
    · obtain ⟨s', hs', hlt⟩ := h s hs hg
      exact ih (μ s') (hn ▸ hlt) hs' rfl

end

end Base
