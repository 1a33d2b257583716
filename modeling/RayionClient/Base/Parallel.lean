/-
  Threads that run interleaved.

  Every label belongs to one thread, and a step may create a thread.
  `Threads.run_iff` takes the runs of all threads together apart: they are the
  traces in which every thread does what it can do alone, and nothing before its
  creation.  `Run.passes_goal` is the rule for what one thread achieves under
  every schedule that lets it act.
-/
import RayionClient.Base.Machine
import Mathlib.Data.List.Induction
import Mathlib.Logic.Function.Basic

namespace Base

/-- Machines with states `S i`, one for each thread. -/
structure Threads (ι L : Type) (S : ι → Type) where
  Step : ∀ i, S i → L → S i → Prop
  owner : L → ι
  creates : L → Option ι

/-- The states of all threads, and which ones have been created. -/
structure Pool (ι : Type) (S : ι → Type) where
  state : ∀ i, S i
  Live : ι → Prop

namespace Threads
variable {ι L : Type} [DecidableEq ι] {S : ι → Type} (T : Threads ι L S)

/-- One thread takes a step. -/
structure PStep (c : Pool ι S) (l : L) (c' : Pool ι S) : Prop where
  alive : c.Live (T.owner l)
  moves : T.Step (T.owner l) (c.state (T.owner l)) l (c'.state (T.owner l))
  frame : ∀ i, i ≠ T.owner l → c'.state i = c.state i
  live : ∀ i, c'.Live i ↔ c.Live i ∨ T.creates l = some i

/-- What a thread does in a trace. -/
def part (i : ι) (tr : List L) : List L := tr.filter (T.owner · = i)

/-- A thread is created in a trace. -/
def Created (i : ι) (tr : List L) : Prop := ∃ l ∈ tr, T.creates l = some i

/-- The traces of all threads together, and where they end. -/
structure Interleaves (c₀ : Pool ι S) (tr : List L) (c : Pool ι S) : Prop where
  parts : ∀ i, Run (T.Step i) (c₀.state i) (T.part i tr) (c.state i)
  live : ∀ i, c.Live i ↔ c₀.Live i ∨ T.Created i tr
  after : ∀ pre l post, tr = pre ++ l :: post → c₀.Live (T.owner l) ∨ T.Created (T.owner l) pre

variable {T} {tr : List L} {l : L} {i : ι}

theorem part_concat : T.part i (tr ++ [l]) = T.part i tr ++ if T.owner l = i then [l] else [] := by
  rw [part, part, List.filter_append, List.filter_singleton]
  by_cases h : T.owner l = i
  · rw [if_pos h, decide_eq_true h, cond_true]
  · rw [if_neg h, decide_eq_false h, cond_false]

theorem part_owner : T.part (T.owner l) (tr ++ [l]) = T.part (T.owner l) tr ++ [l] := by
  rw [part_concat, if_pos rfl]

theorem part_of_ne (h : i ≠ T.owner l) : T.part i (tr ++ [l]) = T.part i tr := by
  rw [part_concat, if_neg (Ne.symm h), List.append_nil]

omit [DecidableEq ι] in
theorem created_concat : T.Created i (tr ++ [l]) ↔ T.Created i tr ∨ T.creates l = some i := by
  simp only [Created, List.mem_append, List.mem_singleton, or_and_right, exists_or, exists_eq_left]

namespace Interleaves
variable {c₀ c c' : Pool ι S}

theorem nil_iff : T.Interleaves c₀ [] c ↔ c = c₀ := by
  constructor
  · intro h
    have hstate : c.state = c₀.state := by
      funext i
      exact Run.nil_iff.1 (h.parts i)
    have hlive : c.Live = c₀.Live := by
      funext i
      simpa [Created] using h.live i
    cases c; cases c₀
    cases hstate; cases hlive; rfl
  · rintro rfl
    refine ⟨fun i => .start, ?_, ?_⟩
    · simp [Created]
    · intro pre l post heq
      simp at heq

/-- A step of the pool adds its label to the part of one thread. -/
theorem snoc (h : T.Interleaves c₀ tr c) (hs : T.PStep c l c') :
    T.Interleaves c₀ (tr ++ [l]) c' := by
  refine ⟨?_, ?_, ?_⟩
  · intro i
    by_cases hi : i = T.owner l
    · subst hi
      rw [part_owner]; exact (h.parts _).snoc hs.moves
    · rw [part_of_ne hi, hs.frame i hi]; exact h.parts i
  · intro i
    rw [hs.live, h.live, created_concat, or_assoc]
  · intro pre l' post heq
    rcases List.eq_nil_or_concat post with rfl | ⟨post, l'', rfl⟩
    · obtain ⟨rfl, hl⟩ := List.append_inj' heq rfl
      obtain rfl : l = l' := by simpa using hl
      exact (h.live _).1 hs.alive
    · rw [List.concat_eq_append, ← List.cons_append, ← List.append_assoc] at heq
      exact h.after pre l' post (List.append_inj' heq rfl).1

/-- The last label of an interleaving is a step of the pool. -/
theorem exists_of_snoc (h : T.Interleaves c₀ (tr ++ [l]) c') :
    ∃ c, T.Interleaves c₀ tr c ∧ T.PStep c l c' := by
  have hown := h.parts (T.owner l)
  rw [part_owner, Run.snoc_iff] at hown
  obtain ⟨s, hrun, hs⟩ := hown
  have halive := h.after tr l [] rfl
  obtain ⟨state, rfl, hne⟩ : ∃ state : ∀ i, S i, state (T.owner l) = s ∧
      ∀ i, i ≠ T.owner l → state i = c'.state i :=
    ⟨Function.update c'.state (T.owner l) s, Function.update_self ..,
      fun i hi => Function.update_of_ne hi ..⟩
  refine ⟨⟨state, fun i => c₀.Live i ∨ T.Created i tr⟩, ⟨?_, fun i => Iff.rfl, ?_⟩,
    ⟨halive, hs, fun i hi => (hne i hi).symm, ?_⟩⟩
  · intro i
    by_cases hi : i = T.owner l
    · subst hi
      exact hrun
    · have hpart := h.parts i
      rw [part_of_ne hi, ← hne i hi] at hpart
      exact hpart
  · intro pre l' post heq
    exact h.after pre l' (post ++ [l]) (by rw [heq, List.append_assoc, List.cons_append])
  · intro i
    rw [h.live, created_concat, or_assoc]

end Interleaves

/-- A step is determined by what it does to its own thread. -/
theorem PStep.unique {c c₁ c₂ : Pool ι S} (h₁ : T.PStep c l c₁) (h₂ : T.PStep c l c₂)
    (hs : c₁.state (T.owner l) = c₂.state (T.owner l)) : c₁ = c₂ := by
  have hstate : c₁.state = c₂.state := by
    funext i
    by_cases hi : i = T.owner l
    · subst hi; exact hs
    · rw [h₁.frame i hi, h₂.frame i hi]
  have hlive : c₁.Live = c₂.Live := by
    funext i
    rw [h₁.live i, h₂.live i]
  cases c₁; cases c₂
  cases hstate; cases hlive; rfl

/-- **Taking runs apart.** -/
theorem run_iff {c₀ c : Pool ι S} : Run T.PStep c₀ tr c ↔ T.Interleaves c₀ tr c := by
  induction tr using List.reverseRecOn generalizing c with
  | nil => rw [Run.nil_iff, Interleaves.nil_iff]
  | append_singleton tr l ih =>
    rw [Run.snoc_iff]
    constructor
    · rintro ⟨c', hrun, hs⟩
      exact (ih.1 hrun).snoc hs
    · intro h
      obtain ⟨c', hc', hs⟩ := h.exists_of_snoc
      exact ⟨c', ih.2 hc', hs⟩

end Threads

/-! ## Progress under every schedule -/

namespace Run
variable {S L : Type} {Step : S → L → S → Prop} {s₀ s s' : S} {tr tr' : List L}

theorem append (h : Run Step s₀ tr s) (h' : Run Step s tr' s') : Run Step s₀ (tr ++ tr') s' := by
  induction h' with
  | start => rwa [List.append_nil]
  | snoc h' hs ih => rw [← List.append_assoc]; exact ih.snoc hs

/-- **Progress rule for one of several parties.**  If the steps of one party bring a good state
    nearer to a goal and those of the others do not lead away from it, a run with enough steps of
    that party passes a goal.  What is good may depend on the trace. -/
theorem passes_goal {Good : List L → S → Prop} {Goal : S → Prop} (μ : S → ℕ) (own : L → Bool)
    (hzero : ∀ tr s, Good tr s → μ s = 0 → Goal s)
    (hstep : ∀ tr s l s', Good tr s → ¬ Goal s → Step s l s' →
      Good (tr ++ [l]) s' ∧ (own l = true → μ s' < μ s) ∧ (own l = false → μ s' ≤ μ s))
    (h : Run Step s₀ tr s) (hs₀ : Good [] s₀) (hcount : μ s₀ ≤ tr.countP own) :
    ∃ pre m, pre <+: tr ∧ Run Step s₀ pre m ∧ Good pre m ∧ Goal m := by
  have key : (∃ pre m, pre <+: tr ∧ Run Step s₀ pre m ∧ Good pre m ∧ Goal m) ∨
      Good tr s ∧ μ s + tr.countP own ≤ μ s₀ := by
    clear hcount
    induction h with
    | start => exact Or.inr ⟨hs₀, Nat.le_refl _⟩
    | @snoc tr s s' l h hs ih =>
      rcases ih with ⟨pre, m, hpre, hm⟩ | ⟨hgood, hle⟩
      · exact Or.inl ⟨pre, m, hpre.trans (List.prefix_append ..), hm⟩
      · by_cases hgoal : Goal s
        · exact Or.inl ⟨tr, s, List.prefix_append .., h, hgood, hgoal⟩
        · obtain ⟨hgood', hown, hother⟩ := hstep tr s l s' hgood hgoal hs
          refine Or.inr ⟨hgood', ?_⟩
          rw [List.countP_append, List.countP_singleton]
          cases hl : own l with
          | true =>
            have hlt := hown hl
            simp only [if_true]; omega
          | false =>
            have hle' := hother hl
            simp only [Bool.false_eq_true, if_false]; omega
  rcases key with hgoal | ⟨hgood, hle⟩
  · exact hgoal
  · exact ⟨tr, s, List.prefix_rfl, h, hgood, hzero tr s hgood (by omega)⟩

end Run

end Base
