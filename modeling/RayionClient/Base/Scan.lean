/-
  Scanning a list for a separator, and folds that may stop early.

  `cuts sep stop l` lists, for every occurrence of `sep` in `l`, what stands
  before it and what follows it up to the next `stop`; `cuts_eq_map` gives them
  by position.

  `scanUntil step stop s l` folds `step` over `l` and stops after the first
  element that leads to a state satisfying `stop`; `reached` is the part of the
  list it uses (`reached_eq_take`).  `scanUntil_hom` transports a scan along a
  map of the states, `scanUntil_inv` is its invariant rule and
  `scanUntil_le_iff` its bound rule.
-/
import Mathlib.Data.List.Basic
import Mathlib.Data.List.TakeWhile

namespace Base

/-! ## Cuts -/

section
variable {α : Type} [DecidableEq α] (sep stop : α)

/-- The cuts of a list that comes behind `pre`. -/
def cutsFrom (pre : List α) : List α → List (List α × List α)
  | [] => []
  | c :: r =>
    if c = sep then (pre, r.takeWhile (· ≠ stop)) :: cutsFrom (pre ++ [c]) r
    else cutsFrom (pre ++ [c]) r

/-- The text before each separator, and the text after it up to the next `stop`. -/
def cuts (l : List α) : List (List α × List α) := cutsFrom sep stop [] l

theorem cutsFrom_append : ∀ (l pre r : List α), sep ∉ l →
    cutsFrom sep stop pre (l ++ r) = cutsFrom sep stop (pre ++ l) r
  | [], pre, r, _ => by simp
  | c :: l, pre, r, h => by
    obtain ⟨hc, hl⟩ := not_or.1 (mt List.mem_cons.2 h)
    rw [List.cons_append, cutsFrom, if_neg (Ne.symm hc), cutsFrom_append l _ r hl]
    simp

theorem cutsFrom_of_notMem {l : List α} (h : sep ∉ l) (pre : List α) :
    cutsFrom sep stop pre l = [] := by
  have := cutsFrom_append sep stop l pre [] h
  rwa [List.append_nil] at this

/-- The first separator gives the first cut. -/
theorem cuts_append_cons {l : List α} (h : sep ∉ l) (r : List α) :
    cuts sep stop (l ++ sep :: r) =
      (l, r.takeWhile (· ≠ stop)) :: cutsFrom sep stop (l ++ [sep]) r := by
  rw [cuts, cutsFrom_append sep stop l [] _ h, List.nil_append, cutsFrom, if_pos rfl]

theorem cutsFrom_ne_nil : ∀ {l : List α}, sep ∈ l → ∀ pre, cutsFrom sep stop pre l ≠ []
  | [], h, _ => by simp at h
  | c :: l, h, pre => by
    rw [cutsFrom]
    split_ifs with hc
    · exact List.cons_ne_nil _ _
    · exact cutsFrom_ne_nil ((List.mem_cons.1 h).resolve_left (Ne.symm hc)) _

/-- What stands before a separator starts with the text before the scan. -/
theorem prefix_of_mem_cutsFrom : ∀ {l pre : List α} {v : List α × List α},
    v ∈ cutsFrom sep stop pre l → pre <+: v.1
  | [], _, _, h => by simp [cutsFrom] at h
  | c :: l, pre, v, h => by
    rw [cutsFrom] at h
    split_ifs at h with hc
    · rcases List.mem_cons.1 h with rfl | h
      · exact List.prefix_rfl
      · exact (List.prefix_append pre [c]).trans (prefix_of_mem_cutsFrom h)
    · exact (List.prefix_append pre [c]).trans (prefix_of_mem_cutsFrom h)

/-- The cuts by the positions of the separators. -/
theorem cutsFrom_eq_map : ∀ l pre : List α, cutsFrom sep stop pre l =
    (l.idxsOf sep).map fun c => (pre ++ l.take c, (l.drop (c + 1)).takeWhile (· ≠ stop))
  | [], _ => rfl
  | c :: r, pre => by
    have hrest : cutsFrom sep stop (pre ++ [c]) r = (r.idxsOf sep 1).map fun k =>
        (pre ++ (c :: r).take k, ((c :: r).drop (k + 1)).takeWhile (· ≠ stop)) := by
      rw [cutsFrom_eq_map r (pre ++ [c]), List.idxsOf_start (s := 1), List.map_map]
      refine List.map_congr_left fun k _ => ?_
      simp
    rw [cutsFrom, List.idxsOf_cons, hrest]
    by_cases hc : c = sep
    · simp [hc]
    · simp [hc]

theorem cuts_eq_map (l : List α) : cuts sep stop l =
    (l.idxsOf sep).map fun c => (l.take c, (l.drop (c + 1)).takeWhile (· ≠ stop)) :=
  cutsFrom_eq_map sep stop l []

end

/-! ## Folds that may stop -/

section
variable {σ τ α : Type} (step : σ → α → σ) (stop : σ → Bool)

/-- A fold that ends with the first state that stops it. -/
def scanUntil : σ → List α → σ
  | s, [] => s
  | s, a :: l => if stop (step s a) then step s a else scanUntil (step s a) l

/-- The elements a scan uses. -/
def reached : σ → List α → List α
  | _, [] => []
  | s, a :: l => a :: if stop (step s a) then [] else reached (step s a) l

/-- Whether a scan stops before the end of the list or right at it. -/
def stopped : σ → List α → Bool
  | _, [] => false
  | s, a :: l => stop (step s a) || stopped (step s a) l

@[simp] theorem scanUntil_nil (s : σ) : scanUntil step stop s [] = s := rfl

@[simp] theorem reached_nil (s : σ) : reached step stop s [] = [] := rfl

@[simp] theorem stopped_nil (s : σ) : stopped step stop s [] = false := rfl

theorem scanUntil_singleton (s : σ) (a : α) : scanUntil step stop s [a] = step s a := by
  simp [scanUntil]

theorem reached_ne_nil {s : σ} {l : List α} (h : l ≠ []) : reached step stop s l ≠ [] := by
  cases l with
  | nil => exact absurd rfl h
  | cons a l => simp [reached]

theorem reached_eq_nil {s : σ} {l : List α} : reached step stop s l = [] ↔ l = [] :=
  ⟨fun h => by_contra fun hl => reached_ne_nil step stop hl h, by rintro rfl; rfl⟩

theorem prefix_reached : ∀ (s : σ) (l : List α), reached step stop s l <+: l
  | _, [] => List.prefix_rfl
  | s, a :: l => by
    rw [reached]
    split_ifs
    · exact List.prefix_append [a] l
    · exact (List.cons_prefix_cons).2 ⟨rfl, prefix_reached _ l⟩

/-- A scan uses the elements up to the first state that satisfies the test. -/
theorem reached_eq_take : ∀ {s : σ} {l : List α} {n : ℕ}, n < l.length →
    (∀ m < n, stop ((l.take (m + 1)).foldl step s) = false) →
    (stop ((l.take (n + 1)).foldl step s) = true ∨ n + 1 = l.length) →
    reached step stop s l = l.take (n + 1)
  | _, [], _, hn, _, _ => by simp at hn
  | s, a :: l, 0, _, _, hend => by
    rw [reached]
    rcases hend with hstop | hlen
    · rw [if_pos (by simpa using hstop)]; rfl
    · have hl : l = [] := by simpa using hlen
      simp [hl]
  | s, a :: l, n + 1, hn, hgo, hend => by
    have ha : stop (step s a) = false := by simpa using hgo 0 n.succ_pos
    rw [reached, ha, if_neg Bool.false_ne_true, List.take_succ_cons]
    congr 1
    refine reached_eq_take (by simpa using hn) ?_ ?_
    · intro m hm
      simpa using hgo (m + 1) (by omega)
    · simpa using hend

theorem scanUntil_eq_foldl : ∀ (s : σ) (l : List α),
    scanUntil step stop s l = (reached step stop s l).foldl step s
  | _, [] => rfl
  | s, a :: l => by
    rw [scanUntil, reached, List.foldl_cons]
    split_ifs
    · rfl
    · exact scanUntil_eq_foldl _ l

/-- A scan over a nonempty list stops iff its last state satisfies the test. -/
theorem stopped_eq_stop : ∀ (s : σ) {l : List α}, l ≠ [] →
    stopped step stop s l = stop (scanUntil step stop s l)
  | _, [], h => absurd rfl h
  | s, a :: l, _ => by
    rw [stopped, scanUntil]
    cases hs : stop (step s a) with
    | true => simp [hs]
    | false =>
      rw [Bool.false_or, if_neg Bool.false_ne_true]
      cases l with
      | nil => exact hs.symm
      | cons b l => exact stopped_eq_stop _ (List.cons_ne_nil b l)

/-- **Invariant rule.**  What every step establishes holds after a scan over a nonempty list. -/
theorem scanUntil_inv {P : σ → Prop} (s : σ) {l : List α} (hstep : ∀ s, ∀ a ∈ l, P (step s a))
    (hl : l ≠ []) : P (scanUntil step stop s l) := by
  rw [scanUntil_eq_foldl]
  obtain ⟨l', a, h⟩ := (List.eq_nil_or_concat (reached step stop s l)).resolve_left
    (reached_ne_nil step stop hl)
  rw [List.concat_eq_append] at h
  have ha : a ∈ l := (prefix_reached step stop s l).subset (by simp [h])
  rw [h, List.foldl_append]
  exact hstep _ a ha

/-- **Bound rule.**  A measure that every step raises to the size of its element is bounded
    after a scan iff it was before and all elements used are. -/
theorem scanUntil_le_iff {m : σ → ℕ} {k : α → ℕ}
    (hstep : ∀ s a, m (step s a) = max (k a) (m s)) {n : ℕ} : ∀ (s : σ) (l : List α),
    m (scanUntil step stop s l) ≤ n ↔ m s ≤ n ∧ ∀ a ∈ reached step stop s l, k a ≤ n
  | s, [] => by simp
  | s, a :: l => by
    rw [scanUntil, reached]
    split_ifs with h
    · rw [hstep, Nat.max_le, List.forall_mem_singleton, and_comm]
    · rw [scanUntil_le_iff hstep, hstep, Nat.max_le, List.forall_mem_cons]
      constructor
      · rintro ⟨⟨ha, hs⟩, hl⟩; exact ⟨hs, ha, hl⟩
      · rintro ⟨hs, ha, hl⟩; exact ⟨⟨ha, hs⟩, hl⟩

variable {step stop} {step' : τ → α → τ} {stop' : τ → Bool} {f : σ → τ}

/-- **Scans and maps of states.**  A map that commutes with the steps and respects the test
    commutes with scans; both scans use the same part of the list and stop together. -/
theorem scanUntil_hom (hstep : ∀ s a, f (step s a) = step' (f s) a)
    (hstop : ∀ s, stop s = stop' (f s)) : ∀ (s : σ) (l : List α),
    f (scanUntil step stop s l) = scanUntil step' stop' (f s) l ∧
      reached step stop s l = reached step' stop' (f s) l ∧
      stopped step stop s l = stopped step' stop' (f s) l
  | _, [] => ⟨rfl, rfl, rfl⟩
  | s, a :: l => by
    have ih := scanUntil_hom hstep hstop (step s a) l
    simp only [scanUntil, reached, stopped, hstop, hstep] at ih ⊢
    refine ⟨?_, ?_, by rw [ih.2.2]⟩
    · split_ifs with h
      · exact hstep s a
      · exact ih.1
    · rw [ih.2.1]

end

end Base
