/-
  Fixed-size character buffers and copying into them.

  * `overlay new old` is `old` with `new` copied over its beginning; copies
    that always start at index 0 and never write a terminator build up
    overlays.  In `overlays` of several texts each element is that of the
    latest text that reaches it (`getElem?_overlays`).
  * `Buf n` is an array of `n` characters.  `Buf.copy` copies characters one
    by one; the write at the first index outside the array is undefined
    behaviour, and is the last event of the run.
  * A buffer is *clean* if it holds a text followed by zeros only.  Clean
    buffers are closed under copies of NUL-free texts that are shorter than
    the buffer, and their texts are overlays (`copy_clean`).
-/
import RayionClient.Base.Exec
import Mathlib.Data.List.Induction
import Mathlib.Data.List.TakeWhile
import Mathlib.Tactic.Linarith

namespace Base

/-! ## Overlays -/

section
variable {α : Type}

/-- `old` with `new` copied over its beginning. -/
def overlay (new old : List α) : List α := new ++ old.drop new.length

@[simp] theorem overlay_nil (new : List α) : overlay new [] = new := by simp [overlay]

@[simp] theorem nil_overlay (old : List α) : overlay [] old = old := rfl

@[simp] theorem length_overlay (new old : List α) :
    (overlay new old).length = max new.length old.length := by
  simp only [overlay, List.length_append, List.length_drop]; omega

/-- A copy that is not shorter leaves nothing of the old text. -/
theorem overlay_of_length_le {new old : List α} (h : old.length ≤ new.length) :
    overlay new old = new := by
  rw [overlay, List.drop_eq_nil_of_le h, List.append_nil]

theorem overlay_eq_left_iff {new old : List α} :
    overlay new old = new ↔ old.length ≤ new.length := by
  refine ⟨fun h => ?_, overlay_of_length_le⟩
  have := congrArg List.length h
  rw [length_overlay] at this; omega

theorem mem_overlay {a : α} {new old : List α} (h : a ∈ overlay new old) : a ∈ new ∨ a ∈ old :=
  (List.mem_append.1 h).imp id List.mem_of_mem_drop

/-- A copy of what is there already changes nothing. -/
theorem overlay_eq_right_iff {new old : List α} : overlay new old = old ↔ new <+: old := by
  constructor
  · intro h
    exact ⟨old.drop new.length, h⟩
  · rintro ⟨rest, rfl⟩
    rw [overlay, List.drop_left]

theorem getElem?_overlay (new old : List α) (j : ℕ) :
    (overlay new old)[j]? = if j < new.length then new[j]? else old[j]? := by
  rw [overlay, List.getElem?_append]
  split_ifs with h
  · rfl
  · rw [List.getElem?_drop, Nat.add_sub_cancel' (by omega)]

/-- An overlay over a text followed by padding is an overlay of the text. -/
theorem overlay_append_replicate (new old : List α) (k : ℕ) (a : α) :
    overlay new (old ++ List.replicate k a) =
      overlay new old ++ List.replicate (old.length + k - max new.length old.length) a := by
  rw [overlay, overlay, List.drop_append, List.drop_replicate, List.append_assoc]
  congr 3; omega

/-! ## Several copies -/

/-- Texts laid over each other one after another, the latest one on top. -/
def overlays (texts : List (List α)) : List α := texts.foldl (fun old new => overlay new old) []

theorem overlays_concat (texts : List (List α)) (new : List α) :
    overlays (texts ++ [new]) = overlay new (overlays texts) := by
  rw [overlays, List.foldl_append]; rfl

/-- Overlays are as long as the longest text. -/
theorem length_overlays (texts : List (List α)) :
    (overlays texts).length = (texts.map List.length).foldl max 0 := by
  induction texts using List.reverseRecOn with
  | nil => rfl
  | append_singleton texts new ih =>
    rw [overlays_concat, length_overlay, ih, List.map_append, List.foldl_append, max_comm]; rfl

theorem length_overlays_le {texts : List (List α)} {n : ℕ} (h : ∀ t ∈ texts, t.length ≤ n) :
    (overlays texts).length ≤ n := by
  induction texts using List.reverseRecOn with
  | nil => exact Nat.zero_le n
  | append_singleton texts new ih =>
    rw [overlays_concat, length_overlay, Nat.max_le]
    exact ⟨h new (by simp), ih fun t ht => h t (List.mem_append_left _ ht)⟩

/-- Each element is that of the latest text that reaches it. -/
theorem getElem?_overlays (texts : List (List α)) (j : ℕ) :
    (overlays texts)[j]? = (texts.findRev? fun t => j < t.length).bind (·[j]?) := by
  rw [List.findRev?_eq_find?_reverse]
  induction texts using List.reverseRecOn with
  | nil => rfl
  | append_singleton texts new ih =>
    rw [overlays_concat, getElem?_overlay, List.reverse_append, List.reverse_singleton,
      List.singleton_append, List.find?_cons]
    by_cases h : j < new.length
    · simp [h]
    · simpa [h] using ih

/-- A last text that is not shorter than the others covers them. -/
theorem overlays_concat_of_length_le {texts : List (List α)} {new : List α}
    (h : ∀ t ∈ texts, t.length ≤ new.length) : overlays (texts ++ [new]) = new := by
  rw [overlays_concat]
  exact overlay_of_length_le (length_overlays_le h)

end

/-! ## C strings -/

/-- The C string that starts at `l`: the characters before the first NUL. -/
def cstr (l : List UInt8) : List UInt8 := l.takeWhile (· ≠ 0)

theorem zero_notMem_cstr (l : List UInt8) : 0 ∉ cstr l := by
  intro h
  simpa using List.mem_takeWhile_imp h

theorem cstr_append_replicate {t : List UInt8} (h : 0 ∉ t) (k : ℕ) :
    cstr (t ++ List.replicate k 0) = t := by
  have hz : cstr (List.replicate k 0) = [] := by cases k <;> simp [cstr, List.replicate_succ]
  rw [cstr, List.takeWhile_append_of_pos]
  · rw [← cstr, hz, List.append_nil]
  · intro a ha
    simpa using fun h0 : a = 0 => h (h0 ▸ ha)

/-! ## Buffers -/

/-- An array of `n` characters. -/
@[ext] structure Buf (n : ℕ) where
  bytes : List UInt8
  size : bytes.length = n
  deriving DecidableEq

namespace Buf
variable {ε : Type} {n : ℕ}

/-- A zero-filled array. -/
def zero (n : ℕ) : Buf n := ⟨List.replicate n 0, List.length_replicate⟩

/-- `b[j] = c`, on the bytes. -/
def set (b : Buf n) (j : ℕ) (c : UInt8) : Buf n :=
  ⟨b.bytes.set j c, by rw [List.length_set, b.size]⟩

/-- The C string in the array. -/
def text (b : Buf n) : List UInt8 := cstr b.bytes

/-- The array holds a NUL, so reading its C string stays inside. -/
def Terminated (b : Buf n) : Prop := 0 ∈ b.bytes

/-- A zero byte can be looked for. -/
instance (b : Buf n) : Decidable b.Terminated := inferInstanceAs (Decidable (0 ∈ b.bytes))

/-- `b[j] = c`, logged as `ev j`. -/
def write (ev : ℕ → ε) (b : Buf n) (j : ℕ) (c : UInt8) : Exec ε (Buf n) :=
  Exec.tellGet (ev j) (if j < n then some (b.set j c) else none)

/-- Copy characters to the indices `j`, `j + 1`, ... -/
def copy (ev : ℕ → ε) : List UInt8 → ℕ → Buf n → Exec ε (Buf n)
  | [], _, b => pure b
  | c :: l, j, b => do
    let b ← b.write ev j c
    copy ev l (j + 1) b

theorem write_lt (ev : ℕ → ε) (b : Buf n) {j : ℕ} (h : j < n) (c : UInt8) :
    b.write ev j c = ⟨[ev j], some (b.set j c)⟩ := by
  rw [write, if_pos h]; rfl

theorem write_ge (ev : ℕ → ε) (b : Buf n) {j : ℕ} (h : n ≤ j) (c : UInt8) :
    b.write ev j c = ⟨[ev j], none⟩ := by
  rw [write, if_neg (by omega)]; rfl

/-- A copy that fits writes its indices in order and replaces that part of the array. -/
theorem copy_fits (ev : ℕ → ε) : ∀ (l : List UInt8) (j : ℕ) (b : Buf n), j + l.length ≤ n →
    ∃ b', copy ev l j b = ⟨(List.range' j l.length).map ev, some b'⟩ ∧
      b'.bytes = b.bytes.take j ++ l ++ b.bytes.drop (j + l.length)
  | [], j, b, _ => ⟨b, rfl, by simp⟩
  | c :: l, j, b, h => by
    rw [List.length_cons] at h
    obtain ⟨b', hb', hbytes⟩ := copy_fits ev l (j + 1) (b.set j c) (by omega)
    refine ⟨b', ?_, ?_⟩
    · rw [copy, write_lt ev b (by omega) c, Exec.mk_some_bind, hb']
      simp [List.range'_succ]
    · have hj : j < b.bytes.length := by rw [b.size]; omega
      rw [hbytes, set, List.take_add_one, List.getElem?_set_self hj, List.take_set_of_le le_rfl,
        List.drop_set_of_lt (by omega)]
      simp [Nat.add_comm, Nat.add_left_comm]

/-- A copy that does not fit ends with the write at index `n`. -/
theorem copy_overflow (ev : ℕ → ε) : ∀ (l : List UInt8) (j : ℕ) (b : Buf n), j ≤ n →
    n < j + l.length → copy ev l j b = ⟨(List.range' j (n - j + 1)).map ev, none⟩
  | [], j, b, hj, h => by simp at h; omega
  | c :: l, j, b, hj, h => by
    rcases Nat.lt_or_eq_of_le hj with hlt | rfl
    · rw [copy, write_lt ev b hlt c, Exec.mk_some_bind,
        copy_overflow ev l (j + 1) _ hlt (by rw [List.length_cons] at h; omega)]
      rw [show n - j + 1 = (n - (j + 1) + 1) + 1 by omega]
      simp [List.range'_succ]
    · rw [copy, write_ge ev b le_rfl c, Exec.mk_none_bind]; simp

/-! ## Clean buffers -/

/-- The array holds its text and zeros after it. -/
structure Clean (b : Buf n) : Prop where
  short : b.text.length < n
  zeros : b.bytes = b.text ++ List.replicate (n - b.text.length) 0

theorem Clean.terminated {b : Buf n} (h : b.Clean) : b.Terminated := by
  have := h.short
  rw [Terminated, h.zeros]
  exact List.mem_append_right _ (List.mem_replicate.2 ⟨by omega, rfl⟩)

theorem zero_text : (zero n).text = [] :=
  cstr_append_replicate (List.not_mem_nil) n

theorem zero_clean (h : 0 < n) : (zero n).Clean :=
  ⟨by rwa [zero_text], by rw [zero_text]; rfl⟩

/-- A clean array with a given content. -/
theorem clean_of_bytes {b : Buf n} {t : List UInt8} (h0 : 0 ∉ t) (hn : t.length < n)
    (h : b.bytes = t ++ List.replicate (n - t.length) 0) : b.Clean ∧ b.text = t := by
  have ht : b.text = t := by rw [text, h, cstr_append_replicate h0]
  exact ⟨⟨by rwa [ht], by rwa [ht]⟩, ht⟩

/-- **Copies into clean arrays.**  A NUL-free text shorter than the array leaves it clean,
    with the text laid over the old one. -/
theorem copy_clean (ev : ℕ → ε) {b : Buf n} (hb : b.Clean) {l : List UInt8} (h0 : 0 ∉ l)
    (hl : l.length < n) :
    ∃ b', copy ev l 0 b = ⟨(List.range l.length).map ev, some b'⟩ ∧ b'.Clean ∧
      b'.text = overlay l b.text := by
  obtain ⟨b', hc, hbytes⟩ := copy_fits ev l 0 b (by omega)
  have hs := hb.short
  have hmem : 0 ∉ overlay l b.text := fun h => (mem_overlay h).elim h0 (zero_notMem_cstr _)
  refine ⟨b', by rw [hc, List.range_eq_range'], clean_of_bytes hmem ?_ ?_⟩
  · rw [length_overlay]; omega
  · rw [hbytes, List.take_zero, List.nil_append, Nat.zero_add, ← overlay, hb.zeros,
      overlay_append_replicate, length_overlay]
    congr 2; omega

/-- A NUL-free text as long as the array leaves no terminator. -/
theorem copy_full (ev : ℕ → ε) (b : Buf n) {l : List UInt8} (h0 : 0 ∉ l) (hl : l.length = n) :
    ∃ b', copy ev l 0 b = ⟨(List.range n).map ev, some b'⟩ ∧ ¬ b'.Terminated := by
  obtain ⟨b', hc, hbytes⟩ := copy_fits ev l 0 b (by omega)
  refine ⟨b', by rw [hc, hl, List.range_eq_range'], ?_⟩
  rw [Terminated, hbytes, List.drop_eq_nil_of_le (by rw [b.size]; omega)]
  simpa using h0

end Buf

end Base
