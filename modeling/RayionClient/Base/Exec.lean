/-
  Computations that log events and may run into undefined behaviour.

  `Exec ε α` is the result of running a piece of C code: the events it
  performed, in order, and its value, or no value when the last event left the
  defined behaviour of the language.  Nothing is said about what a run does
  after that point, so nothing is logged there.
-/
import Mathlib.Data.List.Basic
import Mathlib.Tactic.Common

namespace Base

/-- A finished run: the events performed, and the value (`none`: undefined behaviour). -/
@[ext] structure Exec (ε α : Type) where
  log : List ε
  out : Option α

namespace Exec
variable {ε α β γ : Type}

/-- Return a value without an event. -/
def ret (a : α) : Exec ε α := ⟨[], some a⟩

/-- Run `x`, and `f` on its value; a run that has no value stops there. -/
def andThen (x : Exec ε α) (f : α → Exec ε β) : Exec ε β :=
  match x.out with
  | some a => ⟨x.log ++ (f a).log, (f a).out⟩
  | none => ⟨x.log, none⟩

/-- The logs are put together, and a run without result stays one. -/
instance : Monad (Exec ε) where
  pure := ret
  bind := andThen

/-- Perform one event. -/
def tell (e : ε) : Exec ε Unit := ⟨[e], some ()⟩

/-- Perform one event whose value is undefined when it is `none`. -/
def tellGet (e : ε) (a : Option α) : Exec ε α := ⟨[e], a⟩

@[simp] theorem pure_log (a : α) : (pure a : Exec ε α).log = [] := rfl

@[simp] theorem pure_out (a : α) : (pure a : Exec ε α).out = some a := rfl

@[simp] theorem mk_some_bind (l : List ε) (a : α) (f : α → Exec ε β) :
    ((⟨l, some a⟩ : Exec ε α) >>= f) = ⟨l ++ (f a).log, (f a).out⟩ := rfl

@[simp] theorem mk_none_bind (l : List ε) (f : α → Exec ε β) :
    ((⟨l, none⟩ : Exec ε α) >>= f) = ⟨l, none⟩ := rfl

@[simp] theorem tell_bind (e : ε) (f : Unit → Exec ε β) :
    (tell e >>= f) = ⟨e :: (f ()).log, (f ()).out⟩ := rfl

theorem bind_of_none {x : Exec ε α} (h : x.out = none) (f : α → Exec ε β) :
    (x >>= f) = ⟨x.log, none⟩ := by
  obtain ⟨l, o⟩ := x
  obtain rfl : o = none := h
  rfl

end Exec

end Base
