import Mathlib.Algebra.Order.Ring.Int

/-!
# Work that is claimed and tried again

A row is claimed, worked on and handed back, or the claim is taken away from a worker that is
gone. The row counts the tries that failed, and is given up when as many have failed as it has
tries.

## Main definitions

* `Tries`: how far a row is.
* `Tries.Step`: what may happen to it besides a claim.
* `Tries.Covers`: how many claims the row accounts for.

## Main results

* `Tries.Covers.take`, `Tries.Covers.step`: a claim adds one, and nothing else takes one away.
* `Tries.Covers.le`: no row accounts for more claims than it has tries.
-/
namespace Relational

inductive Tries where
  | absent
  /-- Free, or not yet offered, after so many failures. -/
  | ready (failures : Int)
  | held (failures : Int)
  | closed

namespace Tries

/-- Another failure. -/
def failed (max failures : Int) : Tries :=
  if failures + 1 ≥ max then closed else ready (failures + 1)

inductive Step (max : Int) : Tries → Tries → Prop where
  | same (t : Tries) : Step max t t
  | added : Step max absent (ready 0)
  | taken (failures : Int) : Step max (ready failures) (held failures)
  | failed (failures : Int) : Step max (held failures) (failed max failures)
  | closed (t : Tries) : Step max t closed

/-- Every claim but the one that is held has failed. -/
def Covers (max : Int) : Tries → Nat → Prop
  | absent, n => n = 0
  | ready failures, n => n ≤ failures ∧ failures < max
  | held failures, n => n ≤ failures + 1 ∧ failures < max
  | closed, n => n ≤ max

variable {max failures : Int} {t t' : Tries} {n n' : Nat}

theorem Covers.le (h : Covers max t n) (hmax : 1 ≤ max) : n ≤ max := by
  cases t <;> simp only [Covers] at h <;> omega

theorem Covers.mono (h : Covers max t n) (hn : n' ≤ n) : Covers max t n' := by
  cases t <;> simp only [Covers] at h ⊢ <;> omega

theorem Covers.take (h : Covers max (ready failures) n) :
    Covers max (held failures) (n + 1) := by
  obtain ⟨hn, hlt⟩ := h
  exact ⟨by push_cast; omega, hlt⟩

theorem Covers.step (h : Covers max t n) (hs : Step max t t') (hmax : 1 ≤ max) :
    Covers max t' n := by
  cases hs with
  | same => exact h
  | added =>
    have hn : n = 0 := h
    exact ⟨by omega, by omega⟩
  | taken => exact h.take.mono (Nat.le_succ n)
  | failed failures =>
    obtain ⟨hn, hlt⟩ := h
    unfold Tries.failed
    split
    · exact hn.trans (by omega)
    · exact ⟨hn, by omega⟩
  | closed => exact h.le hmax

end Tries

end Relational
