import Mathlib.Data.List.TakeWhile

/-!
# Patterns that open with a mark

A pattern whose matches begin with one mark and hold no second one: whether there is a match at a
place does not depend on what stands from the next mark on. So texts can be searched piece by
piece, and what replaces a match cannot take part in another.

## Main definitions

* `MarkPattern`: such a pattern.
* `matchAt`, `count`, `first`: a match at the start, at how many places there is one, and the
  parts before and after the first.
* `sub`: every match replaced, from left to right; `findall`: how many that are.

## Main results

* `count_append_mark`: the matches of a text are those of its pieces.
* `findall_eq_count`: matches do not overlap.
* `count_sub`: no match is left after a replacement; `sub_of_count`: without one nothing is
  replaced.
* `first_append`: the first match after a text without any.
-/
namespace Wire

structure MarkPattern (α : Type) [DecidableEq α] where
  mark : α
  /-- What is left after a match, given what stands after its mark. -/
  rest : List α → Option (List α)
  suffix : ∀ s t, rest s = some t → t <:+ s
  rest_append_mark : ∀ s w, rest (s ++ mark :: w) = (rest s).map (· ++ mark :: w)

namespace MarkPattern

variable {α : Type} [DecidableEq α] (P : MarkPattern α)

/-- What is left after a match at the start. -/
def matchAt : List α → Option (List α)
  | [] => none
  | c :: s => if c = P.mark then P.rest s else none

def count : List α → Nat
  | [] => 0
  | c :: s => (if (P.matchAt (c :: s)).isSome then 1 else 0) + count s

/-- What stands before the first match and after it. -/
def first : List α → Option (List α × List α)
  | [] => none
  | c :: s =>
    match P.matchAt (c :: s) with
    | some t => some ([], t)
    | none => (first s).map fun p => (c :: p.1, p.2)

theorem length_of_matchAt {c : α} {s t : List α} (h : P.matchAt (c :: s) = some t) :
    t.length < (c :: s).length := by
  rw [matchAt] at h
  split_ifs at h
  have := (P.suffix _ _ h).length_le
  simp only [List.length_cons]
  omega

def sub (replacement : List α) : List α → List α
  | [] => []
  | c :: s =>
    match _h : P.matchAt (c :: s) with
    | some t => replacement ++ sub replacement t
    | none => c :: sub replacement s
termination_by s => s.length
decreasing_by
  · exact P.length_of_matchAt _h
  · simp

def findall : List α → Nat
  | [] => 0
  | c :: s =>
    match h : P.matchAt (c :: s) with
    | some t => 1 + findall t
    | none => findall s
termination_by s => s.length
decreasing_by
  · exact P.length_of_matchAt h
  · simp

section Pieces

variable {P} {s t w r : List α} {c : α}

@[simp] theorem count_nil : P.count [] = 0 := rfl

theorem matchAt_mark : P.matchAt (P.mark :: s) = P.rest s := if_pos rfl

theorem matchAt_of_ne (h : c ≠ P.mark) : P.matchAt (c :: s) = none := if_neg h

theorem matchAt_append_mark : P.matchAt (c :: s ++ P.mark :: w) =
    (P.matchAt (c :: s)).map (· ++ P.mark :: w) := by
  by_cases h : c = P.mark
  · subst h
    rw [List.cons_append, matchAt_mark, matchAt_mark, P.rest_append_mark]
  · rw [List.cons_append, matchAt_of_ne h, matchAt_of_ne h]
    rfl

theorem count_cons_none (h : P.matchAt (c :: s) = none) : P.count (c :: s) = P.count s := by
  simp [count, h]

theorem count_cons_some (h : P.matchAt (c :: s) = some t) : P.count (c :: s) = 1 + P.count s := by
  simp [count, h]

theorem count_le_length (s : List α) : P.count s ≤ s.length := by
  induction s with
  | nil => exact Nat.le_refl 0
  | cons c s ih =>
    rw [count, List.length_cons]
    split <;> omega

theorem count_append_mark : P.count (s ++ P.mark :: w) = P.count s + P.count (P.mark :: w) := by
  induction s with
  | nil => simp
  | cons c s ih =>
    rw [List.cons_append, count, count, ih, ← List.cons_append, matchAt_append_mark,
      Option.isSome_map]
    omega

theorem count_append_of_not_mem (h : P.mark ∉ s) : P.count (s ++ w) = P.count w := by
  induction s with
  | nil => rfl
  | cons c s ih =>
    obtain ⟨hc, hs⟩ := not_or.1 (mt List.mem_cons.2 h)
    rw [List.cons_append, count_cons_none (matchAt_of_ne (Ne.symm hc)), ih hs]

/-- A match takes one mark only. -/
theorem exists_of_rest (h : P.rest s = some t) : ∃ u, s = u ++ t ∧ P.mark ∉ u := by
  obtain ⟨u, rfl⟩ := P.suffix s t h
  refine ⟨u, rfl, fun hu => ?_⟩
  obtain ⟨u₁, u₂, rfl⟩ := List.append_of_mem hu
  rw [List.append_assoc, List.cons_append, P.rest_append_mark] at h
  obtain ⟨x, -, hx⟩ := Option.map_eq_some_iff.1 h
  have := congrArg List.length hx
  simp only [List.length_append, List.length_cons] at this
  omega

theorem findall_eq_count (s : List α) : P.findall s = P.count s := by
  fun_induction P.findall s with
  | case1 => rfl
  | case2 c s t h ih =>
    have hc : c = P.mark := by
      by_contra hc
      rw [matchAt_of_ne hc] at h
      cases h
    subst hc
    obtain ⟨u, rfl, hu⟩ := exists_of_rest (matchAt_mark.symm.trans h)
    rw [count_cons_some h, count_append_of_not_mem hu, ih]
  | case3 c s h ih => rw [count_cons_none h, ih]

theorem matchAt_of_count (h : P.count (c :: s) = 0) :
    P.matchAt (c :: s) = none ∧ P.count s = 0 := by
  rw [count, Nat.add_eq_zero_iff] at h
  exact ⟨by simpa using h.1, h.2⟩

/-- The first match after a text without any. -/
theorem first_append (hs : P.count s = 0) (hw : P.rest w = some t) :
    P.first (s ++ P.mark :: w) = some (s, t) := by
  induction s with
  | nil => simp [first, matchAt_mark, hw]
  | cons c s ih =>
    obtain ⟨hc, hs⟩ := matchAt_of_count hs
    have hnone : P.matchAt (c :: (s ++ P.mark :: w)) = none := by
      rw [← List.cons_append, matchAt_append_mark, hc]
      rfl
    rw [List.cons_append, first, hnone]
    simp [ih hs]

/-- A character that ends no match. -/
theorem count_concat (hc : c ≠ P.mark) (hrest : ∀ s, P.rest s = none → P.rest (s ++ [c]) = none)
    (hs : P.count s = 0) : P.count (s ++ [c]) = 0 := by
  induction s with
  | nil => exact count_cons_none (matchAt_of_ne hc)
  | cons d s ih =>
    obtain ⟨hd, hs⟩ := matchAt_of_count hs
    have hnone : P.matchAt (d :: (s ++ [c])) = none := by
      by_cases h : d = P.mark
      · subst h
        exact matchAt_mark.trans (hrest s (matchAt_mark.symm.trans hd))
      · exact matchAt_of_ne h
    rw [List.cons_append, count_cons_none hnone, ih hs]

/-! ### Replacement -/

/-- A text without a match is kept. -/
theorem sub_of_count (h : P.count s = 0) : P.sub r s = s := by
  fun_induction P.sub r s with
  | case1 => rfl
  | case2 c s t ht =>
    have hnone := (matchAt_of_count h).1
    rw [ht] at hnone
    cases hnone
  | case3 c s _ ih => rw [ih (matchAt_of_count h).2]

theorem rest_takeWhile (s : List α) :
    (P.rest (s.takeWhile (· ≠ P.mark))).isSome = (P.rest s).isSome := by
  by_cases h : P.mark ∈ s
  · obtain ⟨u, w, rfl, hu⟩ := List.eq_append_cons_of_mem h
    have hall : ∀ a ∈ u, decide (a ≠ P.mark) := by
      intro a ha
      simpa using ne_of_mem_of_not_mem ha hu
    rw [List.takeWhile_append_of_pos hall, P.rest_append_mark]
    simp
  · rw [List.takeWhile_eq_self_iff.2]
    intro a ha
    simpa using ne_of_mem_of_not_mem ha h

/-- A replacement stands where a mark stood. -/
theorem takeWhile_sub (s : List α) : (P.sub (P.mark :: r) s).takeWhile (· ≠ P.mark) =
    s.takeWhile (· ≠ P.mark) := by
  fun_induction P.sub (P.mark :: r) s with
  | case1 => rfl
  | case2 c s t h ih =>
    have hc : c = P.mark := by
      by_contra hc
      rw [matchAt_of_ne hc] at h
      cases h
    simp [hc]
  | case3 c s h ih => simp only [List.takeWhile_cons, ih]

/-- No match is left, and none has come up. -/
theorem count_sub (hr : P.mark ∉ r) (hrest : ∀ s, P.rest (r ++ s) = none) (s : List α) :
    P.count (P.sub (P.mark :: r) s) = 0 := by
  fun_induction P.sub (P.mark :: r) s with
  | case1 => rfl
  | case2 c s t h ih =>
    rw [List.cons_append, count_cons_none (matchAt_mark.trans (hrest _)),
      count_append_of_not_mem hr, ih]
  | case3 c s h ih =>
    refine (count_cons_none ?_).trans ih
    by_cases hc : c = P.mark
    · subst hc
      rw [matchAt_mark] at h ⊢
      rw [← Option.not_isSome_iff_eq_none, ← rest_takeWhile, takeWhile_sub, rest_takeWhile, h]
      simp
    · exact matchAt_of_ne hc

end Pieces

end MarkPattern

end Wire
