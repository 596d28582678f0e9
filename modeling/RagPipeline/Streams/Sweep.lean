import RagPipeline.Streams.Group

/-!
# How far a sweep comes

A sweep looks at the pending entries from the first on. It stops after so many of them, or as soon
as it has come upon so many that are stale or gone.

## Main results

* `mem_sweep`: what it claims are the stale entries within its reach.
* `pending_sweep`: it takes no entry off the list that is still in the log.
* `mem_xautoclaim`, `pending_xautoclaim`: the same of `XAUTOCLAIM` from the start of the list.
-/
namespace Streams

namespace Stream

variable {F κ : Type} {live stale : Nat → Bool} {consumer : κ} {attempts count id : Nat}
  {ps : List (PendingEntry κ)}

/-- Few enough entries stand before this one, and few enough of them count. -/
structure Reached (counted : Nat → Bool) (attempts count : Nat) (ps : List (PendingEntry κ))
    (id : Nat) : Prop where
  seen : (ps.takeWhile fun p => p.id ≠ id).length < attempts
  counted : (ps.takeWhile fun p => p.id ≠ id).countP (fun p => counted p.id) < count

instance {counted : Nat → Bool} : Decidable (Reached counted attempts count ps id) :=
  decidable_of_iff (_ ∧ _) ⟨fun h => ⟨h.1, h.2⟩, fun h => ⟨h.seen, h.counted⟩⟩

section Reached

variable {counted : Nat → Bool} {p : PendingEntry κ}

@[simp] theorem not_reached_of_attempts : ¬ Reached counted 0 count ps id :=
  fun h => Nat.not_lt_zero _ h.seen

@[simp] theorem not_reached_of_count : ¬ Reached counted attempts 0 ps id :=
  fun h => Nat.not_lt_zero _ h.counted

theorem reached_cons_self (h : p.id = id) :
    Reached counted (attempts + 1) (count + 1) (p :: ps) id := by
  constructor <;> simp [h]

theorem reached_cons_counted (h : p.id ≠ id) (hc : counted p.id) :
    Reached counted (attempts + 1) (count + 1) (p :: ps) id ↔
      Reached counted attempts count ps id := by
  constructor
  · rintro ⟨hs, hn⟩
    constructor <;> simp_all
  · rintro ⟨hs, hn⟩
    constructor <;> simp_all

theorem reached_cons_uncounted (h : p.id ≠ id) (hc : ¬ counted p.id) :
    Reached counted (attempts + 1) count (p :: ps) id ↔ Reached counted attempts count ps id := by
  constructor
  · rintro ⟨hs, hn⟩
    constructor <;> simp_all
  · rintro ⟨hs, hn⟩
    constructor <;> simp_all

end Reached

/-- What a sweep counts. -/
def counts (live stale : Nat → Bool) (id : Nat) : Bool := !live id || stale id

theorem mem_sweep : id ∈ (sweep live stale consumer attempts count ps).claimed ↔
    (∃ p ∈ ps, p.id = id) ∧ live id ∧ stale id ∧
      Reached (counts live stale) attempts count ps id := by
  induction ps generalizing attempts count with
  | nil => simp [sweep]
  | cons p ps ih =>
    cases attempts with
    | zero => simp [sweep]
    | succ attempts =>
      cases count with
      | zero => simp [sweep]
      | succ count =>
        unfold sweep
        by_cases hid : p.id = id
        · subst hid
          have hself := @reached_cons_self κ attempts count p.id ps (counts live stale) p rfl
          cases hl : live p.id <;> cases hs : stale p.id <;> simp [ih, hl, hs, hself]
        · cases hl : live p.id with
          | false =>
            have hc : counts live stale p.id := by simp [counts, hl]
            simp [ih, hid, reached_cons_counted hid hc]
          | true =>
            cases hs : stale p.id with
            | false =>
              have hc : ¬ counts live stale p.id := by simp [counts, hl, hs]
              simp [ih, hid, reached_cons_uncounted hid hc]
            | true =>
              have hc : counts live stale p.id := by simp [counts, hs]
              simp [ih, hid, Ne.symm hid, reached_cons_counted hid hc]

theorem pending_sweep (h : live id) :
    (∃ p ∈ (sweep live stale consumer attempts count ps).pending, p.id = id) ↔
      ∃ p ∈ ps, p.id = id := by
  induction ps generalizing attempts count with
  | nil => simp [sweep]
  | cons p ps ih =>
    cases attempts with
    | zero => simp [sweep]
    | succ attempts =>
      cases count with
      | zero => simp [sweep]
      | succ count =>
        unfold sweep
        by_cases hl : live p.id
        · cases hs : stale p.id <;> simp [hl, ih]
        · have hid : p.id ≠ id := by rintro rfl; exact hl h
          simp [hl, ih, hid]

/-! ### Claims from the start of the list -/

section Claim

variable [DecidableEq κ] {s s' : Stream F κ} {cursor : Nat} {batch : Batch F count}

def pendingList (s : Stream F κ) : List (PendingEntry κ) := (s.group.map Group.pending).getD []

omit [DecidableEq κ] in
theorem pending_iff : s.Pending id ↔ ∃ p ∈ s.pendingList, p.id = id := by
  unfold Pending pendingList
  cases h : s.group with
  | none => simp
  | some gr => simp

theorem xautoclaim_cases
    (h : s.xautoclaim consumer stale 0 count = (.ok (cursor, batch), s')) :
    batch.entries =
        s.entriesAt (sweep s.live stale consumer (10 * count) count s.pendingList).claimed ∧
      s'.pendingList = (sweep s.live stale consumer (10 * count) count s.pendingList).pending ∧
      s'.live = s.live := by
  unfold xautoclaim withGroup at h
  cases hg : s.group with
  | none => simp [hg] at h
  | some gr =>
    have hdrop : (gr.pending.dropWhile fun p => decide (p.id < 0)) = gr.pending := by
      cases gr.pending <;> simp
    have htake : (gr.pending.takeWhile fun p => decide (p.id < 0)) = [] := by
      cases gr.pending <;> simp
    simp only [hg, hdrop, htake, List.nil_append, Prod.mk.injEq, Except.ok.injEq] at h
    obtain ⟨⟨-, rfl⟩, rfl⟩ := h
    refine ⟨?_, ?_, rfl⟩ <;> simp [pendingList, hg, batchAt]

theorem mem_xautoclaim (h : s.xautoclaim consumer stale 0 count = (.ok (cursor, batch), s')) :
    id ∈ batch.entries.map Prod.fst ↔ s.Pending id ∧ s.live id ∧ stale id ∧
      Reached (counts s.live stale) (10 * count) count s.pendingList id := by
  rw [(xautoclaim_cases h).1, pending_iff, ← @mem_sweep _ _ _ consumer, List.mem_map]
  constructor
  · rintro ⟨⟨i, f⟩, hmem, rfl⟩
    exact (mem_entriesAt.1 hmem).1
  · intro hmem
    have hl := (mem_sweep.1 hmem).2.1
    obtain ⟨f, hf⟩ := Option.isSome_iff_exists.1 (of_decide_eq_true hl).2
    exact ⟨(id, f), mem_entriesAt.2 ⟨hmem, hf⟩, rfl⟩

theorem pending_xautoclaim (h : s.xautoclaim consumer stale 0 count = (.ok (cursor, batch), s'))
    (hl : s.live id) : s'.Pending id ↔ s.Pending id := by
  rw [pending_iff, pending_iff, (xautoclaim_cases h).2.1, pending_sweep hl]

end Claim

end Stream

end Streams
