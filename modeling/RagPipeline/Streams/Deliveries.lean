import RagPipeline.Streams.Group
import Mathlib.Data.List.Nodup

/-!
# How often an entry was delivered

A read delivers an entry for the first time and a claim once more; renewing, acknowledging or
deleting delivers nothing. As long as the group is there, its counts are those of the list of all
deliveries.

## Main definitions

* `Stream.Tally`: the counts of the pending entries are those of a list of deliveries.
* `delivers`: what the answer to a read or a claim delivers.

## Main results

* `Tally.xreadgroup`, `Tally.xautoclaim`, …: how the commands lead on.
* `Tally.count_eq`: `XPENDING` reports the number of deliveries.
-/
namespace Streams

/-- The IDs that a read or a claim delivers. -/
def delivers {F : Type} {count : Nat} : Except GroupError (Batch F count) → List Nat
  | .ok batch => batch.entries.map Prod.fst
  | .error _ => []

theorem length_delivers_le {F : Type} {count : Nat} {r : Except GroupError (Batch F count)} :
    (delivers r).length ≤ count := by
  cases r with
  | error e => exact Nat.zero_le _
  | ok batch => simpa [delivers] using batch.bounded

namespace Stream

variable {F κ : Type} {s : Stream F κ} {gr : Group κ} {given : List Nat} {id count : Nat}

/-- Pending entries are distinct, and are counted as often as they were delivered. -/
structure Group.Tally (gr : Group κ) (given : List Nat) : Prop where
  nodup : (gr.pending.map PendingEntry.id).Nodup
  pending : ∀ p ∈ gr.pending, p.id ∈ given ∧ p.deliveries = given.count p.id
  last : ∀ id ∈ given, id ≤ gr.lastDelivered

/-- `given` holds every delivery of the group. -/
def Tally (s : Stream F κ) (given : List Nat) : Prop :=
  match s.group with
  | some gr => Group.Tally gr given
  | none => given = []

theorem tally_some (hg : s.group = some gr) : s.Tally given ↔ Group.Tally gr given := by
  rw [Tally, hg]

theorem Tally.of_group_eq {s' : Stream F κ} (ht : s.Tally given) (h : s'.group = s.group) :
    s'.Tally given := by
  rw [Tally, h]
  exact ht

theorem Tally.xadd {f : F} (ht : s.Tally given) : (s.xadd f).Tally given := ht.of_group_eq rfl

theorem Tally.trim {n : Nat} (ht : s.Tally given) : (s.trim n).Tally given := ht.of_group_eq rfl

theorem Tally.xgroupCreate (ht : s.Tally given) : s.xgroupCreate.2.Tally given := by
  unfold Stream.xgroupCreate
  cases hg : s.group with
  | some gr => exact ht
  | none =>
    rw [Tally, hg] at ht
    subst ht
    exact ⟨List.nodup_nil, nofun, nofun⟩

/-- A command on the group, and what it delivers. -/
theorem Tally.withGroup {α : Type} {g : Group κ → α × Group κ} (ht : s.Tally given)
    (new : Except GroupError α → List Nat) (hnew : new (.error .noGroup) = [])
    (h : ∀ gr, s.group = some gr → Group.Tally gr given →
      Group.Tally (g gr).2 (new (.ok (g gr).1) ++ given)) :
    (s.withGroup g).2.Tally (new (s.withGroup g).1 ++ given) := by
  unfold Stream.withGroup
  cases hg : s.group with
  | none =>
    rw [hnew]
    exact ht
  | some gr => exact h gr hg ((tally_some hg).1 ht)

/-- A command that delivers nothing. -/
theorem Tally.withGroup_keeping {α : Type} {g : Group κ → α × Group κ} (ht : s.Tally given)
    (h : ∀ gr, Group.Tally gr given → Group.Tally (g gr).2 given) :
    (s.withGroup g).2.Tally given :=
  ht.withGroup (fun _ => []) rfl fun gr _ => h gr

/-- Entries that go need no count. -/
theorem Group.Tally.of_sublist {pending : List (PendingEntry κ)} {consumers : List κ}
    (ht : Group.Tally gr given) (h : pending.Sublist gr.pending) :
    Group.Tally { gr with pending, consumers } given where
  nodup := (h.map _).nodup ht.nodup
  pending p hp := ht.pending p (h.subset hp)
  last := ht.last

theorem Tally.xack {acked : Nat} (ht : s.Tally given) : (s.xack acked).Tally given :=
  ht.withGroup_keeping fun _ hgr => hgr.of_sublist List.filter_sublist

/-- `XPENDING` reports the number of deliveries. -/
theorem Tally.count_eq {deliveries : Nat} {owner : κ} (ht : s.Tally given)
    (h : s.xpending id = .ok (some (deliveries, owner))) : deliveries = given.count id := by
  obtain ⟨gr, hg, he⟩ := withGroup_ok h
  obtain ⟨p, hp, he⟩ := Option.map_eq_some_iff.1 he
  cases he
  have hid : p.id = id := by simpa using List.find?_some hp
  exact hid ▸ (((tally_some hg).1 ht).pending p (List.mem_of_find?_eq_some hp)).2

/-- The entries of IDs that are in the log. -/
theorem map_entriesAt {ids : List Nat} (h : ∀ id ∈ ids, (s.get? id).isSome) :
    (s.entriesAt ids).map Prod.fst = ids := by
  induction ids with
  | nil => rfl
  | cons id ids ih =>
    obtain ⟨f, hf⟩ := Option.isSome_iff_exists.1 (h id List.mem_cons_self)
    have hrest := ih fun id hid => h id (List.mem_cons_of_mem _ hid)
    simp only [entriesAt] at hrest ⊢
    simp [hf, hrest]

/-! ### Reading -/

section Read

variable {last : Nat}

theorem mem_unread_iff : id ∈ s.unread last count ↔ max last s.trimmed < id ∧
    id ≤ max last s.trimmed + min count (s.log.length - max last s.trimmed) := by
  simp only [unread, List.mem_range'_1]
  omega

theorem get?_of_mem_unread (h : id ∈ s.unread last count) : (s.get? id).isSome := by
  have := mem_unread_iff.1 h
  exact get?_isSome.2 (by omega)

/-- The read goes up to the last entry it delivers. -/
theorem le_getLastD_unread : last ≤ (s.unread last count).getLastD last ∧
    ∀ id ∈ s.unread last count, id ≤ (s.unread last count).getLastD last := by
  simp only [unread, List.getLastD_eq_getLast?, List.getLast?_range', List.mem_range'_1]
  split
  · exact ⟨le_rfl, fun id h => by omega⟩
  · rw [Option.getD_some]
    exact ⟨by omega, fun id h => by omega⟩

variable [DecidableEq κ] {consumer : κ}

/-- A read delivers what was never delivered before. -/
theorem Tally.not_mem_of_read (ht : s.Tally given)
    (h : id ∈ delivers (s.xreadgroup consumer count).1) : id ∉ given := by
  intro hmem
  cases hg : s.group with
  | none => simp [Stream.xreadgroup, Stream.withGroup, hg, delivers] at h
  | some gr =>
    simp only [Stream.xreadgroup, Stream.withGroup, hg, delivers, batchAt] at h
    rw [map_entriesAt fun _ => get?_of_mem_unread] at h
    have := (le_max_left _ _).trans_lt (mem_unread_iff.1 h).1
    have := ((tally_some hg).1 ht).last id hmem
    omega

theorem Tally.xreadgroup (ht : s.Tally given) :
    (s.xreadgroup consumer count).2.Tally (delivers (s.xreadgroup consumer count).1 ++ given) := by
  refine ht.withGroup delivers rfl fun gr _ hgr => ?_
  have hids : (s.entriesAt (s.unread gr.lastDelivered count)).map Prod.fst =
      s.unread gr.lastDelivered count := map_entriesAt fun _ => get?_of_mem_unread
  obtain ⟨hlast, hle⟩ : gr.lastDelivered ≤ (s.unread gr.lastDelivered count).getLastD
      gr.lastDelivered ∧ ∀ id ∈ s.unread gr.lastDelivered count,
        id ≤ (s.unread gr.lastDelivered count).getLastD gr.lastDelivered := le_getLastD_unread
  have hnew : ∀ id ∈ s.unread gr.lastDelivered count, gr.lastDelivered < id := fun id hid =>
    (le_max_left _ _).trans_lt (mem_unread_iff.1 hid).1
  have hnodup : (s.unread gr.lastDelivered count).Nodup := List.nodup_range'
  have hgiven : ∀ id ∈ s.unread gr.lastDelivered count, id ∉ given := fun id hid hmem =>
    absurd (hgr.last id hmem) (Nat.not_le.2 (hnew id hid))
  simp only [delivers, batchAt, hids]
  refine ⟨?_, fun p hp => ?_, fun id hid => ?_⟩
  · have hmap : (gr.pending ++ (s.unread gr.lastDelivered count).map fun id =>
        (⟨id, consumer, 1⟩ : PendingEntry κ)).map PendingEntry.id =
        gr.pending.map PendingEntry.id ++ s.unread gr.lastDelivered count := by
      simp [Function.comp_def]
    rw [hmap]
    refine hgr.nodup.append hnodup fun id hold hid => ?_
    obtain ⟨p, hp, rfl⟩ := List.mem_map.1 hold
    exact hgiven _ hid (hgr.pending p hp).1
  · rw [List.mem_append, List.count_append]
    obtain hp | hp := List.mem_append.1 hp
    · obtain ⟨hmem, hcount⟩ := hgr.pending p hp
      have hnot : p.id ∉ s.unread gr.lastDelivered count := fun h => hgiven _ h hmem
      exact ⟨.inr hmem, by rw [List.count_eq_zero.2 hnot, Nat.zero_add, hcount]⟩
    · obtain ⟨id, hid, rfl⟩ := List.mem_map.1 hp
      refine ⟨.inl hid, ?_⟩
      rw [List.count_eq_one_of_mem hnodup hid, List.count_eq_zero.2 (hgiven id hid)]
  · obtain hid | hid := List.mem_append.1 hid
    · exact hle id hid
    · exact (hgr.last id hid).trans hlast

end Read

/-! ### Claiming -/

section Sweep

variable {live stale : Nat → Bool} {consumer : κ} {attempts : Nat} {ps : List (PendingEntry κ)}

/-- A pass keeps the order of the entries, and lets those go that are gone. -/
theorem ids_sweep_sublist :
    ((sweep live stale consumer attempts count ps).pending.map PendingEntry.id).Sublist
      (ps.map PendingEntry.id) := by
  fun_induction sweep live stale consumer attempts count ps with
  | case1 => exact .refl _
  | case2 => exact .refl _
  | case3 => exact .refl _
  | case4 attempts count p ps hdead ih => exact ih.cons _
  | case5 attempts count p ps hlive hfresh r ih => exact ih.cons_cons _
  | case6 attempts count p ps hlive hstale r ih => exact ih.cons_cons _

/-- Only entries that are there are claimed, each once. -/
theorem claimed_sweep_sublist :
    (sweep live stale consumer attempts count ps).claimed.Sublist
      ((ps.map PendingEntry.id).filter live) := by
  fun_induction sweep live stale consumer attempts count ps with
  | case1 => exact .refl _
  | case2 => exact List.nil_sublist _
  | case3 => exact List.nil_sublist _
  | case4 attempts count p ps hdead ih =>
    rw [List.map_cons, List.filter_cons_of_neg (by simpa using hdead)]
    exact ih
  | case5 attempts count p ps hlive hfresh r ih =>
    rw [List.map_cons, List.filter_cons_of_pos (by simpa using hlive)]
    exact ih.cons _
  | case6 attempts count p ps hlive hstale r ih =>
    rw [List.map_cons, List.filter_cons_of_pos (by simpa using hlive)]
    exact ih.cons_cons _

theorem mem_of_claimed (h : id ∈ (sweep live stale consumer attempts count ps).claimed) :
    id ∈ ps.map PendingEntry.id ∧ live id = true :=
  List.mem_filter.1 (claimed_sweep_sublist.subset h)

/-- Claimed entries count once more, and the others stay as they are. -/
theorem mem_sweep_pending {p' : PendingEntry κ} (hnodup : (ps.map PendingEntry.id).Nodup)
    (h : p' ∈ (sweep live stale consumer attempts count ps).pending) :
    ∃ p ∈ ps, p.id = p'.id ∧ p'.deliveries =
      (sweep live stale consumer attempts count ps).claimed.count p.id + p.deliveries := by
  fun_induction sweep live stale consumer attempts count ps with
  | case1 => cases h
  | case2 => exact ⟨p', h, rfl, by simp⟩
  | case3 => exact ⟨p', h, rfl, by simp⟩
  | case4 attempts count p ps hdead ih =>
    obtain ⟨q, hq, he⟩ := ih (List.nodup_cons.1 hnodup).2 h
    exact ⟨q, List.mem_cons_of_mem p hq, he⟩
  | case5 attempts count p ps hlive hfresh r ih =>
    obtain ⟨hp, hnodup⟩ := List.nodup_cons.1 hnodup
    obtain rfl | h := List.mem_cons.1 h
    · have hnot : p'.id ∉ r.claimed := fun h => hp (mem_of_claimed h).1
      exact ⟨p', List.mem_cons_self, rfl, by simp [List.count_eq_zero.2 hnot]⟩
    · obtain ⟨q, hq, he⟩ := ih hnodup h
      exact ⟨q, List.mem_cons_of_mem p hq, he⟩
  | case6 attempts count p ps hlive hstale r ih =>
    obtain ⟨hp, hnodup⟩ := List.nodup_cons.1 hnodup
    obtain rfl | h := List.mem_cons.1 h
    · have hnot : p.id ∉ r.claimed := fun h => hp (mem_of_claimed h).1
      refine ⟨p, List.mem_cons_self, rfl, ?_⟩
      rw [List.count_cons_self, List.count_eq_zero.2 hnot, Nat.zero_add, Nat.add_comm]
    · obtain ⟨q, hq, hid, he⟩ := ih hnodup h
      have hne : p.id ≠ q.id := fun h => hp (h ▸ List.mem_map_of_mem hq)
      exact ⟨q, List.mem_cons_of_mem p hq, hid, by rw [List.count_cons_of_ne hne, he]⟩

/-- A pass over the later part of the pending entries. -/
theorem Group.Tally.sweep {before : List (PendingEntry κ)} {consumers : List κ}
    (ht : Group.Tally gr given) (hpending : before ++ ps = gr.pending) :
    Group.Tally
      { gr with
        pending := before ++ (Stream.sweep live stale consumer attempts count ps).pending
        consumers }
      ((Stream.sweep live stale consumer attempts count ps).claimed ++ given) := by
  have hnodup := ht.nodup
  rw [← hpending, List.map_append, List.nodup_append'] at hnodup
  obtain ⟨hbefore, hrest, hdisjoint⟩ := hnodup
  have hmem : ∀ p ∈ ps, p ∈ gr.pending := fun p hp => hpending ▸ List.mem_append_right _ hp
  refine ⟨?_, fun p hp => ?_, fun id hid => ?_⟩
  · rw [List.map_append]
    refine hbefore.append (ids_sweep_sublist.nodup hrest) fun id hid hid' => ?_
    exact hdisjoint hid (ids_sweep_sublist.subset hid')
  · rw [List.mem_append, List.count_append]
    obtain hp | hp := List.mem_append.1 hp
    · obtain ⟨hgiven, hcount⟩ := ht.pending p (hpending ▸ List.mem_append_left _ hp)
      have hnot : p.id ∉ (Stream.sweep live stale consumer attempts count ps).claimed :=
        fun h => hdisjoint (List.mem_map_of_mem hp) (mem_of_claimed h).1
      exact ⟨.inr hgiven, by rw [List.count_eq_zero.2 hnot, Nat.zero_add, hcount]⟩
    · obtain ⟨q, hq, hid, hcount⟩ := mem_sweep_pending hrest hp
      obtain ⟨hgiven, hq'⟩ := ht.pending q (hmem q hq)
      exact ⟨.inr (hid ▸ hgiven), by rw [hcount, hq', hid]⟩
  · obtain hid | hid := List.mem_append.1 hid
    · obtain ⟨p, hp, rfl⟩ := List.mem_map.1 (mem_of_claimed hid).1
      exact ht.last _ (ht.pending p (hmem p hp)).1
    · exact ht.last id hid

end Sweep

section Claim

variable [DecidableEq κ] {consumer : κ}

theorem Tally.xautoclaim {stale : Nat → Bool} {start : Nat} (ht : s.Tally given) :
    (s.xautoclaim consumer stale start count).2.Tally
      (delivers ((s.xautoclaim consumer stale start count).1.map Prod.snd) ++ given) := by
  refine ht.withGroup (fun r => delivers (r.map Prod.snd)) rfl fun gr _ hgr => ?_
  have hids : (s.entriesAt (sweep s.live stale consumer (10 * count) count
      (gr.pending.dropWhile fun p => p.id < start)).claimed).map Prod.fst =
      (sweep s.live stale consumer (10 * count) count
        (gr.pending.dropWhile fun p => p.id < start)).claimed :=
    map_entriesAt fun id hid => get?_isSome.2 (live_iff.1 (mem_of_claimed hid).2).2
  simp only [delivers, Except.map, batchAt, hids]
  exact hgr.sweep List.takeWhile_append_dropWhile

theorem Tally.xclaim {claimed : Nat} (ht : s.Tally given) :
    (s.xclaim consumer claimed).2.Tally given := by
  refine ht.withGroup_keeping fun gr hgr => ⟨?_, fun p' hp' => ?_, hgr.last⟩
  · have hid : (PendingEntry.id ∘ fun p : PendingEntry κ =>
        if p.id = claimed then { p with owner := consumer } else p) = PendingEntry.id := by
      funext p
      simp only [Function.comp]
      split <;> rfl
    rw [List.map_map, hid]
    exact (List.filter_sublist.map _).nodup hgr.nodup
  · obtain ⟨p, hp, rfl⟩ := List.mem_map.1 hp'
    have := hgr.pending p (List.mem_filter.1 hp).1
    split <;> exact this

theorem Tally.delConsumer (ht : s.Tally given) : (s.delConsumer consumer).2.Tally given :=
  ht.withGroup_keeping fun _ hgr => hgr.of_sublist List.filter_sublist

end Claim

end Stream

end Streams
