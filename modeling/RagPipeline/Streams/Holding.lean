import RagPipeline.Streams.Group

/-!
# What stays pending, and under whom

Which consumers hold pending entries, and which entries stay pending, one command at a time.

## Main results

* `Idle.xreadgroup`, …: only the consumer that reads or claims comes to hold an entry.
* `Pending.xreadgroup`, …: an entry that is there stays pending until it is acknowledged.
-/
namespace Streams

namespace Stream

variable {F κ : Type} {s : Stream F κ} {id : Nat}

theorem idle_of_pendingOf [DecidableEq κ] {consumer : κ} {cs : List (κ × Nat)}
    (h : s.xinfoConsumers = .ok cs) (hmem : (consumer, 0) ∈ cs) : s.Idle consumer := by
  obtain ⟨gr, hg, rfl⟩ := withGroup_ok h
  obtain ⟨c, -, hc⟩ := List.mem_map.1 hmem
  obtain ⟨rfl, hcount⟩ := Prod.mk.inj hc
  intro gr' hg' p hp
  cases hg.symm.trans hg'
  simpa using List.countP_eq_zero.1 hcount p hp

/-! ### Consumers -/

section Idle

variable {consumer other : κ} {count : Nat} {f : F}

theorem Idle.of_group_eq {s' : Stream F κ} (hi : s.Idle consumer) (h : s'.group = s.group) :
    s'.Idle consumer :=
  fun gr hg => hi gr (h.symm.trans hg)

theorem idle_of_no_group (h : s.group = none) : s.Idle consumer :=
  fun _ hg => nomatch h.symm.trans hg

theorem Idle.withGroup {α : Type} {g : Group κ → α × Group κ} (hi : s.Idle consumer)
    (h : ∀ gr, (∀ p ∈ gr.pending, p.owner ≠ consumer) →
      ∀ p ∈ (g gr).2.pending, p.owner ≠ consumer) : (s.withGroup g).2.Idle consumer := by
  unfold Stream.withGroup
  cases hg : s.group with
  | none => exact hi
  | some gr =>
    rintro _ ⟨⟩
    exact h gr (hi gr hg)

theorem Idle.xgroupCreate (hi : s.Idle consumer) : s.xgroupCreate.2.Idle consumer := by
  unfold Stream.xgroupCreate
  split
  · exact hi
  · rintro _ ⟨⟩
    exact nofun

theorem Idle.xack {acked : Nat} (hi : s.Idle consumer) : (s.xack acked).Idle consumer :=
  hi.withGroup fun _ h p hp => h p (List.mem_filter.1 hp).1

/-- A claim changes owners to the claimer's only. -/
theorem owner_of_mem_sweep {live stale : Nat → Bool} {attempts : Nat}
    {ps : List (PendingEntry κ)} {p' : PendingEntry κ}
    (h : p' ∈ (sweep live stale other attempts count ps).pending) :
    p'.owner = other ∨ ∃ p ∈ ps, p.owner = p'.owner := by
  fun_induction sweep live stale other attempts count ps with
  | case1 => cases h
  | case2 => exact .inr ⟨p', h, rfl⟩
  | case3 => exact .inr ⟨p', h, rfl⟩
  | case4 attempts count p ps hdead ih =>
    exact (ih h).imp_right fun ⟨q, hq, he⟩ => ⟨q, List.mem_cons_of_mem p hq, he⟩
  | case5 attempts count p ps hlive hfresh r ih =>
    obtain rfl | h := List.mem_cons.1 h
    · exact .inr ⟨p', List.mem_cons_self, rfl⟩
    · exact (ih h).imp_right fun ⟨q, hq, he⟩ => ⟨q, List.mem_cons_of_mem p hq, he⟩
  | case6 attempts count p ps hlive hstale r ih =>
    obtain rfl | h := List.mem_cons.1 h
    · exact .inl rfl
    · exact (ih h).imp_right fun ⟨q, hq, he⟩ => ⟨q, List.mem_cons_of_mem p hq, he⟩

variable [DecidableEq κ]

theorem Idle.xreadgroup (hi : s.Idle consumer) (hne : other ≠ consumer) :
    (s.xreadgroup other count).2.Idle consumer := by
  refine hi.withGroup fun gr h p hp => ?_
  obtain hp | hp := List.mem_append.1 hp
  · exact h p hp
  · obtain ⟨id, -, rfl⟩ := List.mem_map.1 hp
    exact hne

theorem Idle.xautoclaim {stale : Nat → Bool} {start : Nat} (hi : s.Idle consumer)
    (hne : other ≠ consumer) : (s.xautoclaim other stale start count).2.Idle consumer := by
  refine hi.withGroup fun gr h p hp => ?_
  obtain hp | hp := List.mem_append.1 hp
  · exact h p ((List.takeWhile_sublist _).subset hp)
  · obtain hother | ⟨q, hq, he⟩ := owner_of_mem_sweep hp
    · exact hother ▸ hne
    · exact he ▸ h q ((List.dropWhile_sublist _).subset hq)

theorem Idle.xclaim {claimed : Nat} (hi : s.Idle consumer) (hne : other ≠ consumer) :
    (s.xclaim other claimed).2.Idle consumer := by
  refine hi.withGroup fun gr h p' hp' => ?_
  obtain ⟨p, hp, rfl⟩ := List.mem_map.1 hp'
  have := h p (List.mem_filter.1 hp).1
  split
  · exact hne
  · exact this

theorem Idle.delConsumer (hi : s.Idle consumer) : (s.delConsumer other).2.Idle consumer :=
  hi.withGroup fun _ h p hp => h p (List.mem_filter.1 hp).1

end Idle

/-! ### Entries -/

section Pending

variable {count : Nat}

theorem Pending.of_group_eq {s' : Stream F κ} (hp : s.Pending id) (h : s'.group = s.group) :
    s'.Pending id := by
  obtain ⟨gr, hg, hp⟩ := hp
  exact ⟨gr, h.trans hg, hp⟩

theorem Pending.withGroup {α : Type} {g : Group κ → α × Group κ} (hp : s.Pending id)
    (h : ∀ gr, s.group = some gr → ∀ p ∈ gr.pending, p.id = id →
      ∃ p' ∈ (g gr).2.pending, p'.id = id) :
    (s.withGroup g).2.Pending id := by
  obtain ⟨gr, hg, p, hp, rfl⟩ := hp
  refine ⟨(g gr).2, ?_, h gr hg p hp rfl⟩
  simp [Stream.withGroup, hg]

theorem Pending.xgroupCreate (hp : s.Pending id) : s.xgroupCreate.2.Pending id := by
  obtain ⟨gr, hg, hp⟩ := hp
  refine ⟨gr, ?_, hp⟩
  simp [Stream.xgroupCreate, hg]

theorem Pending.xack {acked : Nat} (hp : s.Pending id) (hne : acked ≠ id) :
    (s.xack acked).Pending id :=
  hp.withGroup fun _ _ p hp he =>
    ⟨p, List.mem_filter.2 ⟨hp, by simpa [he] using hne.symm⟩, he⟩

theorem mem_sweep_of_live {live stale : Nat → Bool} {consumer : κ} {attempts : Nat}
    {ps : List (PendingEntry κ)} {p : PendingEntry κ} (hp : p ∈ ps) (hl : live p.id) :
    ∃ p' ∈ (sweep live stale consumer attempts count ps).pending, p'.id = p.id := by
  fun_induction sweep live stale consumer attempts count ps with
  | case1 => cases hp
  | case2 => exact ⟨p, hp, rfl⟩
  | case3 => exact ⟨p, hp, rfl⟩
  | case4 attempts count q ps hdead ih =>
    obtain rfl | hp := List.mem_cons.1 hp
    · simp [hl] at hdead
    · exact ih hp
  | case5 attempts count q ps hlive hfresh r ih =>
    obtain rfl | hp := List.mem_cons.1 hp
    · exact ⟨p, List.mem_cons_self, rfl⟩
    · obtain ⟨p', hp', he⟩ := ih hp
      exact ⟨p', List.mem_cons_of_mem _ hp', he⟩
  | case6 attempts count q ps hlive hstale r ih =>
    obtain rfl | hp := List.mem_cons.1 hp
    · exact ⟨_, List.mem_cons_self, rfl⟩
    · obtain ⟨p', hp', he⟩ := ih hp
      exact ⟨p', List.mem_cons_of_mem _ hp', he⟩

variable [DecidableEq κ] {consumer : κ}

theorem Pending.xreadgroup (hp : s.Pending id) : (s.xreadgroup consumer count).2.Pending id :=
  hp.withGroup fun _ _ p hp he => ⟨p, List.mem_append_left _ hp, he⟩

theorem Pending.xautoclaim {stale : Nat → Bool} {start : Nat} (hp : s.Pending id)
    (hl : s.live id) : (s.xautoclaim consumer stale start count).2.Pending id := by
  refine hp.withGroup fun gr _ p hp he => ?_
  rw [← List.takeWhile_append_dropWhile (p := fun p => p.id < start) (l := gr.pending)] at hp
  obtain hp | hp := List.mem_append.1 hp
  · exact ⟨p, List.mem_append_left _ hp, he⟩
  · have hlive : s.live p.id = true := he ▸ hl
    obtain ⟨p', hp', he'⟩ := mem_sweep_of_live hp hlive
    exact ⟨p', List.mem_append_right _ hp', he'.trans he⟩

theorem Pending.xclaim {claimed : Nat} (hp : s.Pending id) (hl : s.live id) :
    (s.xclaim consumer claimed).2.Pending id := by
  refine hp.withGroup fun gr _ p hp he => ?_
  have hkept : p.id ≠ claimed ∨ s.live claimed := by
    by_cases hc : p.id = claimed
    · exact .inr (hc ▸ he ▸ hl)
    · exact .inl hc
  refine ⟨_, List.mem_map_of_mem (List.mem_filter.2 ⟨hp, by simpa using hkept⟩), ?_⟩
  split <;> exact he

/-- A consumer that holds nothing takes nothing with it. -/
theorem Pending.delConsumer (hp : s.Pending id) (hi : s.Idle consumer) :
    (s.delConsumer consumer).2.Pending id :=
  hp.withGroup fun gr hg p hp he => ⟨p, List.mem_filter.2 ⟨hp, by simpa using hi gr hg p hp⟩, he⟩

end Pending

end Stream

end Streams
