import Mathlib.Data.List.Basic

/-!
# The watchdog

`Watchdog` kills the process when a job does not come back. One lock guards the generation and the
timer at hand; a callback holds it for its check only, and calls `exit_fn` after it has let go. A
step is one section under the lock, the start of a callback, or the call of `exit_fn` with the
last words before it. `exit_fn` may return, as the tests' does.

## Main definitions

* `step`: `arm`, `disarm`, and what the threads of the timers do.
* `current`: the arming that no `disarm` and no later `arm` has ended, told from the history alone.
* `Undisturbed`: no `arm` and no `disarm` while a callback is between its check and its exit.

## Main results

* `check_current`: only the callback of the current arming passes its check.
* `exit_current`: in an undisturbed run only the current arming's timer exits.
* `exit_after_call`: a callback that was disturbed can exit although its arming is over.
-/
namespace Rag.Watchdog

/-- Where the thread of a timer is. -/
inductive Phase where
  | waiting
  /-- In `_fire`, before its check: `Timer.cancel` comes too late. -/
  | firing
  /-- The check went through and `exit_fn` is still to be called. -/
  | exiting
  | ended
  deriving DecidableEq, Repr

structure Timer where
  generation : Nat
  phase : Phase
  deriving DecidableEq, Repr

structure State where
  generation : Nat
  /-- `_timer`, by its place among all timers. -/
  timer : Option Nat
  /-- Every timer that was started, in this order. -/
  timers : List Timer
  deriving DecidableEq, Repr

/-- A timer goes by the number of `arm` calls before its own. -/
inductive Action where
  | arm
  | disarm
  | fire (i : Nat)
  | check (i : Nat)
  | exit (i : Nat)
  deriving DecidableEq, Repr

def init : State := ⟨0, none, []⟩

/-- `Timer.cancel`, which a callback that has started does not see. -/
def Timer.cancel (t : Timer) : Timer :=
  if t.phase = .waiting then { t with phase := .ended } else t

def Timer.to (phase : Phase) (t : Timer) : Timer := { t with phase }

/-- The timers once the one at hand, if there is one, is cancelled. -/
def State.cancelled (s : State) : List Timer :=
  s.timer.elim s.timers (s.timers.modify · Timer.cancel)

def arm (s : State) : State where
  generation := s.generation + 1
  timer := some s.timers.length
  timers := s.cancelled ++ [⟨s.generation + 1, .waiting⟩]

def disarm (s : State) : State where
  generation := s.generation + 1
  timer := none
  timers := s.cancelled

/-- The thread of timer `i` goes from one phase to another. -/
def State.move (s : State) (i : Nat) (before after : Phase) : Option State :=
  if s.timers[i]?.any (·.phase = before) then
    some { s with timers := s.timers.modify i (Timer.to after) }
  else none

/-- The comparison of `_fire`: stale callbacks return. -/
def State.afterCheck (s : State) (i : Nat) : Phase :=
  if s.timers[i]?.any (·.generation = s.generation) then .exiting else .ended

def step (s : State) : Action → Option State
  | .arm => some (arm s)
  | .disarm => some (disarm s)
  | .fire i => s.move i .waiting .firing
  | .check i => s.move i .firing (s.afterCheck i)
  | .exit i => s.move i .exiting .ended

/-! ### Histories -/

/-- A history, newest first, whose steps were all allowed, and the state it leads to. -/
inductive Run (allowed : State → Action → Prop) : List Action → State → Prop
  | init : Run allowed [] init
  | step {h : List Action} {s s' : State} {a : Action} (hr : Run allowed h s) (ha : allowed s a)
      (hs : step s a = some s') : Run allowed (a :: h) s'

/-- The arming that is in force. -/
def current : List Action → Option Nat
  | [] => none
  | .arm :: h => some (h.count .arm)
  | .disarm :: _ => none
  | _ :: h => current h

/-- No callback is between its check and its exit when `arm` or `disarm` takes the lock. -/
def Undisturbed (s : State) (a : Action) : Prop :=
  a = .arm ∨ a = .disarm → ∀ t ∈ s.timers, t.phase ≠ .exiting

instance (s : State) (a : Action) : Decidable (Undisturbed s a) :=
  inferInstanceAs (Decidable (_ → _))

def Free (_ : State) (_ : Action) : Prop := True

/-- Every call of `exit_fn` came while the arming that started its timer was in force. -/
def Timely (h : List Action) : Prop := ∀ g i, .exit i :: g <:+ h → current g = some i

section Steps

variable {allowed : State → Action → Prop} {h g : List Action} {s s' : State} {a : Action} {i : Nat}
  {t : Timer} {before after : Phase}

/-! ### What a step does -/

@[simp] theorem length_cancelled : s.cancelled.length = s.timers.length := by
  unfold State.cancelled
  cases s.timer <;> simp

theorem getElem?_cancelled (ht : s.cancelled[i]? = some t) :
    ∃ t₀, s.timers[i]? = some t₀ ∧ (t = t₀ ∨ t = t₀.cancel) := by
  unfold State.cancelled at ht
  cases hs : s.timer with
  | none => exact ⟨t, by simpa [hs] using ht, .inl rfl⟩
  | some j =>
    simp only [hs, Option.elim, List.getElem?_modify] at ht
    split at ht <;> grind

@[simp] theorem generation_cancel : t.cancel.generation = t.generation := by
  unfold Timer.cancel
  split <;> rfl

theorem exiting_cancel : t.cancel.phase = .exiting ↔ t.phase = .exiting := by
  unfold Timer.cancel
  grind

theorem move_eq (h : s.move i before after = some s') :
    (∃ t, s.timers[i]? = some t ∧ t.phase = before) ∧
      s' = { s with timers := s.timers.modify i (Timer.to after) } := by
  unfold State.move at h
  split_ifs at h with hp
  cases h
  exact ⟨by simpa [Option.any_eq_true] using hp, rfl⟩

/-- One timer after a step of a thread: itself, or the one that moved. -/
theorem getElem?_move {j : Nat} (h : s.move i before after = some s')
    (ht : s'.timers[j]? = some t) : ∃ t₀, s.timers[j]? = some t₀ ∧ t.generation = t₀.generation ∧
      (t = t₀ ∨ j = i ∧ t.phase = after) := by
  obtain ⟨-, rfl⟩ := move_eq h
  simp only [List.getElem?_modify] at ht
  grind [Timer.to]

/-- `arm` and `disarm` make a generation of their own; a thread of a timer moves alone. -/
theorem step_cases (hs : step s a = some s') :
    (a = .arm ∧ s' = arm s) ∨ (a = .disarm ∧ s' = disarm s) ∨
      (a ≠ .arm ∧ a ≠ .disarm ∧ ∃ i before after, s.move i before after = some s' ∧
        (after = .exiting → s.timers[i]?.any (·.generation = s.generation))) := by
  cases a with
  | arm => exact .inl ⟨rfl, (Option.some.inj hs).symm⟩
  | disarm => exact .inr (.inl ⟨rfl, (Option.some.inj hs).symm⟩)
  | fire i => exact .inr (.inr ⟨nofun, nofun, i, _, _, hs, nofun⟩)
  | check i =>
    refine .inr (.inr ⟨nofun, nofun, i, _, _, hs, fun h => ?_⟩)
    unfold State.afterCheck at h
    split_ifs at h with hp
    exact hp
  | exit i => exact .inr (.inr ⟨nofun, nofun, i, _, _, hs, nofun⟩)

theorem current_cons (h₁ : a ≠ .arm) (h₂ : a ≠ .disarm) : current (a :: h) = current h := by
  cases a <;> grind [current]

/-! ### Generations tell the armings apart -/

/-- What the generations are good for. -/
structure Tagged (h : List Action) (s : State) : Prop where
  count : s.timers.length = h.count .arm
  le : ∀ (i : Nat) (t : Timer), s.timers[i]? = some t → t.generation ≤ s.generation
  /-- A timer of the present generation belongs to the arming in force. -/
  current : ∀ (i : Nat) (t : Timer), s.timers[i]? = some t → t.generation = s.generation →
    current h = some i

theorem Tagged.init : Tagged [] init := ⟨rfl, by simp [Watchdog.init], by simp [Watchdog.init]⟩

theorem Tagged.cancelled (hi : Tagged h s) (ht : s.cancelled[i]? = some t) :
    t.generation < s.generation + 1 := by
  obtain ⟨t₀, h₀, hc⟩ := getElem?_cancelled ht
  have hgen : t.generation = t₀.generation := by
    obtain rfl | rfl := hc
    · rfl
    · exact generation_cancel
  have hle := hi.le i t₀ h₀
  omega

/-- The timers after `arm`: the earlier ones, and the new one. -/
theorem getElem?_arm (ht : (arm s).timers[i]? = some t) :
    s.cancelled[i]? = some t ∨ i = s.timers.length ∧ t = ⟨s.generation + 1, .waiting⟩ := by
  simp only [arm, List.getElem?_append, length_cancelled] at ht
  split at ht
  · exact .inl ht
  · have hi : i = s.timers.length := by grind
    subst hi
    simpa [eq_comm] using ht

theorem Tagged.step (hi : Tagged h s) (hs : step s a = some s') : Tagged (a :: h) s' := by
  obtain ⟨rfl, rfl⟩ | ⟨rfl, rfl⟩ | ⟨h₁, h₂, i, before, after, hm, -⟩ := step_cases hs
  · refine ⟨by simp [arm, hi.count], fun i t ht => ?_, fun i t ht hg => ?_⟩
    · obtain ht | ⟨-, rfl⟩ := getElem?_arm ht
      · exact Nat.le_of_lt (hi.cancelled ht)
      · exact Nat.le_refl _
    · obtain ht | ⟨rfl, -⟩ := getElem?_arm ht
      · exact absurd hg (Nat.ne_of_lt (hi.cancelled ht))
      · exact congrArg some hi.count.symm
  · refine ⟨by simp [disarm, hi.count], fun i t ht => Nat.le_of_lt (hi.cancelled ht),
      fun i t ht hg => ?_⟩
    exact absurd hg (Nat.ne_of_lt (hi.cancelled ht))
  · obtain ⟨-, rfl⟩ := move_eq hm
    refine ⟨?_, fun j t ht => ?_, fun j t ht hg => ?_⟩
    · simpa [List.count_cons, h₁] using hi.count
    · obtain ⟨t₀, h₀, hgen, -⟩ := getElem?_move hm ht
      exact hgen ▸ hi.le j t₀ h₀
    · obtain ⟨t₀, h₀, hgen, -⟩ := getElem?_move hm ht
      exact (current_cons h₁ h₂).trans (hi.current j t₀ h₀ (hgen ▸ hg))

theorem Run.tagged (hr : Run allowed h s) : Tagged h s := by
  induction hr with
  | init => exact .init
  | step _ _ hs ih => exact ih.step hs

/-- Whatever the interleaving, the check lets nobody through but the timer of the arming in
force. -/
theorem check_current (hr : Run allowed (.check i :: h) s)
    (hp : s.timers[i]?.any (·.phase = .exiting)) : current h = some i := by
  cases hr with
  | @step _ s₀ _ _ hr _ hs =>
    obtain ⟨⟨t, ht, -⟩, rfl⟩ := move_eq hs
    have hcheck : s₀.afterCheck i = .exiting := by
      simpa [ht, List.getElem?_modify, Timer.to] using hp
    unfold State.afterCheck at hcheck
    split_ifs at hcheck with hg
    exact hr.tagged.current i t ht (by simpa [ht] using hg)

/-! ### Exits -/

/-- Who passed the check is still of the present generation. -/
def Pending (s : State) : Prop :=
  ∀ (i : Nat) (t : Timer), s.timers[i]? = some t → t.phase = .exiting → t.generation = s.generation

theorem Pending.step (hi : Pending s) (hu : Undisturbed s a) (hs : step s a = some s') :
    Pending s' := by
  have hquiet (hc : a = .arm ∨ a = .disarm) {i : Nat} {t : Timer}
      (ht : s.cancelled[i]? = some t) : t.phase ≠ .exiting := by
    intro hp
    obtain ⟨t₀, h₀, rfl | rfl⟩ := getElem?_cancelled ht
    · exact hu hc t (List.mem_of_getElem? h₀) hp
    · exact hu hc t₀ (List.mem_of_getElem? h₀) (exiting_cancel.1 hp)
  obtain ⟨rfl, rfl⟩ | ⟨rfl, rfl⟩ | ⟨-, -, i, before, after, hm, hafter⟩ := step_cases hs
  · intro i t ht hp
    obtain ht | ⟨-, rfl⟩ := getElem?_arm ht
    · exact absurd hp (hquiet (.inl rfl) ht)
    · cases hp
  · intro i t ht hp
    exact absurd hp (hquiet (.inr rfl) ht)
  · intro j t ht hp
    obtain ⟨t₀, h₀, hgen, rfl | ⟨rfl, hafter'⟩⟩ := getElem?_move hm ht
    · obtain ⟨-, rfl⟩ := move_eq hm
      exact hi j t h₀ hp
    · have hg := hafter (hafter' ▸ hp)
      obtain ⟨-, rfl⟩ := move_eq hm
      simpa [hgen, h₀] using hg

theorem Run.pending (hr : Run Undisturbed h s) : Pending s := by
  induction hr with
  | init => simp [Pending, Watchdog.init]
  | step _ ha hs ih => exact ih.step ha hs

theorem Run.of_suffix (hr : Run allowed h s) (hg : g <:+ h) : ∃ s', Run allowed g s' := by
  induction hr with
  | init =>
    obtain rfl := List.suffix_nil.1 hg
    exact ⟨_, .init⟩
  | step hr ha hs ih =>
    obtain rfl | hg := List.suffix_cons_iff.1 hg
    · exact ⟨_, .step hr ha hs⟩
    · exact ih hg

/-- `exit_fn` is called for the arming in force, if no call comes between a check and its exit. -/
theorem exit_current (hr : Run Undisturbed h s) : Timely h := by
  intro g i hg
  obtain ⟨s', hr⟩ := hr.of_suffix hg
  cases hr with
  | step hr _ hs =>
    obtain ⟨⟨t, ht, hp⟩, -⟩ := move_eq hs
    exact hr.tagged.current i t ht (hr.pending i t ht hp)

/-- A callback between its check and its exit goes on when `arm` or `disarm` has been. -/
theorem exiting_cancelled (ht : s.timers[i]? = some t) (hp : t.phase = .exiting) :
    ∃ t', s.cancelled[i]? = some t' ∧ t'.phase = .exiting := by
  have hlt : i < s.cancelled.length := by
    rw [length_cancelled]
    exact (List.getElem?_eq_some_iff.1 ht).1
  obtain ⟨t₀, h₀, hc⟩ := getElem?_cancelled (List.getElem?_eq_getElem hlt)
  obtain rfl := Option.some.inj (ht.symm.trans h₀)
  refine ⟨_, List.getElem?_eq_getElem hlt, ?_⟩
  obtain hc | hc := hc
  · rwa [hc]
  · rwa [hc, exiting_cancel]

/-- The condition of `exit_current` leaves nothing out: after any other `arm` or `disarm` the
process may exit for an arming that is over. -/
theorem exit_after_call (hr : Run Free h s) (hu : ¬ Undisturbed s a) :
    ∃ i s', Run Free (.exit i :: a :: h) s' ∧ current (a :: h) ≠ some i := by
  simp only [Undisturbed, not_forall, not_not] at hu
  obtain ⟨ha, t, hmem, hp⟩ := hu
  obtain ⟨i, ht⟩ := List.getElem?_of_mem hmem
  obtain ⟨t', ht', hp'⟩ := exiting_cancelled ht hp
  have hexit {s₁ : State} (h₁ : s₁.timers[i]? = some t') : ∃ s', step s₁ (.exit i) = some s' := by
    simp [step, State.move, h₁, hp']
  have hlt : i < h.count .arm := hr.tagged.count ▸ (List.getElem?_eq_some_iff.1 ht).1
  obtain rfl | rfl := ha
  · have h₁ : (arm s).timers[i]? = some t' := by
      rw [arm, List.getElem?_append_left (List.getElem?_eq_some_iff.1 ht').1]
      exact ht'
    obtain ⟨s', hs'⟩ := hexit h₁
    refine ⟨i, s', .step (.step hr trivial rfl) trivial hs', ?_⟩
    simpa [current] using Nat.ne_of_gt hlt
  · obtain ⟨s', hs'⟩ := @hexit (disarm s) ht'
    exact ⟨i, s', .step (.step hr trivial rfl) trivial hs', by simp [current]⟩

end Steps

/-- The first job comes back when its timer has fired, and the callback finds the next job armed.
The second job overruns. -/
def overrun : List Action :=
  [.exit 1, .check 1, .fire 1, .check 0, .arm, .disarm, .fire 0, .arm]

theorem exit_current_overrun : Timely overrun ∧ current overrun = some 1 := by
  have hfired : Run Undisturbed [.fire 0, .arm] ⟨1, some 0, [⟨1, .firing⟩]⟩ :=
    .step (.step .init (by decide) rfl) (by decide) rfl
  have hrearmed : Run Undisturbed [.arm, .disarm, .fire 0, .arm]
      ⟨3, some 1, [⟨1, .firing⟩, ⟨3, .waiting⟩]⟩ :=
    .step (.step hfired (by decide) rfl) (by decide) rfl
  have hstale : Run Undisturbed [.check 0, .arm, .disarm, .fire 0, .arm]
      ⟨3, some 1, [⟨1, .ended⟩, ⟨3, .waiting⟩]⟩ :=
    .step hrearmed (by decide) rfl
  have hexit : Run Undisturbed overrun ⟨3, some 1, [⟨1, .ended⟩, ⟨3, .ended⟩]⟩ :=
    .step (.step (.step hstale (by decide) rfl) (by decide) rfl) (by decide) rfl
  exact ⟨exit_current hexit, rfl⟩

/-- The job comes back right after the callback's check: `disarm` returns, and then the process is
killed. -/
theorem not_exit_current : ¬ ∀ h s, Run Free h s → Timely h := by
  intro hall
  have hrun : Run Free [.exit 0, .disarm, .check 0, .fire 0, .arm] ⟨2, none, [⟨1, .ended⟩]⟩ :=
    .step (.step (.step (.step (.step .init trivial rfl) trivial rfl) trivial rfl) trivial rfl)
      trivial rfl
  exact absurd (hall _ _ hrun _ 0 (List.suffix_refl _)) (by decide)

end Rag.Watchdog
