import RagPipeline.Interact.Contract

/-!
# Processes over one shared state

Any number of processes, each running its own program, share one state. A process is started
once, takes its steps between those of the others, and ends by finishing or by crashing at any
point; a restart is a new process. One command is one atomic step, and whatever the surroundings
decide about it (does it fail, is only its reply lost, what does it read off the world) is the
`Choice` of that step, so a run is a list of events and can be replayed by evaluation.

## Main definitions

* `Actors`, `Config`, `Event`, `Actors.next`: processes, their configurations and their steps.
* `Rules`: what a claim assumes about the steps of a run.
* `Certificate`: the obligations of a rely-guarantee proof, one program at a time.

## Main results

* `Certificate.sound`: the invariant of a certificate holds in every reachable configuration.
* `Certificate.guarded`: and so does the guard of every command that comes next.
-/
namespace Interact

structure Actors (ι G : Type) where
  sig : ι → Signature
  main : (i : ι) → Prog (sig i) Unit
  Choice : Type
  respond : (i : ι) → (c : (sig i).Cmd) → Choice → G → (sig i).Reply c × G
  /-- What starting, and what ending or crashing, does to the shared state. -/
  enter : ι → G → G
  leave : ι → G → G
  Env : Type
  env : Env → G → G

inductive Life (S : Signature) where
  | unborn
  | running (p : Prog S Unit)
  | gone

inductive Event (ι Choice Env : Type) where
  | start (i : ι)
  | call (i : ι) (ch : Choice)
  | unfold (i : ι)
  | finish (i : ι)
  | crash (i : ι)
  | env (e : Env)

namespace Actors

variable {ι G : Type}

structure Config (A : Actors ι G) where
  shared : G
  life : (i : ι) → Life (A.sig i)

abbrev Step (A : Actors ι G) := Event ι A.Choice A.Env

/-- The command a process is about to issue. -/
def Config.pending {A : Actors ι G} (cfg : A.Config) (i : ι) : Option (A.sig i).Cmd :=
  match cfg.life i with
  | .running (.call c _) => some c
  | _ => none

def init (A : Actors ι G) (g : G) : A.Config := ⟨g, fun _ => .unborn⟩

/-- What a claim assumes of a run: which processes may start, how commands may be answered, and
how the surroundings may move, given the state before the step. -/
structure Rules (A : Actors ι G) where
  start : ι → G → Prop
  call : (i : ι) → (A.sig i).Cmd → A.Choice → G → Prop
  env : A.Env → G → Prop

/-- No assumption at all. -/
def Rules.free (A : Actors ι G) : A.Rules where
  start _ _ := True
  call _ _ _ _ := True
  env _ _ := True

variable [DecidableEq ι]

def Config.set {A : Actors ι G} (cfg : A.Config) (i : ι) (l : Life (A.sig i)) (g : G) :
    A.Config :=
  ⟨g, Function.update cfg.life i l⟩

/-- One step; `none` when the event does not apply. -/
def next (A : Actors ι G) (cfg : A.Config) : A.Step → Option A.Config
  | .start i =>
    match cfg.life i with
    | .unborn => some (cfg.set i (.running (A.main i)) (A.enter i cfg.shared))
    | _ => none
  | .call i ch =>
    match cfg.life i with
    | .running (.call c k) =>
      let r := A.respond i c ch cfg.shared
      some (cfg.set i (.running (k r.1)) r.2)
    | _ => none
  | .unfold i =>
    match cfg.life i with
    | .running (.loop body s k) => some (cfg.set i (.running (.unfold body k s)) cfg.shared)
    | _ => none
  | .finish i =>
    match cfg.life i with
    | .running (.ret _) => some (cfg.set i .gone (A.leave i cfg.shared))
    | _ => none
  | .crash i =>
    match cfg.life i with
    | .running _ => some (cfg.set i .gone (A.leave i cfg.shared))
    | _ => none
  | .env e => some ⟨A.env e cfg.shared, cfg.life⟩

def Rules.Allows {A : Actors ι G} (R : A.Rules) (cfg : A.Config) : A.Step → Prop
  | .start i => R.start i cfg.shared
  | .call i ch => ∀ c, cfg.pending i = some c → R.call i c ch cfg.shared
  | .env e => R.env e cfg.shared
  | _ => True

section Decidable

variable {A : Actors ι G} {R : A.Rules} [∀ i g, Decidable (R.start i g)]
  [∀ i c ch g, Decidable (R.call i c ch g)] [∀ e g, Decidable (R.env e g)]

omit [DecidableEq ι] in
/-- A rule about calls is decided by looking at the command that comes next. -/
instance (cfg : A.Config) (e : A.Step) : Decidable (R.Allows cfg e) :=
  match e with
  | .start i => inferInstanceAs (Decidable (R.start i cfg.shared))
  | .call i ch =>
    match h : cfg.pending i with
    | some c =>
      decidable_of_iff (R.call i c ch cfg.shared)
        ⟨fun hc c' h' => Option.some.inj (h.symm.trans h') ▸ hc, fun hc => hc c h⟩
    | none => .isTrue fun c h' => by rw [h] at h'; cases h'
  | .env e => inferInstanceAs (Decidable (R.env e cfg.shared))
  | .unfold _ | .finish _ | .crash _ => .isTrue trivial

end Decidable

inductive Reachable (A : Actors ι G) (R : A.Rules) (g₀ : G) : A.Config → Prop
  | init : Reachable A R g₀ (A.init g₀)
  | step {cfg cfg' : A.Config} (e : A.Step) (h : Reachable A R g₀ cfg) (hR : R.Allows cfg e)
      (hn : A.next cfg e = some cfg') : Reachable A R g₀ cfg'

/-- Replay a list of events. -/
def replay (A : Actors ι G) : A.Config → List A.Step → Option A.Config
  | cfg, [] => some cfg
  | cfg, e :: es => (A.next cfg e).bind fun cfg' => A.replay cfg' es

/-- The rules allow every step of a replay. -/
def Rules.AllowsAll {A : Actors ι G} (R : A.Rules) : A.Config → List A.Step → Prop
  | _, [] => True
  | cfg, e :: es => R.Allows cfg e ∧ match A.next cfg e with
      | some cfg' => R.AllowsAll cfg' es
      | none => True

instance Rules.decidableAllowsAll {A : Actors ι G} {R : A.Rules}
    [∀ i g, Decidable (R.start i g)] [∀ i c ch g, Decidable (R.call i c ch g)]
    [∀ e g, Decidable (R.env e g)] :
    (cfg : A.Config) → (es : List A.Step) → Decidable (R.AllowsAll cfg es)
  | _, [] => .isTrue trivial
  | cfg, e :: es =>
    match h : A.next cfg e with
    | some cfg' =>
      have := Rules.decidableAllowsAll (R := R) cfg' es
      decidable_of_iff (R.Allows cfg e ∧ R.AllowsAll cfg' es) (by rw [Rules.AllowsAll, h])
    | none => decidable_of_iff (R.Allows cfg e) (by simp [Rules.AllowsAll, h])

theorem Rules.free_allowsAll {A : Actors ι G} (cfg : A.Config) (es : List A.Step) :
    (Rules.free A).AllowsAll cfg es := by
  induction es generalizing cfg with
  | nil => trivial
  | cons e es ih =>
    refine ⟨?_, ?_⟩
    · cases e <;> first | trivial | exact fun _ _ => trivial
    · split
      · exact ih _
      · trivial

theorem Reachable.replay {A : Actors ι G} {R : A.Rules} {g₀ : G} {cfg cfg' : A.Config}
    {es : List A.Step} (h : A.Reachable R g₀ cfg) (hR : R.AllowsAll cfg es)
    (hr : A.replay cfg es = some cfg') : A.Reachable R g₀ cfg' := by
  induction es generalizing cfg with
  | nil => cases hr; exact h
  | cons e es ih =>
    obtain ⟨cfg₁, hn, hr⟩ := Option.bind_eq_some_iff.1 hr
    obtain ⟨hok, hR⟩ := hR
    rw [hn] at hR
    exact ih (h.step e hok hn) hR hr

/-- A run under rules is a run. -/
theorem Reachable.free {A : Actors ι G} {R : A.Rules} {g₀ : G} {cfg : A.Config}
    (h : A.Reachable R g₀ cfg) : A.Reachable (.free A) g₀ cfg := by
  induction h with
  | init => exact .init
  | step e _ _ hn ih =>
    refine ih.step e ?_ hn
    cases e <;> first | trivial | exact fun _ _ => trivial

/-- What a list of steps leaves, as far as `f` looks at it. -/
def leaves {γ : Type} (A : Actors ι G) (g₀ : G) (es : List A.Step) (f : G → γ) : Option γ :=
  (A.replay (A.init g₀) es).map fun cfg => f cfg.shared

theorem Reachable.of_leaves {A : Actors ι G} {R : A.Rules} {g₀ : G} {es : List A.Step} {γ : Type}
    {f : G → γ} {x : γ} (hR : R.AllowsAll (A.init g₀) es) (h : A.leaves g₀ es f = some x) :
    ∃ cfg, A.Reachable R g₀ cfg ∧ f cfg.shared = x := by
  obtain ⟨cfg, hr, hx⟩ := Option.map_eq_some_iff.1 h
  exact ⟨cfg, Reachable.init.replay hR hr, hx⟩

/-- The obligations of a rely-guarantee proof. `rely i` is what process `i` can count on across
the steps of the others, `guard i c` when it may issue `c`, and `fresh i` what holds of the
state as long as `i` has not started. -/
structure Certificate (A : Actors ι G) (R : A.Rules) where
  inv : G → Prop
  rely : ι → G → G → Prop
  guard : (i : ι) → (A.sig i).Cmd → G → Prop
  fresh : ι → G → Prop
  rely_refl : ∀ i g, rely i g g
  rely_trans : ∀ i g₁ g₂ g₃, rely i g₁ g₂ → rely i g₂ g₃ → rely i g₁ g₃
  fresh_rely : ∀ i g g', inv g → fresh i g → rely i g g' → fresh i g'
  enter_ok : ∀ i g, inv g → fresh i g → R.start i g →
    inv (A.enter i g) ∧ ∀ j, j ≠ i → rely j g (A.enter i g)
  call_ok : ∀ i c ch g, inv g → guard i c g → R.call i c ch g →
    inv (A.respond i c ch g).2 ∧ ∀ j, j ≠ i → rely j g (A.respond i c ch g).2
  leave_ok : ∀ i g, inv g → inv (A.leave i g) ∧ ∀ j, j ≠ i → rely j g (A.leave i g)
  env_ok : ∀ e g, inv g → R.env e g → inv (A.env e g) ∧ ∀ j, rely j g (A.env e g)
  main_ok : ∀ i g, inv g → fresh i g → R.start i g → ∀ g', rely i (A.enter i g) g' →
    Prog.wp
      { inv, rely := rely i, guard := guard i
        exec := fun c g r g' => ∃ ch, R.call i c ch g ∧ A.respond i c ch g = (r, g') }
      (A.main i) (fun _ _ => True) g'

namespace Certificate

variable {A : Actors ι G} {R : A.Rules} (K : Certificate A R)

/-- What process `i` works under. -/
def contract (i : ι) : Contract (A.sig i) G where
  inv := K.inv
  rely := K.rely i
  guard := K.guard i
  exec c g r g' := ∃ ch, R.call i c ch g ∧ A.respond i c ch g = (r, g')

/-- What holds of one process between two of its steps. -/
def Ready (g : G) (i : ι) : Life (A.sig i) → Prop
  | .unborn => K.fresh i g
  | .running p => ∀ g', K.rely i g g' → Prog.wp (K.contract i) p (fun _ _ => True) g'
  | .gone => True

omit [DecidableEq ι] in
theorem Ready.rely {g g' : G} {i : ι} {l : Life (A.sig i)} (h : K.Ready g i l) (hi : K.inv g)
    (hr : K.rely i g g') : K.Ready g' i l := by
  cases l with
  | unborn => exact K.fresh_rely i g g' hi h hr
  | running p => exact fun g'' hr' => h g'' (K.rely_trans i _ _ _ hr hr')
  | gone => trivial

/-- The invariant of a configuration: the shared one, and every process is ready to go on. -/
def Good (cfg : A.Config) : Prop := K.inv cfg.shared ∧ ∀ i, K.Ready cfg.shared i (cfg.life i)

/-- What a step changes: at most one process moves and is ready to go on, and the others find
what they count on. -/
structure Moved (cfg cfg' : A.Config) (who : Option ι) : Prop where
  inv : K.inv cfg'.shared
  rely : ∀ j, who ≠ some j → K.rely j cfg.shared cfg'.shared
  life : ∀ j, who ≠ some j → cfg'.life j = cfg.life j
  ready : ∀ i, who = some i → K.Ready cfg'.shared i (cfg'.life i)

theorem Moved.set {cfg : A.Config} {i : ι} {l : Life (A.sig i)} {g : G} (hg : K.inv g)
    (hothers : ∀ j, j ≠ i → K.rely j cfg.shared g) (hi : K.Ready g i l) :
    K.Moved cfg (cfg.set i l g) (some i) where
  inv := hg
  rely j hj := hothers j fun h => hj (congrArg some h.symm)
  life j hj := Function.update_of_ne (fun h => hj (congrArg some h.symm)) _ _
  ready j hj := by
    cases hj
    simpa [Config.set] using hi

theorem Good.moved {cfg cfg' : A.Config} {e : A.Step} (h : K.Good cfg) (hR : R.Allows cfg e)
    (hn : A.next cfg e = some cfg') : ∃ who, K.Moved cfg cfg' who := by
  obtain ⟨hinv, hready⟩ := h
  cases e with
  | start i =>
    have hi := hready i
    simp only [Actors.next] at hn
    split at hn
    case h_1 hl =>
      cases hn
      rw [hl] at hi
      obtain ⟨h₁, h₂⟩ := K.enter_ok i _ hinv hi hR
      exact ⟨_, .set K h₁ h₂ fun g' hr => K.main_ok i _ hinv hi hR g' hr⟩
    case h_2 => cases hn
  | call i ch =>
    have hi := hready i
    simp only [Actors.next] at hn
    split at hn
    case h_1 c k hl =>
      cases hn
      rw [hl] at hi
      obtain ⟨hg, hk⟩ := hi _ (K.rely_refl i _) hinv
      have hc : R.call i c ch cfg.shared := hR c (by simp [Config.pending, hl])
      obtain ⟨h₁, h₂⟩ := K.call_ok i c ch _ hinv hg hc
      exact ⟨_, .set K h₁ h₂ fun g' hr => hk _ _ ⟨ch, hc, rfl⟩ h₁ g' hr⟩
    case h_2 => cases hn
  | unfold i =>
    have hi := hready i
    simp only [Actors.next] at hn
    split at hn
    case h_1 σ β body s k hl =>
      cases hn
      rw [hl] at hi
      exact ⟨_, .set K hinv (fun j _ => K.rely_refl j _) fun g' hr => Prog.wp_unfold (hi g' hr)⟩
    case h_2 => cases hn
  | finish i =>
    simp only [Actors.next] at hn
    split at hn
    case h_1 =>
      cases hn
      obtain ⟨h₁, h₂⟩ := K.leave_ok i _ hinv
      exact ⟨_, .set K h₁ h₂ trivial⟩
    case h_2 => cases hn
  | crash i =>
    simp only [Actors.next] at hn
    split at hn
    case h_1 =>
      cases hn
      obtain ⟨h₁, h₂⟩ := K.leave_ok i _ hinv
      exact ⟨_, .set K h₁ h₂ trivial⟩
    case h_2 => cases hn
  | env e =>
    cases hn
    obtain ⟨h₁, h₂⟩ := K.env_ok e _ hinv hR
    exact ⟨none, h₁, fun j _ => h₂ j, fun _ _ => rfl, nofun⟩

theorem Good.next {cfg cfg' : A.Config} {e : A.Step} (h : K.Good cfg) (hR : R.Allows cfg e)
    (hn : A.next cfg e = some cfg') : K.Good cfg' := by
  obtain ⟨who, hm⟩ := h.moved K hR hn
  refine ⟨hm.inv, fun j => ?_⟩
  by_cases hj : who = some j
  · exact hm.ready j hj
  · rw [hm.life j hj]
    exact (h.2 j).rely K h.1 (hm.rely j hj)

section Sound

variable {g₀ : G} (h₀ : K.inv g₀) (hfresh : ∀ i, K.fresh i g₀) {cfg : A.Config}
  (h : A.Reachable R g₀ cfg)

include h₀ hfresh h

theorem good : K.Good cfg := by
  induction h with
  | init => exact ⟨h₀, hfresh⟩
  | step e _ hR hn ih => exact ih.next K hR hn

/-- A certificate whose invariant holds at the start is an invariant of every run. -/
theorem sound : K.inv cfg.shared := (K.good h₀ hfresh h).1

/-- The next step moves at most one process. -/
theorem moved {e : A.Step} {cfg' : A.Config} (hR : R.Allows cfg e)
    (hn : A.next cfg e = some cfg') : ∃ who, K.Moved cfg cfg' who :=
  (K.good h₀ hfresh h).moved K hR hn

/-- A command about to be issued may be issued. -/
theorem guarded {i : ι} {c : (A.sig i).Cmd} (hc : cfg.pending i = some c) :
    K.guard i c cfg.shared := by
  obtain ⟨hinv, hready⟩ := K.good h₀ hfresh h
  have hi := hready i
  simp only [Config.pending] at hc
  split at hc
  case h_1 c' k hl =>
    cases hc
    rw [hl] at hi
    exact (hi _ (K.rely_refl i _) hinv).1
  case h_2 => cases hc

end Sound

end Certificate

end Actors

end Interact
