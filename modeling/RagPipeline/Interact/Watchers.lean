import RagPipeline.Interact.Actors

/-!
# Processes that only look

Beside the processes that share a state run others that read it, and write to a state of their
own. What is proved of the first holds with the others around; what the others need of the shared
state they get from that proof.

## Main definitions

* `Watchers`, `Actors.watched`: processes that look at a state, and all of them together.
* `Actors.Moves`: what one step of a process may do to the shared state.
* `WatchCertificate`: the obligations for the watchers, on top of a certificate for the others.

## Main results

* `WatchCertificate.sound`: both invariants hold in every reachable configuration.
-/
namespace Interact

namespace Prog

variable {S : Signature} {G H α : Type}

/-- A contract for a state that is a part of the whole. -/
theorem wp_comap {C : Contract S G} {D : Contract S H} (f : H → G)
    (hinv : ∀ x, D.inv x → C.inv (f x))
    (hguard : ∀ c x, D.inv x → C.guard c (f x) → D.guard c x)
    (hexec : ∀ c x r y, D.exec c x r y → C.exec c (f x) r (f y))
    (hrely : ∀ x y, D.rely x y → C.rely (f x) (f y)) (p : Prog S α) {Q : α → G → Prop} {x : H}
    (h : wp C p Q (f x)) : wp D p (fun a y => Q a (f y)) x := by
  induction p generalizing x with
  | ret a => exact fun hi => h (hinv x hi)
  | call c k ih =>
    intro hi
    obtain ⟨hg, h⟩ := h (hinv x hi)
    exact ⟨hguard c x hi hg, fun r x₁ hx hi₁ x₂ hr =>
      ih r (h r _ (hexec c x r x₁ hx) (hinv x₁ hi₁) _ (hrely x₁ x₂ hr))⟩
  | loop body s k ihb ihk =>
    intro hi
    obtain ⟨J, h₀, hJ⟩ := h (hinv x hi)
    refine ⟨fun s x => J s (f x), h₀, fun s x hs => wp_mono _ (ihb s (hJ s _ hs)) ?_⟩
    rintro (s' | b) y - h'
    · exact h'
    · exact ihk b h'

end Prog

/-- Processes that look at a state `G` and write to a state `H`. -/
structure Watchers (κ G H : Type) where
  sig : κ → Signature
  main : (k : κ) → Prog (sig k) Unit
  Choice : Type
  respond : (k : κ) → (c : (sig k).Cmd) → Choice → G → H → (sig k).Reply c × H

/-- How the watchers' commands may be answered. -/
abbrev Watchers.Rules {κ G H : Type} (W : Watchers κ G H) : Type :=
  (k : κ) → (W.sig k).Cmd → W.Choice → G → H → Prop

/-- What a watcher works under, whoever runs beside it. -/
def Watchers.contract {κ G H : Type} (W : Watchers κ G H) (R' : W.Rules) (k : κ)
    (inv : G × H → Prop) (rely : G × H → G × H → Prop) (guard : (W.sig k).Cmd → G × H → Prop) :
    Contract (W.sig k) (G × H) where
  inv := inv
  rely := rely
  guard := guard
  exec c x r y := ∃ ch, R' k c ch x.1 x.2 ∧
    ((W.respond k c ch x.1 x.2).1, x.1, (W.respond k c ch x.1 x.2).2) = (r, y)

namespace Actors

variable {ι κ G H : Type}

def watched (A : Actors ι G) (W : Watchers κ G H) : Actors (ι ⊕ κ) (G × H) where
  sig
    | .inl i => A.sig i
    | .inr k => W.sig k
  main
    | .inl i => A.main i
    | .inr k => W.main k
  Choice := A.Choice × W.Choice
  respond
    | .inl i, c, ch, x => ((A.respond i c ch.1 x.1).1, (A.respond i c ch.1 x.1).2, x.2)
    | .inr k, c, ch, x => ((W.respond k c ch.2 x.1 x.2).1, x.1, (W.respond k c ch.2 x.1 x.2).2)
  enter
    | .inl i, x => (A.enter i x.1, x.2)
    | .inr _, x => x
  leave
    | .inl i, x => (A.leave i x.1, x.2)
    | .inr _, x => x
  Env := A.Env
  env e x := (A.env e x.1, x.2)

def Rules.watched {A : Actors ι G} {W : Watchers κ G H} (R : A.Rules) (R' : W.Rules) :
    (A.watched W).Rules where
  start
    | .inl i, x => R.start i x.1
    | .inr _, _ => True
  call
    | .inl i, c, ch, x => R.call i c ch.1 x.1
    | .inr k, c, ch, x => R' k c ch.2 x.1 x.2
  env e x := R.env e x.1

section Decidable

variable {A : Actors ι G} {W : Watchers κ G H} {R : A.Rules} {R' : W.Rules}
  [hstart : ∀ i g, Decidable (R.start i g)] [hcall : ∀ i c ch g, Decidable (R.call i c ch g)]
  [henv : ∀ e g, Decidable (R.env e g)]
  [hwatch : ∀ (k : κ) (c : (W.sig k).Cmd) (ch : W.Choice) (g : G) (h : H),
    Decidable (R' k c ch g h)]

instance (i : ι ⊕ κ) (x : G × H) : Decidable ((R.watched R').start i x) :=
  match i with
  | .inl i => hstart i x.1
  | .inr _ => .isTrue trivial

instance (i : ι ⊕ κ) (c : ((A.watched W).sig i).Cmd) (ch : (A.watched W).Choice) (x : G × H) :
    Decidable ((R.watched R').call i c ch x) :=
  match i with
  | .inl i => hcall i c ch.1 x.1
  | .inr k => hwatch k c ch.2 x.1 x.2

instance (e : (A.watched W).Env) (x : G × H) : Decidable ((R.watched R').env e x) := henv e x.1

end Decidable

/-- What one step of a process, or of the surroundings, may make of the shared state. -/
inductive Moves (A : Actors ι G) (R : A.Rules) (g : G) : G → Prop
  | enter (i : ι) (hR : R.start i g) : Moves A R g (A.enter i g)
  | call (i : ι) (c : (A.sig i).Cmd) (ch : A.Choice) (hR : R.call i c ch g) :
      Moves A R g (A.respond i c ch g).2
  | leave (i : ι) : Moves A R g (A.leave i g)
  | env (e : A.Env) (hR : R.env e g) : Moves A R g (A.env e g)

variable {A : Actors ι G} {W : Watchers κ G H} {R : A.Rules}

/-- The obligations for the watchers. `K` is what is known of the others. -/
structure WatchCertificate (K : Certificate A R) (W : Watchers κ G H) (R' : W.Rules) where
  inv : G → H → Prop
  rely : κ → G × H → G × H → Prop
  guard : (k : κ) → (W.sig k).Cmd → G × H → Prop
  fresh : κ → H → Prop
  rely_refl : ∀ k x, rely k x x
  rely_trans : ∀ k x y z, rely k x y → rely k y z → rely k x z
  fresh_rely : ∀ k x y, fresh k x.2 → rely k x y → fresh k y.2
  move_ok : ∀ g g' h, K.inv g → K.inv g' → A.Moves R g g' → inv g h →
    inv g' h ∧ ∀ k, rely k (g, h) (g', h)
  call_ok : ∀ k c ch g h, K.inv g → inv g h → guard k c (g, h) → R' k c ch g h →
    inv g (W.respond k c ch g h).2 ∧ ∀ j, j ≠ k → rely j (g, h) (g, (W.respond k c ch g h).2)
  main_ok : ∀ k g h, K.inv g → inv g h → fresh k h →
    Prog.wp (W.contract R' k (fun x => K.inv x.1 ∧ inv x.1 x.2) (rely k) (guard k)) (W.main k)
      (fun _ _ => True) (g, h)

namespace WatchCertificate

variable {K : Certificate A R} {R' : W.Rules} (V : WatchCertificate K W R')

/-- What a process, or a watcher, can count on. -/
def relyAll : ι ⊕ κ → G × H → G × H → Prop
  | .inl i, x, y => K.rely i x.1 y.1
  | .inr k, x, y => V.rely k x y

theorem relyAll_refl (j : ι ⊕ κ) (x : G × H) : V.relyAll j x x := by
  cases j with
  | inl i => exact K.rely_refl i x.1
  | inr k => exact V.rely_refl k x

theorem relyAll_trans (j : ι ⊕ κ) (x y z : G × H) (h₁ : V.relyAll j x y) (h₂ : V.relyAll j y z) :
    V.relyAll j x z := by
  cases j with
  | inl i => exact K.rely_trans i x.1 y.1 z.1 h₁ h₂
  | inr k => exact V.rely_trans k x y z h₁ h₂

/-- A step of process `who`, or of the surroundings. -/
theorem moved (who : Option ι) {x : G × H} {g' : G} (hi : K.inv x.1 ∧ V.inv x.1 x.2)
    (hm : A.Moves R x.1 g') (h : K.inv g' ∧ ∀ i, some i ≠ who → K.rely i x.1 g') :
    (K.inv g' ∧ V.inv g' x.2) ∧
      ∀ j : ι ⊕ κ, (∀ i, who = some i → j ≠ .inl i) → V.relyAll j x (g', x.2) := by
  obtain ⟨h₁, h₂⟩ := V.move_ok x.1 g' x.2 hi.1 h.1 hm hi.2
  refine ⟨⟨h.1, h₁⟩, fun j hj => ?_⟩
  cases j with
  | inl i => exact h.2 i fun hw => hj i hw.symm rfl
  | inr k => exact h₂ k

theorem enter_all (i : ι) (x : G × H) (hi : K.inv x.1 ∧ V.inv x.1 x.2) (hf : K.fresh i x.1)
    (hR : R.start i x.1) : (K.inv (A.enter i x.1) ∧ V.inv (A.enter i x.1) x.2) ∧
      ∀ j : ι ⊕ κ, j ≠ .inl i → V.relyAll j x (A.enter i x.1, x.2) := by
  obtain ⟨h₁, h₂⟩ := K.enter_ok i x.1 hi.1 hf hR
  obtain ⟨h₃, h₄⟩ := V.moved (some i) hi (.enter i hR)
    ⟨h₁, fun j hj => h₂ j fun h => hj (congrArg some h)⟩
  exact ⟨h₃, fun j hj => h₄ j fun i' hi' => by cases hi'; exact hj⟩

theorem call_all (i : ι) (c : (A.sig i).Cmd) (ch : A.Choice) (x : G × H)
    (hi : K.inv x.1 ∧ V.inv x.1 x.2) (hg : K.guard i c x.1) (hR : R.call i c ch x.1) :
    (K.inv (A.respond i c ch x.1).2 ∧ V.inv (A.respond i c ch x.1).2 x.2) ∧
      ∀ j : ι ⊕ κ, j ≠ .inl i → V.relyAll j x ((A.respond i c ch x.1).2, x.2) := by
  obtain ⟨h₁, h₂⟩ := K.call_ok i c ch x.1 hi.1 hg hR
  obtain ⟨h₃, h₄⟩ := V.moved (some i) hi (.call i c ch hR)
    ⟨h₁, fun j hj => h₂ j fun h => hj (congrArg some h)⟩
  exact ⟨h₃, fun j hj => h₄ j fun i' hi' => by cases hi'; exact hj⟩

theorem leave_all (i : ι) (x : G × H) (hi : K.inv x.1 ∧ V.inv x.1 x.2) :
    (K.inv (A.leave i x.1) ∧ V.inv (A.leave i x.1) x.2) ∧
      ∀ j : ι ⊕ κ, j ≠ .inl i → V.relyAll j x (A.leave i x.1, x.2) := by
  obtain ⟨h₁, h₂⟩ := K.leave_ok i x.1 hi.1
  obtain ⟨h₃, h₄⟩ := V.moved (some i) hi (.leave i)
    ⟨h₁, fun j hj => h₂ j fun h => hj (congrArg some h)⟩
  exact ⟨h₃, fun j hj => h₄ j fun i' hi' => by cases hi'; exact hj⟩

theorem env_all (e : A.Env) (x : G × H) (hi : K.inv x.1 ∧ V.inv x.1 x.2) (hR : R.env e x.1) :
    (K.inv (A.env e x.1) ∧ V.inv (A.env e x.1) x.2) ∧
      ∀ j : ι ⊕ κ, V.relyAll j x (A.env e x.1, x.2) := by
  obtain ⟨h₁, h₂⟩ := K.env_ok e x.1 hi.1 hR
  obtain ⟨h₃, h₄⟩ := V.moved none hi (.env e hR) ⟨h₁, fun j _ => h₂ j⟩
  exact ⟨h₃, fun j => h₄ j nofun⟩

theorem watch_all (k : κ) (c : (W.sig k).Cmd) (ch : W.Choice) (x : G × H)
    (hi : K.inv x.1 ∧ V.inv x.1 x.2) (hg : V.guard k c x) (hR : R' k c ch x.1 x.2) :
    (K.inv x.1 ∧ V.inv x.1 (W.respond k c ch x.1 x.2).2) ∧
      ∀ j : ι ⊕ κ, j ≠ .inr k → V.relyAll j x (x.1, (W.respond k c ch x.1 x.2).2) := by
  obtain ⟨h₁, h₂⟩ := V.call_ok k c ch x.1 x.2 hi.1 hi.2 hg hR
  refine ⟨⟨hi.1, h₁⟩, fun j hj => ?_⟩
  cases j with
  | inl j => exact K.rely_refl j x.1
  | inr j => exact h₂ j fun h => hj (congrArg Sum.inr h)

/-- What a process works under. -/
def processContract (i : ι) : Contract (A.sig i) (G × H) where
  inv x := K.inv x.1 ∧ V.inv x.1 x.2
  rely x y := K.rely i x.1 y.1
  guard c x := K.guard i c x.1
  exec c x r y := ∃ ch : A.Choice × W.Choice, R.call i c ch.1 x.1 ∧
    ((A.respond i c ch.1 x.1).1, (A.respond i c ch.1 x.1).2, x.2) = (r, y)

theorem main_process (i : ι) (x : G × H) (hi : K.inv x.1 ∧ V.inv x.1 x.2) (hf : K.fresh i x.1)
    (hR : R.start i x.1) (y : G × H) (hr : K.rely i (A.enter i x.1) y.1) :
    Prog.wp (V.processContract i) (A.main i) (fun _ _ => True) y := by
  refine Prog.wp_comap (C := K.contract i) (D := V.processContract i) Prod.fst
    (fun _ hi => hi.1) (fun _ _ _ hg => hg) ?_ (fun _ _ hr => hr) _
    (K.main_ok i x.1 hi.1 hf hR y.1 hr)
  rintro c x r y ⟨ch, hR, hx⟩
  cases hx
  exact ⟨ch.1, hR, rfl⟩

def contract (k : κ) : Contract (W.sig k) (G × H) :=
  W.contract R' k (fun x => K.inv x.1 ∧ V.inv x.1 x.2) (V.rely k) (V.guard k)

/-- What a watcher works under among all of them. -/
def watchContract (k : κ) : Contract (W.sig k) (G × H) where
  inv x := K.inv x.1 ∧ V.inv x.1 x.2
  rely := V.rely k
  guard := V.guard k
  exec c x r y := ∃ ch : A.Choice × W.Choice, R' k c ch.2 x.1 x.2 ∧
    ((W.respond k c ch.2 x.1 x.2).1, x.1, (W.respond k c ch.2 x.1 x.2).2) = (r, y)

theorem main_watcher (k : κ) (x : G × H) (hf : V.fresh k x.2) (y : G × H) (hr : V.rely k x y) :
    Prog.wp (V.watchContract k) (W.main k) (fun _ _ => True) y := by
  refine Prog.wp_of_inv fun hi => ?_
  have hmain := V.main_ok k y.1 y.2 hi.1 hi.2 (V.fresh_rely k x y hf hr)
  refine Prog.wp_weaken (C := V.contract k) (D := V.watchContract k) (fun _ => Iff.rfl)
    (fun _ _ hg => hg) ?_ (fun _ _ hr => hr) _ hmain
  rintro c x r y ⟨ch, hR, hx⟩
  exact ⟨ch.2, hR, hx⟩

/-- A certificate for all of them. -/
def certificate : Certificate (A.watched W) (R.watched R') where
  inv x := K.inv x.1 ∧ V.inv x.1 x.2
  rely := V.relyAll
  guard
    | .inl i, c, x => K.guard i c x.1
    | .inr k, c, x => V.guard k c x
  fresh
    | .inl i, x => K.fresh i x.1
    | .inr k, x => V.fresh k x.2
  rely_refl := V.relyAll_refl
  rely_trans := V.relyAll_trans
  fresh_rely
    | .inl i, x, y, hi, hf, hr => K.fresh_rely i x.1 y.1 hi.1 hf hr
    | .inr k, x, y, _, hf, hr => V.fresh_rely k x y hf hr
  enter_ok
    | .inl i, x, hi, hf, hR => V.enter_all i x hi hf hR
    | .inr _, x, hi, _, _ => ⟨hi, fun j _ => V.relyAll_refl j x⟩
  call_ok
    | .inl i, c, ch, x, hi, hg, hR => V.call_all i c ch.1 x hi hg hR
    | .inr k, c, ch, x, hi, hg, hR => V.watch_all k c ch.2 x hi hg hR
  leave_ok
    | .inl i, x, hi => V.leave_all i x hi
    | .inr _, x, hi => ⟨hi, fun j _ => V.relyAll_refl j x⟩
  env_ok := V.env_all
  main_ok
    | .inl i, x, hi, hf, hR, y, hr => V.main_process i x hi hf hR y hr
    | .inr k, x, _, hf, _, y, hr => V.main_watcher k x hf y hr

section Sound

variable [DecidableEq ι] [DecidableEq κ] {g₀ : G} {h₀ : H} (hK : K.inv g₀)
  (hKfresh : ∀ i, K.fresh i g₀) (hV : V.inv g₀ h₀) (hVfresh : ∀ k, V.fresh k h₀)
  {cfg : (A.watched W).Config} (h : (A.watched W).Reachable (R.watched R') (g₀, h₀) cfg)

include hK hKfresh hV hVfresh h

theorem sound : K.inv cfg.shared.1 ∧ V.inv cfg.shared.1 cfg.shared.2 := by
  refine V.certificate.sound ⟨hK, hV⟩ (fun i => ?_) h
  cases i with
  | inl i => exact hKfresh i
  | inr k => exact hVfresh k

end Sound

end WatchCertificate

end Actors

end Interact
