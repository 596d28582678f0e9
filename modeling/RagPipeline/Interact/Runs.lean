import RagPipeline.Interact.Actors
import RagPipeline.Interact.Method

/-!
# Runs that exist

`wp` bounds what a program may do whatever it is answered. A run is one way it can go: answers that
are possible, and what they lead to.

## Main definitions

* `Prog.Runs`: from a program and a state to what is left of the program and the state by then.
* `Prog.Gets`: the states that a program can come to.

## Main results

* `Prog.Runs.bind`: a run of a part is a run of the whole.
* `Actors.Reachable.of_runs`: a process can go where its program runs to.
-/
namespace Interact

namespace Prog

variable {S : Signature} {G α β γ : Type}

inductive Runs (exec : (c : S.Cmd) → G → S.Reply c → G → Prop) {α : Type} :
    Prog S α → G → Prog S α → G → Prop
  | refl (p : Prog S α) (g : G) : Runs exec p g p g
  | call {c : S.Cmd} {k : S.Reply c → Prog S α} {r : S.Reply c} {g g₁ g' : G} {p' : Prog S α}
      (hx : exec c g r g₁) (h : Runs exec (k r) g₁ p' g') : Runs exec (.call c k) g p' g'
  | unfold {σ τ : Type} {body : σ → Prog S (σ ⊕ τ)} {s : σ} {k : τ → Prog S α} {g g' : G}
      {p' : Prog S α} (h : Runs exec (unfold body k s) g p' g') : Runs exec (.loop body s k) g p' g'

namespace Runs

variable {exec : (c : S.Cmd) → G → S.Reply c → G → Prop} {p p' p'' : Prog S α} {g g' g'' : G}

theorem trans (h : Runs exec p g p' g') (h' : Runs exec p' g' p'' g'') : Runs exec p g p'' g'' := by
  induction h with
  | refl => exact h'
  | call hx _ ih => exact .call hx (ih h')
  | unfold _ ih => exact .unfold (ih h')

theorem bind (h : Runs exec p g p' g') (f : α → Prog S β) :
    Runs exec (p.bind f) g (p'.bind f) g' := by
  induction h with
  | refl => exact .refl _ _
  | call hx _ ih => exact .call hx ih
  | unfold _ ih =>
    rw [unfold_bind] at ih
    exact .unfold ih

/-- A run keeps what is to be shown of the rest. -/
theorem wp {C : Contract S G} {Q : α → G → Prop} (hr : Runs C.exec p g p' g')
    (hinv : ∀ g, C.inv g) (hrely : ∀ g, C.rely g g) (h : Prog.wp C p Q g) :
    Prog.wp C p' Q g' := by
  induction hr with
  | refl => exact h
  | call hx _ ih => exact ih ((h (hinv _)).2 _ _ hx (hinv _) _ (hrely _))
  | unfold _ ih => exact ih (wp_unfold h)

/-- What a run returns. -/
theorem post {C : Contract S G} {Q : α → G → Prop} {a : α} (hr : Runs C.exec p g (.ret a) g')
    (hinv : ∀ g, C.inv g) (hrely : ∀ g, C.rely g g) (h : Prog.wp C p Q g) : Q a g' :=
  hr.wp hinv hrely h (hinv g')

end Runs

/-- The program can come to that state. -/
def Gets (exec : (c : S.Cmd) → G → S.Reply c → G → Prop) (p : Prog S α) (g g' : G) : Prop :=
  ∃ p', Runs exec p g p' g'

section Gets

variable {exec : (c : S.Cmd) → G → S.Reply c → G → Prop} {p : Prog S α} {g g₁ g' : G}

theorem gets_refl : Gets exec p g g := ⟨p, .refl p g⟩

theorem gets_call {c : S.Cmd} {k : S.Reply c → Prog S α} {r : S.Reply c} (hx : exec c g r g₁)
    (h : Gets exec (k r) g₁ g') : Gets exec (.call c k) g g' :=
  h.imp fun _ h => .call hx h

theorem gets_bind (h : Gets exec p g g') (f : α → Prog S β) : Gets exec (p.bind f) g g' := by
  obtain ⟨p', h⟩ := h
  exact ⟨_, h.bind f⟩

theorem gets_of_runs {p' : Prog S α} (h : Runs exec p g p' g₁) (h' : Gets exec p' g₁ g') :
    Gets exec p g g' :=
  h'.imp fun _ h' => h.trans h'

theorem gets_iterate {σ : Type} {body : σ → Prog S (σ ⊕ β)} {s : σ} (h : Gets exec (body s) g g') :
    Gets exec (iterate body s) g g' :=
  (gets_bind h _).imp fun _ h => .unfold h

end Gets

end Prog

namespace Method

open Prog

variable {S : Signature} {G σ ε α β : Type} {exec : (c : S.Cmd) → G → S.Reply c → G → Prop}
  {s s' : σ} {g g₁ g' : G}

/-- A first part that ends, and then the rest. -/
theorem gets_bind {m : Method S σ ε β} {f : β → Method S σ ε α} {b : β}
    (hm : Runs exec (m s) g (.ret (.ok b, s')) g₁) (hf : Gets exec (f b s') g₁ g') :
    Gets exec ((m >>= f) s) g g' :=
  gets_of_runs (hm.bind _) hf

theorem gets_tryExcept {m : Method S σ ε α} {handler : ε → Method S σ ε α}
    (h : Gets exec (m s) g g') : Gets exec (tryExcept m handler s) g g' :=
  Prog.gets_bind h _

end Method

namespace Actors

open Prog

variable {ι G : Type} [DecidableEq ι] {A : Actors ι G} {R : A.Rules} {g₀ : G} {i : ι}

/-- A process can go where its program runs to. -/
theorem Reachable.of_runs {cfg : A.Config} {p p' : Prog (A.sig i) Unit} {g g' : G}
    (hr : Runs (fun c g r g' => ∃ ch, R.call i c ch g ∧ A.respond i c ch g = (r, g')) p g p' g')
    (h : A.Reachable R g₀ cfg) (hlife : cfg.life i = .running p) (hg : cfg.shared = g) :
    ∃ cfg', A.Reachable R g₀ cfg' ∧ cfg'.life i = .running p' ∧ cfg'.shared = g' := by
  induction hr generalizing cfg with
  | refl => exact ⟨cfg, h, hlife, hg⟩
  | @call c k r g g₁ _ _ hx _ ih =>
    obtain ⟨ch, hR, hresp⟩ := hx
    have hn : A.next cfg (.call i ch) = some (cfg.set i (.running (k r)) g₁) := by
      simp only [Actors.next, hlife, hg, hresp]
    refine ih (h.step (.call i ch) (fun c' hc => ?_) hn) (Function.update_self ..) rfl
    rw [Config.pending, hlife] at hc
    cases hc
    exact hg ▸ hR
  | @unfold σ τ body s k g _ _ _ ih =>
    have hn : A.next cfg (.unfold i) =
        some (cfg.set i (.running (Prog.unfold body k s)) cfg.shared) := by
      simp only [Actors.next, hlife]
    exact ih (h.step (.unfold i) trivial hn) (Function.update_self ..) hg

/-- A process alone. -/
theorem Reachable.of_gets {g' : G} (hstart : R.start i g₀)
    (h : Gets (fun c g r g' => ∃ ch, R.call i c ch g ∧ A.respond i c ch g = (r, g')) (A.main i)
      (A.enter i g₀) g') : ∃ cfg, A.Reachable R g₀ cfg ∧ cfg.shared = g' := by
  obtain ⟨p', hr⟩ := h
  have hn : A.next (A.init g₀) (.start i) =
      some ((A.init g₀).set i (.running (A.main i)) (A.enter i g₀)) := rfl
  have hfirst : A.Reachable R g₀ _ := Reachable.init.step (.start i) hstart hn
  obtain ⟨cfg, hreach, -, hshared⟩ := hfirst.of_runs hr (Function.update_self ..) rfl
  exact ⟨cfg, hreach, hshared⟩

end Actors

end Interact
