import RagPipeline.Interact.Program

/-!
# Contracts for programs that share a state

A program runs among others over one shared state. Its contract names what holds of that state
in every reachable configuration, what the others may do between two of its commands, which
states it may issue a command in, and what a command may do.

`wp C p Q g` reads: started in `g`, every command `p` issues is issued in a state that permits
it, and if `p` ends it ends in a value and a state related by `Q`, whatever replies come and
whatever the others do in between. Interference is taken after each command, so a fact is worth
carrying only if `rely` preserves it.

## Main results

* `wp_mono`, `wp_bind`, `wp_perform`, `wp_iterate`: the rules a proof walks along a program with.
* `wp_unfold`: a loop and its unfolding have the same obligations.
* `wp_interpret`: a proof about abstract commands carries over to the programs that implement
  them.
-/
namespace Interact

/-- The shared-state obligations of one program. -/
structure Contract (S : Signature) (G : Type) where
  inv : G → Prop
  rely : G → G → Prop
  guard : S.Cmd → G → Prop
  exec : (c : S.Cmd) → G → S.Reply c → G → Prop

/-- Anything goes. -/
def Contract.any {S : Signature} : Contract S Unit :=
  ⟨fun _ => True, fun _ _ => True, fun _ _ => True, fun _ _ _ _ => True⟩

namespace Prog

variable {S T : Signature} {G α β σ : Type}

/-- Every clause may assume the invariant: it is looked at only in reachable states. -/
def wp (C : Contract S G) : {α : Type} → Prog S α → (α → G → Prop) → G → Prop
  | _, ret a, Q, g => C.inv g → Q a g
  | _, call c k, Q, g => C.inv g → C.guard c g ∧ ∀ r g₁, C.exec c g r g₁ → C.inv g₁ →
      ∀ g₂, C.rely g₁ g₂ → wp C (k r) Q g₂
  | _, @loop _ _ σ _ body s k, Q, g => C.inv g → ∃ J : σ → G → Prop, J s g ∧ ∀ s g, J s g →
      wp C (body s) (fun x g => match x with
        | .inl s => J s g
        | .inr b => wp C (k b) Q g) g

variable {C : Contract S G}

theorem wp_of_inv {p : Prog S α} {Q : α → G → Prop} {g : G} (h : C.inv g → wp C p Q g) :
    wp C p Q g := by
  cases p <;> exact fun hi => h hi hi

theorem wp_ret {a : α} {Q : α → G → Prop} {g : G} (h : Q a g) : wp C (ret a) Q g := fun _ => h

theorem wp_mono (p : Prog S α) {Q R : α → G → Prop} {g : G} (h : wp C p Q g)
    (hQ : ∀ a g, C.inv g → Q a g → R a g) : wp C p R g := by
  induction p generalizing g with
  | ret a => exact fun hi => hQ _ _ hi (h hi)
  | call c k ih =>
    intro hi
    obtain ⟨hg, h⟩ := h hi
    exact ⟨hg, fun r g₁ hx hi₁ g₂ hr => ih r (h r g₁ hx hi₁ g₂ hr) hQ⟩
  | loop body s k ihb ihk =>
    intro hi
    obtain ⟨J, h₀, hJ⟩ := h hi
    refine ⟨J, h₀, fun s g hs => ihb s (hJ s g hs) ?_⟩
    rintro (s' | b) g' - h'
    · exact h'
    · exact ihk b h' hQ

theorem wp_bind {p : Prog S α} {f : α → Prog S β} {Q : β → G → Prop} {g : G}
    (h : wp C p (fun a g => wp C (f a) Q g) g) : wp C (p.bind f) Q g := by
  induction p generalizing g with
  | ret a => exact wp_of_inv h
  | call c k ih =>
    intro hi
    obtain ⟨hg, h⟩ := h hi
    exact ⟨hg, fun r g₁ hx hi₁ g₂ hr => ih r (h r g₁ hx hi₁ g₂ hr)⟩
  | loop body s k _ ihk =>
    intro hi
    obtain ⟨J, h₀, hJ⟩ := h hi
    refine ⟨J, h₀, fun s g hs => wp_mono _ (hJ s g hs) ?_⟩
    rintro (s' | b) g' - h'
    · exact h'
    · exact ihk b h'

/-- A part whose result does not matter, and then the rest. -/
theorem wp_seq {p : Prog S α} {f : α → Prog S β} {Q : β → G → Prop} {g : G}
    (hp : wp C p (fun _ _ => True) g) (hf : ∀ a g, wp C (f a) Q g) : wp C (p.bind f) Q g :=
  wp_bind (wp_mono _ hp fun a g _ _ => hf a g)

theorem wp_perform {c : S.Cmd} {Q : S.Reply c → G → Prop} {g : G}
    (hg : C.inv g → C.guard c g)
    (h : ∀ r g₁ g₂, C.inv g → C.exec c g r g₁ → C.inv g₁ → C.rely g₁ g₂ → Q r g₂) :
    wp C (perform c) Q g :=
  fun hi => ⟨hg hi, fun r g₁ hx hi₁ g₂ hr => wp_ret (h r g₁ g₂ hi hx hi₁ hr)⟩

theorem wp_perform_bind {c : S.Cmd} {f : S.Reply c → Prog S α} {Q : α → G → Prop} {g : G}
    (hg : C.inv g → C.guard c g)
    (h : ∀ r g₁ g₂, C.inv g → C.exec c g r g₁ → C.inv g₁ → C.rely g₁ g₂ → wp C (f r) Q g₂) :
    wp C (perform c >>= f) Q g :=
  fun hi => ⟨hg hi, fun r g₁ hx hi₁ g₂ hr => h r g₁ g₂ hi hx hi₁ hr⟩

theorem wp_ite {b : Prop} [Decidable b] {p q : Prog S α} {Q : α → G → Prop} {g : G}
    (ht : b → wp C p Q g) (hf : ¬ b → wp C q Q g) : wp C (if b then p else q) Q g := by
  split
  · exact ht ‹b›
  · exact hf ‹¬ b›

/-- A program that may issue any of its commands anywhere has no obligations. -/
theorem wp_of_free (p : Prog S α) {g : G} (h : ∀ c g, C.inv g → C.guard c g) :
    wp C p (fun _ _ => True) g := by
  induction p generalizing g with
  | ret a => exact fun _ => trivial
  | call c k ih => exact fun hi => ⟨h c g hi, fun r _ _ _ _ _ => ih r⟩
  | loop body s k ihb ihk =>
    refine fun _ => ⟨fun _ _ => True, trivial, fun s g _ => wp_mono _ (ihb s) ?_⟩
    rintro (s' | b) g' - -
    · trivial
    · exact ihk b

/-- Whatever it is answered, a program issues such commands only. -/
def Issues (P : S.Cmd → Prop) : {α : Type} → Prog S α → Prop
  | _, ret _ => True
  | _, call c k => P c ∧ ∀ r, Issues P (k r)
  | _, loop body _ k => (∀ s, Issues P (body s)) ∧ ∀ b, Issues P (k b)

theorem issues_bind {P : S.Cmd → Prop} {p : Prog S α} {f : α → Prog S β} (hp : Issues P p)
    (hf : ∀ a, Issues P (f a)) : Issues P (p.bind f) := by
  induction p with
  | ret a => exact hf a
  | call c k ih => exact ⟨hp.1, fun r => ih r (hp.2 r) hf⟩
  | loop body s k _ ihk => exact ⟨hp.1, fun b => ihk b (hp.2 b) hf⟩

theorem issues_pure {P : S.Cmd → Prop} {a : α} : Issues P (pure a : Prog S α) := trivial

theorem issues_do {P : S.Cmd → Prop} {p : Prog S α} {f : α → Prog S β} (hp : Issues P p)
    (hf : ∀ a, Issues P (f a)) : Issues P (p >>= f) :=
  issues_bind hp hf

theorem issues_perform {P : S.Cmd → Prop} {c : S.Cmd} (hc : P c) : Issues P (perform c) :=
  ⟨hc, fun _ => trivial⟩

theorem issues_iterate {P : S.Cmd → Prop} {body : σ → Prog S (σ ⊕ β)} {s : σ}
    (hb : ∀ s, Issues P (body s)) : Issues P (iterate body s) :=
  ⟨hb, fun _ => trivial⟩

theorem issues_ite {P : S.Cmd → Prop} {b : Prop} [Decidable b] {p q : Prog S α}
    (hp : Issues P p) (hq : Issues P q) : Issues P (if b then p else q) := by
  split
  · exact hp
  · exact hq

theorem issues_any (p : Prog S α) : Issues (fun _ => True) p := by
  induction p with
  | ret a => trivial
  | call c k ih => exact ⟨trivial, ih⟩
  | loop body s k ihb ihk => exact ⟨ihb, ihk⟩

theorem issues_interpret {P : S.Cmd → Prop} {Q : T.Cmd → Prop}
    {h : (c : S.Cmd) → Prog T (S.Reply c)} {p : Prog S α} (hp : Issues P p)
    (hQ : ∀ c, P c → Issues Q (h c)) : Issues Q (p.interpret h) := by
  induction p with
  | ret a => trivial
  | call c k ih => exact issues_bind (hQ c hp.1) fun r => ih r (hp.2 r)
  | loop body s k ihb ihk => exact ⟨fun s => ihb s (hp.1 s), fun b => ihk b (hp.2 b)⟩

/-- A program keeps what its commands keep and are permitted under. -/
theorem wp_of_issues_keeping {P : S.Cmd → Prop} {I : G → Prop} {p : Prog S α} {g : G}
    (hp : Issues P p)
    (h : ∀ c g, P c → C.inv g → I g → C.guard c g ∧
      ∀ r g₁ g₂, C.exec c g r g₁ → C.inv g₁ → C.rely g₁ g₂ → I g₂)
    (hg : I g) : wp C p (fun _ => I) g := by
  induction p generalizing g with
  | ret a => exact fun _ => hg
  | call c k ih =>
    intro hi
    obtain ⟨hc, hk⟩ := h c g hp.1 hi hg
    exact ⟨hc, fun r g₁ hx hi₁ g₂ hr => ih r (hp.2 r) (hk r g₁ g₂ hx hi₁ hr)⟩
  | loop body s k ihb ihk =>
    refine fun _ => ⟨fun _ => I, hg, fun s g hs => wp_mono _ (ihb s (hp.1 s) hs) ?_⟩
    rintro (s' | b) g' - h'
    · exact h'
    · exact ihk b (hp.2 b) h'

/-- A program whose commands are permitted anywhere has no obligations. -/
theorem wp_of_issues {P : S.Cmd → Prop} {p : Prog S α} {g : G} (hp : Issues P p)
    (h : ∀ c g, P c → C.inv g → C.guard c g) : wp C p (fun _ _ => True) g :=
  wp_of_issues_keeping (I := fun _ => True) hp
    (fun c g hc hi _ => ⟨h c g hc hi, fun _ _ _ _ _ _ => trivial⟩) trivial

/-- What every command and the others preserve is preserved along a program. -/
theorem wp_preserves {p : Prog S α} {Q : α → G → Prop} {P : G → Prop} {g : G}
    (hP : ∀ c g r g₁ g₂, P g → C.inv g → C.guard c g → C.exec c g r g₁ → C.inv g₁ →
      C.rely g₁ g₂ → P g₂)
    (h : wp C p Q g) (hg : P g) : wp C p (fun a g => Q a g ∧ P g) g := by
  induction p generalizing g with
  | ret a => exact fun hi => ⟨h hi, hg⟩
  | call c k ih =>
    intro hi
    obtain ⟨hc, h⟩ := h hi
    exact ⟨hc, fun r g₁ hx hi₁ g₂ hr =>
      ih r (h r g₁ hx hi₁ g₂ hr) (hP c g r g₁ g₂ hg hi hc hx hi₁ hr)⟩
  | loop body s k ihb ihk =>
    intro hi
    obtain ⟨J, h₀, hJ⟩ := h hi
    refine ⟨fun s g => J s g ∧ P g, ⟨h₀, hg⟩, fun s g hs => ?_⟩
    refine wp_mono _ (ihb s (hJ s g hs.1) hs.2) ?_
    rintro (s' | b) g' - ⟨h₁, h₂⟩
    · exact ⟨h₁, h₂⟩
    · exact ihk b h₁ h₂

/-- What a program comes to whatever it is answered, it comes to wherever its commands are
permitted. -/
theorem wp_of_any {p : Prog S α} {Q : α → Prop} {P : G → Prop} {g : G}
    (hP : ∀ c g, C.inv g → P g → C.guard c g ∧
      ∀ r g₁ g₂, C.exec c g r g₁ → C.inv g₁ → C.rely g₁ g₂ → P g₂)
    (h : wp .any p (fun a _ => Q a) ()) (hg : P g) : wp C p (fun a g => Q a ∧ P g) g := by
  induction p generalizing g with
  | ret a => exact fun _ => ⟨h trivial, hg⟩
  | call c k ih =>
    intro hi
    obtain ⟨hc, hk⟩ := hP c g hi hg
    obtain ⟨-, h⟩ := h trivial
    exact ⟨hc, fun r g₁ hx hi₁ g₂ hr =>
      ih r (h r () trivial trivial () trivial) (hk r g₁ g₂ hx hi₁ hr)⟩
  | loop body s k ihb ihk =>
    intro hi
    obtain ⟨J, h₀, hJ⟩ := h trivial
    refine ⟨fun s g => J s () ∧ P g, ⟨h₀, hg⟩, fun s g hs => ?_⟩
    have hbody : wp .any (body s) (fun x _ => match x with
        | .inl s => J s ()
        | .inr b => wp .any (k b) (fun a _ => Q a) ()) () :=
      hJ s () hs.1
    refine wp_mono _ (ihb s hbody hs.2) ?_
    rintro (s' | b) g' - ⟨h₁, h₂⟩
    · exact ⟨h₁, h₂⟩
    · exact ihk b h₁ h₂

/-- Loop rule: the invariant holds at the start, and each pass keeps it or leaves the loop. -/
theorem wp_iterate {body : σ → Prog S (σ ⊕ β)} {s : σ} {Q : β → G → Prop} {g : G}
    (J : σ → G → Prop) (h₀ : J s g)
    (hJ : ∀ s g, J s g → wp C (body s) (fun x g => match x with
      | .inl s => J s g
      | .inr b => Q b g) g) : wp C (iterate body s) Q g := by
  refine fun _ => ⟨J, h₀, fun s g hs => wp_mono _ (hJ s g hs) ?_⟩
  rintro (s' | b) g' - h'
  · exact h'
  · exact wp_ret h'

theorem wp_unfold {body : σ → Prog S (σ ⊕ β)} {k : β → Prog S α} {s : σ} {Q : α → G → Prop}
    {g : G} (h : wp C (loop body s k) Q g) : wp C (unfold body k s) Q g := by
  refine wp_of_inv fun hi => ?_
  obtain ⟨J, h₀, hJ⟩ := h hi
  refine wp_bind (wp_mono _ (hJ s g h₀) ?_)
  rintro (s' | b) g' - h'
  · exact fun _ => ⟨J, h', hJ⟩
  · exact h'

/-- A contract can be weakened: a program that keeps `C` keeps one that permits its commands
wherever `C` does, and promises it no less. -/
theorem wp_weaken {D : Contract S G} (hinv : ∀ g, D.inv g ↔ C.inv g)
    (hguard : ∀ c g, C.guard c g → D.guard c g)
    (hexec : ∀ c g r g', D.exec c g r g' → C.exec c g r g')
    (hrely : ∀ g g', D.rely g g' → C.rely g g') (p : Prog S α) {Q : α → G → Prop} {g : G}
    (h : wp C p Q g) : wp D p Q g := by
  induction p generalizing g with
  | ret a => exact fun hi => h ((hinv g).1 hi)
  | call c k ih =>
    intro hi
    obtain ⟨hg, h⟩ := h ((hinv g).1 hi)
    exact ⟨hguard c g hg, fun r g₁ hx hi₁ g₂ hr =>
      ih r (h r g₁ (hexec c g r g₁ hx) ((hinv g₁).1 hi₁) g₂ (hrely g₁ g₂ hr))⟩
  | loop body s k ihb ihk =>
    intro hi
    obtain ⟨J, h₀, hJ⟩ := h ((hinv g).1 hi)
    refine ⟨J, h₀, fun s g hs => wp_mono _ (ihb s (hJ s g hs)) ?_⟩
    rintro (s' | b) g' - h'
    · exact h'
    · exact ihk b h'

/-- `h` implements the commands of `S` over `T`: started where `C` permits the command, its
program ends with a reply and a state that `C` allows, up to interference. -/
def Implements (C : Contract S G) (D : Contract T G) (h : (c : S.Cmd) → Prog T (S.Reply c)) :
    Prop :=
  ∀ c g, C.inv g → C.guard c g →
    wp D (h c) (fun r g₂ => ∃ g₁, C.exec c g r g₁ ∧ C.inv g₁ ∧ C.rely g₁ g₂) g

theorem wp_interpret {D : Contract T G} {h : (c : S.Cmd) → Prog T (S.Reply c)}
    (hCD : Implements C D h) (hinv : ∀ g, D.inv g → C.inv g) (p : Prog S α) {Q : α → G → Prop}
    {g : G} (hp : wp C p Q g) : wp D (p.interpret h) Q g := by
  induction p generalizing g with
  | ret a => exact fun hi => hp (hinv g hi)
  | call c k ih =>
    refine wp_of_inv fun hi => ?_
    obtain ⟨hg, hp⟩ := hp (hinv g hi)
    refine wp_bind (wp_mono _ (hCD c g (hinv g hi) hg) ?_)
    rintro r g₂ - ⟨g₁, hx, hi₁, hr⟩
    exact ih r (hp r g₁ hx hi₁ g₂ hr)
  | loop body s k ihb ihk =>
    intro hi
    obtain ⟨J, h₀, hJ⟩ := hp (hinv g hi)
    refine ⟨J, h₀, fun s g hs => wp_mono _ (ihb s (hJ s g hs)) ?_⟩
    rintro (s' | b) g' - h'
    · exact h'
    · exact ihk b h'

theorem wp_interpret_seq {D : Contract T G} {h : (c : S.Cmd) → Prog T (S.Reply c)} {p : Prog S α}
    {f : α → Prog S β} {Q : β → G → Prop} {g : G}
    (hp : wp D (p.interpret h) (fun _ _ => True) g)
    (hf : ∀ a g, wp D ((f a).interpret h) Q g) : wp D ((p.bind f).interpret h) Q g := by
  rw [interpret_bind]
  exact wp_seq hp hf

end Prog

end Interact
