import RagPipeline.Interact.Method

/-!
# Programs that end

`wp` says what holds when a program ends. A program that ends does so whatever it is answered and
whatever the others do in between: there is no way to go on with it forever.

## Main definitions

* `Prog.Ends`: every way the program can go ends, in a value and a state as wanted.
* `Method.Gives`: and that value and state are these.

## Main results

* `Prog.ends_bind`, `Prog.ends_iterate`: the rules; a loop needs a measure that each pass decreases.
-/
namespace Interact

namespace Prog

variable {S : Signature} {G α β σ : Type}

inductive Ends (C : Contract S G) {α : Type} (Q : α → G → Prop) : Prog S α → G → Prop
  | ret {a : α} {g : G} (h : Q a g) : Ends C Q (.ret a) g
  | call {c : S.Cmd} {k : S.Reply c → Prog S α} {g : G} (hg : C.guard c g)
      (h : ∀ r g₁, C.exec c g r g₁ → ∀ g₂, C.rely g₁ g₂ → Ends C Q (k r) g₂) :
      Ends C Q (.call c k) g
  | loop {σ τ : Type} {body : σ → Prog S (σ ⊕ τ)} {s : σ} {k : τ → Prog S α} {g : G}
      (h : Ends C Q (unfold body k s) g) : Ends C Q (.loop body s k) g

variable {C : Contract S G}

theorem ends_mono {p : Prog S α} {Q R : α → G → Prop} {g : G} (h : Ends C Q p g)
    (hQ : ∀ a g, Q a g → R a g) : Ends C R p g := by
  induction h with
  | ret h => exact .ret (hQ _ _ h)
  | call hg _ ih => exact .call hg ih
  | loop _ ih => exact .loop ih

theorem ends_bind {p : Prog S α} {f : α → Prog S β} {Q : β → G → Prop} {g : G}
    (h : Ends C (fun a g => Ends C Q (f a) g) p g) : Ends C Q (p.bind f) g := by
  induction h with
  | ret h => exact h
  | call hg _ ih => exact .call hg ih
  | loop _ ih =>
    rw [unfold_bind] at ih
    exact .loop ih

theorem ends_ite {b : Prop} [Decidable b] {p q : Prog S α} {Q : α → G → Prop} {g : G}
    (ht : b → Ends C Q p g) (hf : ¬ b → Ends C Q q g) : Ends C Q (if b then p else q) g := by
  split
  · exact ht ‹b›
  · exact hf ‹¬ b›

/-- Loop rule: each pass leaves the loop or decreases the measure. -/
theorem ends_iterate {body : σ → Prog S (σ ⊕ β)} {s : σ} {n : Nat} {Q : β → G → Prop} {g : G}
    (J : Nat → σ → G → Prop) (h₀ : J n s g)
    (hJ : ∀ n s g, J n s g → Ends C (fun x g => match x with
      | .inl s => ∃ m < n, J m s g
      | .inr b => Q b g) (body s) g) : Ends C Q (iterate body s) g := by
  induction n using Nat.strongRecOn generalizing s g with
  | ind n ih =>
    refine .loop (ends_bind (ends_mono (hJ n s g h₀) ?_))
    rintro (s' | b) g' h'
    · obtain ⟨m, hm, h'⟩ := h'
      exact ih m hm h'
    · exact .ret h'

/-- Where commands can be answered and the others can rest, what two proofs say of a program holds
of one of its ends. -/
theorem ends_meet {p : Prog S α} {Q R : α → G → Prop} {g : G}
    (hx : ∀ c g, ∃ r g₁, C.exec c g r g₁) (hr : ∀ g, C.rely g g) (h : Ends C Q p g)
    (h' : Ends C R p g) : ∃ a g, Q a g ∧ R a g := by
  induction h with
  | ret h =>
    cases h' with
    | ret h' => exact ⟨_, _, h, h'⟩
  | @call c k g _ _ ih =>
    cases h' with
    | call _ h' =>
      obtain ⟨r, g₁, hc⟩ := hx c g
      exact ih r g₁ hc g₁ (hr g₁) (h' r g₁ hc g₁ (hr g₁))
  | loop _ ih =>
    cases h' with
    | loop h' => exact ih h'

end Prog

namespace Method

variable {S : Signature} {G σ ε α β τ : Type} {C : Contract S G} {Q R : Except ε α → σ → G → Prop}
  {s : σ} {g : G}

def Ends (C : Contract S G) (m : Method S σ ε α) (Q : Except ε α → σ → G → Prop) (s : σ) (g : G) :
    Prop :=
  Prog.Ends C (fun x => Q x.1 x.2) (m s) g

theorem ends_mono {m : Method S σ ε α} (h : Ends C m R s g)
    (hQ : ∀ r s g, R r s g → Q r s g) : Ends C m Q s g :=
  Prog.ends_mono h fun x g => hQ x.1 x.2 g

theorem ends_pure {a : α} (h : Q (.ok a) s g) : Ends C (pure a) Q s g := .ret h

theorem ends_raise {e : ε} (h : Q (.error e) s g) : Ends C (raise e) Q s g := .ret h

theorem ends_bind {m : Method S σ ε β} {f : β → Method S σ ε α} {R : Except ε β → σ → G → Prop}
    (hm : Ends C m R s g) (herr : ∀ e s g, R (.error e) s g → Q (.error e) s g)
    (hok : ∀ b s g, R (.ok b) s g → Ends C (f b) Q s g) : Ends C (m >>= f) Q s g := by
  refine Prog.ends_bind (Prog.ends_mono hm ?_)
  rintro ⟨_ | b, s⟩ g h
  · exact .ret (herr _ s g h)
  · exact hok b s g h

/-- One command, and what follows. -/
theorem ends_call_bind {c : S.Cmd} {f : S.Reply c → Method S σ ε α} (hg : C.guard c g)
    (h : ∀ r g₁ g₂, C.exec c g r g₁ → C.rely g₁ g₂ → Ends C (f r) Q s g₂) :
    Ends C (call c >>= f) Q s g :=
  .call hg fun r g₁ hx g₂ hr => h r g₁ g₂ hx hr

theorem ends_tryExcept {m : Method S σ ε α} {h : ε → Method S σ ε α} (hm : Ends C m R s g)
    (hok : ∀ a s g, R (.ok a) s g → Q (.ok a) s g)
    (herr : ∀ e s g, R (.error e) s g → Ends C (h e) Q s g) : Ends C (tryExcept m h) Q s g := by
  refine Prog.ends_bind (Prog.ends_mono hm ?_)
  rintro ⟨_ | a, s⟩ g h
  · exact herr _ s g h
  · exact .ret (hok a s g h)

theorem ends_ofExcept_bind {x : Except ε β} {f : β → Method S σ ε α}
    (herr : ∀ e, x = .error e → Q (.error e) s g) (hok : ∀ b, x = .ok b → Ends C (f b) Q s g) :
    Ends C (ofExcept x >>= f) Q s g := by
  cases x with
  | error e => exact .ret (herr e rfl)
  | ok b => exact hok b rfl

theorem ends_ite {c : Prop} [Decidable c] {m n : Method S σ ε α} (ht : c → Ends C m Q s g)
    (hf : ¬ c → Ends C n Q s g) : Ends C (if c then m else n) Q s g := by
  split
  · exact ht ‹c›
  · exact hf ‹¬ c›

/-- Loop rule: each pass leaves the loop or decreases the measure. -/
theorem ends_loop {t : τ} {body : τ → Method S σ ε (τ ⊕ α)} {n : Nat} (J : Nat → τ → σ → G → Prop)
    (h₀ : J n t s g)
    (hJ : ∀ n t s g, J n t s g → Ends C (body t) (fun r s g => match r with
      | .ok (.inl t) => ∃ m < n, J m t s g
      | .ok (.inr a) => Q (.ok a) s g
      | .error e => Q (.error e) s g) s g) : Ends C (loop t body) Q s g := by
  refine Prog.ends_iterate (fun n x g => J n x.1 x.2 g) h₀ fun n x g h => ?_
  refine Prog.ends_bind (Prog.ends_mono (hJ n x.1 x.2 g h) ?_)
  rintro ⟨_ | _ | _, s⟩ g h <;> exact .ret h

/-! ### One way to go -/

/-- The method returns that value, and leaves those fields and that state. -/
def Gives (C : Contract S G) (m : Method S σ ε α) (a : α) (s : σ) (g : G) (s' : σ) (g' : G) :
    Prop :=
  Ends C m (fun r t h => r = .ok a ∧ t = s' ∧ h = g') s g

section Gives

variable {a : α} {b : β} {s' s'' : σ} {g' g'' : G}

theorem gives_pure : Gives C (pure a : Method S σ ε α) a s g s g := ends_pure ⟨rfl, rfl, rfl⟩

theorem gives_self : Gives C (self : Method S σ ε σ) s s g s g := .ret ⟨rfl, rfl, rfl⟩

theorem gives_assign {f : σ → σ} : Gives C (assign f : Method S σ ε Unit) () s g (f s) g :=
  .ret ⟨rfl, rfl, rfl⟩

theorem gives_bind {m : Method S σ ε β} {f : β → Method S σ ε α} (hm : Gives C m b s g s' g')
    (hf : Gives C (f b) a s' g' s'' g'') : Gives C (m >>= f) a s g s'' g'' :=
  ends_bind hm (fun _ _ _ h => nomatch h.1) fun _ _ _ h => by
    obtain ⟨h, rfl, rfl⟩ := h
    cases h
    exact hf

theorem gives_ofExcept {x : Except ε α} (hx : x = .ok a) :
    Gives C (ofExcept x) a s g s g := by
  subst hx
  exact gives_pure

theorem gives_tryExcept {m : Method S σ ε α} {h : ε → Method S σ ε α}
    (hm : Gives C m a s g s' g') : Gives C (tryExcept m h) a s g s' g' :=
  ends_tryExcept hm (fun _ _ _ h => h) fun _ _ _ h => nomatch h.1

theorem gives_andFinally {m : Method S σ ε α} {f : Method S σ ε Unit}
    (hm : Gives C m a s g s' g') (hf : Gives C f () s' g' s'' g'') :
    Gives C (andFinally m f) a s g s'' g'' :=
  gives_bind (gives_tryExcept hm) (gives_bind hf gives_pure)

theorem gives_ite_true {c : Prop} {_ : Decidable c} {m n : Method S σ ε α} (h : c)
    (hm : Gives C m a s g s' g') : Gives C (if c then m else n) a s g s' g' := by
  rwa [if_pos h]

theorem gives_ite_false {c : Prop} {_ : Decidable c} {m n : Method S σ ε α} (h : ¬ c)
    (hn : Gives C n a s g s' g') : Gives C (if c then m else n) a s g s' g' := by
  rwa [if_neg h]

end Gives

end Method

end Interact
