import RagPipeline.Interact.Contract

/-!
# Methods of an object

A method reads and writes the fields of its object, issues commands and may raise. Fields keep
what was written to them when a method raises, as attributes of an object do.

## Main definitions

* `Method`: programs over the fields `σ` that may raise an `ε`; a monad.
* `Method.tryExcept`, `Method.andFinally`, `Method.loop`: the control flow of method bodies.
* `Method.wp`: the obligations of a method, with its results and exceptions in one postcondition.
-/
namespace Interact

def Method (S : Signature) (σ ε α : Type) : Type 1 := σ → Prog S (Except ε α × σ)

namespace Method

variable {S : Signature} {σ ε α β τ : Type}

protected def bind (m : Method S σ ε α) (f : α → Method S σ ε β) : Method S σ ε β := fun s =>
  (m s).bind fun
    | (.ok a, s) => f a s
    | (.error e, s) => .ret (.error e, s)

instance : Monad (Method S σ ε) where
  pure a := fun s => .ret (.ok a, s)
  bind := Method.bind

def raise (e : ε) : Method S σ ε α := fun s => .ret (.error e, s)

def ofExcept : Except ε α → Method S σ ε α
  | .ok a => pure a
  | .error e => raise e

def self : Method S σ ε σ := fun s => .ret (.ok s, s)

def assign (f : σ → σ) : Method S σ ε Unit := fun s => .ret (.ok (), f s)

def call (c : S.Cmd) : Method S σ ε (S.Reply c) := fun s => .call c fun r => .ret (.ok r, s)

def tryExcept (m : Method S σ ε α) (h : ε → Method S σ ε α) : Method S σ ε α := fun s =>
  (m s).bind fun
    | (.ok a, s) => .ret (.ok a, s)
    | (.error e, s) => h e s

/-- `try m finally f`. -/
def andFinally (m : Method S σ ε α) (f : Method S σ ε Unit) : Method S σ ε α := do
  let a ← tryExcept m fun e => do f; raise e
  f
  return a

/-- Repeat a body with a local variable until it answers `inr`. -/
def loop (t : τ) (body : τ → Method S σ ε (τ ⊕ β)) : Method S σ ε β := fun s =>
  .iterate (fun (t, s) => (body t s).bind fun
    | (.ok (.inl t), s) => .ret (.inl (t, s))
    | (.ok (.inr b), s) => .ret (.inr (.ok b, s))
    | (.error e, s) => .ret (.inr (.error e, s))) (t, s)

/-! ### Obligations -/

variable {G : Type} {C : Contract S G} {Q R : Except ε α → σ → G → Prop} {s : σ} {g : G}

def wp (C : Contract S G) (m : Method S σ ε α) (Q : Except ε α → σ → G → Prop) (s : σ) (g : G) :
    Prop :=
  Prog.wp C (m s) (fun x => Q x.1 x.2) g

theorem wp_mono {m : Method S σ ε α} (h : wp C m R s g)
    (hQ : ∀ r s g, C.inv g → R r s g → Q r s g) : wp C m Q s g :=
  Prog.wp_mono _ h fun x g hi => hQ x.1 x.2 g hi

theorem wp_of_inv {m : Method S σ ε α} (h : C.inv g → wp C m Q s g) : wp C m Q s g :=
  Prog.wp_of_inv h

theorem wp_of_any {m : Method S σ ε α} {Q : Except ε α → σ → Prop} {P : G → Prop}
    (hP : ∀ c g, C.inv g → P g → C.guard c g ∧
      ∀ r g₁ g₂, C.exec c g r g₁ → C.inv g₁ → C.rely g₁ g₂ → P g₂)
    (h : wp .any m (fun r s _ => Q r s) s ()) (hg : P g) :
    wp C m (fun r s g => Q r s ∧ P g) s g :=
  Prog.wp_of_any (Q := fun x : Except ε α × σ => Q x.1 x.2) hP h hg

theorem wp_pure {a : α} (h : Q (.ok a) s g) : wp C (pure a) Q s g := Prog.wp_ret h

theorem wp_raise {e : ε} (h : Q (.error e) s g) : wp C (raise e) Q s g := Prog.wp_ret h

theorem wp_ofExcept {x : Except ε α} (h : Q x s g) : wp C (ofExcept x) Q s g := by
  cases x with
  | ok a => exact wp_pure h
  | error e => exact wp_raise h

theorem of_mapError_ok {ε' : Type} {x : Except ε α} {f : ε → ε'} {a : α}
    (h : x.mapError f = .ok a) : x = .ok a := by
  cases x with
  | error e => cases h
  | ok b => cases h; rfl

theorem of_mapError_error {ε' : Type} {x : Except ε α} {f : ε → ε'} {e : ε'}
    (h : x.mapError f = .error e) : ∃ e', x = .error e' ∧ f e' = e := by
  cases x with
  | error e' => cases h; exact ⟨e', rfl, rfl⟩
  | ok b => cases h

theorem wp_assign {f : σ → σ} {Q : Except ε Unit → σ → G → Prop} (h : Q (.ok ()) (f s) g) :
    wp C (assign f) Q s g :=
  Prog.wp_ret h

theorem wp_call {c : S.Cmd} {Q : Except ε (S.Reply c) → σ → G → Prop}
    (hg : C.inv g → C.guard c g)
    (h : ∀ r g₁ g₂, C.inv g → C.exec c g r g₁ → C.inv g₁ → C.rely g₁ g₂ → Q (.ok r) s g₂) :
    wp C (call c) Q s g :=
  fun hi => ⟨hg hi, fun r g₁ hx hi₁ g₂ hr => Prog.wp_ret (h r g₁ g₂ hi hx hi₁ hr)⟩

theorem wp_bind {m : Method S σ ε β} {f : β → Method S σ ε α} {R : Except ε β → σ → G → Prop}
    (hm : wp C m R s g) (herr : ∀ e s g, R (.error e) s g → Q (.error e) s g)
    (hok : ∀ b s g, R (.ok b) s g → wp C (f b) Q s g) : wp C (m >>= f) Q s g := by
  refine Prog.wp_bind (Prog.wp_mono _ hm ?_)
  rintro ⟨_ | b, s⟩ g - h
  · exact Prog.wp_ret (herr _ s g h)
  · exact hok b s g h

theorem wp_tryExcept {m : Method S σ ε α} {h : ε → Method S σ ε α} (hm : wp C m R s g)
    (hok : ∀ a s g, R (.ok a) s g → Q (.ok a) s g)
    (herr : ∀ e s g, R (.error e) s g → wp C (h e) Q s g) : wp C (tryExcept m h) Q s g := by
  refine Prog.wp_bind (Prog.wp_mono _ hm ?_)
  rintro ⟨_ | a, s⟩ g - h
  · exact herr _ s g h
  · exact Prog.wp_ret (hok a s g h)

/-- Either way `f` runs, and unless it raises itself what `m` came to is the outcome. -/
theorem wp_andFinally {m : Method S σ ε α} {f : Method S σ ε Unit} (hm : wp C m R s g)
    (hf : ∀ r s g, R r s g → wp C f (fun x s g => match x with
      | .ok () => Q r s g
      | .error e => Q (.error e) s g) s g) : wp C (andFinally m f) Q s g := by
  have hcaught : wp C (tryExcept m fun e => do f; raise e)
      (fun r s g => match r with
        | .ok a => R (.ok a) s g
        | .error e => Q (.error e) s g) s g := by
    refine wp_tryExcept hm (fun _ _ _ h => h) fun e s g h => ?_
    exact wp_bind (hf _ s g h) (fun _ _ _ h => h) fun _ _ _ h => wp_raise h
  refine wp_bind hcaught (fun _ _ _ h => h) fun a s g h => ?_
  exact wp_bind (hf _ s g h) (fun _ _ _ h => h) fun _ _ _ h => wp_pure h

theorem wp_call_bind {c : S.Cmd} {f : S.Reply c → Method S σ ε α} (hg : C.inv g → C.guard c g)
    (h : ∀ r g₁ g₂, C.inv g → C.exec c g r g₁ → C.inv g₁ → C.rely g₁ g₂ → wp C (f r) Q s g₂) :
    wp C (call c >>= f) Q s g :=
  fun hi => ⟨hg hi, fun r g₁ hx hi₁ g₂ hr => h r g₁ g₂ hi hx hi₁ hr⟩

theorem wp_self_bind {f : σ → Method S σ ε α} (h : wp C (f s) Q s g) :
    wp C (self >>= f) Q s g :=
  h

/-- A command whose reply may be an exception, and what follows. -/
theorem wp_request {c : S.Cmd} {x : S.Reply c → Except ε β} {f : β → Method S σ ε α}
    (hg : C.inv g → C.guard c g)
    (herr : ∀ r e g₁ g₂, x r = .error e → C.exec c g r g₁ → C.rely g₁ g₂ → Q (.error e) s g₂)
    (hok : ∀ r b g₁ g₂, x r = .ok b → C.exec c g r g₁ → C.inv g₁ → C.rely g₁ g₂ →
      wp C (f b) Q s g₂) :
    wp C (call c >>= fun r => ofExcept (x r) >>= f) Q s g := by
  refine fun hi => ⟨hg hi, fun r g₁ hx hi₁ g₂ hr => ?_⟩
  change wp C (ofExcept (x r) >>= f) Q s g₂
  cases he : x r with
  | error e => exact Prog.wp_ret (herr r e g₁ g₂ he hx hr)
  | ok b => exact hok r b g₁ g₂ he hx hi₁ hr

theorem wp_ofExcept_bind {x : Except ε β} {f : β → Method S σ ε α}
    (herr : ∀ e, x = .error e → Q (.error e) s g) (hok : ∀ b, x = .ok b → wp C (f b) Q s g) :
    wp C (ofExcept x >>= f) Q s g := by
  cases x with
  | error e => exact Prog.wp_ret (herr e rfl)
  | ok b => exact hok b rfl

/-- Loop rule: `J` holds of the local variable, the fields and the state at the head. -/
theorem wp_loop {t : τ} {body : τ → Method S σ ε (τ ⊕ α)} (J : τ → σ → G → Prop) (h₀ : J t s g)
    (hJ : ∀ t s g, J t s g → wp C (body t) (fun r s g => match r with
      | .ok (.inl t) => J t s g
      | .ok (.inr a) => Q (.ok a) s g
      | .error e => Q (.error e) s g) s g) : wp C (loop t body) Q s g := by
  refine Prog.wp_iterate (fun x g => J x.1 x.2 g) h₀ fun x g h => ?_
  refine Prog.wp_bind (Prog.wp_mono _ (hJ x.1 x.2 g h) ?_)
  rintro ⟨_ | _ | _, s⟩ g - h <;> exact Prog.wp_ret h

theorem wp_ite {c : Prop} [Decidable c] {m n : Method S σ ε α} (ht : c → wp C m Q s g)
    (hf : ¬ c → wp C n Q s g) : wp C (if c then m else n) Q s g := by
  split
  · exact ht ‹c›
  · exact hf ‹¬ c›

/-! ### The commands of a method -/

def Issues (P : S.Cmd → Prop) (m : Method S σ ε α) : Prop := ∀ s, Prog.Issues P (m s)

section Issues

variable {P : S.Cmd → Prop}

theorem issues_pure {a : α} : Issues P (pure a : Method S σ ε α) := fun _ => trivial

theorem issues_raise {e : ε} : Issues P (raise e : Method S σ ε α) := fun _ => trivial

theorem issues_ofExcept {x : Except ε α} : Issues P (ofExcept x : Method S σ ε α) := by
  cases x with
  | ok a => exact issues_pure
  | error e => exact issues_raise

theorem issues_call {c : S.Cmd} (hc : P c) : Issues P (call c : Method S σ ε _) :=
  fun _ => ⟨hc, fun _ => trivial⟩

theorem issues_bind {m : Method S σ ε β} {f : β → Method S σ ε α} (hm : Issues P m)
    (hf : ∀ b, Issues P (f b)) : Issues P (m >>= f) := by
  refine fun s => Prog.issues_bind (hm s) ?_
  rintro ⟨_ | b, s⟩
  · exact trivial
  · exact hf b s

theorem issues_call_bind {c : S.Cmd} {f : S.Reply c → Method S σ ε α} (hc : P c)
    (hf : ∀ r, Issues P (f r)) : Issues P (call c >>= f) :=
  issues_bind (issues_call hc) hf

/-- A command whose reply may be an exception. -/
theorem issues_request {c : S.Cmd} {x : S.Reply c → Except ε α} (hc : P c) :
    Issues P (do ofExcept (x (← call c)) : Method S σ ε α) :=
  issues_call_bind hc fun _ => issues_ofExcept

theorem issues_tryExcept {m : Method S σ ε α} {h : ε → Method S σ ε α} (hm : Issues P m)
    (hh : ∀ e, Issues P (h e)) : Issues P (tryExcept m h) := by
  refine fun s => Prog.issues_bind (hm s) ?_
  rintro ⟨_ | a, s⟩
  · exact hh _ s
  · exact trivial

theorem issues_loop {t : τ} {body : τ → Method S σ ε (τ ⊕ α)} (hb : ∀ t, Issues P (body t)) :
    Issues P (loop t body) := by
  refine fun s => ⟨fun x => Prog.issues_bind (hb x.1 x.2) ?_, fun _ => trivial⟩
  rintro ⟨_ | _ | _, s⟩ <;> exact trivial

theorem issues_ite {c : Prop} [Decidable c] {m n : Method S σ ε α} (hm : Issues P m)
    (hn : Issues P n) : Issues P (if c then m else n) := by
  split
  · exact hm
  · exact hn

theorem issues_self_bind {f : σ → Method S σ ε α} (hf : ∀ s, Issues P (f s)) :
    Issues P (self >>= f) :=
  issues_bind (fun _ => trivial) hf

theorem issues_assign {f : σ → σ} : Issues P (assign f : Method S σ ε Unit) := fun _ => trivial

theorem issues_andFinally {m : Method S σ ε α} {f : Method S σ ε Unit} (hm : Issues P m)
    (hf : Issues P f) : Issues P (andFinally m f) := by
  refine issues_bind (issues_tryExcept hm fun e => ?_) fun _ => ?_
  · exact issues_bind hf fun _ => issues_raise
  · exact issues_bind hf fun _ => issues_pure

theorem issues_forM {as : List β} {f : β → Method S σ ε Unit} (hf : ∀ b, Issues P (f b)) :
    Issues P (as.forM f) := by
  induction as with
  | nil => exact issues_pure
  | cons b bs ih => exact issues_bind (hf b) fun _ => ih

theorem wp_of_issues {P : S.Cmd → Prop} {I : G → Prop} {m : Method S σ ε α} (hm : Issues P m)
    (h : ∀ c g, P c → C.inv g → I g → C.guard c g ∧
      ∀ r g₁ g₂, C.exec c g r g₁ → C.inv g₁ → C.rely g₁ g₂ → I g₂)
    (hg : I g) : wp C m (fun _ _ => I) s g :=
  Prog.wp_of_issues_keeping (hm s) h hg

end Issues

end Method

end Interact
