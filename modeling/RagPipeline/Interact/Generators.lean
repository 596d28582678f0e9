import RagPipeline.Interact.Method

/-!
# Generators

A generator is a method that hands out values one at a time. Whoever takes them says after each
whether to go on. When not, the generator is closed: it sees an exception of its own where it
stands, so that its `finally` blocks run, and what it raises then is lost.

## Main definitions

* `Generator`, `emit`: methods that hand out values, and one value.
* `forEach`: take what a generator hands out, within another generator.
* `Taking`: what the body of such a loop wants of a value, and what it makes of it.

## Main results

* `wp_forEach`: a loop over a generator, from the generator against any taker of that kind and
  the body for one value.
-/
namespace Interact

inductive Resume where
  | next
  | close
  deriving DecidableEq

/-- What is raised where values are handed out: an error, or the exception that closes. -/
inductive Thrown (ε : Type) where
  | error (e : ε)
  | exit

/-- Commands, and the handing out of a value. -/
def Signature.yielding (S : Signature) (α : Type) : Signature := S.sum ⟨α, fun _ => Resume⟩

/-- Methods that hand out values of type `α` on the way to a result. -/
abbrev Generator (S : Signature) (α σ ε : Type) := Method (S.yielding α) σ (Thrown ε)

namespace Prog

variable {S : Signature} {α β γ δ τ : Type}

/-- Every value goes to `take`, which keeps a state of its own. The other commands stay. -/
def consume (take : α → τ → Prog (S.yielding β) (Resume × τ)) :
    {γ : Type} → Prog (S.yielding α) γ → τ → Prog (S.yielding β) (γ × τ)
  | _, ret c, t => ret (c, t)
  | _, call (.inl c) k, t =>
    call (S := S.yielding β) (.inl c) fun r => (k r).consume take t
  | _, call (.inr a) k, t => (take a t).bind fun x => (k x.1).consume take x.2
  | _, loop body s k, t =>
    loop (fun x : _ × τ => ((body x.1).consume take x.2).bind fun y => match y.1 with
      | .inl s => ret (.inl (s, y.2))
      | .inr b => ret (.inr (b, y.2))) (s, t) fun y => (k y.1).consume take y.2

variable {G : Type} {C : Contract (S.yielding α) (τ × G)} {D : Contract (S.yielding β) G}

/-- A program that keeps `C` keeps `D` when its values are taken, provided that `D` does for the
commands, and the taker for the values, what `C` says of them. -/
theorem wp_consume {take : α → τ → Prog (S.yielding β) (Resume × τ)}
    (hinv : ∀ t g, D.inv g → C.inv (t, g))
    (hcommand : ∀ c t g, D.inv g → C.guard (.inl c) (t, g) → D.guard (.inl c) g ∧
      ∀ r g₁ g₂, D.exec (.inl c) g r g₁ → D.inv g₁ → D.rely g₁ g₂ →
        ∃ g', C.exec (.inl c) (t, g) r (t, g') ∧ C.inv (t, g') ∧ C.rely (t, g') (t, g₂))
    (htake : ∀ a t g, D.inv g → C.guard (.inr a) (t, g) →
      wp D (take a t) (fun x g₂ => ∃ g', C.exec (.inr a) (t, g) x.1 (x.2, g') ∧
        C.inv (x.2, g') ∧ C.rely (x.2, g') (x.2, g₂)) g)
    (p : Prog (S.yielding α) γ) {Q : γ → τ × G → Prop} {t : τ} {g : G} (hp : wp C p Q (t, g)) :
    wp D (p.consume take t) (fun x g => Q x.1 (x.2, g)) g := by
  induction p generalizing t g with
  | ret c => exact fun hi => hp (hinv t g hi)
  | call c k ih =>
    rcases c with c | a
    · intro hi
      obtain ⟨hg, hp⟩ := hp (hinv t g hi)
      obtain ⟨hg', hc⟩ := hcommand c t g hi hg
      refine ⟨hg', fun r g₁ hx hi₁ g₂ hr => ?_⟩
      obtain ⟨g', hx', hi', hr'⟩ := hc r g₁ g₂ hx hi₁ hr
      exact ih r (hp r _ hx' hi' _ hr')
    · refine wp_of_inv fun hi => ?_
      obtain ⟨hg, hp⟩ := hp (hinv t g hi)
      refine wp_bind (wp_mono _ (htake a t g hi hg) ?_)
      rintro ⟨r, t'⟩ g₂ - ⟨g', hx, hi', hr⟩
      exact ih r (hp r _ hx hi' _ hr)
  | loop body s k ihb ihk =>
    intro hi
    obtain ⟨J, h₀, hJ⟩ := hp (hinv t g hi)
    refine ⟨fun x g => J x.1 (x.2, g), h₀, fun x g hs => ?_⟩
    refine wp_bind (wp_mono _ (ihb x.1 (hJ x.1 _ hs)) ?_)
    rintro ⟨_ | b, t'⟩ g' - h'
    · exact wp_ret h'
    · exact wp_ret (ihk b h')

end Prog

/-- Where a loop over a generator stands: it goes on, it was left by `break`, or its body has
raised. -/
inductive Leaving (ε : Type) where
  | on
  | broke
  | raised (e : Thrown ε)

namespace Leaving

variable {ε : Type}

def ofBody : Except (Thrown ε) Resume → Leaving ε
  | .ok .next => on
  | .ok .close => broke
  | .error e => raised e

def resume : Leaving ε → Resume
  | on => .next
  | _ => .close

/-- What the loop comes to, given what the generator came to: `next` when it ran through. -/
def outcome : Leaving ε → Except (Thrown ε) Unit → Except (Thrown ε) Resume
  | on, r => r.map fun _ => .next
  | broke, _ => .ok .close
  | raised e, _ => .error e

end Leaving

namespace Method

variable {S : Signature} {σ τ ε α β : Type}

def resumed : Resume → Generator S α σ ε Unit
  | .next => pure ()
  | .close => raise .exit

/-- `yield a`. -/
def emit (a : α) : Generator S α σ ε Unit := call (S := S.yielding α) (.inr a) >>= resumed

/-- A command of the surroundings. -/
def ask (c : S.Cmd) : Generator S α σ ε (S.Reply c) := call (S := S.yielding α) (.inl c)

def takeOne (body : α → Generator S β τ ε Resume) (a : α) (t : Leaving ε × τ) :
    Prog (S.yielding β) (Resume × Leaving ε × τ) :=
  (body a t.2).bind fun x => .ret ((Leaving.ofBody x.1).resume, Leaving.ofBody x.1, x.2)

/-- `for a in g: body a`. A body that answers `close` breaks out of the loop. The generator is
closed when the loop is left. -/
def forEach (g : Generator S α σ ε Unit) (s : σ) (body : α → Generator S β τ ε Resume) :
    Generator S β τ ε Resume := fun t =>
  ((g s).consume (takeOne body) (.on, t)).bind fun x => .ret (x.2.1.outcome x.1.1, x.2.2)

end Method

/-- The body of a loop over a generator: the values it wants, and what it makes of one. -/
structure Taking (α τ ε G : Type) where
  wanted : α → τ → G → Prop
  taken : α → τ → G → Except (Thrown ε) Resume → τ → G → Prop

namespace Taking

variable {S : Signature} {σ τ ε α β G : Type}

/-- A generator under such a taker. It hands out nothing any more once it was closed. -/
def contract (T : Taking α τ ε G) (D : Contract (S.yielding β) G) :
    Contract (S.yielding α) ((Leaving ε × τ) × G) where
  inv x := D.inv x.2
  rely x y := y.1 = x.1 ∧ D.rely x.2 y.2
  guard
    | .inl c, x => D.guard (.inl c) x.2
    | .inr a, x => x.1.1 = .on ∧ T.wanted a x.1.2 x.2
  exec
    | .inl c, x, r, y => y.1 = x.1 ∧ D.exec (.inl c) x.2 r y.2
    | .inr a, x, r, y => ∃ outcome, T.taken a x.1.2 x.2 outcome y.1.2 y.2 ∧
        y.1.1 = .ofBody outcome ∧ (r : Resume) = (Leaving.ofBody outcome).resume

end Taking

namespace Method

variable {S : Signature} {σ τ ε α β G : Type} {T : Taking α τ ε G} {D : Contract (S.yielding β) G}

theorem wp_seq {C : Contract S G} {m : Method S σ ε β} {f : β → Method S σ ε α}
    {Q : Except ε α → σ → G → Prop} {s : σ} {g : G}
    (h : wp C m (fun r s g => match r with
      | .ok b => wp C (f b) Q s g
      | .error e => Q (.error e) s g) s g) : wp C (m >>= f) Q s g :=
  wp_bind h (fun _ _ _ h => h) fun _ _ _ h => h

/-- A value is handed out, and then the generator goes on, or ends as one that was closed. -/
theorem wp_emit {a : α} {Q : Except (Thrown ε) Unit → σ → (Leaving ε × τ) × G → Prop} {s : σ}
    {x : (Leaving ε × τ) × G} (hon : x.1.1 = .on) (hw : T.wanted a x.1.2 x.2)
    (hnext : ∀ t g₁ g₂, T.taken a x.1.2 x.2 (.ok .next) t g₁ → D.rely g₁ g₂ →
      Q (.ok ()) s ((.on, t), g₂))
    (hclose : ∀ outcome t g₁ g₂, T.taken a x.1.2 x.2 outcome t g₁ →
      Leaving.ofBody outcome ≠ .on → D.rely g₁ g₂ →
      Q (.error .exit) s ((.ofBody outcome, t), g₂)) :
    wp (T.contract D) (emit a) Q s x := by
  have hguard : (T.contract D).guard (.inr a) x := ⟨hon, hw⟩
  refine wp_call_bind (S := S.yielding α) (fun _ => hguard) ?_
  rintro r ⟨⟨l, t⟩, g₁⟩ ⟨_, g₂⟩ - ⟨outcome, ht, rfl, hr⟩ - ⟨rfl, hrely⟩
  cases houtcome : Leaving.ofBody outcome with
  | on =>
    rw [houtcome] at hr
    obtain rfl : outcome = .ok .next := by
      rcases outcome with _ | _ | _ <;> first | rfl | cases houtcome
    cases hr
    exact wp_pure (hnext t g₁ g₂ ht hrely)
  | broke | raised =>
    have hne : Leaving.ofBody outcome ≠ .on := by rw [houtcome]; nofun
    have hQ := hclose outcome t g₁ g₂ ht hne hrely
    rw [houtcome] at hr hQ
    cases hr
    exact wp_raise hQ

theorem wp_forEach {g : Generator S α σ ε Unit} {s : σ}
    {body : α → Generator S β τ ε Resume}
    {R : Except (Thrown ε) Unit → σ → (Leaving ε × τ) × G → Prop}
    {Q : Except (Thrown ε) Resume → τ → G → Prop} {t : τ} {x : G} (hrefl : ∀ x, D.rely x x)
    (hg : wp (T.contract D) g R s ((.on, t), x))
    (hbody : ∀ a t x, D.inv x → T.wanted a t x →
      wp D (body a) (fun r t' x' => T.taken a t x r t' x') t x)
    (hQ : ∀ r s l t x, R r s ((l, t), x) → Q (l.outcome r) t x) :
    wp D (forEach g s body) Q t x := by
  refine Prog.wp_bind (Prog.wp_mono _ (Prog.wp_consume (C := T.contract D) (fun _ _ hi => hi)
    (fun c t x _ hg => ⟨hg, fun r x₁ x₂ hx hi hr => ⟨x₁, ⟨rfl, hx⟩, hi, rfl, hr⟩⟩) ?_ (g s) hg)
    fun y x _ h => Prog.wp_ret (hQ _ _ _ _ _ h))
  rintro a ⟨l, t⟩ x hi ⟨rfl, hw⟩
  refine Prog.wp_bind (Prog.wp_mono _ (hbody a t x hi hw) ?_)
  rintro ⟨r, t'⟩ x' hi' h
  exact Prog.wp_ret ⟨x', ⟨r, h, rfl, rfl⟩, hi', rfl, hrefl x'⟩

end Method

end Interact
