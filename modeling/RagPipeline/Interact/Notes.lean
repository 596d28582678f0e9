import RagPipeline.Interact.Method

/-!
# Methods with notes

A note is a command that nobody answers: it marks a place of a method, so that a property of runs
can speak of it. Erasing the notes gives the method back.

## Main definitions

* `Prog.lift`, `Prog.note`: a program among notes, and one note; `Method.lift`, `Method.note` the
  same of a method.
* `Prog.erase`, `Method.erase`: what is left without the notes.

## Main results

* `Method.erase_lift`, `Method.erase_bind`, `Method.erase_loop`: what is left of a noted method.
* `Method.wp_lift`: a method has the same obligations among notes.
-/
namespace Interact

def NoteSig (ν : Type) : Signature := ⟨ν, fun _ => Unit⟩

/-- A contract for what is not a note. -/
def Contract.withoutNotes {S : Signature} {ν G : Type} (C : Contract (S.sum (NoteSig ν)) G) :
    Contract S G :=
  ⟨C.inv, C.rely, fun c => C.guard (.inl c), fun c => C.exec (.inl c)⟩

namespace Prog

variable {S T : Signature} {ν α β : Type}

def lifted (ν : Type) (c : S.Cmd) : Prog (S.sum (NoteSig ν)) (S.Reply c) :=
  call (S := S.sum (NoteSig ν)) (.inl c) ret

def lift (ν : Type) (p : Prog S α) : Prog (S.sum (NoteSig ν)) α := p.interpret (lifted ν)

/-- Nothing is done about a note. -/
def ignoreNote : (c : (S.sum (NoteSig ν)).Cmd) → Prog S ((S.sum (NoteSig ν)).Reply c)
  | Sum.inl c => perform c
  | Sum.inr _ => ret ()

def erase (p : Prog (S.sum (NoteSig ν)) α) : Prog S α := p.interpret ignoreNote

theorem erase_lift (p : Prog S α) : (p.lift ν).erase = p :=
  (interpret_interpret p).trans (interpret_perform p)

def note (x : ν) : Prog (S.sum (NoteSig ν)) Unit := call (S := S.sum (NoteSig ν)) (.inr x) ret

section Erase

variable {σ : Type} {p q : Prog (S.sum (NoteSig ν)) α}

theorem erase_bind {f : α → Prog (S.sum (NoteSig ν)) β} :
    (p.bind f).erase = p.erase.bind fun a => (f a).erase :=
  interpret_bind p f

theorem erase_ite {c : Prop} [Decidable c] :
    (if c then p else q).erase = if c then p.erase else q.erase :=
  interpret_ite

end Erase

variable {G : Type} {C : Contract (S.sum (NoteSig ν)) G}

theorem wp_lift {p : Prog S α} {Q : α → G → Prop} {g : G} (h : wp C.withoutNotes p Q g) :
    wp C (p.lift ν) Q g := by
  refine wp_interpret (h := lifted ν) (fun c g _ hg => ?_) (fun _ hi => hi) p h
  exact fun hi => ⟨hg, fun r g₁ hx hi₁ g₂ hr => wp_ret ⟨g₁, hx, hi₁, hr⟩⟩

end Prog

namespace Method

variable {S : Signature} {ν σ ε α β τ : Type}

def lift (m : Method S σ ε α) : Method (S.sum (NoteSig ν)) σ ε α := fun s => (m s).lift ν

def note (x : ν) : Method (S.sum (NoteSig ν)) σ ε Unit := call (S := S.sum (NoteSig ν)) (.inr x)

def erase (m : Method (S.sum (NoteSig ν)) σ ε α) : Method S σ ε α := fun s => (m s).erase

section Erase

@[simp] theorem erase_lift (m : Method S σ ε α) :
    erase (lift m : Method (S.sum (NoteSig ν)) σ ε α) = m :=
  funext fun s => Prog.erase_lift (m s)

@[simp] theorem erase_note (x : ν) :
    erase (note x : Method (S.sum (NoteSig ν)) σ ε Unit) = pure () :=
  rfl

@[simp] theorem erase_pure (a : α) :
    erase (pure a : Method (S.sum (NoteSig ν)) σ ε α) = pure a :=
  rfl

@[simp] theorem erase_raise (e : ε) :
    erase (raise e : Method (S.sum (NoteSig ν)) σ ε α) = raise e :=
  rfl

@[simp] theorem erase_self : erase (self : Method (S.sum (NoteSig ν)) σ ε σ) = self := rfl

variable {m : Method (S.sum (NoteSig ν)) σ ε β} {f : β → Method (S.sum (NoteSig ν)) σ ε α}

@[simp] theorem erase_bind : erase (m >>= f) = erase m >>= fun b => erase (f b) := by
  funext s
  refine (Prog.interpret_bind _ _).trans (congrArg _ (funext ?_))
  rintro ⟨_ | b, s⟩ <;> rfl

@[simp] theorem erase_tryExcept {h : ε → Method (S.sum (NoteSig ν)) σ ε β} :
    erase (tryExcept m h) = tryExcept (erase m) fun e => erase (h e) := by
  funext s
  refine (Prog.interpret_bind _ _).trans (congrArg _ (funext ?_))
  rintro ⟨_ | b, s⟩ <;> rfl

@[simp] theorem erase_ite {c : Prop} [Decidable c] {n : Method (S.sum (NoteSig ν)) σ ε β} :
    erase (if c then m else n) = if c then erase m else erase n := by
  split <;> rfl

@[simp] theorem erase_loop {t : τ} {body : τ → Method (S.sum (NoteSig ν)) σ ε (τ ⊕ α)} :
    erase (loop t body) = loop t fun t => erase (body t) := by
  funext s
  refine congrArg (fun b => Prog.loop b (t, s) Prog.ret) (funext fun x => ?_)
  refine (Prog.interpret_bind _ _).trans (congrArg _ (funext ?_))
  rintro ⟨_ | _ | _, s⟩ <;> rfl

@[simp] theorem erase_forM {as : List β} {f : β → Method (S.sum (NoteSig ν)) σ ε Unit} :
    erase (as.forM f) = as.forM fun b => erase (f b) := by
  induction as with
  | nil => rfl
  | cons b bs ih =>
    refine erase_bind.trans ?_
    rw [ih]
    rfl

end Erase

variable {G : Type} {C : Contract (S.sum (NoteSig ν)) G}

theorem wp_lift {m : Method S σ ε α} {Q : Except ε α → σ → G → Prop} {s : σ} {g : G}
    (h : wp C.withoutNotes m Q s g) : wp C (lift m) Q s g :=
  Prog.wp_lift h

end Method

end Interact
