import Mathlib.Logic.Function.Basic

/-!
# Interactive programs

A program talks to its surroundings by commands and continues with their replies. Programs are
trees, so a body is ordinary Lean text in `do` notation; the one construct a tree lacks is the
unbounded loop, which is a node of its own and is unfolded by the step relation, not by Lean.

## Main definitions

* `Signature`, `Prog`: commands with the types of their replies, and programs over them.
* `Prog.perform`, `Prog.iterate`: one command; a loop that ends when its body says so.
* `Prog.interpret`: replace every command by a program over another signature.
-/
namespace Interact

/-- What a program may ask: a type of commands, and for each command the type of its replies. -/
structure Signature where
  Cmd : Type
  Reply : Cmd → Type

/-- What becomes of a call over a network: it is done and answered, done with its answer lost, or
not done. -/
inductive Fate where
  | ok
  | lost
  | refused
  deriving DecidableEq

/-- Commands of one of two signatures. -/
def Signature.sum (S T : Signature) : Signature where
  Cmd := S.Cmd ⊕ T.Cmd
  Reply
    | .inl c => S.Reply c
    | .inr c => T.Reply c

/-- Programs that end in a value of the indexed type. `loop body s k` runs `body s`; as long as
it answers `inl s'` it starts over with `s'`, and on `inr b` it goes on with `k b`. -/
inductive Prog (S : Signature) : Type → Type 1 where
  | ret {α : Type} (a : α) : Prog S α
  | call {α : Type} (c : S.Cmd) (k : S.Reply c → Prog S α) : Prog S α
  | loop {α σ β : Type} (body : σ → Prog S (σ ⊕ β)) (s : σ) (k : β → Prog S α) : Prog S α

namespace Prog

variable {S T U : Signature} {α β γ σ : Type}

protected def bind : Prog S α → (α → Prog S β) → Prog S β
  | ret a, f => f a
  | call c k, f => call c fun r => (k r).bind f
  | loop body s k, f => loop body s fun b => (k b).bind f

instance : Monad (Prog S) where
  pure := ret
  bind := Prog.bind

@[simp] theorem bind_eq (p : Prog S α) (f : α → Prog S β) : p >>= f = p.bind f := rfl
@[simp] theorem pure_eq (a : α) : (pure a : Prog S α) = ret a := rfl

/-- Issue one command and return its reply. -/
def perform (c : S.Cmd) : Prog S (S.Reply c) := call c ret

/-- `while True` with an explicit loop state. -/
def iterate (body : σ → Prog S (σ ⊕ β)) (s : σ) : Prog S β := loop body s ret

/-- What a loop does next: its body, then the loop again or its continuation. -/
def unfold (body : σ → Prog S (σ ⊕ β)) (k : β → Prog S α) (s : σ) : Prog S α :=
  (body s).bind fun
    | .inl s => loop body s k
    | .inr b => k b

theorem bind_assoc (p : Prog S α) (f : α → Prog S β) (h : β → Prog S γ) :
    (p.bind f).bind h = p.bind fun a => (f a).bind h := by
  induction p with
  | ret a => rfl
  | call c k ih => exact congrArg (call c) (funext fun r => ih r f)
  | loop body s k _ ihk => exact congrArg (loop body s) (funext fun b => ihk b f)

theorem bind_ret (p : Prog S α) : p.bind ret = p := by
  induction p with
  | ret a => rfl
  | call c k ih => exact congrArg (call c) (funext ih)
  | loop body s k _ ihk => exact congrArg (loop body s) (funext ihk)

theorem unfold_bind {σ : Type} (body : σ → Prog S (σ ⊕ γ)) (k : γ → Prog S α) (s : σ)
    (f : α → Prog S β) : (unfold body k s).bind f = unfold body (fun b => (k b).bind f) s := by
  rw [unfold, bind_assoc, unfold]
  refine congrArg _ (funext fun x => ?_)
  cases x <;> rfl

/-- Run a program over `S` as a program over `T`, each command as its own program. -/
def interpret (h : (c : S.Cmd) → Prog T (S.Reply c)) : {α : Type} → Prog S α → Prog T α
  | _, ret a => ret a
  | _, call c k => (h c).bind fun r => (k r).interpret h
  | _, loop body s k => loop (fun s => (body s).interpret h) s fun b => (k b).interpret h

theorem interpret_bind {h : (c : S.Cmd) → Prog T (S.Reply c)} (p : Prog S α) (f : α → Prog S β) :
    (p.bind f).interpret h = (p.interpret h).bind fun a => (f a).interpret h := by
  induction p with
  | ret a => rfl
  | call c k ih =>
    refine (congrArg (h c).bind (funext fun r => ih r f)).trans ?_
    exact (bind_assoc ..).symm
  | loop body s k _ ihk => exact congrArg (loop _ s) (funext fun b => ihk b f)

theorem interpret_ite {h : (c : S.Cmd) → Prog T (S.Reply c)} {c : Prop} [Decidable c]
    {p q : Prog S α} :
    (if c then p else q).interpret h = if c then p.interpret h else q.interpret h := by
  split <;> rfl

theorem interpret_interpret {h : (c : S.Cmd) → Prog T (S.Reply c)}
    {k : (c : T.Cmd) → Prog U (T.Reply c)} (p : Prog S α) :
    (p.interpret h).interpret k = p.interpret fun c => (h c).interpret k := by
  induction p with
  | ret a => rfl
  | call c f ih =>
    refine (interpret_bind (h c) _).trans ?_
    exact congrArg ((h c).interpret k).bind (funext ih)
  | loop body s f ihb ihf =>
    refine Eq.trans (congrArg (fun b => loop b s _) (funext ihb)) ?_
    exact congrArg (loop _ s) (funext ihf)

theorem interpret_perform (p : Prog S α) : p.interpret perform = p := by
  induction p with
  | ret a => rfl
  | call c k ih => exact congrArg (call c) (funext ih)
  | loop body s k ihb ihk =>
    refine Eq.trans (congrArg (fun b => loop b s _) (funext ihb)) ?_
    exact congrArg (loop body s) (funext ihk)

end Prog

end Interact
