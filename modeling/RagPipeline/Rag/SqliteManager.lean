import RagPipeline.Interact.Total
import RagPipeline.Wire.Text

/-!
# One connection to SQLite

`SQLiteManager`, the context manager around a connection to one database file, with the calls of
the `sqlite3` module as commands.

## Main definitions

* `ConnSig`: the calls, for statements of some signature.
* `SQLiteManager.within`: a `with` block.
-/
namespace Rag

open Wire Interact Method

/-- The calls for the database at `path`; `T` are the statements. -/
inductive ConnCmd (T : Signature) where
  /-- `self.path.parent.mkdir(parents=True, exist_ok=True)`. -/
  | mkdir (path : PyStr)
  | connect (path : PyStr)
  | pragma (path : PyStr) (text : String)
  | execute (path : PyStr) (c : T.Cmd)
  | commit (path : PyStr)
  | rollback (path : PyStr)
  | close (path : PyStr)

def ConnCmd.Result {T : Signature} : ConnCmd T → Type
  | .execute _ c => T.Reply c
  | _ => Unit

/-- What `sqlite3`, or creating the directory, raises. -/
structure SqliteError where
  typeName : PyStr

def ConnSig (T : Signature) : Signature where
  Cmd := ConnCmd T
  Reply c := Except SqliteError c.Result

namespace SQLiteManager

variable {T U : Signature} {σ ε α : Type} (raised : SqliteError → ε)

/-- One of these calls among others. -/
def conn (c : ConnCmd T) : Method ((ConnSig T).sum U) σ ε c.Result := do
  ofExcept (Except.mapError raised (← call (S := (ConnSig T).sum U) (.inl c)))

def enter (path : PyStr) : Method ((ConnSig T).sum U) σ ε Unit := do
  conn raised (.mkdir path)
  conn raised (.connect path)
  tryExcept (do
      conn raised (.pragma path "journal_mode=WAL")
      conn raised (.pragma path "busy_timeout=5000"))
    fun e => do
      conn raised (.close path)
      raise e

/-- `with SQLiteManager(…) as conn: body`. -/
def within (path : PyStr) (body : Method ((ConnSig T).sum U) σ ε α) :
    Method ((ConnSig T).sum U) σ ε α := do
  enter raised path
  andFinally (do
      let a ← tryExcept body fun e => do
        conn raised (.rollback path)
        raise e
      conn raised (.commit path)
      return a)
    (conn raised (.close path))

/-! ### Obligations -/

/-- A call on a connection that is no statement. -/
def Plain : ((ConnSig T).sum U).Cmd → Prop
  | .inl (.execute ..) | .inr _ => False
  | .inl _ => True

theorem issues_conn {c : ConnCmd T} (hc : Plain (U := U) (.inl c)) :
    Issues Plain (conn (U := U) raised c : Method _ σ ε _) :=
  issues_call_bind hc fun _ => issues_ofExcept

theorem issues_enter {path : PyStr} :
    Issues Plain (enter raised path : Method ((ConnSig T).sum U) σ ε Unit) := by
  refine issues_bind (issues_conn raised trivial) fun _ => ?_
  refine issues_bind (issues_conn raised trivial) fun _ => ?_
  refine issues_tryExcept ?_ fun _ => ?_
  · exact issues_bind (issues_conn raised trivial) fun _ => issues_conn raised trivial
  · exact issues_bind (issues_conn raised trivial) fun _ => issues_raise

section Rules

variable {G : Type} {C : Contract ((ConnSig T).sum U) G} {raised : SqliteError → ε} {path : PyStr}
  {s : σ} {g : G}

theorem wp_conn {c : ConnCmd T} {Q : Except ε c.Result → σ → G → Prop}
    (hg : C.inv g → C.guard (.inl c) g)
    (h : ∀ (r : Except SqliteError c.Result) g₁ g₂, C.inv g → C.exec (.inl c) g r g₁ → C.inv g₁ →
      C.rely g₁ g₂ → Q (r.mapError raised) s g₂) : wp C (conn raised c) Q s g :=
  wp_call_bind hg fun r g₁ g₂ hi hx hi₁ hr => wp_ofExcept (h r g₁ g₂ hi hx hi₁ hr)

/-- The outcome of the body is that of the block, unless leaving the block raises. -/
theorem wp_within {body : Method ((ConnSig T).sum U) σ ε α} {I : σ → G → Prop}
    {Q R F : Except ε α → σ → G → Prop}
    (henter : wp C (enter raised path) (fun r s g => match r with
      | .ok () => I s g
      | .error e => Q (.error e) s g) s g)
    (hbody : ∀ s g, I s g → wp C body R s g)
    (hrollback : ∀ e s g, R (.error e) s g → wp C (conn raised (.rollback path)) (fun r s g =>
      match r with
      | .ok () => F (.error e) s g
      | .error e => F (.error e) s g) s g)
    (hcommit : ∀ a s g, R (.ok a) s g → wp C (conn raised (.commit path)) (fun r s g => match r with
      | .ok () => F (.ok a) s g
      | .error e => F (.error e) s g) s g)
    (hclose : ∀ r s g, F r s g → wp C (conn raised (.close path)) (fun x s g => match x with
      | .ok () => Q r s g
      | .error e => Q (.error e) s g) s g) : wp C (within raised path body) Q s g := by
  refine wp_bind henter (fun _ _ _ h => h) fun _ s g hI => ?_
  refine wp_andFinally (R := F) ?_ fun r s g h => wp_mono (hclose r s g h) fun x _ _ _ h => by
    cases x <;> exact h
  have hcaught : wp C (tryExcept body fun e => do conn raised (.rollback path); raise e)
      (fun r s g => (∃ a, r = .ok a ∧ R r s g) ∨ (∃ e, r = .error e ∧ F r s g)) s g := by
    refine wp_tryExcept (hbody s g hI) (fun a _ _ h => .inl ⟨a, rfl, h⟩) fun e s g h => ?_
    exact wp_bind (hrollback e s g h) (fun e' _ _ h => .inr ⟨e', rfl, h⟩)
      fun _ _ _ h => wp_raise (.inr ⟨e, rfl, h⟩)
  refine wp_bind hcaught ?_ ?_
  · rintro e s g (⟨a, ⟨⟩, -⟩ | ⟨_, -, h⟩)
    exact h
  · rintro a s g (⟨_, -, h⟩ | ⟨e, ⟨⟩, -⟩)
    exact wp_bind (hcommit a s g h) (fun _ _ _ h => h) fun _ _ _ h => wp_pure h

theorem gives_conn {c : ConnCmd T} {r : c.Result} {g' : G} (hg : C.guard (.inl c) g)
    (h : ∀ (x : Except SqliteError c.Result) g₁ g₂, C.exec (.inl c) g x g₁ → C.rely g₁ g₂ →
      x = .ok r ∧ g₂ = g') : Gives C (conn (U := U) raised c) r s g s g' :=
  ends_call_bind hg fun x g₁ g₂ hx hr => by
    obtain ⟨rfl, rfl⟩ := h x g₁ g₂ hx hr
    exact gives_pure

/-- A block in which every call on the connection succeeds. -/
theorem gives_within {body : Method ((ConnSig T).sum U) σ ε α} {a : α} {s' : σ} {g' : G}
    (hguard : ∀ (c : ConnCmd T) g, Plain (U := U) (.inl c) → C.guard (.inl c) g)
    (hplain : ∀ (c : ConnCmd T) g (x : Except SqliteError c.Result) g₁ g₂,
      Plain (U := U) (.inl c) → C.exec (.inl c) g x g₁ → C.rely g₁ g₂ → (∃ r, x = .ok r) ∧ g₂ = g)
    (hbody : Gives C body a s g s' g') : Gives C (within raised path body) a s g s' g' := by
  have plain (c : ConnCmd T) (r : c.Result) (hc : Plain (U := U) (.inl c)) (hu : ∀ r', r' = r)
      (s : σ) (g : G) : Gives C (conn (U := U) raised c) r s g s g :=
    gives_conn (hguard c g hc) fun x g₁ g₂ hx hr => by
      obtain ⟨⟨r', rfl⟩, hg⟩ := hplain c g x g₁ g₂ hc hx hr
      exact ⟨congrArg Except.ok (hu r'), hg⟩
  have henter : Gives C (enter raised path) () s g s g := by
    refine gives_bind (plain (.mkdir path) () trivial (fun _ => rfl) s g) ?_
    refine gives_bind (plain (.connect path) () trivial (fun _ => rfl) s g) (gives_tryExcept ?_)
    exact gives_bind (plain (.pragma path _) () trivial (fun _ => rfl) s g)
      (plain (.pragma path _) () trivial (fun _ => rfl) s g)
  have hcommit := plain (.commit path) () trivial (fun _ => rfl) s' g'
  refine gives_bind henter (gives_andFinally (gives_bind (gives_tryExcept hbody) ?_)
    (plain (.close path) () trivial (fun _ => rfl) s' g'))
  exact gives_bind hcommit gives_pure

end Rules

end SQLiteManager

end Rag
