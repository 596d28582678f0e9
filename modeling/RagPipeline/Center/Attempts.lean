import RagPipeline.Center.Handler

/-!
# Attempts

How far a document has come, and which outbox row was queued for which attempt: the rows of one
hash are numbered as they were queued, from 0 on, so a document at attempt `n` has row `n` as its
last.

## Main definitions

* `Numbered`: which row of its hash an ID is.
* `Reached`, `Left`: how far a document has come.

## Main results

* `Numbered.lt`, `exists_last`: a document's rows against its retries.
* `left_applyIndexed`, `left_applyFailed`: a report that was applied ends its attempt.
* `StoreCmd.Effect.published`, `StoreCmd.Effect.indexed_of`: what makes a row PUBLISHED and a
  document INDEXED.
-/
namespace Center

open Relational

/-- IDs and hashes, in the order of the IDs. -/
def idsAndHashes (db : Database) : List (Nat × String) :=
  db.outbox.rows.map fun m => (m.id, m.hash)

def Numbered (db : Database) (id : Nat) (hash : String) (n : Nat) : Prop :=
  ∃ before after, idsAndHashes db = before ++ (id, hash) :: after ∧
    (before.countP fun r => r.2 = hash) = n

/-- The document exists and came at least to this attempt. -/
def Reached (db : Database) (hash : String) (attempts : Int) : Prop :=
  ∃ d, db.documents.find? hash = some d ∧ attempts ≤ d.retries

/-- The document exists, and this attempt is over. -/
def Left (db : Database) (hash : String) (attempts : Int) : Prop :=
  ∃ d, db.documents.find? hash = some d ∧
    (attempts < d.retries ∨ attempts = d.retries ∧ d.status ≠ .processing)

section

variable {db db' : Database} {id n : Nat} {hash : String} {attempts : Int} {m : MaxAttempts}

theorem rowsOf_eq : rowsOf db.outbox hash = (idsAndHashes db).countP fun r => r.2 = hash := by
  rw [rowsOf, idsAndHashes, List.countP_map]
  rfl

theorem Numbered.evolves (h : Numbered db id hash n) (he : Evolves db db') :
    Numbered db' id hash n := by
  obtain ⟨before, after, hrows, hn⟩ := h
  obtain ⟨more, hmore⟩ := he.outbox
  refine ⟨before, after ++ more, ?_, hn⟩
  change idsAndHashes db ++ more = idsAndHashes db' at hmore
  rw [← hmore, hrows, List.append_assoc, List.cons_append]

theorem Numbered.lt (h : Numbered db id hash n) : n < rowsOf db.outbox hash := by
  obtain ⟨before, after, hrows, rfl⟩ := h
  simp only [rowsOf_eq, hrows, List.countP_append, List.countP_cons, decide_true, if_true]
  omega

/-- An ID is one row. -/
theorem Numbered.unique {hash' : String} {n' : Nat} (h : Numbered db id hash n)
    (h' : Numbered db id hash' n') : hash = hash' ∧ n = n' := by
  obtain ⟨before, after, hrows, rfl⟩ := h
  obtain ⟨before', after', hrows', rfl⟩ := h'
  have hlt : ((idsAndHashes db).map Prod.fst).Pairwise (· < ·) := by
    rw [idsAndHashes, List.map_map]
    exact db.outbox.increasing
  rw [hrows, List.map_append, List.pairwise_append] at hlt
  obtain ⟨-, hafter, hbefore⟩ := hlt
  have hb : ∀ r ∈ before, r.1 < id := fun r hr =>
    hbefore r.1 (List.mem_map_of_mem hr) id (by simp)
  have ha : ∀ r ∈ after, id < r.1 := fun r hr =>
    (List.pairwise_cons.1 hafter).1 r.1 (List.mem_map_of_mem hr)
  rw [hrows] at hrows'
  obtain ⟨z, hz, hz'⟩ | ⟨z, hz, hz'⟩ := List.append_eq_append_iff.1 hrows'
  · cases z with
    | nil =>
      cases hz'
      exact ⟨rfl, by simp [hz]⟩
    | cons r z =>
      cases hz'
      have := ha (id, hash') (by simp)
      exact absurd this (Nat.lt_irrefl _)
  · cases z with
    | nil =>
      cases hz'
      exact ⟨rfl, by simp [hz]⟩
    | cons r z =>
      cases hz'
      have := hb (id, hash') (by simp [hz])
      exact absurd this (Nat.lt_irrefl _)

theorem numbered_of_mem {row : OutboxMessage} (h : row ∈ db.outbox.rows) :
    ∃ n, Numbered db row.id row.hash n := by
  have hmem : (row.id, row.hash) ∈ idsAndHashes db :=
    List.mem_map_of_mem (f := fun m : OutboxMessage => (m.id, m.hash)) h
  obtain ⟨before, after, hrows⟩ := List.append_of_mem hmem
  exact ⟨_, before, after, hrows, rfl⟩

/-- The last element of a list that satisfies `p` has all the others before it. -/
theorem exists_last_countP {α : Type} {p : α → Bool} {l : List α} (h : 0 < l.countP p) :
    ∃ before a after, l = before ++ a :: after ∧ p a ∧ before.countP p + 1 = l.countP p := by
  induction l with
  | nil => simp at h
  | cons a l ih =>
    by_cases hl : 0 < l.countP p
    · obtain ⟨before, b, after, rfl, hb, hcount⟩ := ih hl
      refine ⟨a :: before, b, after, rfl, hb, ?_⟩
      simp only [List.countP_cons] at hcount ⊢
      omega
    · have hzero : l.countP p = 0 := by omega
      have ha : p a := by
        by_contra ha
        simp [hzero, ha] at h
      exact ⟨[], a, l, rfl, ha, by simp [hzero, ha]⟩

theorem exists_last (h : 0 < rowsOf db.outbox hash) :
    ∃ row ∈ db.outbox.rows, row.hash = hash ∧
      Numbered db row.id hash (rowsOf db.outbox hash - 1) := by
  rw [rowsOf_eq] at h ⊢
  obtain ⟨before, r, after, hrows, hr, hcount⟩ := exists_last_countP h
  have hhash : r.2 = hash := by simpa using hr
  obtain ⟨row, hrow, rfl⟩ : ∃ row ∈ db.outbox.rows, (row.id, row.hash) = r := by
    have : r ∈ idsAndHashes db := by rw [hrows]; simp
    simpa [idsAndHashes] using this
  refine ⟨row, hrow, hhash, before, after, hhash ▸ hrows, ?_⟩
  omega

/-! ### Attempts -/

theorem Reached.evolves (h : Reached db hash attempts) (he : Evolves db db') :
    Reached db' hash attempts := by
  obtain ⟨d, hd, hle⟩ := h
  obtain ⟨d', hd', hle', -⟩ := he.documents hash d hd
  exact ⟨d', hd', hle.trans hle'⟩

theorem Left.evolves (h : Left db hash attempts) (he : Evolves db db') :
    Left db' hash attempts := by
  obtain ⟨d, hd, hor⟩ := h
  obtain ⟨d', hd', hle, hfix⟩ := he.documents hash d hd
  refine ⟨d', hd', ?_⟩
  obtain hlt | ⟨heq, hs⟩ := hor
  · exact .inl (by omega)
  · exact .inr (by rw [hfix hs]; exact ⟨heq, hs⟩)

/-- A document's row was queued when the document was at its attempt. -/
theorem Numbered.reached (h : Numbered db id hash n) (ha : Agree m db) : Reached db hash n := by
  have hlt := h.lt
  cases hd : db.documents.find? hash with
  | none =>
    have := ha.none hd
    omega
  | some d =>
    have := (ha.some hd).1
    exact ⟨d, hd, by omega⟩

/-! ### A report that was applied -/

section Applied

variable {faults : List Bool} {now : Time}

theorem Left.inert (h : Left db hash attempts) : Inert db hash attempts := by
  obtain ⟨d, hd, hor⟩ := h
  intro d' hd' hr
  cases hd.symm.trans hd'
  obtain hlt | ⟨-, hs⟩ := hor
  · omega
  · exact hs

theorem left_of_inert (hr : Reached db hash attempts) (hi : Inert db hash attempts) :
    Left db hash attempts := by
  obtain ⟨d, hd, hle⟩ := hr
  rcases Int.lt_or_eq_of_le hle with hlt | heq
  · exact ⟨d, hd, .inl hlt⟩
  · exact ⟨d, hd, .inr ⟨heq, hi d hd heq.symm⟩⟩

theorem left_finished {status : DocumentStatus} (hr : Reached db hash attempts)
    (hs : status ≠ .processing) :
    Left { db with documents := Store.finished db.documents hash attempts status now } hash
      attempts := by
  obtain ⟨d, hd, hle⟩ := hr
  refine ⟨_, by rw [find?_finished, hd]; rfl, ?_⟩
  dsimp only
  by_cases hc : Store.current hash attempts d
  · rw [if_pos hc]
    exact .inr ⟨(current_iff.1 hc).2.1.symm, hs⟩
  · rw [if_neg hc]
    rcases Int.lt_or_eq_of_le hle with hlt | heq
    · exact .inl hlt
    · exact .inr ⟨heq, fun hp => hc (current_iff.2 ⟨Table.key_of_find? hd, heq.symm, hp⟩)⟩

theorem left_applyIndexed {applied : Bool} (hr : Reached db hash attempts)
    (h : (Store.applyIndexed hash attempts now).run faults db = (.ok applied, db')) :
    Left db' hash attempts := by
  obtain ⟨_, he⟩ | he := @Store.applyIndexed_cases db faults hash attempts now
  · cases he.symm.trans h
  · obtain rfl := congrArg Prod.snd (he.symm.trans h)
    exact left_finished hr nofun

theorem left_applyFailed {retryable : Bool} {outcome : FailedOutcome} (ha : Agree m db)
    (hr : Reached db hash attempts)
    (h : (Store.applyFailed hash attempts retryable m.val now).run faults db =
      (.ok outcome, db')) : Left db' hash attempts := by
  obtain ⟨_, he⟩ | ⟨hn, he⟩ | ⟨hn, -, hlt, he⟩ | ⟨-, -, he⟩ :=
    @Store.applyFailed_cases db faults hash attempts retryable m.val now
  · cases he.symm.trans h
  · obtain rfl := congrArg Prod.snd (he.symm.trans h)
    exact left_of_inert hr (inert_iff.2 hn)
  · obtain rfl := congrArg Prod.snd (he.symm.trans h)
    obtain ⟨d, hd, rfl, hs⟩ := affected_current.1 hn
    have hagree := ha.some hd
    have hint := m.int64
    refine ⟨_, by rw [find?_retried, hd]; rfl, .inl ?_⟩
    dsimp only
    rw [if_pos (current_iff.2 ⟨Table.key_of_find? hd, rfl, hs⟩)]
    simp only [addInt_of_lt (show 0 ≤ d.retries + 1 by omega) (by omega)]
    omega
  · obtain rfl := congrArg Prod.snd (he.symm.trans h)
    exact left_finished hr nofun

end Applied

end

/-! ### What makes a row PUBLISHED and a document INDEXED -/

namespace StoreCmd

variable {db db' : Database} {c : StoreCmd}

theorem Effect.published (he : Effect db c db') {row' : OutboxMessage}
    (hr : row' ∈ db'.outbox.rows) (hp : row'.status = .published) :
    (∃ row ∈ db.outbox.rows, row.id = row'.id ∧ row.status = .published) ∨
      ∃ claimedBy, c = .markPublished row'.id claimedBy := by
  have queued {hash : String} {now : Time}
      (h : row' ∈ (Database.enqueued db.outbox hash now).rows) : row' ∈ db.outbox.rows := by
    rw [Database.rows_enqueued, List.mem_append, List.mem_singleton] at h
    rcases h with h | rfl
    · exact h
    · cases hp
  cases he with
  | unchanged | indexed | exhausted | intents => exact .inl ⟨row', hr, rfl, hp⟩
  | started =>
    unfold Store.started at hr
    dsimp only at hr
    split at hr
    · exact .inl ⟨row', hr, rfl, hp⟩
    · exact .inl ⟨row', queued hr, rfl, hp⟩
  | retried => exact .inl ⟨row', queued hr, rfl, hp⟩
  | outbox _ p f hf _ _ publish =>
    obtain ⟨row, hrow, he⟩ := mem_rewrite.1 hr
    split at he
    case isTrue hpr =>
      subst he
      obtain ⟨claimedBy, rfl⟩ := publish row hpr hp
      exact .inr ⟨claimedBy, by rw [hf]⟩
    case isFalse =>
      subst he
      exact .inl ⟨row, hrow, rfl, hp⟩

theorem Effect.indexed_of (he : Effect db c db') {hash : String} {d' : Document}
    (hd' : db'.documents.find? hash = some d') (hs : d'.status = .indexed) :
    (∃ d, db.documents.find? hash = some d ∧ d.status = .indexed) ∨
      ∃ attempts now, c = .applyIndexed hash attempts now := by
  cases he with
  | unchanged | outbox | intents => exact .inl ⟨d', hd', hs⟩
  | started =>
    simp only [Store.started, Table.find?_insertOrIgnore, Store.newDocument] at hd'
    split at hd'
    · cases hd'; cases hs
    · exact .inl ⟨d', hd', hs⟩
  | indexed k attempts now =>
    simp only [find?_finished] at hd'
    obtain ⟨d, hd, rfl⟩ := Option.map_eq_some_iff.1 hd'
    split at hs
    case isTrue hc =>
      have hk := (current_iff.1 hc).1
      have : d.hash = hash := Table.key_of_find? hd
      exact .inr ⟨attempts, now, by rw [← hk, this]⟩
    case isFalse => exact .inl ⟨d, hd, hs⟩
  | exhausted k attempts _ _ now =>
    simp only [find?_finished] at hd'
    obtain ⟨d, hd, rfl⟩ := Option.map_eq_some_iff.1 hd'
    split at hs
    · cases hs
    · exact .inl ⟨d, hd, hs⟩
  | retried k attempts _ now =>
    simp only [find?_retried] at hd'
    obtain ⟨d, hd, rfl⟩ := Option.map_eq_some_iff.1 hd'
    split at hs <;> exact .inl ⟨d, hd, hs⟩

end StoreCmd

end Center
