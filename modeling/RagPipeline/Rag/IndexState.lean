import RagPipeline.Rag.IngestService
import RagPipeline.Relational.Table

/-!
# What ingest runs share

The registry table and the points of the vector index, and what each external call does to them.
One call is atomic; it may be refused, or take effect and lose its reply.

## Main definitions

* `IndexState`, `JobCmd.respond`: the two stores, and how they answer a call.
* `Stores`: the points of one document are exactly these.

## Main results

* `pointId_inj`: a point ID belongs to one document and one chunk.
* `stores_upsertAll`, `mem_upsertAll_of_ne`: what a batch of upserts does to a document's points,
  and that it leaves those of the others alone.
-/
namespace Rag

open Events Wire Interact Relational IngestService

instance : Keyed IndexedDocument PyStr := ⟨IndexedDocument.hash⟩
instance : Keyed StoredPoint PyStr := ⟨StoredPoint.id⟩

@[simp] theorem key_indexedDocument (d : IndexedDocument) : key d = d.hash := rfl
@[simp] theorem key_storedPoint (p : StoredPoint) : key p = p.id := rfl

/-- `indexed_documents`, and the points of the collection. -/
structure IndexState where
  rows : Table IndexedDocument
  points : Table StoredPoint
  deriving DecidableEq

/-- What the surroundings decide about a call. -/
structure JobChoice where
  fate : Fate
  /-- What is raised unless the call is answered. -/
  error : CallError
  /-- What the blob store reads. -/
  data : List UInt8
  /-- What the embedder returns. -/
  vectors : List Vector
  /-- What a clock reads. -/
  time : Int

namespace JobCmd

def effect : JobCmd → IndexState → IndexState
  | deleteByHash hash, s => { s with points := s.points.delete fun p => p.hash = hash }
  | upsert batch, s => { s with points := s.points.upsertAll batch }
  | register document, s => { s with rows := s.rows.insertOrIgnore document }
  | clearRows, s => { s with rows := .empty }
  | clearPoints, s => { s with points := .empty }
  | _, s => s

def answer {α : Type} (ch : JobChoice) (a : α) : Except CallError α :=
  if ch.fate = .ok then .ok a else .error ch.error

def reply (ch : JobChoice) (s : IndexState) : (c : JobCmd) → JobSig.Reply c
  | .exists hash => answer ch (s.rows.find? hash).isSome
  | .collectionExists => answer ch true
  | .get .. => answer ch ch.data
  | .embed _ => answer ch ch.vectors
  | .deleteByHash _ | .upsert _ | .register _ | .clearRows | .clearPoints => answer ch ()
  | .countPoints => answer ch s.points.rows.length
  | .countRows => answer ch s.rows.rows.length
  | .monotonic => ch.time
  | .now => ch.time

def respond (c : JobCmd) (ch : JobChoice) (s : IndexState) : JobSig.Reply c × IndexState :=
  (reply ch s c, if ch.fate = .refused then s else c.effect s)

theorem answer_ok {α : Type} {ch : JobChoice} {a b : α} (h : answer ch a = .ok b) :
    ch.fate = .ok ∧ a = b := by
  unfold answer at h
  split at h
  · cases h; exact ⟨‹_›, rfl⟩
  · cases h

end JobCmd

/-! ### Point IDs -/

theorem append_cons_inj {α : Type} {c : α} {x x' y y' : List α} (hy : c ∉ y) (hy' : c ∉ y')
    (h : x ++ c :: y = x' ++ c :: y') : x = x' ∧ y = y' := by
  obtain ⟨z, hx, hz⟩ | ⟨z, hx, hz⟩ := List.append_eq_append_iff.1 h
  all_goals
    cases z with
    | nil => simp_all
    | cons a z => simp_all

/-- A decimal numeral has no colon. -/
theorem colon_notMem (n : Nat) : CodePoint.ofChar ':' ∉ ofString (toString n) := by
  rw [ofString, List.mem_map]
  rintro ⟨c, hc, he⟩
  have hdigit : c.isDigit := by
    rw [Nat.toString_eq_ofList_toDigits, String.toList_ofList] at hc
    exact Nat.isDigit_of_mem_toDigits (by omega) (by omega) hc
  have : c = ':' := by
    have := congrArg CodePoint.toChar he
    rwa [CodePoint.toChar_ofChar, CodePoint.toChar_ofChar] at this
  subst this
  exact absurd hdigit (by decide)

theorem toString_inj {m n : Nat} (h : toString m = toString n) : m = n := by
  have := congrArg (fun s : String => Nat.ofDigitChars 10 s.toList 0) h
  simpa [Nat.toString_eq_ofList_toDigits, Nat.ofDigitChars_ten_toDigits] using this

theorem pointName_inj {hash hash' : PyStr} {i j : Nat} (h : pointName hash i = pointName hash' j) :
    hash = hash' ∧ i = j := by
  have hcolon : ofString ":" = [CodePoint.ofChar ':'] := rfl
  simp only [pointName, hcolon, List.append_assoc, List.singleton_append] at h
  obtain ⟨hh, hd⟩ := append_cons_inj (colon_notMem i) (colon_notMem j) h
  exact ⟨hh, toString_inj (ofString_injective hd)⟩

section Points

variable {uuid5 : PyStr → PyStr} (hinj : Function.Injective uuid5)

include hinj in
theorem pointId_inj {hash hash' : PyStr} {i j : Nat}
    (h : pointId uuid5 hash i = pointId uuid5 hash' j) : hash = hash' ∧ i = j :=
  pointName_inj (hinj h)

theorem mem_pointsOf {event : IngestEvent} {chunks : List PyStr} {vectors : List Vector}
    {p : StoredPoint} : p ∈ pointsOf uuid5 event chunks vectors ↔
      ∃ i chunk vector, (chunks.zip vectors)[i]? = some (chunk, vector) ∧
        p = ⟨pointId uuid5 event.hash i, vector, event.hash, event.filename, i, chunk⟩ := by
  simp only [pointsOf, List.mem_iff_getElem?, List.getElem?_mapIdx, Option.map_eq_some_iff]
  constructor
  · rintro ⟨i, ⟨chunk, vector⟩, hi, rfl⟩
    exact ⟨i, chunk, vector, hi, rfl⟩
  · rintro ⟨i, chunk, vector, hi, rfl⟩
    exact ⟨i, (chunk, vector), hi, rfl⟩

theorem ids_pointsOf {event : IngestEvent} {chunks : List PyStr} {vectors : List Vector} :
    (pointsOf uuid5 event chunks vectors).map key =
      (List.range (chunks.zip vectors).length).map (pointId uuid5 event.hash) := by
  refine List.ext_getElem (by simp [pointsOf]) fun i hi _ => ?_
  simp [pointsOf]

theorem chunkIndex_pointsOf {event : IngestEvent} {chunks : List PyStr} {vectors : List Vector} :
    (pointsOf uuid5 event chunks vectors).map StoredPoint.chunkIndex =
      List.range (chunks.zip vectors).length := by
  refine List.ext_getElem (by simp [pointsOf]) fun i hi _ => ?_
  simp [pointsOf]

include hinj in
theorem nodup_pointsOf {event : IngestEvent} {chunks : List PyStr} {vectors : List Vector} :
    ((pointsOf uuid5 event chunks vectors).map key).Nodup := by
  rw [ids_pointsOf]
  exact List.nodup_range.map fun _ _ h => (pointId_inj hinj h).2

/-- Every point has the ID of its document and chunk. -/
def Shaped (uuid5 : PyStr → PyStr) (t : Table StoredPoint) : Prop :=
  ∀ p ∈ t.rows, p.id = pointId uuid5 p.hash p.chunkIndex

/-- The points of a document are exactly these. -/
def Stores (t : Table StoredPoint) (hash : PyStr) (ps : List StoredPoint) : Prop :=
  ∀ p, p ∈ t.rows ∧ p.hash = hash ↔ p ∈ ps

variable {t : Table StoredPoint} {event : IngestEvent} {chunks : List PyStr}
  {vectors : List Vector} {ps batch rest : List StoredPoint} {hash : PyStr} {p : StoredPoint}

theorem shape_of_mem (h : ps ++ batch ++ rest = pointsOf uuid5 event chunks vectors)
    (hp : p ∈ batch) : p.hash = event.hash ∧ p.id = pointId uuid5 p.hash p.chunkIndex := by
  have hmem : p ∈ pointsOf uuid5 event chunks vectors := by
    rw [← h]
    simp [hp]
  obtain ⟨i, chunk, vector, -, rfl⟩ := mem_pointsOf.1 hmem
  exact ⟨rfl, rfl⟩

theorem nodup_batch (hinj : Function.Injective uuid5)
    (h : ps ++ batch ++ rest = pointsOf uuid5 event chunks vectors) : (batch.map key).Nodup := by
  have hnodup := @nodup_pointsOf _ hinj event chunks vectors
  rw [← h, List.append_assoc, List.map_append, List.map_append] at hnodup
  exact hnodup.of_append_right.of_append_left

theorem Shaped.upsertAll (hs : Shaped uuid5 t) (hinj : Function.Injective uuid5)
    (h : ps ++ batch ++ rest = pointsOf uuid5 event chunks vectors) :
    Shaped uuid5 (t.upsertAll batch) := fun p hp => by
  rcases (Table.mem_upsertAll (nodup_batch hinj h)).1 hp with hp | ⟨hp, -⟩
  · exact (shape_of_mem h hp).2
  · exact hs p hp

/-- A batch of one document's points leaves those of the others alone. -/
theorem mem_upsertAll_of_ne (hs : Shaped uuid5 t) (hinj : Function.Injective uuid5)
    (h : ps ++ batch ++ rest = pointsOf uuid5 event chunks vectors) (hne : p.hash ≠ event.hash) :
    p ∈ (t.upsertAll batch).rows ↔ p ∈ t.rows := by
  rw [Table.mem_upsertAll (nodup_batch hinj h)]
  constructor
  · rintro (hp | ⟨hp, -⟩)
    · exact absurd (shape_of_mem h hp).1 hne
    · exact hp
  · refine fun hp => .inr ⟨hp, fun hk => ?_⟩
    obtain ⟨q, hq, hid⟩ := List.mem_map.1 hk
    obtain ⟨hqh, hqid⟩ := shape_of_mem h hq
    have : pointId uuid5 q.hash q.chunkIndex = pointId uuid5 p.hash p.chunkIndex := by
      rw [← hqid, ← hs p hp]
      exact hid
    exact hne ((pointId_inj hinj this).1.symm.trans hqh)

theorem stores_upsertAll (hst : Stores t event.hash ps) (hinj : Function.Injective uuid5)
    (h : ps ++ batch ++ rest = pointsOf uuid5 event chunks vectors) :
    Stores (t.upsertAll batch) event.hash (ps ++ batch) := fun p => by
  rw [Table.mem_upsertAll (nodup_batch hinj h), List.mem_append]
  constructor
  · rintro ⟨hp | ⟨hp, -⟩, hph⟩
    · exact .inr hp
    · exact .inl ((hst p).1 ⟨hp, hph⟩)
  · rintro (hp | hp)
    · obtain ⟨hmem, hph⟩ := (hst p).2 hp
      refine ⟨.inr ⟨hmem, fun hk => ?_⟩, hph⟩
      have hnodup := @nodup_pointsOf _ hinj event chunks vectors
      rw [← h, List.map_append, List.map_append] at hnodup
      exact List.disjoint_of_nodup_append hnodup.of_append_left (List.mem_map_of_mem hp) hk
    · exact ⟨.inl hp, (shape_of_mem h hp).1⟩

theorem Stores.congr {t' : Table StoredPoint} (hst : Stores t hash ps)
    (h : ∀ p, p.hash = hash → (p ∈ t'.rows ↔ p ∈ t.rows)) : Stores t' hash ps := fun p => by
  rw [← hst p, and_congr_left_iff]
  exact h p

/-- The stored points of a document, as the list they are. -/
theorem Stores.perm (hst : Stores t hash ps) (hnodup : ps.Nodup) :
    (t.rows.filter fun p => p.hash = hash).Perm ps := by
  rw [List.perm_ext_iff_of_nodup ((List.Nodup.of_map _ t.nodup).filter _) hnodup]
  intro p
  simpa using hst p

end Points

end Rag
