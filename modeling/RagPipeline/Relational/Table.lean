import Mathlib.Data.List.Nodup
import Mathlib.Data.List.Count
import Mathlib.Order.Nat

/-!
# Keyed tables

A table is its rows in insertion order together with the proof that its primary key is one.
`UPDATE … WHERE` maps the rows a condition selects and never touches the key; `INSERT … ON
CONFLICT DO NOTHING` appends unless the key is taken; an autoincrement table hands out a key
above every key it ever used. A store of points with IDs is a keyed table too.

## Main definitions

* `Table`: rows with a primary key. `AutoTable`: rows numbered by the database.

## Main results

* `Table.find?_update`, `Table.find?_insertOrIgnore`: what a statement does to a row, by key.
* `Table.affected_eq`: a statement pinned to one key affects at most one row.
* `Table.mem_upsertAll`: the rows after a batch of upserts.
-/
namespace Relational

/-- The primary key of a row type. -/
class Keyed (ρ : Type) (κ : outParam Type) where
  key : ρ → κ

export Keyed (key)

/-- `SET f WHERE p` on a list of rows. -/
def rewrite {ρ : Type} (p : ρ → Bool) (f : ρ → ρ) (rows : List ρ) : List ρ :=
  rows.map fun r => if p r then f r else r

section Rewrite

variable {ρ κ : Type} {p q : ρ → Bool} {f : ρ → ρ} {rows : List ρ}

theorem map_key_rewrite [Keyed ρ κ] (hf : ∀ r, key (f r) = key r) :
    (rewrite p f rows).map key = rows.map key := by
  rw [rewrite, List.map_map]
  exact List.map_congr_left fun r _ => by by_cases h : p r <;> simp [h, hf]

theorem mem_rewrite {r : ρ} :
    r ∈ rewrite p f rows ↔ ∃ s ∈ rows, (if p s then f s else s) = r := by
  simp [rewrite]

theorem rewrite_eq_self (h : rows.countP p = 0) : rewrite p f rows = rows := by
  have : ∀ r ∈ rows, (if p r then f r else r) = r := by
    simpa using fun r hr hp => absurd hp (List.countP_eq_zero.1 h r hr)
  rw [rewrite, List.map_congr_left this, List.map_id']

theorem rewrite_congr (h : ∀ r ∈ rows, p r = q r) : rewrite p f rows = rewrite q f rows :=
  List.map_congr_left fun r hr => by rw [h r hr]

/-- A condition on columns the statement does not set keeps its count. -/
theorem countP_rewrite (h : ∀ r, p r → q (f r) = q r) :
    (rewrite p f rows).countP q = rows.countP q := by
  rw [rewrite, List.countP_map]
  refine List.countP_congr fun r _ => ?_
  by_cases hp : p r <;> simp [hp, h]

end Rewrite

structure Table (ρ : Type) {κ : Type} [Keyed ρ κ] where
  rows : List ρ
  nodup : (rows.map key).Nodup

namespace Table

variable {ρ κ : Type} [Keyed ρ κ]

def empty : Table ρ := ⟨[], List.nodup_nil⟩

@[ext] theorem ext {t u : Table ρ} (h : t.rows = u.rows) : t = u := by
  cases t; cases u; cases h; rfl

instance [DecidableEq ρ] : DecidableEq (Table ρ) := fun t u =>
  decidable_of_iff (t.rows = u.rows) ⟨ext, fun h => h ▸ rfl⟩

/-- `UPDATE … SET f WHERE p`; `f` leaves the key alone. -/
def update (t : Table ρ) (p : ρ → Bool) (f : ρ → ρ) (hf : ∀ r, key (f r) = key r) : Table ρ where
  rows := rewrite p f t.rows
  nodup := by rw [map_key_rewrite hf]; exact t.nodup

/-- How many rows a condition selects. -/
def affected (t : Table ρ) (p : ρ → Bool) : Nat := t.rows.countP p

theorem eq_of_key_eq {t : Table ρ} {r s : ρ} (hr : r ∈ t.rows) (hs : s ∈ t.rows)
    (h : key r = key s) : r = s :=
  List.inj_on_of_nodup_map t.nodup hr hs h

section Lookup

variable [DecidableEq κ]

def find? (t : Table ρ) (k : κ) : Option ρ := t.rows.find? fun r => key r = k

/-- `INSERT … ON CONFLICT DO NOTHING`. -/
def insertOrIgnore (t : Table ρ) (r : ρ) : Table ρ :=
  if h : t.find? (key r) = none then
    ⟨t.rows ++ [r], by
      have hr : ∀ s ∈ t.rows, key s ≠ key r := by simpa [find?, List.find?_eq_none] using h
      simpa [List.nodup_append, t.nodup] using fun s hs he => hr s hs he⟩
  else t

theorem mem_of_find? {t : Table ρ} {k : κ} {r : ρ} (h : t.find? k = some r) : r ∈ t.rows :=
  List.mem_of_find?_eq_some h

theorem key_of_find? {t : Table ρ} {k : κ} {r : ρ} (h : t.find? k = some r) : key r = k := by
  simpa using List.find?_some h

theorem find?_eq_some_iff {t : Table ρ} {k : κ} {r : ρ} :
    t.find? k = some r ↔ r ∈ t.rows ∧ key r = k := by
  refine ⟨fun h => ⟨mem_of_find? h, key_of_find? h⟩, fun ⟨hr, hk⟩ => ?_⟩
  obtain ⟨s, hs⟩ : ∃ s, t.find? k = some s := by
    rw [← Option.isSome_iff_exists, find?, List.find?_isSome]
    exact ⟨r, hr, by simpa using hk⟩
  rw [hs, eq_of_key_eq (mem_of_find? hs) hr ((key_of_find? hs).trans hk.symm)]

theorem find?_eq_none_iff {t : Table ρ} {k : κ} :
    t.find? k = none ↔ ∀ r ∈ t.rows, key r ≠ k := by
  simp [find?]

@[simp] theorem find?_empty (k : κ) : (empty : Table ρ).find? k = none := rfl

@[simp] theorem find?_update (t : Table ρ) (p : ρ → Bool) (f : ρ → ρ)
    (hf : ∀ r, key (f r) = key r) (k : κ) :
    (t.update p f hf).find? k = (t.find? k).map fun r => if p r then f r else r := by
  simp only [find?, update, rewrite, List.find?_map]
  congr 2
  funext r
  by_cases h : p r <;> simp [h, hf]

theorem find?_insertOrIgnore (t : Table ρ) (r : ρ) (k : κ) :
    (t.insertOrIgnore r).find? k =
      if key r = k ∧ t.find? k = none then some r else t.find? k := by
  unfold insertOrIgnore
  split
  case isTrue h =>
    by_cases hk : key r = k
    · subst hk
      have : List.find? (fun s => decide (key s = key r)) t.rows = none := h
      simp [find?, List.find?_append, this]
    · simp [find?, List.find?_append, hk]
  case isFalse h =>
    by_cases hk : key r = k
    · subst hk; simp [h]
    · simp [hk]

theorem rows_insertOrIgnore {t : Table ρ} {r : ρ} (h : t.find? (key r) = none) :
    (t.insertOrIgnore r).rows = t.rows ++ [r] := by
  simp [insertOrIgnore, h]

theorem mem_insertOrIgnore {t : Table ρ} {r s : ρ} :
    s ∈ (t.insertOrIgnore r).rows ↔ s ∈ t.rows ∨ t.find? (key r) = none ∧ s = r := by
  unfold insertOrIgnore
  split
  case isTrue h => simp [h]
  case isFalse h => simp [h]

/-- A condition that fixes the key selects the row of that key or nothing. -/
theorem affected_eq {t : Table ρ} {p : ρ → Bool} {k : κ} (hp : ∀ r, p r → key r = k) :
    t.affected p = if (t.find? k).any p then 1 else 0 := by
  have h₁ : t.rows.countP p ≤ 1 :=
    calc t.rows.countP p ≤ t.rows.countP fun r => key r == k :=
          List.countP_mono_left fun r _ h => by simpa using hp r h
      _ = (t.rows.map key).count k := by rw [List.count, List.countP_map]; rfl
      _ ≤ 1 := List.nodup_iff_count_le_one.1 t.nodup k
  split
  case isTrue h =>
    obtain ⟨r, hr, hpr⟩ := by simpa [Option.any_eq_true] using h
    have : 0 < t.rows.countP p := List.countP_pos_iff.2 ⟨r, mem_of_find? hr, hpr⟩
    unfold affected; omega
  case isFalse h =>
    refine List.countP_eq_zero.2 fun r hr hpr => h ?_
    have : t.find? k = some r := find?_eq_some_iff.2 ⟨hr, hp r hpr⟩
    simpa [this] using hpr

/-- Replace the row with this key, or add one. -/
def upsert (t : Table ρ) (r : ρ) : Table ρ where
  rows := if key r ∈ t.rows.map key then t.rows.map fun s => if key s = key r then r else s
    else t.rows ++ [r]
  nodup := by
    split
    case isTrue =>
      have : (t.rows.map fun s => if key s = key r then r else s).map key = t.rows.map key := by
        rw [List.map_map]
        exact List.map_congr_left fun s _ => by by_cases h : key s = key r <;> simp [h]
      rw [this]
      exact t.nodup
    case isFalse h =>
      rw [List.map_append, List.map_singleton]
      simpa using t.nodup.concat h

theorem mem_upsert {t : Table ρ} {r s : ρ} :
    s ∈ (t.upsert r).rows ↔ s = r ∨ s ∈ t.rows ∧ key s ≠ key r := by
  unfold upsert
  by_cases hmem : key r ∈ t.rows.map key
  · obtain ⟨r₀, hr₀, hk⟩ := List.mem_map.1 hmem
    simp only [hmem, if_true, List.mem_map]
    constructor
    · rintro ⟨u, hu, rfl⟩
      by_cases h : key u = key r <;> simp [h, hu]
    · rintro (rfl | ⟨hs, hne⟩)
      · exact ⟨r₀, hr₀, by simp [hk]⟩
      · exact ⟨s, hs, by simp [hne]⟩
  · simp only [hmem, if_false, List.mem_append, List.mem_singleton]
    constructor
    · rintro (hs | rfl)
      · exact .inr ⟨hs, fun h => hmem (h ▸ List.mem_map_of_mem hs)⟩
      · exact .inl rfl
    · rintro (rfl | ⟨hs, -⟩)
      · exact .inr rfl
      · exact .inl hs

/-- One after another; of two rows with one key the later stays. -/
def upsertAll (t : Table ρ) (rs : List ρ) : Table ρ := rs.foldl upsert t

theorem mem_upsertAll {t : Table ρ} {rs : List ρ} {s : ρ} (h : (rs.map key).Nodup) :
    s ∈ (t.upsertAll rs).rows ↔ s ∈ rs ∨ s ∈ t.rows ∧ key s ∉ rs.map key := by
  induction rs generalizing t with
  | nil => simp [upsertAll]
  | cons r rs ih =>
    obtain ⟨hr, hrs⟩ := List.nodup_cons.1 h
    rw [show t.upsertAll (r :: rs) = (t.upsert r).upsertAll rs from rfl, ih hrs, mem_upsert]
    simp only [List.map_cons, List.mem_cons, not_or]
    constructor
    · rintro (hs | ⟨rfl | ⟨hs, hne⟩, hn⟩)
      · exact .inl (.inr hs)
      · exact .inl (.inl rfl)
      · exact .inr ⟨hs, hne, hn⟩
    · rintro ((rfl | hs) | ⟨hs, hne, hn⟩)
      · exact .inr ⟨.inl rfl, hr⟩
      · exact .inl hs
      · exact .inr ⟨.inr ⟨hs, hne⟩, hn⟩

theorem mem_of_mem_upsertAll {t : Table ρ} {rs : List ρ} {s : ρ} (h : s ∈ (t.upsertAll rs).rows) :
    s ∈ rs ∨ s ∈ t.rows := by
  induction rs generalizing t with
  | nil => exact .inr h
  | cons r rs ih =>
    rcases ih h with hs | hs
    · exact .inl (List.mem_cons_of_mem _ hs)
    · rcases mem_upsert.1 hs with rfl | ⟨hs, -⟩
      · exact .inl (List.mem_cons_self ..)
      · exact .inr hs

end Lookup

/-- `DELETE … WHERE`. -/
def delete (t : Table ρ) (p : ρ → Bool) : Table ρ where
  rows := t.rows.filter fun r => !p r
  nodup := (List.filter_sublist.map key).nodup t.nodup

theorem mem_delete {t : Table ρ} {p : ρ → Bool} {r : ρ} :
    r ∈ (t.delete p).rows ↔ r ∈ t.rows ∧ p r = false := by
  simp [delete]

theorem update_eq_self {t : Table ρ} {p : ρ → Bool} {f : ρ → ρ} {hf : ∀ r, key (f r) = key r}
    (h : t.affected p = 0) : t.update p f hf = t :=
  ext (rewrite_eq_self h)

end Table

/-- Rows numbered by the database: every key is below the next one, and later rows have larger
keys. -/
structure AutoTable (ρ : Type) [Keyed ρ Nat] where
  rows : List ρ
  seq : Nat
  increasing : (rows.map key).Pairwise (· < ·)
  bounded : ∀ r ∈ rows, key r ≤ seq

namespace AutoTable

variable {ρ : Type} [Keyed ρ Nat]

def empty : AutoTable ρ := ⟨[], 0, List.Pairwise.nil, by simp⟩

@[ext] theorem ext {t u : AutoTable ρ} (h : t.rows = u.rows) (hs : t.seq = u.seq) : t = u := by
  cases t; cases u; cases h; cases hs; rfl

instance [DecidableEq ρ] : DecidableEq (AutoTable ρ) := fun t u =>
  decidable_of_iff (t.rows = u.rows ∧ t.seq = u.seq)
    ⟨fun h => ext h.1 h.2, fun h => h ▸ ⟨rfl, rfl⟩⟩

/-- `INSERT`; the database picks the key. -/
def insert (t : AutoTable ρ) (mk : Nat → ρ) (hmk : ∀ n, key (mk n) = n) : AutoTable ρ where
  rows := t.rows ++ [mk (t.seq + 1)]
  seq := t.seq + 1
  increasing := by
    rw [List.map_append, List.pairwise_append]
    refine ⟨t.increasing, by simp, fun a ha b hb => ?_⟩
    obtain ⟨r, hr, rfl⟩ := List.mem_map.1 ha
    have := t.bounded r hr
    simp [hmk] at hb
    omega
  bounded := by
    intro r hr
    rcases List.mem_append.1 hr with hr | hr
    · exact (t.bounded r hr).trans (Nat.le_succ _)
    · simp at hr; simp [hr, hmk]

def update (t : AutoTable ρ) (p : ρ → Bool) (f : ρ → ρ) (hf : ∀ r, key (f r) = key r) :
    AutoTable ρ where
  rows := rewrite p f t.rows
  seq := t.seq
  increasing := by rw [map_key_rewrite hf]; exact t.increasing
  bounded := by
    intro r hr
    obtain ⟨s, hs, rfl⟩ := mem_rewrite.1 hr
    by_cases h : p s <;> simp [h, hf, t.bounded s hs]

def affected (t : AutoTable ρ) (p : ρ → Bool) : Nat := t.rows.countP p

@[simp] theorem rows_empty : (empty : AutoTable ρ).rows = [] := rfl

@[simp] theorem rows_insert (t : AutoTable ρ) (mk : Nat → ρ) (hmk : ∀ n, key (mk n) = n) :
    (t.insert mk hmk).rows = t.rows ++ [mk (t.seq + 1)] := rfl

@[simp] theorem rows_update (t : AutoTable ρ) (p : ρ → Bool) (f : ρ → ρ)
    (hf : ∀ r, key (f r) = key r) : (t.update p f hf).rows = rewrite p f t.rows := rfl

theorem update_eq_self {t : AutoTable ρ} {p : ρ → Bool} {f : ρ → ρ}
    {hf : ∀ r, key (f r) = key r} (h : t.affected p = 0) : t.update p f hf = t :=
  ext (rewrite_eq_self h) rfl

theorem eq_of_key_eq {t : AutoTable ρ} {r s : ρ} (hr : r ∈ t.rows) (hs : s ∈ t.rows)
    (h : key r = key s) : r = s :=
  List.inj_on_of_nodup_map (t.increasing.imp fun h => h.ne) hr hs h

end AutoTable

end Relational
