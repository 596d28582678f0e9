import RagPipeline.Center.PollSystem
import RagPipeline.Center.RowChange

/-!
# What polls answer

A row and its document force the answers EXPIRED, FAILED and INDEXED on every later poll, but for
one case: the row still waits and its time is over. Then a confirm that has read its clock in time
can still pass the gate.

## Main definitions

* `LetThrough`: a confirm that was in time by its clock has passed the gate.
* `Forces`: what a poll must answer of a row that it has read.
* `Since`: what happens to rows, documents, clock and log from one moment to a later one.
* `PollInv`: every final answer is still forced, or a confirm has passed the gate.

## Main results

* `final_unless_passed`: a final answer is final, unless a confirm that was in time by its clock
  passed the gate in between.
* `not_finalAnswers`: which happens.
-/
namespace Center

open Interact Relational
open scoped List

/-! ### Rows and documents -/

/-- No statement changes the row any more. -/
def Ended (i : Intent) : Prop := i.status = .expired ∨ i.status = .failed ∨ i.hash.isSome

/-- Only hashed rows link a document. -/
def Linked (db : Database) : Prop :=
  ∀ id i, db.intents.find? id = some i → i.hash.isSome → i.status = .hashed

/-- Intents are created without a document. -/
def Unlinked : StoreCmd → Prop
  | .createIntent i => i.hash = none
  | _ => True

/-- Anything but the statement that lets a confirm pass. -/
def Ungated : StoreCmd → Prop
  | .updateIntentToUploaded .. => False
  | c => Unlinked c

theorem Ungated.unlinked {c : StoreCmd} (h : Ungated c) : Unlinked c := by
  cases c <;> first | exact h | trivial

section Rows

variable {c : StoreCmd} {faults : List Bool} {db : Database} {id : String} {i i' : Intent}

theorem Linked.apply (h : Linked db) (hc : Unlinked c) : Linked (c.apply faults db).2 := by
  intro id i' hi' hhash
  cases intentStep c faults db id with
  | same hsame => exact h id i' (hsame.symm.trans hi') hhash
  | changed hi hi'' hedit =>
    cases hi'.symm.trans hi''
    obtain hs | he := hedit.hash_eq
    · exact hs
    · have hs := h _ _ hi (he ▸ hhash)
      obtain ⟨hw, -⟩ | hw | hw := hedit.was_open <;> cases hs.symm.trans hw
  | @created i hcreate _ _ hnew =>
    cases hi'.symm.trans hnew
    subst hcreate
    have hnone : i.hash = none := hc
    simp [IntentStore.newIntent, hnone] at hhash

/-- A row that has ended stays; one that waits goes on waiting, or expires, or is confirmed in
time. -/
theorem row_of_call (h : Linked db) (hi : db.intents.find? id = some i) :
    ∃ i', (c.apply faults db).2.intents.find? id = some i' ∧ (Ended i → i' = i) ∧
      (i.status = .waiting → i'.status = .waiting ∧ i'.expiresAt = i.expiresAt ∨
        i'.status = .expired ∨
        ∃ now, c = .updateIntentToUploaded id now ∧ now < i.expiresAt ∧ i'.status = .uploaded) := by
  cases intentStep c faults db id with
  | same hsame => exact ⟨i, hsame.trans hi, fun _ => rfl, fun hw => .inl ⟨hw, rfl⟩⟩
  | created _ _ hnone => cases hi.symm.trans hnone
  | @changed j i' hj hi' hedit =>
    cases hi.symm.trans hj
    have hid : i.id = id := Table.key_of_find? hi
    refine ⟨i', hi', fun hended => ?_, fun hw => .inr ?_⟩
    · have hopen := hedit.was_open
      have hhashed : i.hash.isSome → i.status = .hashed := h id i hi
      grind [Ended]
    · obtain ⟨-, ⟨now, hc, hnow, hs⟩ | hs⟩ | hs | hs := hedit.was_open
      · exact .inr ⟨now, hid ▸ hc, hnow, hs⟩
      · exact .inl hs
      · cases hw.symm.trans hs
      · cases hw.symm.trans hs

end Rows

/-! ### Confirms that pass -/

/-- A confirm that was in time by its clock passed the gate after the notes `earlier` and before
the notes `later`. -/
def LetThrough (id : String) (later earlier log : List Note) : Prop :=
  ∃ m now expiresAt, now < expiresAt ∧ later ++ .passed m id now expiresAt :: earlier <+ log

section LetThrough

variable {id : String} {later earlier log log' new : List Note}

theorem LetThrough.mono (h : LetThrough id later earlier log) (hs : log <+ log') :
    LetThrough id later earlier log' := by
  obtain ⟨m, now, expiresAt, hnow, hl⟩ := h
  exact ⟨m, now, expiresAt, hnow, hl.trans hs⟩

theorem LetThrough.before (h : LetThrough id later earlier log) :
    LetThrough id later earlier (new ++ log) :=
  h.mono (List.sublist_append_right _ _)

theorem LetThrough.after (h : LetThrough id later [] new) (he : earlier <+ log) :
    LetThrough id later earlier (new ++ log) := by
  obtain ⟨m, now, expiresAt, hnow, hl⟩ := h
  refine ⟨m, now, expiresAt, hnow, ?_⟩
  have happ := hl.append he
  rwa [List.append_assoc] at happ

theorem LetThrough.cons (h : LetThrough id later earlier log) (x : Note) :
    LetThrough id (x :: later) earlier (x :: log) := by
  obtain ⟨m, now, expiresAt, hnow, hl⟩ := h
  exact ⟨m, now, expiresAt, hnow, hl.cons_cons x⟩

/-- The statement changes the row, and its note says so. -/
theorem LetThrough.passedBy {n : Nat} {now : Time} {db db' : Database} {i : Intent}
    (hi : db.intents.find? id = some i) (hnow : now < i.expiresAt)
    (hne : db'.intents.find? id ≠ some i) :
    LetThrough id [] [] (PollWorld.passedBy n (.updateIntentToUploaded id now) db db') := by
  refine ⟨n, now, i.expiresAt, hnow, List.singleton_sublist.2 ?_⟩
  simp [PollWorld.passedBy, hi, hne]

theorem passedBy_of_ungated {n : Nat} {c : StoreCmd} (hc : Ungated c) (db db' : Database) :
    PollWorld.passedBy n c db db' = [] := by
  cases c <;> first | rfl | exact hc.elim

end LetThrough

/-! ### From one moment to a later one -/

structure Since (new : List Note) (g g' : PollWorld) : Prop where
  clock : g.clock ≤ g'.clock
  log : g'.log = new ++ g.log
  documents : ∀ hash d, g.db.documents.find? hash = some d → d.status ≠ .processing →
    g'.db.documents.find? hash = some d
  row : ∀ id i, g.db.intents.find? id = some i → ∃ i', g'.db.intents.find? id = some i' ∧
    (Ended i → i' = i) ∧ (i.status = .waiting → i'.status = .waiting ∧ i'.expiresAt = i.expiresAt ∨
      i'.status = .expired ∨ LetThrough id [] [] new)

section Since

variable {new new' : List Note} {g g' g'' : PollWorld}

theorem Since.refl (g : PollWorld) : Since [] g g :=
  ⟨le_rfl, rfl, fun _ _ h _ => h, fun _ i hi => ⟨i, hi, fun _ => rfl, fun hw => .inl ⟨hw, rfl⟩⟩⟩

theorem Since.trans (h : Since new g g') (h' : Since new' g' g'') : Since (new' ++ new) g g'' where
  clock := h.clock.trans h'.clock
  log := by rw [h'.log, h.log, List.append_assoc]
  documents hash d hd hs := h'.documents hash d (h.documents hash d hd hs) hs
  row id i hi := by
    obtain ⟨i₁, hi₁, hended₁, hwait₁⟩ := h.row id i hi
    obtain ⟨i₂, hi₂, hended₂, hwait₂⟩ := h'.row id i₁ hi₁
    refine ⟨i₂, hi₂, fun he => ?_, fun hw => ?_⟩
    · obtain rfl := hended₁ he
      exact hended₂ he
    · obtain ⟨hw₁, he₁⟩ | hx | hp := hwait₁ hw
      · obtain ⟨hw₂, he₂⟩ | hx | hp := hwait₂ hw₁
        · exact .inl ⟨hw₂, he₂.trans he₁⟩
        · exact .inr (.inl hx)
        · exact .inr (.inr (hp.after (List.nil_sublist _)))
      · obtain rfl := hended₂ (.inl hx)
        exact .inr (.inl hx)
      · exact .inr (.inr hp.before)

/-- A change of the log alone. -/
theorem Since.logged (new : List Note) (g : PollWorld) :
    Since new g { g with log := new ++ g.log } where
  clock := le_rfl
  log := rfl
  documents _ _ h _ := h
  row _ i hi := ⟨i, hi, fun _ => rfl, fun hw => .inl ⟨hw, rfl⟩⟩

/-- A statement, and the notes of what it lets through. -/
theorem Since.store (h : Linked g.db) {c : StoreCmd} {faults : List Bool} {db : Database}
    (hdb : (c.apply faults g.db).2 = db)
    (hgate : ∀ id now i, c = .updateIntentToUploaded id now → g.db.intents.find? id = some i →
      now < i.expiresAt → db.intents.find? id ≠ some i → LetThrough id [] [] new) :
    Since new g { g with db := db, log := new ++ g.log } where
  clock := le_rfl
  log := rfl
  documents _ _ hd hs := hdb ▸ find?_of_finished hd hs
  row id i hi := by
    obtain ⟨i', hi', hended, hwait⟩ := @row_of_call c faults g.db id i h hi
    rw [hdb] at hi'
    refine ⟨i', hi', hended, fun hw => (hwait hw).imp_right (Or.imp_right ?_)⟩
    rintro ⟨now, hc, hnow, hs⟩
    refine hgate id now i hc hi hnow fun hsame => ?_
    cases hi'.symm.trans hsame
    cases hw.symm.trans hs

end Since

/-! ### Answers that are forced -/

/-- What a poll that has read this row must answer, from now on. -/
inductive Forces (g : PollWorld) (i : Intent) : String → Prop
  | late (hs : i.status = .waiting) (h : i.expiresAt ≤ g.clock) : Forces g i "EXPIRED"
  | expired (hs : i.status = .expired) : Forces g i "EXPIRED"
  | failed (hs : i.status = .failed) : Forces g i "FAILED"
  | document {hash : String} {d : Document} (hh : i.hash = some hash)
      (hd : g.db.documents.find? hash = some d) (hs : d.status ≠ .processing) :
      Forces g i d.status.text

def Forced (g : PollWorld) (id status : String) : Prop :=
  ∃ i, g.db.intents.find? id = some i ∧ Forces g i status

section Forces

variable {new : List Note} {g g' : PollWorld} {i : Intent} {id status : String}

theorem Forces.since (h : Forces g i status) (hs : Since new g g') : Forces g' i status := by
  cases h with
  | late hw h => exact .late hw (h.trans hs.clock)
  | expired hx => exact .expired hx
  | failed hf => exact .failed hf
  | document hh hd hf => exact .document hh (hs.documents _ _ hd hf) hf

theorem Forced.since (h : Forced g id status) (hs : Since new g g') :
    Forced g' id status ∨ status = "EXPIRED" ∧ LetThrough id [] [] new := by
  obtain ⟨i, hi, hforces⟩ := h
  obtain ⟨i', hi', hended, hwait⟩ := hs.row id i hi
  have hstay (he : Ended i) : Forced g' id status := by
    obtain rfl := hended he
    exact ⟨i', hi', hforces.since hs⟩
  cases hforces with
  | late hw h =>
    obtain ⟨hw', he'⟩ | hx | hp := hwait hw
    · exact .inl ⟨i', hi', .late hw' (he' ▸ h.trans hs.clock)⟩
    · exact .inl ⟨i', hi', .expired hx⟩
    · exact .inr ⟨rfl, hp⟩
  | expired hx => exact .inl (hstay (.inl hx))
  | failed hf => exact .inl (hstay (.inr (.inl hf)))
  | document hh => exact .inl (hstay (.inr (.inr (by simp [hh]))))

end Forces

/-! ### The invariant -/

structure PollInv (g : PollWorld) : Prop where
  linked : Linked g.db
  clocked : ∀ n id now expiresAt, .passed n id now expiresAt ∈ g.log →
    [.passed n id now expiresAt, .clock n now] <+ g.log
  answers : ∀ n id status, .answered n id status ∈ g.log → FinalAnswer status →
    .read n id ∈ g.log ∧ (Forced g id status ∨
      status = "EXPIRED" ∧ LetThrough id [] [.read n id] g.log)
  final : ∀ n n' id status status',
    [.answered n' id status', .asked n' id, .answered n id status] <+ g.log →
    FinalAnswer status → status' = status ∨
      status = "EXPIRED" ∧ LetThrough id [.read n' id] [.read n id] g.log

theorem PollInv.finalUnlessPassed {g : PollWorld} (h : PollInv g) : FinalUnlessPassed g.log := by
  intro n n' id status status' hsub hfinal
  refine (h.final n n' id status status' hsub hfinal).imp_right fun ⟨he, hlet⟩ => ⟨he, ?_⟩
  obtain ⟨m, now, expiresAt, hnow, hl⟩ := hlet
  exact ⟨m, now, expiresAt, hnow, h.clocked m id now expiresAt (hl.subset (by simp)), hl⟩

/-- What a poll may answer. -/
structure CanAnswer (n : Nat) (id status : String) (g : PollWorld) : Prop where
  read : .read n id ∈ g.log
  forced : FinalAnswer status → Forced g id status ∨
    status = "EXPIRED" ∧ LetThrough id [] [.read n id] g.log
  earlier : ∀ m status', [.asked n id, .answered m id status'] <+ g.log → FinalAnswer status' →
    status = status' ∨ status' = "EXPIRED" ∧ LetThrough id [.read n id] [.read m id] g.log

/-- Which request wrote a note. -/
def Note.author : Note → Nat
  | asked n _ | clock n _ | read n _ | answered n _ _ | passed n _ _ _ => n

/-- Notes that need no reasons beside those in the log. -/
def Note.Addable (log : List Note) : Note → Prop
  | answered .. => False
  | passed n _ now _ => .clock n now ∈ log
  | _ => True

section Invariant

variable {new log : List Note} {g g' : PollWorld} {n : Nat} {id status : String}

theorem sublist_of_notMem {a : Note} {l : List Note} (h : a :: l <+ new ++ log) (ha : a ∉ new) :
    a :: l <+ log := by
  obtain ⟨l₁, l₂, he, h₁, h₂⟩ := List.sublist_append_iff.1 h
  cases l₁ with
  | nil => exact he ▸ h₂
  | cons b l₁ =>
    cases he
    exact absurd (h₁.subset List.mem_cons_self) ha

theorem forced_since (hs : Since new g g') (hread : .read n id ∈ g.log)
    (h : Forced g id status ∨ status = "EXPIRED" ∧ LetThrough id [] [.read n id] g.log) :
    Forced g' id status ∨ status = "EXPIRED" ∧ LetThrough id [] [.read n id] g'.log := by
  rw [hs.log]
  obtain hf | ⟨rfl, hp⟩ := h
  · obtain hf | ⟨rfl, hp⟩ := hf.since hs
    · exact .inl hf
    · exact .inr ⟨rfl, hp.after (List.singleton_sublist.2 hread)⟩
  · exact .inr ⟨rfl, hp.before⟩

/-- The invariant is kept as long as no poll answers. -/
theorem PollInv.since (h : PollInv g) (hs : Since new g g') (hl : Linked g'.db)
    (hnew : ∀ x ∈ new, x.Addable g.log) : PollInv g' where
  linked := hl
  clocked n id now expiresAt hmem := by
    rw [hs.log] at hmem ⊢
    obtain hmem | hmem := List.mem_append.1 hmem
    · exact (List.singleton_sublist.2 hmem).append (List.singleton_sublist.2 (hnew _ hmem))
    · exact (h.clocked n id now expiresAt hmem).trans (List.sublist_append_right _ _)
  answers n id status hmem hfinal := by
    rw [hs.log] at hmem
    have hmem := (List.mem_append.1 hmem).resolve_left fun hmem => hnew _ hmem
    obtain ⟨hread, hforced⟩ := h.answers n id status hmem hfinal
    exact ⟨hs.log ▸ List.mem_append_right _ hread, forced_since hs hread hforced⟩
  final n n' id status status' hsub hfinal := by
    rw [hs.log] at hsub ⊢
    have hsub := sublist_of_notMem hsub fun hmem => hnew _ hmem
    exact (h.final n n' id status status' hsub hfinal).imp_right fun ⟨he, hp⟩ => ⟨he, hp.before⟩

/-- A poll may answer what it may answer. -/
theorem PollInv.answered (h : PollInv g) (hc : CanAnswer n id status g) :
    PollInv { g with log := .answered n id status :: g.log } where
  linked := h.linked
  clocked m id' now expiresAt hmem := by
    obtain he | hmem := List.mem_cons.1 hmem
    · cases he
    · exact (h.clocked m id' now expiresAt hmem).cons _
  answers m id' status' hmem hfinal := by
    have hs := Since.logged [.answered n id status] g
    obtain he | hmem := List.mem_cons.1 hmem
    · cases he
      exact ⟨List.mem_cons_of_mem _ hc.read, forced_since hs hc.read (hc.forced hfinal)⟩
    · obtain ⟨hread, hforced⟩ := h.answers m id' status' hmem hfinal
      exact ⟨List.mem_cons_of_mem _ hread, forced_since hs hread hforced⟩
  final m m' id' s s' hsub hfinal := by
    have hmore : g.log <+ .answered n id status :: g.log := List.sublist_cons_self _ _
    cases hsub with
    | cons _ hsub =>
      exact (h.final m m' id' s s' hsub hfinal).imp_right fun ⟨he, hp⟩ => ⟨he, hp.mono hmore⟩
    | cons_cons _ hsub =>
      exact (hc.earlier m s hsub hfinal).imp_right fun ⟨he, hp⟩ => ⟨he, hp.mono hmore⟩

/-- What others do does not take an answer away. -/
theorem CanAnswer.since (h : CanAnswer n id status g) (hs : Since new g g')
    (hothers : ∀ x ∈ new, x.author ≠ n) : CanAnswer n id status g' where
  read := hs.log ▸ List.mem_append_right _ h.read
  forced hfinal := forced_since hs h.read (h.forced hfinal)
  earlier m status' hsub hfinal := by
    rw [hs.log] at hsub ⊢
    have hsub := sublist_of_notMem hsub fun hmem => hothers _ hmem rfl
    exact (h.earlier m status' hsub hfinal).imp_right fun ⟨he, hp⟩ => ⟨he, hp.before⟩

end Invariant

/-! ### One step -/

def PollRely : Party → PollWorld → PollWorld → Prop
  | .request n, g, g' => ∃ new, Since new g g' ∧ ∀ x ∈ new, x.author ≠ n
  | .hash _, _, _ => True

/-- The gate is asked with what the request has read off its clock. -/
def Clocked (n : Nat) (log : List Note) : StoreCmd → Prop
  | .updateIntentToUploaded _ now => .clock n now ∈ log
  | _ => True

def requestGuard (n : Nat) : UploadCmd → PollWorld → Prop
  | .store c, g => Unlinked c ∧ Clocked n g.log c
  | .respond (.status body), g => CanAnswer n body.id body.status g
  | _, _ => True

def hashGuard : HashCmd → Prop
  | .store c => Ungated c
  | _ => True

/-- A step leaves a state with the invariant, and writes no notes of other requests. -/
def Steps (author : Option Nat) (g g' : PollWorld) : Prop :=
  PollInv g' ∧ ∃ new, Since new g g' ∧ ∀ x ∈ new, some x.author = author

section Step

variable {author : Option Nat} {g g' : PollWorld} {ch : PollChoice} {n : Nat}

theorem Steps.refl (h : PollInv g) : Steps author g g := ⟨h, [], .refl g, nofun⟩

theorem Steps.rely (h : Steps author g g') {j : Party}
    (hj : ∀ n, j = .request n → author ≠ some n) : PollRely j g g' := by
  obtain ⟨-, new, hs, hauthor⟩ := h
  cases j with
  | hash p => trivial
  | request n => exact ⟨new, hs, fun x hx he => hj n rfl (he ▸ (hauthor x hx).symm)⟩

theorem Ungated.request {c : StoreCmd} (h : Ungated c) : requestGuard n (.store c) g := by
  refine ⟨h.unlinked, ?_⟩
  cases c <;> trivial

theorem Steps.store (h : PollInv g) {c : StoreCmd} (hc : Ungated c) (faults : List Bool) :
    Steps author g (g.afterStore c faults) := by
  have hs : Since [] g (g.afterStore c faults) := by
    refine .store h.linked rfl ?_
    rintro id now i rfl
    exact hc.elim
  exact ⟨h.since hs (h.linked.apply hc.unlinked) nofun, [], hs, nofun⟩

/-- A request notes what its statement lets through. -/
theorem Steps.gate (h : PollInv g) {c : StoreCmd} (hc : requestGuard n (.store c) g)
    (faults : List Bool) :
    Steps (some n) g { g.afterStore c faults with
      log := PollWorld.passedBy n c g.db (c.apply faults g.db).2 ++ g.log } := by
  have hpassed : ∀ x ∈ PollWorld.passedBy n c g.db (c.apply faults g.db).2,
      x.Addable g.log ∧ x.author = n := by
    intro x hx
    cases c with
    | updateIntentToUploaded id now =>
      simp only [PollWorld.passedBy] at hx
      split at hx
      · cases hx
      · obtain ⟨i, -, rfl⟩ := List.mem_map.1 hx
        exact ⟨hc.2, rfl⟩
    | _ => cases hx
  have hgate : ∀ id now i, c = .updateIntentToUploaded id now → g.db.intents.find? id = some i →
      now < i.expiresAt → (c.apply faults g.db).2.intents.find? id ≠ some i →
      LetThrough id [] [] (PollWorld.passedBy n c g.db (c.apply faults g.db).2) := by
    intro id now i he hi hnow hne
    subst he
    exact .passedBy hi hnow hne
  have hs := Since.store h.linked rfl hgate
  refine ⟨h.since hs (h.linked.apply hc.1) fun x hx => (hpassed x hx).1, _, hs, fun x hx => ?_⟩
  rw [(hpassed x hx).2]

/-- A request notes what it does. -/
theorem Steps.logged (h : Steps author g g') {new : List Note}
    (hnew : ∀ x ∈ new, x.Addable g'.log ∧ some x.author = author) :
    Steps author g { g' with log := new ++ g'.log } := by
  obtain ⟨hinv, old, hs, hold⟩ := h
  have hlogged := Since.logged new g'
  refine ⟨hinv.since hlogged hinv.linked fun x hx => (hnew x hx).1, _, hs.trans hlogged, ?_⟩
  intro x hx
  obtain hx | hx := List.mem_append.1 hx
  · exact (hnew x hx).2
  · exact hold x hx

theorem Steps.request (h : PollInv g) {c : UploadCmd} (hc : requestGuard n c g) :
    Steps (some n) g (g.requestAfter ch n c) := by
  cases c with
  | store c =>
    refine (Steps.gate h hc ch.faults).logged fun x hx => ?_
    cases c <;> simp [PollWorld.readBy] at hx
    exact hx ▸ ⟨trivial, rfl⟩
  | respond r =>
    cases r with
    | status body =>
      refine ⟨h.answered hc, _, .logged [.answered n body.id body.status] g, fun x hx => ?_⟩
      exact List.mem_singleton.1 hx ▸ rfl
    | created | confirmed | error => exact .refl h
  | now =>
    have hnew : ∀ x ∈ [Note.clock n g.clock], x.Addable g.log ∧ some x.author = some n :=
      fun x hx => List.mem_singleton.1 hx ▸ ⟨trivial, rfl⟩
    exact (Steps.refl h).logged hnew
  | presignedUploadURL | uuid => exact .refl h

theorem Steps.hash (h : PollInv g) {c : HashCmd} (hc : hashGuard c) :
    Steps none g (g.hashAfter ch c) := by
  cases c with
  | store c => exact .store h hc ch.faults
  | blob | now | cancelled | tick | done => exact .refl h

theorem Steps.env (h : PollInv g) (e : PollEvent) : Steps none g (e.apply g) := by
  cases e with
  | tick duration =>
    have hs : Since [] g (PollEvent.apply (.tick duration) g) :=
      { Since.refl g with clock := Int.le_add_of_nonneg_right (Int.natCast_nonneg duration) }
    exact ⟨h.since hs h.linked nofun, [], hs, nofun⟩
  | applyIndexed hash attempts now faults =>
    exact .store h (c := .applyIndexed hash attempts now) trivial faults
  | applyFailed hash attempts retryable maxAttempts now faults =>
    exact .store h (c := .applyFailed hash attempts retryable maxAttempts now) trivial faults

end Step

/-! ### One poll -/

/-- The poll has read this row: what has become of it since, and what was answered before. -/
structure Seen (n : Nat) (id : String) (i : Intent) (g : PollWorld) : Prop where
  key : i.id = id
  linked : i.hash.isSome → i.status = .hashed
  read : .read n id ∈ g.log
  row : ∃ i', g.db.intents.find? id = some i' ∧ (Ended i → i' = i) ∧
    (i.status = .waiting → i'.status = .waiting ∧ i'.expiresAt = i.expiresAt ∨
      i'.status = .expired ∨ LetThrough id [] [.read n id] g.log)
  earlier : ∀ m status, [.asked n id, .answered m id status] <+ g.log → FinalAnswer status →
    Forces g i status ∨ status = "EXPIRED" ∧ LetThrough id [.read n id] [.read m id] g.log

section Poll

variable {new : List Note} {g g' : PollWorld} {n : Nat} {id status hash : String} {i : Intent}
  {d : Document}

/-- A row just read. -/
theorem Seen.start (h : PollInv g) (hi : g.db.intents.find? id = some i) :
    Seen n id i { g with log := .read n id :: g.log } where
  key := Table.key_of_find? hi
  linked := h.linked id i hi
  read := List.mem_cons_self
  row := ⟨i, hi, fun _ => rfl, fun hw => .inl ⟨hw, rfl⟩⟩
  earlier m status hsub hfinal := by
    have hne : .asked n id ∉ [Note.read n id] := by simp
    have hsub : [.asked n id, .answered m id status] <+ g.log := sublist_of_notMem hsub hne
    have hmem : .answered m id status ∈ g.log := hsub.subset (by simp)
    obtain ⟨-, ⟨i', hi', hforces⟩ | ⟨he, hp⟩⟩ := h.answers m id status hmem hfinal
    · cases hi.symm.trans hi'
      exact .inl (hforces.since (.logged [.read n id] g))
    · exact .inr ⟨he, hp.cons _⟩

theorem Seen.since (h : Seen n id i g) (hs : Since new g g') (hasked : .asked n id ∉ new) :
    Seen n id i g' where
  key := h.key
  linked := h.linked
  read := hs.log ▸ List.mem_append_right _ h.read
  row := by
    obtain ⟨i₁, hi₁, hended₁, hwait₁⟩ := h.row
    obtain ⟨i₂, hi₂, hended₂, hwait₂⟩ := hs.row id i₁ hi₁
    refine ⟨i₂, hi₂, fun he => ?_, fun hw => ?_⟩
    · obtain rfl := hended₁ he
      exact hended₂ he
    · rw [hs.log]
      obtain ⟨hw₁, he₁⟩ | hx | hp := hwait₁ hw
      · obtain ⟨hw₂, he₂⟩ | hx | hp := hwait₂ hw₁
        · exact .inl ⟨hw₂, he₂.trans he₁⟩
        · exact .inr (.inl hx)
        · exact .inr (.inr (hp.after (List.singleton_sublist.2 h.read)))
      · obtain rfl := hended₂ (.inl hx)
        exact .inr (.inl hx)
      · exact .inr (.inr hp.before)
  earlier m status hsub hfinal := by
    rw [hs.log] at hsub ⊢
    have hsub := sublist_of_notMem hsub hasked
    obtain hf | ⟨he, hp⟩ := h.earlier m status hsub hfinal
    · exact .inl (hf.since hs)
    · exact .inr ⟨he, hp.before⟩

/-- What the row that was read forces, the row forces now. -/
theorem Seen.forced (h : Seen n id i g) (hf : Forces g i status) : Forced g id status ∨
    status = "EXPIRED" ∧ LetThrough id [] [.read n id] g.log := by
  obtain ⟨i', hi', hended, hwait⟩ := h.row
  have hstay (he : Ended i) : Forced g id status := by
    obtain rfl := hended he
    exact ⟨i', hi', hf⟩
  cases hf with
  | late hw hle =>
    obtain ⟨hw', he'⟩ | hx | hp := hwait hw
    · exact .inl ⟨i', hi', .late hw' (he' ▸ hle)⟩
    · exact .inl ⟨i', hi', .expired hx⟩
    · exact .inr ⟨rfl, hp⟩
  | expired hx => exact .inl (hstay (.inl hx))
  | failed hx => exact .inl (hstay (.inr (.inl hx)))
  | document hh => exact .inl (hstay (.inr (.inr (by simp [hh]))))

theorem Seen.canAnswer (h : Seen n id i g) (hfinal : FinalAnswer status → Forces g i status)
    (hforces : ∀ status', Forces g i status' → status = status') : CanAnswer n id status g where
  read := h.read
  forced hf := h.forced (hfinal hf)
  earlier m status' hsub hf := (h.earlier m status' hsub hf).imp_left (hforces status')

/-- A row that forces an answer, and what the poll makes of it. -/
theorem Forces.statusAt (h : Forces g i status) (hl : i.hash.isSome → i.status = .hashed) :
    Service.statusAt g.clock i = .ok (.inl status) ∨
      ∃ hash, i.hash = some hash ∧ Service.statusAt g.clock i = .ok (.inr hash) := by
  cases h with
  | late hw hle => exact .inl (if_pos ⟨hw, not_lt.2 hle⟩)
  | expired hx | failed hx =>
    have hnone : i.hash = none := by
      cases hh : i.hash with
      | none => rfl
      | some _ => cases hx.symm.trans (hl (by simp [hh]))
    exact .inl (by simp [Service.statusAt, hx, hnone, IntentState.text])
  | document hh =>
    have hs := hl (by simp [hh])
    exact .inr ⟨_, hh, by simp [Service.statusAt, hh, hs]⟩

/-- A final answer without a document is forced. -/
theorem forces_of_statusAt (hs : Service.statusAt g.clock i = .ok (.inl status))
    (hf : FinalAnswer status) : Forces g i status := by
  unfold Service.statusAt at hs
  split at hs
  case isTrue h =>
    cases hs
    exact .late h.1 (not_lt.1 h.2)
  case isFalse =>
    cases hh : i.hash with
    | some hash => simp [hh] at hs
    | none =>
      simp only [hh] at hs
      split at hs
      · cases hs
        simp [FinalAnswer, DocumentStatus.text] at hf
      · split at hs
        · cases hs
        · cases hs
          cases hst : i.status with
          | expired => exact .expired hst
          | failed => exact .failed hst
          | unknown | waiting | uploaded | hashing | hashed =>
            simp [FinalAnswer, hst, IntentState.text] at hf

/-- A poll that asks for no document answers what the row forces. -/
theorem Seen.answer_row (h : Seen n id i g)
    (hs : Service.statusAt g.clock i = .ok (.inl status)) : CanAnswer n id status g := by
  refine h.canAnswer (forces_of_statusAt hs) fun status' hforces => ?_
  obtain hs' | ⟨_, _, hs'⟩ := hforces.statusAt h.linked
  · cases hs.symm.trans hs'
    rfl
  · cases hs.symm.trans hs'

theorem Seen.answer_document (h : Seen n id i g) (hh : i.hash = some hash)
    (hd : g.db.documents.find? hash = some d) : CanAnswer n id d.status.text g := by
  have hlinked : i.status = .hashed := h.linked (by simp [hh])
  refine h.canAnswer (fun hf => .document hh hd ?_) fun status' hforces => ?_
  · rintro hs
    simp [FinalAnswer, hs, DocumentStatus.text] at hf
  · cases hforces with
    | late hw | expired hw | failed hw => cases hlinked.symm.trans hw
    | document hh' hd' =>
      cases hh.symm.trans hh'
      cases hd.symm.trans hd'
      rfl

end Poll

section Walk

open Method Service Handlers

variable {n : Nat} {id : String} {i : Intent} {g g' : PollWorld} {c : StoreCmd} {text : String}

/-- What a request works under. -/
def requestContract (n : Nat) : Contract UploadSig PollWorld where
  inv := PollInv
  rely := PollRely (.request n)
  guard := requestGuard n
  exec c g r g' := ∃ ch : PollChoice, True ∧ (g.requestReply ch c, g.requestAfter ch n c) = (r, g')

theorem Seen.rely (h : Seen n id i g) (hr : PollRely (.request n) g g') : Seen n id i g' := by
  obtain ⟨new, hs, hothers⟩ := hr
  exact h.since hs fun hmem => hothers _ hmem rfl

theorem CanAnswer.rely {status : String} (h : CanAnswer n id status g)
    (hr : PollRely (.request n) g g') : CanAnswer n id status g' := by
  obtain ⟨new, hs, hothers⟩ := hr
  exact h.since hs hothers

/-- A method of the store, and what follows. -/
theorem wp_store_bind {α : Type} {f : Except StoreError c.Result → UploadMethod α}
    {Q : Except UploadError α → Unit → PollWorld → Prop} (hc : Ungated c)
    (h : ∀ faults g', PollInv g → PollRely (.request n)
      { g with db := (c.apply faults g.db).2, log := PollWorld.readBy n c ++ g.log } g' →
      wp (requestContract n) (f (c.apply faults g.db).1) Q () g') :
    wp (requestContract n) (perform (.store c) >>= f) Q () g := by
  refine wp_call_bind (fun _ => hc.request) ?_
  rintro r g₁ g' hinv ⟨ch, -, ⟨⟩⟩ - hr
  simp only [PollWorld.requestAfter, passedBy_of_ungated hc, List.nil_append] at hr
  exact h ch.faults g' hinv hr

/-- What a poll that has read the row may answer. -/
def Answers (n : Nat) (id : String) (r : Except UploadError String) (_ : Unit) (g : PollWorld) :
    Prop :=
  ∀ status, r = .ok status → CanAnswer n id status g

theorem wp_getIntent : wp (requestContract n) (getIntent id)
    (fun r _ g => ∀ i, r = .ok i → Seen n id i g) () g := by
  refine wp_store_bind trivial fun faults g' hinv hr => ?_
  have hdb : ((StoreCmd.getIntent id).apply faults g.db).2 = g.db :=
    Tx.run_quiet IntentStore.quiet_getIntent _ _
  rw [hdb] at hr
  cases hi : ((StoreCmd.getIntent id).apply faults g.db).1 with
  | ok i =>
    refine wp_pure fun i' hi' => ?_
    cases hi'
    exact (Seen.start hinv (IntentStore.getIntent_ok hi)).rely hr
  | error e => cases e <;> exact wp_raise (by simp)

theorem wp_getDocumentStatus {hash : String} (h : Seen n id i g) (hh : i.hash = some hash) :
    wp (requestContract n) (getDocumentStatus hash) (Answers n id) () g := by
  refine wp_bind (R := fun r _ g => ∀ d, r = .ok (some d) → CanAnswer n id d.status.text g) ?_
    (fun _ _ _ _ => nofun) fun found _ g' hfound => ?_
  · refine wp_store_bind trivial fun faults g' hinv hr => ?_
    have hdb : ((StoreCmd.getDocumentByHash hash).apply faults g.db).2 = g.db :=
      Tx.run_quiet (Tx.quiet_query _) _ _
    rw [hdb] at hr
    cases hd : ((StoreCmd.getDocumentByHash hash).apply faults g.db).1 with
    | ok found =>
      refine wp_pure fun d hfound => ?_
      cases hfound
      exact (h.answer_document hh (DocumentStore.getDocumentByHash_ok hd)).rely hr
    | error e => exact wp_raise (by simp)
  · cases found with
    | none => exact wp_raise fun _ => nofun
    | some d =>
      refine wp_pure fun status hs => ?_
      cases hs
      exact hfound d rfl

theorem statusAt_document {now : Time} {hash : String} (h : statusAt now i = .ok (.inr hash)) :
    i.hash = some hash := by
  unfold statusAt at h
  split at h
  · cases h
  · cases hh : i.hash with
    | some hash' =>
      rw [hh] at h
      cases h
      rfl
    | none =>
      simp only [hh] at h
      split at h
      · cases h
      · split at h <;> cases h

/-- The clock is read at one moment, and the answer found later. -/
theorem wp_statusOf (h : Seen n id i g) (hr : PollRely (.request n) g g') :
    wp (requestContract n) (statusOf g.clock i) (Answers n id) () g' := by
  unfold statusOf
  cases hs : statusAt g.clock i with
  | error e => exact wp_raise fun _ => nofun
  | ok what =>
    cases what with
    | inl status =>
      refine wp_pure fun status' he => ?_
      cases he
      exact (h.answer_row hs).rely hr
    | inr hash => exact wp_getDocumentStatus (h.rely hr) (statusAt_document hs)

theorem wp_getUploadStatus : wp (requestContract n) (getUploadStatus id)
    (fun r _ g => ∀ i status, r = .ok (i, status) → CanAnswer n i.id status g) () g := by
  refine wp_bind wp_getIntent (fun _ _ _ _ _ _ => nofun) fun i _ g' hi => ?_
  have hseen := hi i rfl
  refine wp_call_bind (fun _ => trivial) ?_
  rintro _ _ g₂ - ⟨ch, -, ⟨⟩⟩ - hr
  have hclocked := hseen.since (Since.logged [.clock n g'.clock] g') (by simp)
  refine wp_bind (wp_statusOf (g := { g' with log := .clock n g'.clock :: g'.log }) hclocked hr)
    (fun _ _ _ _ _ _ => nofun) fun status _ g₃ hs => ?_
  refine wp_pure fun i' status' he => ?_
  cases he
  exact hseen.key.symm ▸ hs status rfl

/-! ### The other requests -/

/-- Commands that answer no poll. -/
def PollFree : UploadCmd → Prop
  | .store c => Ungated c
  | .respond (.status _) => False
  | _ => True

theorem PollFree.guard {c : UploadCmd} (h : PollFree c) : requestGuard n c g := by
  cases c with
  | store c => exact Ungated.request h
  | respond r => cases r <;> first | exact h.elim | trivial
  | presignedUploadURL | now | uuid => trivial

theorem issues_store (hc : Ungated c) : Issues PollFree (Service.store text c) := by
  refine issues_bind (issues_call hc) fun r => ?_
  change Except StoreError c.Result at r
  cases r with
  | ok => exact issues_pure
  | error => exact issues_raise

theorem issues_getIntent : Issues PollFree (getIntent id) := by
  refine issues_call_bind trivial fun r => ?_
  change Except StoreError Intent at r
  match r with
  | .ok _ => exact issues_pure
  | .error (.intentNotFound _) | .error .lostClaim | .error (.driver _) => exact issues_raise

theorem issues_createIntent {fileName : String} : Issues PollFree (createIntent fileName) := by
  refine issues_call_bind trivial fun now => issues_call_bind trivial fun id => ?_
  refine issues_call_bind trivial fun url => ?_
  change Option String at url
  cases url with
  | none => exact issues_raise
  | some url => exact issues_bind (issues_store rfl) fun _ => issues_pure

theorem issues_resolveLostGate {now : Time} : Issues PollFree (resolveLostGate id now) := by
  refine issues_loop fun _ => issues_bind issues_getIntent fun i => ?_
  cases verdict i with
  | some r => cases r <;> first | exact issues_pure | exact issues_raise
  | none =>
    refine issues_bind (issues_store trivial) fun rows => ?_
    exact issues_ite issues_pure issues_raise

theorem wp_of_pollFree {α : Type} {m : UploadMethod α} (hm : Issues PollFree m) :
    wp (requestContract n) m (fun _ _ _ => True) () g :=
  Prog.wp_of_issues (hm ()) fun _ _ hc _ => hc.guard

/-- A confirm asks the gate with the reading of its clock, and nothing later does. -/
theorem wp_confirmUpload :
    wp (requestContract n) (confirmUpload id) (fun _ _ _ => True) () g := by
  refine wp_call_bind (fun _ => trivial) ?_
  rintro _ _ g₁ - ⟨ch, -, ⟨⟩⟩ - ⟨new, hs, -⟩
  have hclock : .clock n g.clock ∈ g₁.log :=
    hs.log ▸ List.mem_append_right _ List.mem_cons_self
  refine wp_bind (R := fun _ _ _ => True) ?_ (fun _ _ _ _ => trivial) fun rows _ g₂ _ => ?_
  · refine wp_call_bind (fun _ => ⟨trivial, hclock⟩) fun r _ _ _ _ _ _ => ?_
    change Except StoreError Nat at r
    cases r with
    | ok rows => exact wp_pure trivial
    | error e => exact wp_raise trivial
  · refine wp_of_pollFree (issues_ite issues_resolveLostGate ?_)
    exact issues_bind issues_getIntent fun _ => issues_pure

/-! ### Every request -/

/-- What a handler comes to may be sent. -/
def Responds (n : Nat) (r : Except UploadError UploadResponse) (_ : Unit) (g : PollWorld) : Prop :=
  ∀ response, r = .ok response → requestGuard n (.respond response) g

theorem responds_error {e : HttpError} : Responds n (.ok (.error e)) () g := by
  rintro _ ⟨⟩
  trivial

/-- A method and its response, the errors caught. -/
theorem wp_handled {α : Type} {m : UploadMethod α} {f : α → UploadMethod UploadResponse}
    {fail : UploadError → HttpError} {R : Except UploadError α → Unit → PollWorld → Prop}
    (hm : wp (requestContract n) m R () g)
    (hf : ∀ a g, R (.ok a) () g → wp (requestContract n) (f a) (Responds n) () g) :
    wp (requestContract n) (tryExcept (m >>= f) fun e => pure (.error (fail e)))
      (Responds n) () g := by
  refine wp_tryExcept (R := Responds n) ?_ (fun _ _ _ h => h) fun e _ g _ => wp_pure responds_error
  exact wp_bind hm (fun _ _ _ _ _ => nofun) fun a _ g h => hf a g h

theorem wp_getUploadStatusHandler :
    wp (requestContract n) (getUploadStatusHandler id) (Responds n) () g := by
  refine wp_ite (fun _ => wp_pure responds_error) fun _ => wp_handled wp_getUploadStatus ?_
  rintro ⟨i, status⟩ g hs
  refine wp_pure fun response hr => ?_
  cases hr
  exact hs i status rfl

theorem wp_createUploadHandler {h : Handlers} {body : Option UploadDocumentRequest} :
    wp (requestContract n) (h.createUploadHandler body) (Responds n) () g := by
  unfold createUploadHandler
  cases h.createUpload body with
  | error e => exact wp_pure responds_error
  | ok fileName =>
    refine wp_handled (wp_of_pollFree issues_createIntent) ?_
    rintro ⟨i, url⟩ g -
    exact wp_pure fun _ hr => by cases hr; trivial

theorem wp_confirmUploadHandler :
    wp (requestContract n) (confirmUploadHandler id) (Responds n) () g := by
  refine wp_ite (fun _ => wp_pure responds_error) fun _ => ?_
  refine wp_handled wp_confirmUpload fun i g _ => ?_
  exact wp_pure fun _ hr => by cases hr; trivial

theorem wp_serve {h : Handlers} {r : UploadRequest} :
    wp (requestContract n) (h.serve r) (fun _ _ _ => True) () g := by
  have hrespond (m : UploadMethod UploadResponse)
      (hm : wp (requestContract n) m (Responds n) () g) :
      wp (requestContract n) (m >>= fun response => perform (.respond response))
        (fun _ _ _ => True) () g := by
    refine wp_bind hm (fun _ _ _ _ => trivial) fun response _ g' hr => ?_
    exact wp_call (fun _ => hr response rfl) fun _ _ _ _ _ _ _ => trivial
  cases r with
  | createUpload body => exact hrespond _ wp_createUploadHandler
  | confirmUpload id => exact hrespond _ wp_confirmUploadHandler
  | getUploadStatus id => exact hrespond _ wp_getUploadStatusHandler

end Walk

/-! ### The hash workers -/

theorem hashGuard_of_hashCommands {cfg : HashConfig} {c : HashCmd} (h : hashCommands cfg c) :
    hashGuard c := by
  cases c with
  | store c => cases c <;> first | exact h.elim | trivial
  | blob | now | cancelled | tick | done => trivial

/-! ### All of them -/

theorem PollRely.refl (j : Party) (g : PollWorld) : PollRely j g g := by
  cases j with
  | request n => exact ⟨[], .refl g, nofun⟩
  | hash p => trivial

theorem PollRely.trans {j : Party} {g g' g'' : PollWorld} (h : PollRely j g g')
    (h' : PollRely j g' g'') : PollRely j g g'' := by
  cases j with
  | request n =>
    obtain ⟨new, hs, hnew⟩ := h
    obtain ⟨new', hs', hnew'⟩ := h'
    refine ⟨_, hs.trans hs', fun x hx => ?_⟩
    exact (List.mem_append.1 hx).elim (hnew' x) (hnew x)
  | hash p => trivial

section System

variable (cfg : HashConfig) (h : Handlers) (requests : Nat → UploadRequest)

def pollGuard : (j : Party) → ((pollSystem cfg h requests).sig j).Cmd → PollWorld → Prop
  | .request n, c, g => requestGuard n c g
  | .hash _, c, _ => hashGuard c

/-- A request that starts notes what it asks for. -/
theorem Steps.enter {g : PollWorld} (hinv : PollInv g) (n : Nat) :
    Steps (some n) g ((pollSystem cfg h requests).enter (.request n) g) := by
  cases hr : requests n with
  | getUploadStatus id =>
    have he : (pollSystem cfg h requests).enter (.request n) g =
        { g with log := .asked n id :: g.log } := by
      simp [pollSystem, hr]
    rw [he]
    have hnew : ∀ x ∈ [Note.asked n id], x.Addable g.log ∧ some x.author = some n :=
      fun x hx => List.mem_singleton.1 hx ▸ ⟨trivial, rfl⟩
    exact (Steps.refl hinv).logged hnew
  | createUpload | confirmUpload =>
    have he : (pollSystem cfg h requests).enter (.request n) g = g := by simp [pollSystem, hr]
    rw [he]
    exact .refl hinv

/-- A step of one party, for all the others. -/
theorem Steps.others {author : Option Nat} {j : Party} {g g' : PollWorld}
    (hs : Steps author g g') (hj : ∀ n, author = some n → j = .request n) :
    PollInv g' ∧ ∀ k, k ≠ j → PollRely k g g' :=
  ⟨hs.1, fun _ hk => hs.rely fun n hn he => hk (hn.trans (hj n he).symm)⟩

def pollCertificate : Actors.Certificate (pollSystem cfg h requests) (.free _) where
  inv := PollInv
  rely := PollRely
  guard := pollGuard cfg h requests
  fresh _ _ := True
  rely_refl := PollRely.refl
  rely_trans _ _ _ _ := PollRely.trans
  fresh_rely _ _ _ _ _ _ := trivial
  enter_ok j g hinv _ _ := by
    cases j with
    | request n => exact (Steps.enter cfg h requests hinv n).others (by rintro _ ⟨⟩; rfl)
    | hash p => exact (Steps.refl hinv : Steps none g g).others nofun
  call_ok j c ch g hinv hg _ := by
    cases j with
    | request n => exact (Steps.request hinv hg).others (by rintro _ ⟨⟩; rfl)
    | hash p => exact (Steps.hash hinv hg).others nofun
  leave_ok j g hinv := ⟨hinv, fun k _ => .refl k g⟩
  env_ok e g hinv _ := ⟨(Steps.env hinv e).1, fun j => (Steps.env hinv e).rely nofun⟩
  main_ok j g _ _ _ g' _ := by
    cases j with
    | request n => exact Prog.wp_bind (Prog.wp_mono _ wp_serve fun _ _ _ _ => Prog.wp_ret trivial)
    | hash p => exact Prog.wp_of_issues p.issues_main fun _ _ hc _ => hashGuard_of_hashCommands hc

variable {cfg h requests}

/-- A final answer is final, unless it is EXPIRED and a confirm that had read its clock before the
row's `expiresAt` passes the gate between the two reads of the row. -/
theorem final_unless_passed {conf : (pollSystem cfg h requests).Config}
    (hreach : (pollSystem cfg h requests).Reachable (.free _) .start conf) :
    FinalUnlessPassed conf.shared.log := by
  refine ((pollCertificate cfg h requests).sound ?_ (fun _ => trivial) hreach).finalUnlessPassed
  refine ⟨?_, ?_, ?_, ?_⟩
  · rintro _ _ ⟨⟩
  · rintro _ _ _ _ ⟨⟩
  · rintro _ _ _ ⟨⟩
  · rintro _ _ _ _ _ ⟨⟩

end System

/-! ### A confirm that is slow -/

def slowConfirm : Nat → UploadRequest
  | 0 => .createUpload (some ⟨"a.pdf"⟩)
  | 1 => .confirmUpload "i"
  | _ => .getUploadStatus "i"

def slowConfirmSystem : Actors Party PollWorld :=
  pollSystem ⟨0, 1, le_rfl, 0, false⟩ ⟨[".pdf"], id⟩ slowConfirm

/-- Request 1 reads its clock, two hours pass, request 2 polls, and request 1 passes the gate. -/
def slowConfirmSteps : List slowConfirmSystem.Step :=
  let call (n : Nat) : slowConfirmSystem.Step :=
    .call (.request n) (⟨[], fun _ => none, some "u", "i", true⟩ : PollChoice)
  [.start (.request 0), call 0, call 0, call 0, call 0, call 0, .start (.request 1), call 1,
    .env (.tick 7200000000000), .start (.request 2), call 2, call 2, call 2, call 1,
    .start (.request 3), call 3, call 3, call 3]

def slowConfirmLog : List Note :=
  [.answered 3 "i" "UPLOADED", .clock 3 7200000000000, .read 3 "i", .asked 3 "i",
    .passed 1 "i" 0 7200000000000, .answered 2 "i" "EXPIRED", .clock 2 7200000000000, .read 2 "i",
    .asked 2 "i", .clock 1 0, .clock 0 0]

theorem slowConfirm_run : ∃ conf, slowConfirmSystem.Reachable (.free _) .start conf ∧
    conf.shared.log = slowConfirmLog := by
  have hleaves : slowConfirmSystem.leaves .start slowConfirmSteps PollWorld.log =
      some slowConfirmLog := by
    decide +kernel
  exact Actors.Reachable.of_leaves (f := PollWorld.log) (Actors.Rules.free_allowsAll _ _) hleaves

theorem final_unless_passed_slow : ∃ conf, slowConfirmSystem.Reachable (.free _) .start conf ∧
    conf.shared.log = slowConfirmLog ∧ FinalUnlessPassed conf.shared.log := by
  obtain ⟨conf, hreach, hlog⟩ := slowConfirm_run
  exact ⟨conf, hreach, hlog, final_unless_passed hreach⟩

/-- EXPIRED, and then UPLOADED. -/
theorem not_finalAnswers :
    ¬ ∀ (cfg : HashConfig) (h : Handlers) (requests : Nat → UploadRequest)
      (conf : (pollSystem cfg h requests).Config),
      (pollSystem cfg h requests).Reachable (.free _) .start conf →
        FinalAnswers conf.shared.log := by
  intro hall
  obtain ⟨conf, hreach, hlog⟩ := slowConfirm_run
  have hfinal := hall _ _ _ conf hreach
  rw [hlog] at hfinal
  have hsame := hfinal 2 3 "i" "EXPIRED" "UPLOADED" (by decide) (.inl rfl)
  exact absurd hsame (by decide)

end Center
