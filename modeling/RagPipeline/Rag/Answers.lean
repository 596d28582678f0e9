import RagPipeline.Rag.AnswerRecord

/-!
# What an RPC does

The walk along the iterators: the stream against a service that passes its pieces on, the answer
against whoever reads it, and the two RPCs.

## Main definitions

* `Audience`: what a reader of the answer lets the service know.
* `Rpc.contract`: an RPC against its record.

## Main results

* `wp_stream`, `wp_answer`: the two iterators, against any audience.
* `wp_rpc`: an RPC follows the protocol.
-/
namespace Rag

open Wire Interact Method RpcExchange

/-- An RPC against its record. -/
def Rpc.contract (rpc : Rpc) : Contract RpcSig RpcRecord where
  inv := rpc.Follows
  rely record record' := record' = record
  guard := rpc.Permitted
  exec c record r record' := record' = ⟨c, r⟩ :: record

/-- Why a reader of the answer has left: in `AskStream` the client leaves, or a message cannot be
built. -/
def Rpc.Gone (rpc : Rpc) (record : RpcRecord) : Leaving QueryError → Prop
  | .on => True
  | .broke => rpc.streaming = true ∧ issue .isActive false ∈ record
  | .raised e => (e = .exit ∧ ∃ response, send response .close ∈ record) ∨
      e = .error .unencodable ∧ rpc.streaming = true ∧ Unencodable record

/-- Those who read an answer. -/
structure Audience (rpc : Rpc) {τ : Type} (T : Taking Message τ QueryError RpcRecord) where
  /-- The responses made of what was handed out. -/
  delivered : τ → RpcRecord → List Response
  command : ∀ t (c : QueryCmd) r record, delivered t (issue c r :: record) = delivered t record
  wants_first : ∀ {hits t record}, found record = some hits → delivered t record = [] →
    T.wanted ⟨hits, []⟩ t record
  wants_delta : ∀ {hits t} texts text record, found record = some hits →
    delivered t record = firstResponse hits :: texts.map deltaResponse →
    texts ++ [text] = transcript hits record → T.wanted ⟨[], text⟩ t record
  talks : ∀ {message t record outcome t' record'}, T.taken message t record outcome t' record' →
    ∃ new, record' = new ++ record ∧ ∀ x ∈ new, x.IsTalk
  hears : ∀ {message t record t' record'}, T.taken message t record (.ok .next) t' record' →
    delivered t' record' = delivered t record ++ [RagEngineServicer.responseOf message]
  leaves : ∀ {message t record outcome t' record'}, T.taken message t record outcome t' record' →
    rpc.Gone record' (.ofBody outcome)
  shown : ∀ {hits t record}, delivered t record = [firstResponse hits] → rpc.streaming = true →
    sent record = [firstResponse hits]

section Replies

variable {α σ β γ G : Type} {C : Contract (QuerySig.yielding α) G}
  {Q : Except (Thrown QueryError) γ → σ → G → Prop} {s : σ} {g : G} {f : β → Answering α σ γ}

theorem wp_ofClient {r : Except ClientError β}
    (herr : ∀ e, r = .error e → Q (.error (.error (.client e))) s g)
    (hok : ∀ b, r = .ok b → wp C (f b) Q s g) : wp C (ofClient r >>= f) Q s g := by
  cases r with
  | error e => exact Prog.wp_ret (herr e rfl)
  | ok b => exact hok b rfl

theorem wp_adapter {service : String} {r : Except ClientError β}
    (hcaught : ∀ detail, r = .error (.caught detail) →
      Q (.error (.error (.dependencyUnavailable
        (ofString service ++ ofString ": " ++ detail)))) s g)
    (hother : ∀ typeName, r = .error (.other typeName) →
      Q (.error (.error (.client (.other typeName)))) s g)
    (hok : ∀ b, r = .ok b → wp C (f b) Q s g) : wp C (guarded service r >>= f) Q s g := by
  rcases r with (detail | typeName) | b
  · exact Prog.wp_ret (hcaught detail rfl)
  · exact Prog.wp_ret (hother typeName rfl)
  · exact hok b rfl

end Replies

section Stream

variable {rpc : Rpc} {τ : Type} {T : Taking Message τ QueryError RpcRecord}

/-- The service hands on what the stream hands out. -/
def passOn (T : Taking Message τ QueryError RpcRecord) :
    Taking PyStr Unit QueryError ((Leaving QueryError × τ) × RpcRecord) where
  wanted text _ x := x.1.1 = .on ∧ T.wanted ⟨[], text⟩ x.1.2 x.2
  taken text _ x r _ y :=
    (r = .ok .next ∧ y.1.1 = .on ∧ T.taken ⟨[], text⟩ x.1.2 x.2 (.ok .next) y.1.2 y.2) ∨
    (r = .error .exit ∧ y.1.1 ≠ .on ∧ ∃ outcome, y.1.1 = .ofBody outcome ∧
      T.taken ⟨[], text⟩ x.1.2 x.2 outcome y.1.2 y.2)

theorem wp_passOn {text : PyStr} {t : Unit} {x : (Leaving QueryError × τ) × RpcRecord}
    (h : (passOn T).wanted text t x) :
    wp (T.contract rpc.contract) (do
      emit ⟨[], text⟩
      return .next : Answering Message Unit Resume)
      (fun r t' y => (passOn T).taken text t x r t' y) t x := by
  refine wp_bind (R := fun r t' y => (passOn T).taken text t x (r.map fun _ => .next) t' y)
    (wp_emit h.1 h.2 ?_ ?_) (fun _ _ _ h => h) fun _ _ _ h => wp_pure h
  · rintro t' record' _ ht rfl
    exact .inl ⟨rfl, rfl, ht⟩
  · rintro outcome t' record' _ ht hne rfl
    exact .inr ⟨rfl, hne, outcome, rfl, ht⟩

/-- The stream, the service that passes its pieces on, and those who read them. -/
def streamContract (rpc : Rpc) (T : Taking Message τ QueryError RpcRecord) :
    Contract (QuerySig.yielding PyStr)
      ((Leaving QueryError × Unit) × (Leaving QueryError × τ) × RpcRecord) :=
  (passOn T).contract (T.contract rpc.contract)

variable (A : Audience rpc T) {hits : List ScoredHit} {l l' : Leaving QueryError} {u : Unit} {t : τ}
  {record : RpcRecord}

theorem wp_request_stream {β : Type} {c : QueryCmd} {f : QuerySig.Reply c → Answering PyStr Bool β}
    {Q} {s : Bool} (hg : rpc.Permitted (.inl c) record)
    (h : ∀ r, wp (streamContract rpc T) (f r) Q s ((l, u), (l', t), issue c r :: record)) :
    wp (streamContract rpc T) (request c >>= f) Q s ((l, u), (l', t), record) := by
  refine wp_call_bind (S := QuerySig.yielding PyStr) (c := .inl c) (fun _ => hg) ?_
  rintro r ⟨_, _, _⟩ ⟨_, _, _⟩ - ⟨rfl, hl, hx⟩ - ⟨rfl, hl', hx'⟩
  cases hl
  cases hx
  cases hl'
  cases hx'
  exact h r

/-- A piece is handed out and sent on, or somebody on the way has left. -/
theorem wp_emit_stream {text : PyStr} {s : Bool} {Q : Except (Thrown QueryError) Unit → Bool →
      (Leaving QueryError × Unit) × (Leaving QueryError × τ) × RpcRecord → Prop}
    (hwanted : T.wanted ⟨[], text⟩ t record)
    (hnext : ∀ t' new, (∀ y ∈ new, y.IsTalk) →
      A.delivered t' (new ++ record) = A.delivered t record ++ [deltaResponse text] →
      Q (.ok ()) s ((.on, ()), (.on, t'), new ++ record))
    (hclose : ∀ l' t' new, (∀ y ∈ new, y.IsTalk) → l' ≠ .on → rpc.Gone (new ++ record) l' →
      Q (.error .exit) s ((.raised .exit, ()), (l', t'), new ++ record)) :
    wp (streamContract rpc T) (emit text) Q s ((.on, ()), (.on, t), record) := by
  refine wp_emit rfl ⟨rfl, hwanted⟩ ?_ ?_
  · rintro _ ⟨⟨_, t'⟩, record'⟩ ⟨_, _⟩ (⟨-, rfl, ht⟩ | ⟨⟨⟩, -⟩) ⟨hl, hx⟩
    cases hl
    cases hx
    obtain ⟨new, rfl, htalk⟩ := A.talks ht
    exact hnext t' new htalk (A.hears ht)
  · rintro _ _ ⟨⟨_, t'⟩, record'⟩ ⟨_, _⟩ (⟨rfl, -⟩ | ⟨rfl, hne, outcome, rfl, ht⟩) hon ⟨hl, hx⟩
    all_goals
      cases hl
      cases hx
    · exact absurd rfl hon
    · obtain ⟨new, rfl, htalk⟩ := A.talks ht
      exact hclose _ t' new htalk hne (A.leaves ht)

/-- What the stream raises before it is closed. -/
def RaisedByGroq (e : QueryError) (record : RpcRecord) : Prop :=
  ∃ e', e = .client e' ∧ Broken record ∧ ∀ detail, e' = .caught detail →
    Refused (ofString "groq" ++ ofString ": " ++ detail) record

/-- How far a stream has come that is read, or why it is not read any more. -/
def Upshot (blame : QueryError → RpcRecord → Prop) (hits : List ScoredHit) :
    Except (Thrown QueryError) Unit → Leaving QueryError → Leaving QueryError → τ → RpcRecord → Prop
  | .ok _, l, l', t, record => l = .on ∧ l' = .on ∧ exhausted record = true ∧
      A.delivered t record = firstResponse hits :: (contents record).map deltaResponse
  | .error e, l, l', _, record => (l = .raised .exit ∧ l' ≠ .on ∧ rpc.Gone record l') ∨
      (l = .on ∧ l' = .on ∧ ∃ e', e = .error e' ∧ blame e' record)

theorem wp_chunks (hne : hits ≠ []) (hfound : found record = some hits)
    (hopen : streamOpen record = true)
    (htold : A.delivered t record = firstResponse hits :: (contents record).map deltaResponse) :
    wp (streamContract rpc T) GroqLLM.chunks (fun r s x => s = true ∧ found x.2.2 = some hits ∧
      streamOpen x.2.2 = true ∧ Upshot A RaisedByGroq hits r x.1.1 x.2.1.1 x.2.1.2 x.2.2)
      true ((.on, ()), (.on, t), record) := by
  refine wp_loop (fun _ s x => s = true ∧ x.1.1 = .on ∧ x.2.1.1 = .on ∧
    found x.2.2 = some hits ∧ streamOpen x.2.2 = true ∧
    A.delivered x.2.1.2 x.2.2 = firstResponse hits :: (contents x.2.2).map deltaResponse)
    ⟨rfl, rfl, rfl, hfound, hopen, htold⟩ ?_
  rintro - _ ⟨⟨_, ⟨⟩⟩, ⟨_, t⟩, record⟩ ⟨rfl, rfl, rfl, hfound, hopen, htold⟩
  refine wp_request_stream hopen fun r => ?_
  have htold' : A.delivered t (issue .nextChunk r :: record) = _ := (A.command ..).trans htold
  refine wp_ofClient ?_ ?_
  · rintro e rfl
    refine ⟨rfl, hfound, hopen,
      .inr ⟨rfl, rfl, _, rfl, _, rfl, ⟨_, List.mem_cons_self .., rfl⟩, ?_⟩⟩
    rintro detail rfl
    exact ⟨_, List.mem_cons_self .., rfl⟩
  rintro (_ | chunk) rfl
  · rw [GroqLLM.afterChunk]
    refine wp_pure ⟨rfl, hfound, hopen, rfl, rfl, rfl, ?_⟩
    rw [contents_chunk, Option.bind_none, Option.toList_none, List.append_nil]
    exact htold'
  have hcontents : contents (issue .nextChunk (Except.ok (some chunk)) :: record) =
      contents record ++ (GroqLLM.delta chunk).toList := contents_chunk
  rw [GroqLLM.afterChunk]
  cases hdelta : GroqLLM.delta chunk with
  | none =>
    rw [hdelta, Option.toList_none, List.append_nil] at hcontents
    rw [GroqLLM.yieldDelta]
    refine wp_pure ⟨rfl, rfl, rfl, hfound, hopen, htold'.trans ?_⟩
    rw [hcontents]
  | some text =>
    rw [hdelta, Option.toList_some] at hcontents
    have hwanted := A.wants_delta _ text (issue .nextChunk (Except.ok (some chunk)) :: record)
      hfound htold' (by rw [transcript, if_neg hne, hcontents])
    refine wp_seq (wp_emit_stream A hwanted (fun t' new htalk hdelivered => ?_)
      fun l' t' new htalk hne hgone => ?_)
    · obtain ⟨hc, hf, ho, -⟩ := talk_append
        (issue .nextChunk (Except.ok (some chunk)) :: record) htalk
      refine wp_pure ⟨rfl, rfl, rfl, hf.trans hfound, ho.trans hopen, ?_⟩
      rw [hdelivered, hc, hcontents, htold', List.map_append]
      rfl
    · obtain ⟨-, hf, ho, -⟩ := talk_append
        (issue .nextChunk (Except.ok (some chunk)) :: record) htalk
      exact ⟨rfl, hf.trans hfound, ho.trans hopen, .inl ⟨rfl, hne, hgone⟩⟩

/-- What the stream raises. -/
def RaisedByStream (e : QueryError) (record : RpcRecord) : Prop :=
  (∃ text, e = .dependencyUnavailable text ∧ Refused text record) ∨
    (∃ e', e = .client e') ∧ Broken record

theorem Rpc.Gone.cons {x : RpcExchange} (h : rpc.Gone record l) : rpc.Gone (x :: record) l := by
  cases l with
  | on => trivial
  | broke => exact ⟨h.1, List.mem_cons_of_mem _ h.2⟩
  | raised e =>
    refine h.imp ?_ fun ⟨he, hs, hu⟩ => ⟨he, hs, hu.cons⟩
    rintro ⟨he, response, hmem⟩
    exact ⟨he, response, List.mem_cons_of_mem _ hmem⟩

theorem RaisedByStream.cons {e : QueryError} {x : RpcExchange} (h : RaisedByStream e record) :
    RaisedByStream e (x :: record) :=
  h.imp (fun ⟨text, he, hr⟩ => ⟨text, he, hr.cons⟩) fun ⟨he, hb⟩ => ⟨he, hb.cons⟩

/-- Closing the stream changes nothing of that. -/
theorem Upshot.closed {r : Except (Thrown QueryError) Unit} {r' : Except ClientError Unit}
    (h : Upshot A RaisedByStream hits r l l' t record) :
    Upshot A RaisedByStream hits r l l' t (issue .closeStream r' :: record) := by
  cases r with
  | ok _ =>
    obtain ⟨h₁, h₂, h₃, h₄⟩ := h
    refine ⟨h₁, h₂, h₃, (A.command ..).trans (h₄.trans ?_)⟩
    rw [contents_cons]
    exact congrArg _ (congrArg _ (List.append_nil _).symm)
  | error e =>
    refine h.imp (fun ⟨h₁, h₂, h₃⟩ => ⟨h₁, h₂, h₃.cons⟩) fun ⟨h₁, h₂, e', he, hb⟩ => ?_
    exact ⟨h₁, h₂, e', he, hb.cons⟩

/-- Whatever the stream came to, closing it may raise. -/
theorem Upshot.raised {r : Except (Thrown QueryError) Unit} {e : ClientError}
    (h : Upshot A RaisedByStream hits r l l' t record) (hb : Broken record) :
    Upshot A RaisedByStream hits (.error (.error (.client e))) l l' t record := by
  cases r with
  | ok _ => exact .inr ⟨h.1, h.2.1, _, rfl, .inr ⟨⟨e, rfl⟩, hb⟩⟩
  | error e' => exact h.imp_right fun ⟨h₁, h₂, _⟩ => ⟨h₁, h₂, _, rfl, .inr ⟨⟨e, rfl⟩, hb⟩⟩

theorem wp_stream (hne : hits ≠ []) (hfound : found record = some hits)
    (hopen : streamOpen record = false) (hasked : asked record = false)
    (hcontents : contents record = []) (htold : A.delivered t record = [firstResponse hits]) :
    wp (streamContract rpc T) (GroqLLM.stream rpc.service.systemPrompt
        (buildUserMessage rpc.request.query (hits.map ScoredHit.toHit)))
      (fun r _ x => found x.2.2 = some hits ∧ streamOpen x.2.2 = false ∧
        Upshot A RaisedByStream hits r x.1.1 x.2.1.1 x.2.1.2 x.2.2)
      false ((.on, ()), (.on, t), record) := by
  have hcreate : rpc.Permitted (.inl (.createStream rpc.service.systemPrompt
      (buildUserMessage rpc.request.query (hits.map ScoredHit.toHit)))) record :=
    ⟨hasked, rfl, hits, hne, hfound, rfl, A.shown htold⟩
  refine wp_andFinally (R := fun r s x => found x.2.2 = some hits ∧ streamOpen x.2.2 = s ∧
    Upshot A RaisedByStream hits r x.1.1 x.2.1.1 x.2.1.2 x.2.2)
    (wp_tryExcept (R := fun r s x => found x.2.2 = some hits ∧ streamOpen x.2.2 = s ∧
      Upshot A RaisedByGroq hits r x.1.1 x.2.1.1 x.2.1.2 x.2.2) ?_ (fun _ _ _ h => h) ?_) ?_
  · refine wp_request_stream hcreate fun r => wp_ofClient ?_ ?_
    · rintro e rfl
      refine ⟨hfound, hopen, .inr ⟨rfl, rfl, _, rfl, _, rfl, ⟨_, List.mem_cons_self .., rfl⟩, ?_⟩⟩
      rintro detail rfl
      exact ⟨_, List.mem_cons_self .., rfl⟩
    · rintro ⟨⟩ rfl
      refine wp_bind (wp_assign (Q := fun r s x => r = .ok () ∧ s = true ∧ x = _)
        ⟨rfl, rfl, rfl⟩) (fun _ _ _ h => by cases h.1) ?_
      rintro _ _ _ ⟨-, rfl, rfl⟩
      refine wp_mono (wp_chunks A hne hfound rfl ?_)
        fun r s x _ h => ⟨h.2.1, h.1 ▸ h.2.2.1, h.2.2.2⟩
      refine (A.command ..).trans (htold.trans ?_)
      rw [contents_cons, hcontents]
      rfl
  · rintro e s ⟨⟨l, ⟨⟩⟩, ⟨l', t⟩, record⟩ ⟨hfound, hopen, h⟩
    rcases h with hexit | ⟨hl, hl', _, rfl, _ | typeName, rfl, hbroken, hrefused⟩
    · rcases e with ((_ | _) | _ | _ | _ | _ | _ | _) | _ <;>
        exact wp_raise ⟨hfound, hopen, .inl hexit⟩
    · exact wp_raise ⟨hfound, hopen, .inr ⟨hl, hl', _, rfl, .inl ⟨_, rfl, hrefused _ rfl⟩⟩⟩
    · exact wp_raise ⟨hfound, hopen, .inr ⟨hl, hl', _, rfl, .inr ⟨⟨_, rfl⟩, hbroken⟩⟩⟩
  · rintro r s ⟨⟨l, ⟨⟩⟩, ⟨l', t⟩, record⟩ ⟨hfound, hopen, h⟩
    refine wp_self_bind (wp_ite (fun hs => ?_) fun hs => wp_pure ?_)
    · refine wp_request_stream (hopen.trans hs) fun r' => ?_
      cases r' with
      | ok _ => exact wp_pure ⟨hfound, rfl, h.closed A⟩
      | error e =>
        exact wp_raise ⟨hfound, rfl, (h.closed A).raised A ⟨_, List.mem_cons_self .., rfl⟩⟩
    · exact ⟨hfound, hopen.trans (Bool.not_eq_true s ▸ hs), h⟩

/-! ### The answer -/

/-- A message is handed out and taken, or the reader has left. -/
theorem wp_emit_answer {message : Message} {Q : Except (Thrown QueryError) Unit → Unit →
      (Leaving QueryError × τ) × RpcRecord → Prop} (hwanted : T.wanted message t record)
    (hnext : ∀ t' new, (∀ y ∈ new, y.IsTalk) →
      A.delivered t' (new ++ record) =
        A.delivered t record ++ [RagEngineServicer.responseOf message] →
      Q (.ok ()) () ((.on, t'), new ++ record))
    (hclose : ∀ l t' new, (∀ y ∈ new, y.IsTalk) → l ≠ .on → rpc.Gone (new ++ record) l →
      Q (.error .exit) () ((l, t'), new ++ record)) :
    wp (T.contract rpc.contract) (emit message) Q () ((.on, t), record) := by
  refine wp_emit rfl hwanted ?_ ?_
  · rintro t' record' _ ht rfl
    obtain ⟨new, rfl, htalk⟩ := A.talks ht
    exact hnext t' new htalk (A.hears ht)
  · rintro outcome t' record' _ ht hne rfl
    obtain ⟨new, rfl, htalk⟩ := A.talks ht
    exact hclose _ t' new htalk hne (A.leaves ht)

/-- What the answer raises. -/
def RaisedByAnswer (e : QueryError) (record : RpcRecord) : Prop :=
  (∃ text, e = .queryUnavailable text ∧ Refused text record) ∨
    (∃ e', e = .client e') ∧ Broken record

/-- What an answer comes to. -/
def Finished (blame : QueryError → RpcRecord → Prop) (hits : List ScoredHit)
    (r : Except (Thrown QueryError) Unit) (l : Leaving QueryError) (t : τ) (record : RpcRecord) :
    Prop :=
  found record = some hits ∧ streamOpen record = false ∧ match r with
    | .ok _ => l = .on ∧ Complete hits record ∧
        A.delivered t record = firstResponse hits :: (transcript hits record).map deltaResponse
    | .error e => (e = .exit ∧ l ≠ .on ∧ rpc.Gone record l) ∨
        (l = .on ∧ ∃ e', e = .error e' ∧ blame e' record)

/-- The deltas are passed on as the provider yields them. -/
theorem wp_deltas {g : Answering PyStr Bool Unit} (hne : hits ≠ [])
    (hstream : wp (streamContract rpc T) g (fun r _ x => found x.2.2 = some hits ∧
      streamOpen x.2.2 = false ∧ Upshot A RaisedByStream hits r x.1.1 x.2.1.1 x.2.1.2 x.2.2)
      false ((.on, ()), (.on, t), record)) :
    wp (T.contract rpc.contract) (do
        let _ ← forEach g false fun text => do
          emit ⟨[], text⟩
          return .next
        return () : Answering Message Unit Unit)
      (fun r _ x => Finished A RaisedByStream hits r x.1.1 x.1.2 x.2) () ((.on, t), record) := by
  refine wp_seq (wp_forEach (D := T.contract rpc.contract) (T := passOn T) (fun _ => ⟨rfl, rfl⟩)
    hstream (fun text _ x _ h => wp_passOn h) ?_)
  rintro r s l ⟨⟩ ⟨⟨l', t''⟩, record'⟩ ⟨hfound', hopen', h⟩
  cases r with
  | ok _ =>
    obtain ⟨rfl, rfl, hend, hdelivered⟩ := h
    exact wp_pure ⟨hfound', hopen', rfl, .inr hend, by
      rw [transcript, if_neg hne]; exact hdelivered⟩
  | error e =>
    rcases h with ⟨rfl, hne, hgone⟩ | ⟨rfl, rfl, e', rfl, hraised⟩
    · exact ⟨hfound', hopen', .inl ⟨rfl, hne, hgone⟩⟩
    · exact ⟨hfound', hopen', .inr ⟨rfl, e', rfl, hraised⟩⟩

theorem wp_answer (hfound : found record = some hits) (hopen : streamOpen record = false)
    (hasked : asked record = false) (hcontents : contents record = [])
    (htold : A.delivered t record = []) :
    wp (T.contract rpc.contract) (rpc.service.answer rpc.request.query hits)
      (fun r _ x => Finished A RaisedByAnswer hits r x.1.1 x.1.2 x.2) () ((.on, t), record) := by
  refine wp_seq (wp_emit_answer A (A.wants_first hfound htold) (fun t' new htalk htold' => ?_)
    fun l t' new htalk hne hgone => ?_)
  · obtain ⟨hc, hf, ho, ha, -⟩ := talk_append record htalk
    rw [htold, List.nil_append] at htold'
    refine wp_ite (fun hnone => ?_) fun hsome => ?_
    · have htranscript (record : RpcRecord) :
          transcript hits record = [QueryService.noRelevantAnswer] := if_pos hnone
      refine wp_emit_answer A (A.wants_delta [] _ _ (hf.trans hfound) htold'
        (htranscript _).symm) (fun t'' new' htalk' htold'' => ?_)
        fun l t'' new' htalk' hne hgone => ?_
      all_goals obtain ⟨-, hf', ho', -⟩ := talk_append (new ++ record) htalk'
      · refine ⟨hf'.trans (hf.trans hfound), ho'.trans (ho.trans hopen), rfl, .inl hnone, ?_⟩
        rw [htold'', htold', htranscript]
        rfl
      · exact ⟨hf'.trans (hf.trans hfound), ho'.trans (ho.trans hopen), .inl ⟨rfl, hne, hgone⟩⟩
    · have hstream := wp_stream A hsome (hf.trans hfound) (ho.trans hopen) (ha.trans hasked)
        (hc.trans hcontents) htold'
      generalize GroqLLM.stream rpc.service.systemPrompt
        (buildUserMessage rpc.request.query (hits.map ScoredHit.toHit)) = g at hstream ⊢
      refine wp_tryExcept (wp_deltas A hsome hstream) (fun _ _ _ h => h) ?_
      rintro e _ ⟨⟨l, t''⟩, record'⟩ ⟨hfound', hopen', h⟩
      rcases h with ⟨rfl, hgone⟩ | ⟨hl, _, rfl, ⟨text, rfl, hrefused⟩ | ⟨⟨e', rfl⟩, hbroken⟩⟩
      · exact wp_raise ⟨hfound', hopen', .inl ⟨rfl, hgone⟩⟩
      · exact wp_raise ⟨hfound', hopen', .inr ⟨hl, _, rfl, .inl ⟨text, rfl, hrefused⟩⟩⟩
      · exact wp_raise ⟨hfound', hopen', .inr ⟨hl, _, rfl, .inr ⟨⟨e', rfl⟩, hbroken⟩⟩⟩
  · obtain ⟨-, hf, ho, -⟩ := talk_append record htalk
    exact ⟨hf.trans hfound, ho.trans hopen, .inl ⟨rfl, hne, hgone⟩⟩

end Stream

/-! ### The RPCs -/

section Rpc

variable {rpc : Rpc} {σ : Type} {s : σ} {record : RpcRecord}

theorem wp_request_rpc {β : Type} {c : QueryCmd} {f : QuerySig.Reply c → Answering Response σ β}
    {Q : Except (Thrown QueryError) β → σ → RpcRecord → Prop} (hg : rpc.Permitted (.inl c) record)
    (h : ∀ r, wp rpc.contract (f r) Q s (issue c r :: record)) :
    wp rpc.contract (request c >>= f) Q s record := by
  refine wp_call_bind (S := RpcSig) (c := .inl c) (fun _ => hg) ?_
  rintro r _ _ - rfl - rfl
  exact h r

/-- What a retrieval raises. -/
def RaisedByRetrieval (rpc : Rpc) (e : QueryError) (record : RpcRecord) : Prop :=
  (∃ text, e = .invalidQuery text ∧ record = [] ∧ rpc.validate = .error text) ∨
  RaisedByAnswer e record

/-- What a retrieval comes to. -/
def Retrieved (rpc : Rpc) (s : σ) (r : Except (Thrown QueryError) (List ScoredHit)) (s' : σ)
    (record : RpcRecord) : Prop :=
  s' = s ∧ sent record = [] ∧ streamOpen record = false ∧ match r with
    | .ok hits => found record = some hits ∧ asked record = false ∧ contents record = []
    | .error e => ∃ e', e = .error e' ∧ RaisedByRetrieval rpc e' record

/-- What looking for the hits comes to, before `DependencyUnavailable` is caught. -/
def Searched (s : σ) (r : Except (Thrown QueryError) (List ScoredHit)) (s' : σ)
    (record : RpcRecord) : Prop :=
  s' = s ∧ sent record = [] ∧ streamOpen record = false ∧ match r with
    | .ok hits => found record = some (QueryService.bestFirst hits) ∧ asked record = false ∧
        contents record = []
    | .error e => ∃ e', e = .error e' ∧ RaisedByStream e' record

theorem wp_search (hvalid : rpc.validate = .ok ()) : wp rpc.contract (do
      let vector ← OllamaEmbedder.embedQuery rpc.service.queryInstruction rpc.request.query
      QdrantIndex.search vector rpc.service.topK rpc.service.minScore rpc.request.documentIds)
    (Searched s) s [] := by
  refine wp_seq (wp_request_rpc ⟨rfl, hvalid, rfl⟩ fun r => wp_adapter ?_ ?_ ?_)
  · rintro detail rfl
    exact ⟨rfl, rfl, rfl, _, rfl, .inl ⟨_, rfl, _, List.mem_cons_self .., rfl⟩⟩
  · rintro typeName rfl
    exact ⟨rfl, rfl, rfl, _, rfl, .inr ⟨⟨_, rfl⟩, _, List.mem_cons_self .., rfl⟩⟩
  rintro vectors rfl
  -- the adapter wants one vector for its one input
  have hcount (h : vectors.length ≠ 1) : Searched s (.error (.error (.dependencyUnavailable
      (ofString ("ollama: " ++ toString vectors.length ++ " vectors for 1 inputs"))))) s
      [issue (.embed (ofString "Instruct: " ++ rpc.service.queryInstruction ++
        ofString "\nQuery:" ++ rpc.request.query)) (Except.ok vectors)] :=
    ⟨rfl, rfl, rfl, _, rfl, .inl ⟨_, rfl, _, List.mem_cons_self .., if_neg h⟩⟩
  obtain _ | ⟨vector, _ | ⟨second, rest⟩⟩ := vectors
  · exact wp_raise (hcount (by simp))
  · refine wp_pure ?_
    refine wp_request_rpc ⟨⟨_, rfl⟩, rfl, rfl, rfl⟩ fun r => wp_adapter ?_ ?_ ?_
    · rintro detail rfl
      exact ⟨rfl, rfl, rfl, _, rfl, .inl ⟨_, rfl, _, List.mem_cons_self .., rfl⟩⟩
    · rintro typeName rfl
      exact ⟨rfl, rfl, rfl, _, rfl, .inr ⟨⟨_, rfl⟩, _, List.mem_cons_self .., rfl⟩⟩
    · rintro points rfl
      exact wp_pure ⟨rfl, rfl, rfl, rfl, rfl, rfl⟩
  · exact wp_raise (hcount (by simp))

theorem wp_retrieve : wp rpc.contract
    (rpc.service.retrieve rpc.request.query rpc.request.documentIds) (Retrieved rpc s) s [] := by
  refine wp_ofExcept_bind (fun e he => ?_) fun _ hvalid => ?_
  · obtain ⟨text, hv, rfl⟩ := of_mapError_error he
    exact ⟨rfl, rfl, rfl, _, rfl, .inl ⟨text, rfl, rfl, hv⟩⟩
  refine wp_seq (wp_tryExcept (wp_search (of_mapError_ok hvalid)) ?_ ?_)
  · exact fun hits _ _ h => wp_pure h
  · rintro e _ record ⟨rfl, hsent, hopen, _, rfl, ⟨text, rfl, hrefused⟩ | ⟨⟨e', rfl⟩, hbroken⟩⟩
    · exact wp_raise ⟨rfl, hsent, hopen, _, rfl, .inr (.inl ⟨text, rfl, hrefused⟩)⟩
    · exact wp_raise ⟨rfl, hsent, hopen, _, rfl, .inr (.inr ⟨⟨e', rfl⟩, hbroken⟩)⟩

/-- Why a handler fails. -/
def FailedWith (rpc : Rpc) (e : Thrown QueryError) (record : RpcRecord) : Prop :=
  ((e = .exit ∧ ∃ response, send response .close ∈ record) ∨
    e = .error .unencodable ∧ rpc.streaming = true ∧ Unencodable record) ∨
  ∃ e', e = .error e' ∧ RaisedByRetrieval rpc e' record

/-- What a handler comes to. -/
def Handled (rpc : Rpc) (r : Except (Thrown QueryError) Unit) (record : RpcRecord) : Prop :=
  streamOpen record = false ∧ rpc.Ends record (Rpc.status r).1 (Rpc.status r).2

theorem wp_abort {β : Type} {e : Thrown QueryError}
    {Q : Except (Thrown QueryError) β → σ → RpcRecord → Prop} (hopen : streamOpen record = false)
    (he : FailedWith rpc e record)
    (h : ∀ e', Handled rpc (.error e') record → Q (.error e') s record) :
    wp rpc.contract (RagEngineServicer.abort e) Q s record := by
  rcases he with (⟨rfl, hclose⟩ | ⟨rfl, hunencodable⟩) |
    ⟨_, rfl, ⟨text, rfl, hinvalid⟩ | ⟨text, rfl, hrefused⟩ | ⟨⟨e', rfl⟩, hbroken⟩⟩
  · exact wp_raise (h _ ⟨hopen, hclose⟩)
  · exact wp_raise (h _ ⟨hopen, .inr hunencodable, rfl⟩)
  · exact wp_raise (h _ ⟨hopen, hinvalid⟩)
  · exact wp_raise (h _ ⟨hopen, hrefused⟩)
  · exact wp_raise (h _ ⟨hopen, .inl hbroken, rfl⟩)

/-- A response is sent. -/
theorem wp_send {response : Response} {Q : Except (Thrown QueryError) Unit → σ → RpcRecord → Prop}
    (hg : rpc.Permitted (.inr response) record)
    (hnext : Q (.ok ()) s (send response .next :: record))
    (hclose : Q (.error .exit) s (send response .close :: record)) :
    wp rpc.contract (emit response) Q s record := by
  refine wp_call_bind (S := RpcSig) (c := .inr response) (fun _ => hg) ?_
  rintro (_ | _) _ _ - rfl - rfl
  · exact wp_pure hnext
  · exact wp_raise hclose

theorem wp_build {β : Type} {response : Response} {f : Response → Answering Response σ β}
    {Q : Except (Thrown QueryError) β → σ → RpcRecord → Prop}
    (hfail : response.encodable = false → Q (.error (.error .unencodable)) s record)
    (hbuilt : wp rpc.contract (f response) Q s record) :
    wp rpc.contract (RagEngineServicer.build response >>= f) Q s record := by
  unfold RagEngineServicer.build
  split
  case isTrue => exact hbuilt
  case isFalse h => exact wp_raise (hfail (Bool.eq_false_iff.mpr h))

/-- A piece of a streamed answer that cannot be sent came from a service. -/
theorem unencodable_of_maySend {response : Response} {hits : List ScoredHit}
    (hs : rpc.streaming = true) (hfound : found record = some hits)
    (hmay : rpc.MaySend response hits record) (hu : response.encodable = false) :
    Unencodable record := by
  obtain ⟨-, rfl⟩ | ⟨texts, text, rfl, htexts, -⟩ := (if_pos hs).mp hmay
  · exact unencodable_of_found hfound hu
  · have htext : isUnicode text = false := by
      simpa [Response.encodable, deltaResponse] using hu
    have hmem : text ∈ transcript hits record := htexts ▸ List.mem_append_right _ (by simp)
    unfold transcript at hmem
    split at hmem
    · rw [List.mem_singleton.1 hmem] at htext
      exact absurd htext (by decide +kernel)
    · exact unencodable_of_contents hmem htext

/-- `AskStream` sends each message, if its client is still there. -/
def streamTaking (rpc : Rpc) : Taking Message Unit QueryError RpcRecord where
  wanted message _ record := ∃ hits, found record = some hits ∧
    rpc.MaySend (RagEngineServicer.responseOf message) hits record
  taken message _ record outcome _ record' :=
    (outcome = .ok .next ∧ record' =
      send (RagEngineServicer.responseOf message) .next :: issue .isActive true :: record) ∨
    (outcome = .ok .close ∧ record' = issue .isActive false :: record) ∨
    (outcome = .error .exit ∧ record' =
      send (RagEngineServicer.responseOf message) .close :: issue .isActive true :: record) ∨
    (outcome = .error (.error .unencodable) ∧ Unencodable record ∧
      record' = issue .isActive true :: record)

section StreamTaking

variable {message : Message} {t t' : Unit} {record' : RpcRecord}
  {outcome : Except (Thrown QueryError) Resume}

theorem streamTaking_talks (h : (streamTaking rpc).taken message t record outcome t' record') :
    ∃ new, record' = new ++ record ∧ ∀ x ∈ new, x.IsTalk := by
  rcases h with ⟨-, rfl⟩ | ⟨-, rfl⟩ | ⟨-, rfl⟩ | ⟨-, -, rfl⟩
  · exact ⟨[_, _], rfl, by rintro x (_ | ⟨_, _ | ⟨_, ⟨⟩⟩⟩) <;> trivial⟩
  · exact ⟨[_], rfl, by rintro x (_ | ⟨_, ⟨⟩⟩); trivial⟩
  · exact ⟨[_, _], rfl, by rintro x (_ | ⟨_, _ | ⟨_, ⟨⟩⟩⟩) <;> trivial⟩
  · exact ⟨[_], rfl, by rintro x (_ | ⟨_, ⟨⟩⟩); trivial⟩

theorem streamTaking_hears
    (h : (streamTaking rpc).taken message t record (.ok .next) t' record') :
    sent record' = sent record ++ [RagEngineServicer.responseOf message] := by
  rcases h with ⟨-, rfl⟩ | ⟨⟨⟩, -⟩ | ⟨⟨⟩, -⟩ | ⟨⟨⟩, -⟩
  rw [sent_cons, sent_cons]
  exact congrArg (· ++ _) (List.append_nil _)

theorem streamTaking_leaves (hs : rpc.streaming = true)
    (h : (streamTaking rpc).taken message t record outcome t' record') :
    rpc.Gone record' (.ofBody outcome) := by
  rcases h with ⟨rfl, rfl⟩ | ⟨rfl, rfl⟩ | ⟨rfl, rfl⟩ | ⟨rfl, hu, rfl⟩
  · trivial
  · exact ⟨hs, List.mem_cons_self ..⟩
  · exact .inl ⟨rfl, _, List.mem_cons_self ..⟩
  · exact .inr ⟨rfl, hs, hu.cons⟩

end StreamTaking

/-- The client of `AskStream`. -/
def streamAudience (h : rpc.streaming = true) : Audience rpc (streamTaking rpc) where
  delivered _ record := sent record
  command _ _ _ _ := List.append_nil _
  wants_first hfound hnone := ⟨_, hfound, (if_pos h).mpr (.inl ⟨hnone, rfl⟩)⟩
  wants_delta _ _ _ hfound hsent htexts :=
    ⟨_, hfound, (if_pos h).mpr (.inr ⟨_, _, rfl, htexts, hsent⟩)⟩
  talks := streamTaking_talks
  hears := streamTaking_hears
  leaves := streamTaking_leaves h
  shown hsent _ := hsent

/-- `Ask` collects the messages. -/
def listTaking : Taking Message (List Message) QueryError RpcRecord where
  wanted _ _ _ := True
  taken message messages record outcome messages' record' :=
    outcome = .ok .next ∧ messages' = messages ++ [message] ∧ record' = record

section ListTaking

variable {message : Message} {t t' : List Message} {record' : RpcRecord}
  {outcome : Except (Thrown QueryError) Resume}

theorem listTaking_talks (h : listTaking.taken message t record outcome t' record') :
    ∃ new, record' = new ++ record ∧ ∀ x ∈ new, x.IsTalk := by
  obtain ⟨-, -, rfl⟩ := h
  exact ⟨[], rfl, by simp⟩

theorem listTaking_hears (h : listTaking.taken message t record (.ok .next) t' record') :
    t'.map RagEngineServicer.responseOf =
      t.map RagEngineServicer.responseOf ++ [RagEngineServicer.responseOf message] := by
  obtain ⟨-, rfl, -⟩ := h
  exact List.map_append

theorem listTaking_leaves (h : listTaking.taken message t record outcome t' record') :
    rpc.Gone record' (.ofBody outcome) := by
  obtain ⟨rfl, -, -⟩ := h
  trivial

end ListTaking

/-- The list that `Ask` collects. -/
def listAudience (h : rpc.streaming = false) : Audience rpc listTaking where
  delivered messages _ := messages.map RagEngineServicer.responseOf
  command _ _ _ _ := rfl
  wants_first _ _ := trivial
  wants_delta _ _ _ _ _ _ := trivial
  talks := listTaking_talks
  hears := listTaking_hears
  leaves := listTaking_leaves
  shown _ hs := absurd hs (Bool.eq_false_iff.mp h)

/-- What a handler comes to before its errors become a status. -/
def Worked (rpc : Rpc) : Except (Thrown QueryError) Unit → RpcRecord → Prop
  | .ok _, record => Handled rpc (.ok ()) record
  | .error e, record => streamOpen record = false ∧ FailedWith rpc e record

theorem wp_aborting {m : Answering Response σ Unit}
    (h : wp rpc.contract m (fun r _ => Worked rpc r) s record) :
    wp rpc.contract (tryExcept m RagEngineServicer.abort) (fun r _ => Handled rpc r) s record :=
  wp_tryExcept h (fun _ _ _ h => h) fun _ _ _ h => wp_abort h.1 h.2 fun _ h => h

/-- To ask whether the client is there is of no consequence for what may be sent. -/
theorem Rpc.MaySend.isActive {response : Response} {hits : List ScoredHit}
    {active : QuerySig.Reply .isActive} (h : rpc.MaySend response hits record) :
    rpc.MaySend response hits (issue .isActive active :: record) := by
  have hsent : sent (issue .isActive active :: record) = sent record := List.append_nil _
  have hcontents : contents (issue .isActive active :: record) = contents record :=
    List.append_nil _
  unfold Rpc.MaySend transcript at h ⊢
  rw [hsent, hcontents]
  exact h

/-- What the loop over an answer comes to. -/
def LoopOver {τ : Type} {T : Taking Message τ QueryError RpcRecord} (A : Audience rpc T)
    (hits : List ScoredHit) (outcome : Except (Thrown QueryError) Resume) (t : τ)
    (record : RpcRecord) : Prop :=
  found record = some hits ∧ streamOpen record = false ∧ match outcome with
    | .ok .next => Complete hits record ∧
        A.delivered t record = firstResponse hits :: (transcript hits record).map deltaResponse
    | .ok .close => rpc.streaming = true ∧ issue .isActive false ∈ record
    | .error e => FailedWith rpc e record

theorem Finished.loopOver {τ : Type} {T : Taking Message τ QueryError RpcRecord}
    {A : Audience rpc T} {hits : List ScoredHit} {r : Except (Thrown QueryError) Unit}
    {l : Leaving QueryError} {t : τ} (h : Finished A RaisedByAnswer hits r l t record) :
    LoopOver A hits (l.outcome r) t record := by
  obtain ⟨hfound, hopen, h⟩ := h
  refine ⟨hfound, hopen, ?_⟩
  rcases r with e | _
  · rcases h with ⟨-, hne, hgone⟩ | ⟨rfl, e', rfl, hraised⟩
    · cases l with
      | on => exact absurd rfl hne
      | broke => exact hgone
      | raised e => exact .inl hgone
    · exact .inr ⟨e', rfl, .inr hraised⟩
  · obtain ⟨rfl, h⟩ := h
    exact h

theorem wp_askStream (hs : rpc.streaming = true) : wp rpc.contract
    (RagEngineServicer.askStream rpc.service rpc.request) (fun r _ => Handled rpc r) () [] := by
  refine wp_aborting (wp_seq (wp_mono wp_retrieve ?_))
  rintro (e | hits) ⟨⟩ record - ⟨-, hsent, hopen, h⟩
  · exact ⟨hopen, .inr h⟩
  obtain ⟨hfound, hasked, hcontents⟩ := h
  refine wp_seq (wp_mono (wp_forEach (fun _ => rfl) (wp_answer (streamAudience hs) hfound hopen
    hasked hcontents hsent) (fun message t record _ hwanted => ?_)
    fun _ _ _ _ _ h => h.loopOver) ?_)
  · obtain ⟨hits, hfound, hmay⟩ := hwanted
    refine wp_request_rpc ⟨hs, hits, hfound⟩ ?_
    rintro (_ | _)
    · exact wp_pure (.inr (.inl ⟨rfl, rfl⟩))
    · refine wp_build (fun hu => ?_) ?_
      · exact .inr (.inr (.inr ⟨rfl, unencodable_of_maySend hs hfound hmay hu, rfl⟩))
      · exact wp_seq (wp_send ⟨hits, hfound, hmay.isActive⟩ (wp_pure (.inl ⟨rfl, rfl⟩))
          (.inr (.inr (.inl ⟨rfl, rfl⟩))))
  rintro (e | _ | _) ⟨⟩ record - ⟨hfound, hopen, h⟩
  · exact ⟨hopen, h⟩
  · exact wp_pure ⟨hopen, (if_pos hs).mpr (.inl ⟨hits, hfound, h.1, h.2⟩)⟩
  · exact wp_pure ⟨hopen, (if_pos hs).mpr (.inr h.2)⟩

/-- The answer of `Ask` is what `AskStream` streams, in one piece. -/
theorem flatten_answers {hits : List ScoredHit} {texts : List PyStr} {messages : List Message}
    (h : messages.map RagEngineServicer.responseOf =
      firstResponse hits :: texts.map deltaResponse) :
    ∃ first, messages.head? = some first ∧ (messages.map Message.answer).flatten = texts.flatten ∧
      first.sources.map RagEngineServicer.source = hits.map RagEngineServicer.source := by
  cases messages with
  | nil => cases h
  | cons first rest =>
    obtain ⟨hfirst, hrest⟩ := List.cons.inj h
    have hanswers : rest.map Message.answer = texts := by
      have := congrArg (List.map Response.answer) hrest
      rw [List.map_map, List.map_map] at this
      exact this.trans (List.map_id _)
    refine ⟨first, rfl, ?_, congrArg Response.contextUsed hfirst⟩
    rw [List.map_cons, List.flatten_cons, hanswers, show first.answer = [] from
      congrArg Response.answer hfirst, List.nil_append]

/-- Nothing is sent while the messages are collected. -/
theorem wp_answer_unsent (hs : rpc.streaming = false) {hits : List ScoredHit}
    (hfound : found record = some hits) (hopen : streamOpen record = false)
    (hasked : asked record = false) (hcontents : contents record = []) (hsent : sent record = []) :
    wp (listTaking.contract rpc.contract) (rpc.service.answer rpc.request.query hits)
      (fun r _ x => Finished (listAudience hs) RaisedByAnswer hits r x.1.1 x.1.2 x.2 ∧
        sent x.2 = []) () ((.on, []), record) := by
  refine Prog.wp_preserves (P := fun x => sent x.2 = []) ?_
    (wp_answer (listAudience hs) (t := []) hfound hopen hasked hcontents rfl) hsent
  rintro (c | message) ⟨_, record⟩ r ⟨_, _⟩ ⟨_, _⟩ hsent - - hx - ⟨-, rfl⟩
  · obtain ⟨-, rfl⟩ := hx
    exact (List.append_nil _).trans hsent
  · obtain ⟨_, ⟨-, -, rfl⟩, -⟩ := hx
    exact hsent

/-- What `QueryService.ask` comes to. -/
def Composed (rpc : Rpc) : Except (Thrown QueryError) (PyStr × List ScoredHit) → RpcRecord → Prop
  | .ok (text, sources), record => streamOpen record = false ∧ sent record = [] ∧
      ∃ hits, found record = some hits ∧ Complete hits record ∧
        text = (transcript hits record).flatten ∧
        sources.map RagEngineServicer.source = hits.map RagEngineServicer.source
  | .error e, record => streamOpen record = false ∧ FailedWith rpc e record

theorem wp_service_ask (hs : rpc.streaming = false) : wp rpc.contract
    (rpc.service.ask rpc.request.query rpc.request.documentIds : Answering Response _ _)
    (fun r _ => Composed rpc r) [] [] := by
  refine wp_seq (wp_mono wp_retrieve ?_)
  rintro (e | hits) _ record - ⟨rfl, hsent, hopen, h⟩
  · exact ⟨hopen, .inr h⟩
  obtain ⟨hfound, hasked, hcontents⟩ := h
  refine wp_seq (wp_mono (wp_forEach (Q := fun outcome messages record =>
      LoopOver (listAudience hs) hits outcome messages record ∧ sent record = []) (fun _ => rfl)
    (wp_answer_unsent hs hfound hopen hasked hcontents hsent)
    (fun message t record _ _ => wp_seq (wp_assign (wp_pure ⟨rfl, rfl, rfl⟩)))
    fun _ _ _ _ _ h => ⟨h.1.loopOver, h.2⟩) ?_)
  rintro (e | _ | _) messages record - ⟨⟨hfound, hopen, h⟩, hsent⟩
  · exact ⟨hopen, h⟩
  · obtain ⟨hcomplete, hmessages⟩ := h
    obtain ⟨first, hfirst, htext, hsources⟩ := flatten_answers hmessages
    refine wp_self_bind ?_
    rw [hfirst]
    exact wp_pure ⟨hopen, hsent, hits, hfound, hcomplete, htext, hsources⟩
  · rw [hs] at h
    cases h.1

theorem wp_ask (hs : rpc.streaming = false) : wp rpc.contract
    (RagEngineServicer.ask rpc.service rpc.request) (fun r _ => Handled rpc r) [] [] := by
  refine wp_seq (wp_tryExcept (R := fun r _ => Composed rpc r) (wp_service_ask hs) ?_ ?_)
  · rintro ⟨text, sources⟩ messages record ⟨hopen, hsent, hits, hfound, hcomplete, rfl, hsources⟩
    refine wp_build (fun hu => ?_) (wp_send ⟨hits, hfound, ?_⟩ ?_ ?_)
    · exact ⟨hopen, hs, hsent, hits, hfound, hcomplete, hsources ▸ hu⟩
    · unfold Rpc.MaySend
      rw [hs, hsources]
      exact ⟨hsent, hopen, hcomplete, rfl⟩
    · refine ⟨hopen, (if_neg (Bool.eq_false_iff.mp hs)).mpr ⟨hits, hfound, hcomplete.cons, ?_⟩⟩
      rw [sent_cons, hsent, List.nil_append, hsources, transcript_send]
      rfl
    · exact ⟨hopen, _, List.mem_cons_self ..⟩
  · rintro e messages record ⟨hopen, he⟩
    exact wp_abort hopen he fun _ h => h

/-- An RPC follows the protocol, whatever the services and the client do. -/
theorem wp_rpc (rpc : Rpc) : Prog.wp rpc.contract rpc.main (fun _ _ => True) [] := by
  have hended (r : Except (Thrown QueryError) Unit) (record : RpcRecord)
      (h : Handled rpc r record) : Prog.wp rpc.contract
        (.call (S := RpcSig) (.inl (.ended (Rpc.status r).1 (Rpc.status r).2)) .ret)
        (fun _ _ => True) record :=
    fun _ => ⟨h, fun _ _ _ _ _ _ => Prog.wp_ret trivial⟩
  refine Prog.wp_bind ?_
  unfold Rpc.handle
  refine Prog.wp_ite (fun hs => Prog.wp_bind ?_) fun hs => Prog.wp_bind ?_
  · exact Prog.wp_mono _ (wp_askStream hs) fun x record _ h => Prog.wp_ret (hended _ _ h)
  · exact Prog.wp_mono _ (wp_ask (Bool.eq_false_iff.mpr hs)) fun x record _ h =>
      Prog.wp_ret (hended _ _ h)

end Rpc

end Rag
