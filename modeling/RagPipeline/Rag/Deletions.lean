import RagPipeline.Rag.StreamConsumer

/-!
# What of a consumer deletes no other

All methods but the cleanup, and what calls it, issue no `XGROUP DELCONSUMER`, whatever they are
answered.

## Main definitions

* `Spares`: the other commands.
-/
namespace Rag

namespace StreamConsumer

open Events Wire Interact Method

/-- Not a deletion. -/
def Spares : ConsumerCall.Cmd → Prop
  | .inl (.xgroupDelconsumer _) => False
  | _ => True

variable {settings : ConsumerSettings} {name : String} {id : EntryId} {event : IngestEvent}
  {status : StatusEvent}

theorem issues_ensureGroup : Issues Spares ensureGroup := by
  refine issues_tryExcept (issues_request trivial) fun e => ?_
  split
  · exact issues_pure
  · exact issues_raise

theorem issues_ensureGroupUntilReady : Issues Spares (ensureGroupUntilReady settings) := by
  refine issues_loop fun _ => issues_call_bind trivial fun (stop : Bool) =>
    issues_ite issues_pure ?_
  refine issues_tryExcept (issues_bind issues_ensureGroup fun _ => issues_pure) fun e => ?_
  refine issues_ite (issues_call_bind trivial fun (full : Bool) => ?_) issues_raise
  exact issues_ite issues_pure issues_pure

theorem issues_ack : Issues Spares (ack id) :=
  issues_tryExcept (issues_request trivial) fun _ => issues_ite issues_pure issues_raise

theorem issues_parse {fields : Option Fields} : Issues Spares (parse id fields) := by
  unfold parse
  split
  · exact issues_pure
  · exact issues_bind issues_ack fun _ => issues_pure

theorem issues_tryAdd : Issues Spares (tryAdd status) :=
  issues_tryExcept (issues_bind (issues_request trivial) fun _ => issues_pure)
    fun _ => issues_ite issues_pure issues_raise

theorem issues_publishLoop {reclaimableAt : Micros} {attempts : Nat} :
    Issues Spares (publishLoop settings status reclaimableAt attempts) := by
  induction attempts with
  | zero => exact issues_pure
  | succ attempts ih =>
    refine issues_bind issues_tryAdd fun ok => issues_ite issues_pure ?_
    refine issues_ite issues_pure (issues_call_bind trivial fun (full : Bool) => ?_)
    refine issues_ite issues_pure (issues_call_bind trivial fun (now : Micros) => ?_)
    exact issues_ite issues_pure ih

theorem issues_finish {started : Micros} : Issues Spares (finish settings id status started) := by
  refine issues_bind issues_publishLoop fun ok => issues_ite ?_ ?_
  · exact issues_bind issues_ack fun _ => issues_pure
  · exact issues_bind issues_assign fun _ => issues_pure

theorem issues_newStatus {make : PyStr → Int → Except InvalidEvent StatusEvent} :
    Issues Spares (newStatus make) :=
  issues_call_bind trivial fun _ => issues_call_bind trivial fun _ => issues_ofExcept

theorem issues_reportPoison {deliveries : Int} :
    Issues Spares (reportPoison settings id event deliveries) :=
  issues_bind issues_newStatus fun _ => issues_call_bind trivial fun _ =>
    issues_bind issues_finish fun _ => issues_pure

theorem issues_handle : Issues Spares (handle settings id event) := by
  refine issues_call_bind trivial fun started => issues_call_bind trivial fun now => ?_
  refine issues_call_bind trivial fun _ => issues_bind ?_ fun outcome => ?_
  · exact issues_andFinally (issues_request trivial) (issues_call trivial)
  · exact issues_bind issues_newStatus fun _ => issues_finish

theorem issues_retryHeld : Issues Spares (retryHeld name) := by
  refine issues_self_bind fun s => ?_
  split
  · exact issues_raise
  · refine issues_bind (issues_tryExcept (issues_request trivial)
      fun _ => issues_ite issues_pure issues_raise) fun _ => issues_bind issues_tryAdd fun ok => ?_
    refine issues_ite (issues_bind issues_assign fun _ => ?_) ?_
    · exact issues_bind issues_ack fun _ => issues_pure
    · exact issues_bind issues_assign fun _ => issues_pure

theorem issues_readOnce : Issues Spares (readOnce settings name) := by
  refine issues_call_bind trivial fun r => issues_bind issues_ofExcept fun batch => ?_
  refine issues_forM fun e => issues_bind issues_parse fun parsed => ?_
  cases parsed with
  | none => exact issues_pure
  | some event => exact issues_bind issues_handle fun _ => issues_pure

theorem issues_claimOne {pages : Nat} {cursor : EntryId} :
    Issues Spares (claimOne settings name pages cursor) := by
  induction pages generalizing cursor with
  | zero => exact issues_pure
  | succ pages ih =>
    refine issues_call_bind trivial fun r => issues_bind issues_ofExcept fun claimed => ?_
    split
    · exact issues_pure
    · exact issues_ite issues_pure ih

theorem issues_ownPending : Issues Spares (ownPending name id) := by
  refine issues_tryExcept (issues_call_bind trivial fun r => issues_bind issues_ofExcept
    fun pending => ?_) fun _ => issues_ite issues_pure issues_raise
  split <;> exact issues_pure

theorem issues_claimAndProcess {jobs : Nat} :
    Issues Spares (claimAndProcess settings name jobs) := by
  induction jobs with
  | zero => exact issues_pure
  | succ jobs ih =>
    have hrest : Issues Spares (Method.self >>= fun s => if s.held.isSome then pure ()
        else claimAndProcess settings name jobs) :=
      issues_self_bind fun _ => issues_ite issues_pure ih
    refine issues_bind issues_claimOne fun claimed => ?_
    cases claimed with
    | none => exact issues_pure
    | some e =>
      refine issues_bind issues_parse fun parsed => ?_
      cases parsed with
      | none => exact ih
      | some event =>
        refine issues_bind issues_ownPending fun pending => ?_
        cases pending with
        | none => exact ih
        | some deliveries =>
          refine issues_ite ?_ ?_
          · exact issues_bind issues_reportPoison fun _ => hrest
          · exact issues_bind issues_handle fun _ => hrest

end StreamConsumer

end Rag
