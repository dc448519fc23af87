import Recast.Api
import Mathlib.Data.Nat.Notation
import Mathlib.Tactic.Common

/-!
Envelopes of failures. What keeps a request from the answer it asks for is a fault that was raised
while it was handled, or before, when its address could not be taken apart; a number that was
refused; or an address that leads nowhere (`Api.Failure`, `Api.failure?`). What is told of it is a
notice (`Api.Failure.notice`), and the general one where a notice cannot be written. Whichever layer
tells it, the answer to a request that failed holds the notice and the number of the request, and
nothing else (`Api.respond_of_failure?`), and a request that did not fail is answered with a status
below four hundred (`Api.status_lt_of_failure?`).
-/

set_option autoImplicit false

namespace Recast.Api

open Store

/-! ### Failures and what is told of them -/

/-- What keeps a request from the answer that it asks for. -/
inductive Failure where
  /-- A fault was raised while the request was handled. -/
  | raised (f : Fault)
  /-- The number in the path was refused. -/
  | refused (issues : List Issue)
  /-- The request leads nowhere, or uses a method that is not offered. -/
  | misled (status : ℕ) (detail : String)

/-- What is told of a failure: a status, a code, a message, and details if there are any. -/
structure Notice where
  status : ℕ
  code : Json
  message : Json
  details : Option Json

namespace Notice

/-- The members of the envelope, in order. -/
def members (n : Notice) (id : String) : List (String × Json) :=
  [("error", .bool true), ("error_code", n.code), ("message", n.message)] ++
    (n.details.map ("details", ·)).toList ++ [("request_id", .text id)]

/-- The envelope. -/
def body (n : Notice) (id : String) : Json := .object (n.members id)

/-- What is told of a failure that is kept back. -/
def general : Notice :=
  ⟨500, .text "INTERNAL_ERROR", .text "An unexpected internal error occurred.", none⟩

/-- What is told of an issue. -/
def issue (i : Issue) : Json :=
  .object [("field", .text (issueField i)), ("message", .text (issueMessage i.type)),
    ("type", .text i.type)]

end Notice

/-- Details as they are told: only when there are some. -/
def writtenDetails? (details : Value) : Except Fault (Option Json) :=
  if details.truth then (written? details).map some else .ok none

namespace Failure

/-- What is told of a failure; else the fault that passes the layers within. A fault is told when it
is of this library's own classes and all of it can be written. -/
def notice? : Failure → Except Fault Notice
  | .raised (.application _ message status code details) =>
    match statusOf? status with
    | none => .error (incomparable status)
    | some n =>
      (written? code).bind fun code => (written? message).bind fun message =>
        (writtenDetails? details).map fun details => ⟨n, code, message, details⟩
  | .raised f => .error f
  | .refused issues =>
    .ok ⟨422, .text "VALIDATION_ERROR", .text "Request validation failed.",
      some (.object [("errors", .array (issues.map Notice.issue))])⟩
  | .misled status detail => .ok ⟨status, .text "HTTP_ERROR", .text detail, none⟩

/-- What is told of a failure in the end. -/
def notice (f : Failure) : Notice :=
  match f.notice? with
  | .ok n => n
  | .error _ => .general

end Failure

/-- What keeps a request inside from the answer that it asks for, if anything does. -/
def escaped {M : Type} (e : Engine M) (a : Application) (r : Request) (m : M) : Option Failure :=
  match destination r.verb r.path with
  | .route .health | .redirection _ => none
  | .route (.customer number) =>
    match customerNumber number with
    | .error issues => some (.refused issues)
    | .ok n =>
      match (e.complete m (a.service.getById n)).1 with
      | .ok _ => none
      | .error e => some (.raised e.fault)
  | .wrongMethod => some (.misled 405 "Method Not Allowed")
  | .nowhere => some (.misled 404 "Not Found")

/-- What keeps a request from the answer that it asks for, if anything does: its address, or what
happens inside. -/
def failure? (a : Application) (r : Request) (m : Machine) : Option Failure :=
  match r.shownPath with
  | .error f => some (.raised f)
  | .ok path => escaped .machine a r (begin .machine r path m)

/-! ### Addresses that cannot be taken apart -/

theorem Host.exists_eq_valueError {authority : List Char} {f : Fault}
    (h : fault? authority = some f) : ∃ text, f = valueError text := by
  have hbracketed : ∀ cs, bracketedFault? cs = some f → ∃ text, f = valueError text := by
    intro cs hcs
    unfold bracketedFault? at hcs
    split_ifs at hcs <;> exact ⟨_, (Option.some.inj hcs).symm⟩
  unfold fault? at h
  split at h
  · cases h
  · exact hbracketed _ h
  · exact ⟨_, (Option.some.inj h).symm⟩

/-- The fault of such an address belongs to no class of this library. -/
theorem Request.exists_eq_valueError {r : Request} {f : Fault} (h : r.shownPath = .error f) :
    ∃ text, f = Host.valueError text := by
  unfold shownPath at h
  split at h
  · next hfault =>
    cases h
    exact Host.exists_eq_valueError hfault
  · cases h

/-! ### Writing envelopes -/

section Writing

variable (id : String)

theorem writtenEntries?_text (key : String) (v : Value) (rest : List (Value × Value)) :
    writtenEntries? ((.text key, v) :: rest) =
      (written? v).bind fun j ↦ (writtenEntries? rest).map ((key, j) :: ·) := by
  cases hv : written? v <;> simp [writtenEntries?, memberName, hv, Except.bind]

/-- Every issue can be written. -/
theorem written?_issueValue (i : Issue) : written? (issueValue i) = .ok (Notice.issue i) := by
  simp [issueValue, dictOf, written?, writtenEntries?, memberName, Notice.issue, Except.map]

theorem writtenItems?_issueValue (issues : List Issue) :
    writtenItems? (issues.map issueValue) = .ok (issues.map Notice.issue) := by
  induction issues with
  | nil => simp [writtenItems?]
  | cons i rest ih => simp [writtenItems?, written?_issueValue, ih, Except.map]

/-- An envelope of texts without details can be written. -/
theorem written?_envelope (status : ℕ) (code message : String) :
    written? (sealed (envelope code message []) id) =
      .ok (Notice.body ⟨status, .text code, .text message, none⟩ id) := by
  simp [envelope, sealed, dictOf, written?, writtenEntries?, memberName, Notice.body,
    Notice.members, Except.map]

/-- The envelope of a refused number can be written. -/
theorem written?_refusal (issues : List Issue) :
    written? (sealed (envelope "VALIDATION_ERROR" "Request validation failed."
      [("details", dictOf [("errors", .list 0 (issues.map issueValue))])]) id) =
      .ok ((Failure.refused issues).notice.body id) := by
  simp [envelope, sealed, dictOf, written?, writtenEntries?, memberName, Notice.body,
    Notice.members, Failure.notice, Failure.notice?, writtenItems?_issueValue, Except.map]

/-- The envelope of a fault of this library's own classes is what is told of the fault. It cannot be
written when its code, its message, or its details cannot. -/
theorem written?_fault (cls : ErrorClass) (message status code details : Value) (n : ℕ) :
    written? (sealed (Fault.application cls message status code details).envelope id) =
      ((written? code).bind fun code ↦ (written? message).bind fun message ↦
        (writtenDetails? details).map fun details ↦
          (⟨n, code, message, details⟩ : Notice).body id) := by
  by_cases htruth : details.truth
  · simp only [Fault.envelope, sealed, written?, writtenEntries?_text, writtenDetails?, htruth,
      if_true, List.cons_append, List.nil_append]
    cases written? code with
    | error f => rfl
    | ok code =>
      cases written? message with
      | error f => rfl
      | ok message => cases written? details <;> rfl
  · simp only [Fault.envelope, sealed, written?, writtenEntries?_text, writtenDetails?, htruth,
      Bool.false_eq_true, if_false, List.cons_append, List.nil_append]
    cases written? code with
    | error f => rfl
    | ok code => cases written? message <;> rfl

end Writing

/-! ### Answers -/

/-- The answer tells a notice and the number of the request: in its body, which holds nothing else,
and in its header, if it has one for that. -/
structure Notice.IsToldBy (n : Notice) (id : String) (answer : Response) : Prop where
  status : answer.status = n.status
  body : answer.body = some (n.body id)
  header : ∀ v, ("x-request-id", v) ∈ answer.headers → v = id

section Answers

variable {a : Application} {r : Request} {id new : String} {m : Machine} {f : Failure}

/-- An answer in an envelope is given when the envelope can be written. -/
theorem answering_answerSealed (e : Log.Entry) (status : ℕ) (v : Value) :
    (answering .machine m (answerSealed e status v id)).1 =
      (written? (sealed v id)).map (reply status) := by
  simp only [answering, Engine.machine, Machine.act, answerSealed, Action.bind, Action.report,
    Action.change]
  cases written? (sealed v id) <;> rfl

/-- A fault that was raised is told by the layer within, or passes it. -/
theorem answerCustomer_of_error {n : Value} {raised : Raised}
    (h : (Engine.machine.complete m (a.service.getById n)).1 = .error raised) :
    (answerCustomer .machine a r id n m).1 =
      (Failure.raised raised.fault).notice?.map fun n ↦ reply n.status (n.body id) := by
  obtain ⟨number, fault⟩ := raised
  rw [answerCustomer]
  generalize Engine.machine.complete m (a.service.getById n) = t at h
  obtain ⟨o, m'⟩ := t
  obtain rfl : o = .error ⟨number, fault⟩ := h
  cases fault with
  | application cls message status code details =>
    simp only [answerFault, Failure.notice?]
    cases hstatus : statusOf? status with
    | none => rfl
    | some n =>
      dsimp only
      rw [answering_answerSealed, written?_fault id cls message status code details n]
      cases written? code with
      | error f => rfl
      | ok code =>
        cases written? message with
        | error f => rfl
        | ok message => cases writtenDetails? details <;> rfl
  | _ => rfl

/-- A failure is told by the layer within, or passes it. -/
theorem handle_of_escaped (id : String) (h : escaped .machine a r m = some f) :
    (handle .machine a r id m).1 = f.notice?.map fun n ↦ reply n.status (n.body id) := by
  unfold escaped at h
  unfold handle
  cases hdestination : destination r.verb r.path with
  | route route =>
    cases route with
    | health => simp [hdestination] at h
    | customer number =>
      simp only [hdestination] at h ⊢
      cases hnumber : customerNumber number with
      | error issues =>
        simp only [hnumber, Option.some.injEq] at h ⊢
        subst h
        rw [answerIssues, answering_answerSealed, written?_refusal]
        rfl
      | ok n =>
        simp only [hnumber] at h ⊢
        cases houtcome : (Engine.machine.complete m (a.service.getById n)).1 with
        | ok v => simp [houtcome] at h
        | error raised =>
          simp only [houtcome, Option.some.injEq] at h
          subst h
          exact answerCustomer_of_error houtcome
  | wrongMethod =>
    simp only [hdestination, Option.some.injEq] at h ⊢
    subst h
    rw [answerHttp, answering_answerSealed, written?_envelope id 405]
    rfl
  | redirection path => simp [hdestination] at h
  | nowhere =>
    simp only [hdestination, Option.some.injEq] at h ⊢
    subst h
    rw [answerHttp, answering_answerSealed, written?_envelope id 404]
    rfl

/-- A request that did not fail is answered with a customer, the state of health, or a redirection.
-/
theorem handle_of_not_escaped (id : String) (h : escaped .machine a r m = none) :
    ∃ response, (handle .machine a r id m).1 = .ok response ∧ response.status < 400 ∧
      ∀ v, ("x-request-id", v) ∉ response.headers := by
  unfold escaped at h
  unfold handle
  cases hdestination : destination r.verb r.path with
  | route route =>
    cases route with
    | health => exact ⟨_, rfl, by simp [reply], by simp [reply]⟩
    | customer number =>
      simp only [hdestination] at h ⊢
      cases hnumber : customerNumber number with
      | error issues => simp [hnumber] at h
      | ok n =>
        simp only [hnumber] at h ⊢
        rw [answerCustomer]
        generalize Engine.machine.complete m (a.service.getById n) = t at h
        obtain ⟨o, m'⟩ := t
        cases o with
        | error raised => simp at h
        | ok v => exact ⟨_, rfl, by simp [reply], by simp [reply]⟩
  | wrongMethod => simp [hdestination] at h
  | redirection path => exact ⟨_, rfl, by simp [redirect], by simp [redirect]⟩
  | nowhere => simp [hdestination] at h

theorem notMem_originHeaders (s : Settings) (v : String) :
    ("x-request-id", v) ∉ originHeaders s r := by
  rw [originHeaders]
  cases r.header? "origin" with
  | none => simp
  | some origin => by_cases hmem : s.corsOrigins.contains origin <;> simp

/-- When the address was taken apart, the layers around the inside conclude what it ended in. -/
theorem respond_eq {path : String} (hpath : r.shownPath = .ok path) :
    respond .machine a r new m =
      conclude .machine a r path (r.id new)
        (handle .machine a r (r.id new) (begin .machine r path m)).1
        (handle .machine a r (r.id new) (begin .machine r path m)).2 := by
  have hheld : Engine.machine.holding m (some (r.id new)) = m := rfl
  simp only [respond, hpath, hheld]
  generalize handle .machine a r (r.id new) (begin .machine r path m) = t
  obtain ⟨handled, m'⟩ := t
  rfl

/-- They add the number of the request to what the inside answers. -/
theorem respond_of_ok {path : String} (hpath : r.shownPath = .ok path) {response : Response}
    (h : (handle .machine a r (r.id new) (begin .machine r path m)).1 = .ok response) :
    (respond .machine a r new m).1 =
      { response with
        headers := response.headers ++ originHeaders a.settings r ++
          [("x-request-id", r.id new)] } := by
  rw [respond_eq hpath, h]
  rfl

/-- The general envelope can be written. -/
theorem act_answerUnhandled (m : Machine) (r : Request) (id : String) (fault : Fault) :
    (m.act (answerUnhandled r id fault)).1 = .ok (reply 500 (Notice.general.body id)) := by
  simp only [Machine.act, answerUnhandled, answerSealed, Action.bind, Action.report, Action.change,
    written?_envelope id 500]
  rfl

/-- A fault is told in general outside of the layers. -/
theorem answerOutside_eq (m : Machine) (r : Request) (id : String) (fault : Fault) :
    (answerOutside .machine r id fault m).1 = reply 500 (Notice.general.body id) := by
  have hanswer := act_answerUnhandled m r id fault
  simp only [answerOutside, Engine.machine]
  generalize m.act (answerUnhandled r id fault) = t at hanswer
  obtain ⟨answer, m'⟩ := t
  obtain rfl : answer = .ok (reply 500 (Notice.general.body id)) := hanswer
  rfl

/-- So is one that passes the inside. -/
theorem respond_of_error {path : String} (hpath : r.shownPath = .ok path) {fault : Fault}
    (h : (handle .machine a r (r.id new) (begin .machine r path m)).1 = .error fault) :
    (respond .machine a r new m).1 = reply 500 (Notice.general.body (r.id new)) := by
  rw [respond_eq hpath, h]
  exact answerOutside_eq _ r (r.id new) fault

/-- And one of an address that cannot be taken apart. -/
theorem respond_of_shownPath {fault : Fault} (h : r.shownPath = .error fault) :
    (respond .machine a r new m).1 = reply 500 (Notice.general.body (r.id new)) := by
  simp only [respond, h]
  exact answerOutside_eq _ r (r.id new) fault

/-- A request that failed is answered with the notice of its failure. -/
theorem respond_of_failure? (h : failure? a r m = some f) :
    f.notice.IsToldBy (r.id new) (respond .machine a r new m).1 := by
  unfold failure? at h
  cases hpath : r.shownPath with
  | error fault =>
    rw [hpath] at h
    obtain rfl := Option.some.inj h
    obtain ⟨text, rfl⟩ := Request.exists_eq_valueError hpath
    rw [respond_of_shownPath hpath]
    exact ⟨rfl, rfl, fun v hv ↦ by simp [reply] at hv⟩
  | ok path =>
    rw [hpath] at h
    have hhandled := handle_of_escaped (r.id new) h
    rw [Failure.notice]
    cases hnotice : f.notice? with
    | ok n =>
      rw [hnotice] at hhandled
      rw [respond_of_ok hpath hhandled]
      refine ⟨rfl, rfl, fun v hv ↦ ?_⟩
      simpa [reply, notMem_originHeaders] using hv
    | error fault =>
      rw [hnotice] at hhandled
      rw [respond_of_error hpath hhandled]
      exact ⟨rfl, rfl, fun v hv ↦ by simp [reply] at hv⟩

/-- A request that did not fail is answered with a status below four hundred. -/
theorem status_lt_of_failure? (h : failure? a r m = none) :
    (respond .machine a r new m).1.status < 400 := by
  unfold failure? at h
  cases hpath : r.shownPath with
  | error fault =>
    rw [hpath] at h
    cases h
  | ok path =>
    rw [hpath] at h
    obtain ⟨response, hhandled, hstatus, _⟩ := handle_of_not_escaped (r.id new) h
    rw [respond_of_ok hpath hhandled]
    exact hstatus

end Answers

/-- What is sent is the answer, but for the body of one to a request for the head alone. -/
theorem serve_eq (a : Application) (r : Request) (new : String) (m : Machine) :
    (serve a r new m).1 = trimmed r (respond .machine a r new m).1 := by
  unfold serve
  generalize respond .machine a r new m = t
  rfl

/-- The number that a request brings along is its own, unless it is empty; else the new one is. -/
theorem Request.id_eq (r : Request) (new : String) :
    (∀ given, r.header? "x-request-id" = some given → given ≠ "" → r.id new = given) ∧
      ((r.header? "x-request-id").getD "" = "" → r.id new = new) := by
  rw [Request.id]
  cases r.header? "x-request-id" with
  | none => simp
  | some given => by_cases hempty : given = "" <;> simp [hempty]

/-- Every failure leaves in the same envelope, for every request, settings, service and state of the
machine. A status of four hundred or more means that the address could not be taken apart or that
something failed inside, and then the answer is what is told of that: its status, and one object of
the notice and the number of the request, which is the one that the request brought along, or the
given new one. As it is sent, only a request for the head alone is left without this body. -/
theorem failures_share_one_envelope (a : Application) (r : Request) (new : String) (m : Machine)
    (h : 400 ≤ (respond .machine a r new m).1.status) :
    (∃ f, failure? a r m = some f ∧
      f.notice.IsToldBy (r.id new) (respond .machine a r new m).1) ∧
    ((∀ given, r.header? "x-request-id" = some given → given ≠ "" → r.id new = given) ∧
      ((r.header? "x-request-id").getD "" = "" → r.id new = new)) ∧
    (serve a r new m).1 = trimmed r (respond .machine a r new m).1 := by
  refine ⟨?_, r.id_eq new, serve_eq a r new m⟩
  cases hfailure : failure? a r m with
  | none => exact absurd (status_lt_of_failure? hfailure) (Nat.not_lt.mpr h)
  | some f => exact ⟨f, rfl, respond_of_failure? hfailure⟩

namespace Sample

/-- An application without customers. -/
def vacant : Application := ⟨Settings.overriding [], ⟨[], ⟨"", "CustomerDto", []⟩⟩⟩

/-- A request for the customer with number seven, which brings its own number along. -/
def seventh : Request := ⟨"GET", "/api/v1/customers/7", [("X-Request-ID", "abc")]⟩

/-- The customer is not there, which is told with the number that the request brought along. -/
theorem seventh_is_not_found :
    400 ≤ (respond .machine vacant seventh "new" .empty).1.status ∧
      ∃ f, failure? vacant seventh .empty = some f ∧ f.notice.status = 404 ∧
        f.notice.IsToldBy "abc" (respond .machine vacant seventh "new" .empty).1 := by
  have hstatus : (respond .machine vacant seventh "new" .empty).1.status = 404 := by decide +kernel
  have hid : seventh.id "new" = "abc" := by decide +kernel
  have h : 400 ≤ (respond .machine vacant seventh "new" .empty).1.status := by rw [hstatus]; decide
  obtain ⟨⟨f, hf, htold⟩, -, -⟩ := failures_share_one_envelope vacant seventh "new" .empty h
  rw [hid] at htold
  exact ⟨h, f, hf, htold.status.symm.trans hstatus, htold⟩

end Sample

end Recast.Api
