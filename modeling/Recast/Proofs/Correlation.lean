import Recast.Proofs.Attribution
import Recast.Proofs.Envelope
import Recast.Proofs.Landing
import Recast.Proofs.ServiceLog

/-!
Requests and their records. The records of a request belong together when it is told once that the
request came in and once that it was answered, all of them are stamped with its number, and the
answer has the number in its header (`Api.Correlates`). This holds of every request whose address
can be taken apart and whose inside ends in an answer. Where a fault passes the inside, the variable
is set back before the fault is told: nothing says that the request was answered, the record of the
fault is stamped with what the variable held before the request, and the answer has no header for
the number (`Api.BreaksOff`). Where the address cannot be taken apart, nothing says that the request
came in, and the variable is not set back (`Api.Unnoted`, `Api.Server.held`); so a fault that passes
the inside of a later request is told with the number of this one. All other records are stamped
with the number of their request, also those that are written while a later request is served, by
what went on by itself.

One request adds the records that mark its course (`Api.Marks`) and records of the inside
(`Api.Server.Sound.answers`). What is added later for a request that was answered before are records
of the inside (`Api.Server.Answers.exists_recordsOf_eq`), so that by induction on the requests each
of them keeps its place (`Api.Server.recounts`).
-/

set_option autoImplicit false

namespace Recast

/-! ### The number in a record -/

namespace Log.Entry

/-- Fields that are added leave a member alone that is none of them. -/
theorem lookup_foldl_assign {fields : List (String × Value)} {name : String} (write : Value → Json)
    (h : name ∉ fields.map Prod.fst) (members : List (String × Json)) :
    (fields.foldl (fun ms field ↦ assign ms field.1 (write field.2)) members).lookup name =
      members.lookup name := by
  induction fields generalizing members with
  | nil => rfl
  | cons field rest ih =>
    obtain ⟨hne, hrest⟩ : name ≠ field.1 ∧ name ∉ rest.map Prod.fst := by simpa using h
    rw [List.foldl_cons, ih hrest, lookup_assign, if_neg hne]

theorem notMem_filter {fields : List (String × Value)} {name : String} (p : String × Value → Bool)
    (h : name ∉ fields.map Prod.fst) : name ∉ (fields.filter p).map Prod.fst := by
  simp only [List.mem_map, List.mem_filter] at h ⊢
  rintro ⟨field, ⟨hfield, -⟩, hname⟩
  exact h ⟨field, hfield, hname⟩

/-- A record without a field for the number of the request is stamped with what the variable
holds. -/
theorem member?_object {e : Log.Entry} (h : "request_id" ∉ e.extra.map Prod.fst) (s : Store)
    (time : String) (number : Option String) :
    (e.object s time number).member? "request_id" = number.map .text := by
  have hcontains : (e.extra.map Prod.fst).contains "request_id" = false := by simpa using h
  have hhead : ∀ level logger message : Json,
      [("timestamp", Json.text time), ("level", level), ("logger", logger),
        ("message", message)].lookup "request_id" = none := fun _ _ _ ↦ rfl
  have hown := lookup_foldl_assign s.writtenPlainly
    (notMem_filter (fun field ↦ !field.1.startsWith "_") h)
  cases number with
  | none => exact (hown _).trans (hhead _ _ _)
  | some id =>
    have hshown : (!"request_id".startsWith "_") = true := by decide +kernel
    simp only [object, Json.member?, stamped, hcontains, Bool.false_eq_true, if_false,
      List.filter_append, List.foldl_append, List.filter_cons, hshown, if_true, List.filter_nil,
      List.foldl_cons, List.foldl_nil, lookup_assign, Option.map_some]
    rfl

/-- A record that has the number of the request in its first field keeps it. -/
theorem member?_object_of_cons {e : Log.Entry} {id : String} {fields : List (String × Value)}
    (hextra : e.extra = ("request_id", .text id) :: fields)
    (h : "request_id" ∉ fields.map Prod.fst) (s : Store) (time : String) (number : Option String) :
    (e.object s time number).member? "request_id" = some (.text id) := by
  have hstamped : stamped number e.extra = ("request_id", .text id) :: fields := by
    cases number <;> simp [stamped, hextra]
  have hshown : (!"request_id".startsWith "_") = true := by decide +kernel
  have hown := lookup_foldl_assign s.writtenPlainly
    (notMem_filter (fun field ↦ !field.1.startsWith "_") h)
  simp only [object, Json.member?, hstamped, List.filter_cons, hshown, if_true, List.foldl_cons]
  rw [hown, lookup_assign, if_pos rfl]
  rfl

end Log.Entry

namespace Api

/-! ### Records of a request -/

namespace Emission

/-- The record is stamped with a number, or with none, wherever and whenever it is written. -/
def IsStampedWith (e : Emission) (number : Option String) : Prop :=
  ∀ (s : Store) (time : String), (e.object s time).member? "request_id" = number.map .text

/-- The record is one of the logger of requests, with a message. -/
def marks (message : String) (e : Emission) : Bool :=
  e.entry.logger == requestLogger && e.entry.message == message

/-- The record tells of something critical. -/
def isAlarm (e : Emission) : Bool := decide (e.entry.level = .critical)

variable {e : Emission}

theorem isStampedWith_of_isInner (h : e.entry.IsInner) : e.IsStampedWith e.context.number :=
  fun s time ↦ Log.Entry.member?_object h.notMem_extra s time e.context.number

theorem marks_eq_false (h : e.entry.IsInner) (message : String) : e.marks message = false := by
  simp [marks, h.logger_ne]

theorem isAlarm_eq_false (h : e.entry.IsInner) : e.isAlarm = false := by
  simpa [isAlarm] using h.level_ne

end Emission

/-- The records of a request are complete, and all of them and the answer have its number. -/
structure Correlates (id : String) (answer : Response) (records : List Emission) : Prop where
  started : records.countP (Emission.marks "Request started") = 1
  completed : records.countP (Emission.marks "Request completed") = 1
  stamped : ∀ e ∈ records, e.IsStampedWith (some id)
  header : ∀ v, ("x-request-id", v) ∈ answer.headers ↔ v = id

/-- The records of a request break off with a critical one: this one is stamped with what the
variable held before the request, the others with its number, and the answer does not have it in its
header. -/
structure BreaksOff (id : String) (before : Option String) (answer : Response)
    (records : List Emission) : Prop where
  started : records.countP (Emission.marks "Request started") = 1
  uncompleted : records.countP (Emission.marks "Request completed") = 0
  alarm : records.countP Emission.isAlarm = 1
  stamped : ∀ e ∈ records, e.IsStampedWith (if e.isAlarm then before else some id)
  header : ∀ v, ("x-request-id", v) ∉ answer.headers

/-- It is not noted that the request came in, nor that it was answered. There is a critical record
of it, stamped with its number, which the answer does not have in its header. -/
structure Unnoted (id : String) (answer : Response) (records : List Emission) : Prop where
  unstarted : records.countP (Emission.marks "Request started") = 0
  uncompleted : records.countP (Emission.marks "Request completed") = 0
  alarm : records.countP Emission.isAlarm = 1
  stamped : ∀ e ∈ records, e.IsStampedWith (some id)
  header : ∀ v, ("x-request-id", v) ∉ answer.headers

/-- Some records of a request mark its course; all others are records of the inside that are stamped
with the number of the request. -/
def Frames (id : String) (marked records : List Emission) : Prop :=
  ∃ others, records.Perm (marked ++ others) ∧
    ∀ e ∈ others, e.entry.IsInner ∧ e.context.number = some id

section Framed

variable {id : String} {marked records more : List Emission}

/-- What goes on for a request later belongs to its records. -/
theorem Frames.append (h : Frames id marked records)
    (hmore : ∀ e ∈ more, e.entry.IsInner ∧ e.context.number = some id) :
    Frames id marked (records ++ more) := by
  obtain ⟨others, hperm, hall⟩ := h
  refine ⟨others ++ more, ?_, List.forall_mem_append.mpr ⟨hall, hmore⟩⟩
  rw [← List.append_assoc]
  exact hperm.append_right more

/-- Records of the inside do not count. -/
theorem Frames.countP_eq (h : Frames id marked records) {p : Emission → Bool}
    (hp : ∀ e : Emission, e.entry.IsInner → p e = false) :
    records.countP p = marked.countP p := by
  obtain ⟨others, hperm, hall⟩ := h
  have hnone : others.countP p = 0 :=
    List.countP_eq_zero.mpr fun e he ↦ by simp [hp e (hall e he).1]
  rw [hperm.countP_eq, List.countP_append, hnone, Nat.add_zero]

theorem Frames.forall_mem (h : Frames id marked records) {q : Emission → Prop}
    (hmarked : ∀ e ∈ marked, q e)
    (hq : ∀ e : Emission, e.entry.IsInner → e.context.number = some id → q e) :
    ∀ e ∈ records, q e := by
  obtain ⟨others, hperm, hall⟩ := h
  intro e he
  rcases List.mem_append.mp (hperm.mem_iff.mp he) with hmem | hmem
  · exact hmarked e hmem
  · exact hq e (hall e hmem).1 (hall e hmem).2

end Framed

/-- The record of a request that came in, while the variable holds its number. -/
def opening (r : Request) (path : String) (n : ℕ) (id : String) : Emission :=
  ⟨startedEntry r path, ⟨some n, some id⟩⟩

/-- The record of a request that was answered, when the variable was set back. -/
def closing (r : Request) (path : String) (n : ℕ) (id : String) (before : Option String)
    (status : ℕ) : Emission :=
  ⟨completedEntry r path id status, ⟨some n, before⟩⟩

/-- The record of a fault that is told outside, with what the variable holds. -/
def alarm (r : Request) (n : ℕ) (held : Option String) (kind text : String) : Emission :=
  ⟨faultEntry r .critical "Unhandled exception"
    [("exception_type", .text kind), ("exception_message", .text text)], ⟨some n, held⟩⟩

section Framed

variable {r : Request} {path : String} {n : ℕ} {id : String} {before : Option String}
  {answer : Response} {records : List Emission}

theorem isStampedWith_opening : (opening r path n id).IsStampedWith (some id) :=
  fun s time ↦ Log.Entry.member?_object (by simp [opening, startedEntry]) s time (some id)

/-- The variable was set back before the last record, which has the number in a field of its own. -/
theorem isStampedWith_closing (status : ℕ) :
    (closing r path n id before status).IsStampedWith (some id) :=
  fun s time ↦ Log.Entry.member?_object_of_cons rfl (by simp) s time before

theorem isStampedWith_alarm (held : Option String) (kind text : String) :
    (alarm r n held kind text).IsStampedWith held :=
  fun s time ↦ Log.Entry.member?_object (by simp [Api.alarm, faultEntry]) s time held

@[simp]
theorem marks_opening (message : String) :
    (opening r path n id).marks message = ("Request started" == message) := by
  simp [Emission.marks, opening, startedEntry]

@[simp]
theorem marks_closing (status : ℕ) (message : String) :
    (closing r path n id before status).marks message = ("Request completed" == message) := by
  simp [Emission.marks, closing, completedEntry]

@[simp]
theorem marks_alarm (kind text message : String) :
    (alarm r n before kind text).marks message = false := by
  simp [Emission.marks, alarm, faultEntry, faultLogger, requestLogger]

@[simp]
theorem isAlarm_opening : (opening r path n id).isAlarm = false := by
  simp [Emission.isAlarm, opening, startedEntry]

@[simp]
theorem isAlarm_alarm (kind text : String) : (alarm r n before kind text).isAlarm = true := by
  simp [Emission.isAlarm, alarm, faultEntry]

theorem isStampedWith_of_inner {e : Emission} (he : e.entry.IsInner)
    (hnumber : e.context.number = some id) : e.IsStampedWith (some id) :=
  hnumber ▸ Emission.isStampedWith_of_isInner he

/-- The records of a request that is told to be answered belong together. -/
theorem Frames.correlates {status : ℕ}
    (h : Frames id [opening r path n id, closing r path n id before status] records)
    (hheader : ∀ v, ("x-request-id", v) ∈ answer.headers ↔ v = id) :
    Correlates id answer records where
  started := by
    rw [h.countP_eq fun _ he ↦ Emission.marks_eq_false he _]
    simp
  completed := by
    rw [h.countP_eq fun _ he ↦ Emission.marks_eq_false he _]
    simp
  stamped := h.forall_mem (List.forall_mem_cons.mpr ⟨isStampedWith_opening,
    List.forall_mem_singleton.mpr (isStampedWith_closing status)⟩)
    fun _ ↦ isStampedWith_of_inner
  header := hheader

/-- Those of a request whose fault passes the inside break off. -/
theorem Frames.breaksOff {kind text : String}
    (h : Frames id [opening r path n id, alarm r n before kind text] records)
    (hheader : ∀ v, ("x-request-id", v) ∉ answer.headers) :
    BreaksOff id before answer records where
  started := by
    rw [h.countP_eq fun _ he ↦ Emission.marks_eq_false he _]
    simp
  uncompleted := by
    rw [h.countP_eq fun _ he ↦ Emission.marks_eq_false he _]
    simp
  alarm := by
    rw [h.countP_eq fun _ he ↦ Emission.isAlarm_eq_false he]
    simp
  stamped := by
    refine h.forall_mem (List.forall_mem_cons.mpr ⟨?_, List.forall_mem_singleton.mpr ?_⟩)
      fun e he hnumber ↦ ?_
    · simpa using isStampedWith_opening
    · rw [isAlarm_alarm]
      exact isStampedWith_alarm before kind text
    · rw [Emission.isAlarm_eq_false he]
      exact isStampedWith_of_inner he hnumber
  header := hheader

/-- Those of a request whose address cannot be taken apart do not even begin. -/
theorem Frames.unnoted {kind text : String} (h : Frames id [alarm r n (some id) kind text] records)
    (hheader : ∀ v, ("x-request-id", v) ∉ answer.headers) : Unnoted id answer records where
  unstarted := by
    rw [h.countP_eq fun _ he ↦ Emission.marks_eq_false he _]
    simp
  uncompleted := by
    rw [h.countP_eq fun _ he ↦ Emission.marks_eq_false he _]
    simp
  alarm := by
    rw [h.countP_eq fun _ he ↦ Emission.isAlarm_eq_false he]
    simp
  stamped := h.forall_mem (List.forall_mem_singleton.mpr (isStampedWith_alarm _ kind text))
    fun _ ↦ isStampedWith_of_inner
  header := hheader

end Framed

/-! ### Serving a request -/

theorem isInner_faultEntry (r : Request) {level : Log.Level} (message : String)
    {extra : List (String × Value)} (hlevel : level ≠ .critical)
    (hextra : "request_id" ∉ extra.map Prod.fst) :
    (faultEntry r level message extra).IsInner :=
  ⟨by simp [faultEntry, faultLogger, requestLogger], by simpa [faultEntry] using hlevel,
    by simpa [faultEntry] using hextra⟩

theorem reports_answerSealed {kind : Log.Entry → Prop} {e : Log.Entry} (he : kind e) (status : ℕ)
    (envelope : Value) (id : String) : (answerSealed e status envelope id).Reports kind := by
  refine Action.reports_bind (Action.reports_report he) fun _ ↦ ?_
  cases Store.written? (sealed envelope id) with
  | ok body => exact Action.reports_done _
  | error f => exact Action.reports_fail f

theorem log_answerSealed (e : Log.Entry) (status : ℕ) (envelope : Value) (id : String) (s : Store) :
    (answerSealed e status envelope id s).2.log = s.log ++ [e] := by
  simp only [answerSealed, Action.bind, Action.report, Action.change]
  cases Store.written? (sealed envelope id) <;> rfl

theorem log_answerUnhandled (r : Request) (id : String) (f : Fault) (s : Store) :
    (answerUnhandled r id f s).2.log = s.log ++
      [faultEntry r .critical "Unhandled exception"
        [("exception_type", .text f.kind), ("exception_message", .text (s.faultText f))]] :=
  log_answerSealed _ _ _ _ _

/-- A fault that is told inside is not critical. -/
theorem reports_answerFault {r : Request} {id : String} {f : Fault} {answer : Action Response}
    (h : answerFault r id f = some answer) : answer.Reports Log.Entry.IsInner := by
  cases f with
  | application cls message status code details =>
    simp only [answerFault] at h
    cases hstatus : statusOf? status with
    | none =>
      simp only [hstatus, Option.some.injEq] at h
      exact h ▸ Action.reports_fail _
    | some n =>
      simp only [hstatus, Option.some.injEq] at h
      refine h ▸ reports_answerSealed (isInner_faultEntry r _ ?_ (by simp)) _ _ _
      by_cases hn : 500 ≤ n <;> simp [hn]
  | _ => simp [answerFault] at h

/-- How far the records of a request go. -/
inductive Telling where
  | unnoted
  | brokenOff
  | complete
  deriving DecidableEq

/-- They do not begin where the address cannot be taken apart, and break off where the inside does
not tell what keeps the request from its answer. -/
def telling (a : Application) (r : Request) (m : Machine) : Telling :=
  match r.shownPath with
  | .error _ => .unnoted
  | .ok path =>
    match escaped .machine a r (begin .machine r path m) with
    | none => .complete
    | some f => if f.notice?.isOk then .complete else .brokenOff

section Inside

variable {a : Application} {r : Request} {path : String} {m : Machine}

/-- The inside ends in a fault where the records break off, and else in an answer. -/
theorem handle_of_shownPath (id : String) (hpath : r.shownPath = .ok path) :
    (telling a r m = .brokenOff ∧
        ∃ fault, (handle .machine a r id (begin .machine r path m)).1 = .error fault) ∨
      telling a r m = .complete ∧
        ∃ response, (handle .machine a r id (begin .machine r path m)).1 = .ok response ∧
          ∀ v, ("x-request-id", v) ∉ response.headers := by
  simp only [telling, hpath]
  cases hescaped : escaped .machine a r (begin .machine r path m) with
  | none =>
    obtain ⟨response, hresponse, -, hheaders⟩ := handle_of_not_escaped id hescaped
    exact Or.inr ⟨rfl, response, hresponse, hheaders⟩
  | some f =>
    rw [handle_of_escaped id hescaped]
    cases hnotice : f.notice? with
    | ok n => exact Or.inr ⟨by simp [hnotice, Except.isOk, Except.toBool], _, rfl, by simp [reply]⟩
    | error fault =>
      exact Or.inl ⟨by simp [hnotice, Except.isOk, Except.toBool], fault, rfl⟩

end Inside

section Marks

variable (a : Application) (r : Request) (m : Machine) (n : ℕ) (id : String)
  (before : Option String) (answer : Response)

/-- The records that mark the course of a request, and whether the answer has its number in its
header. -/
inductive Marks : List Emission → Prop
  | unnoted (kind text : String) (h : telling a r m = .unnoted)
      (header : ∀ v, ("x-request-id", v) ∉ answer.headers) :
    Marks [alarm r n (some id) kind text]
  | brokenOff (path kind text : String) (h : telling a r m = .brokenOff)
      (header : ∀ v, ("x-request-id", v) ∉ answer.headers) :
    Marks [opening r path n id, alarm r n before kind text]
  | complete (path : String) (status : ℕ) (h : telling a r m = .complete)
      (header : ∀ v, ("x-request-id", v) ∈ answer.headers ↔ v = id) :
    Marks [opening r path n id, closing r path n id before status]

variable {a r m n id before answer} {marked : List Emission}

theorem headers_trimmed (r : Request) (answer : Response) :
    (trimmed r answer).headers = answer.headers := by
  rw [trimmed]
  split_ifs <;> rfl

theorem Marks.trimmed (h : Marks a r m n id before answer marked) :
    Marks a r m n id before (trimmed r answer) marked := by
  cases h with
  | unnoted kind text h header =>
    exact .unnoted kind text h (by simpa only [headers_trimmed] using header)
  | brokenOff path kind text h header =>
    exact .brokenOff path kind text h (by simpa only [headers_trimmed] using header)
  | complete path status h header =>
    exact .complete path status h (by simpa only [headers_trimmed] using header)

theorem Marks.request_eq (h : Marks a r m n id before answer marked) :
    ∀ e ∈ marked, e.context.request = some n := by
  cases h <;> simp [opening, closing, alarm]

end Marks

namespace Server

variable {fits : Context → Prop} {s : Server} {a : Application} {r : Request}
  {path id new : String}

theorem Sound.answering (h : s.Sound fits Log.Entry.IsInner) (hc : fits s.current)
    {answer : Action Response} (ha : answer.Reports Log.Entry.IsInner) :
    s.Grows fits Log.Entry.IsInner (Api.answering engine s answer).2 := by
  have hgrows := h.act hc ha
  unfold Api.answering
  simp only [engine]
  generalize s.act answer = t at hgrows
  obtain ⟨_ | _, _⟩ := t <;> exact hgrows

/-- The inside of the interface keeps to records of the inside, if the service does. -/
theorem Sound.handle (r : Request) (id : String) (h : s.Sound fits Log.Entry.IsInner)
    (hc : fits s.current) (hservice : ∀ n, (a.service.getById n).Reports Log.Entry.IsInner) :
    s.Grows fits Log.Entry.IsInner (Api.handle engine a r id s).2 := by
  unfold Api.handle
  cases destination r.verb r.path with
  | route route =>
    cases route with
    | health => exact .refl h
    | customer text =>
      dsimp only
      cases customerNumber text with
      | error issues =>
        exact h.answering hc
          (reports_answerSealed (isInner_faultEntry r _ (by simp) (by simp)) _ _ _)
      | ok n =>
        have hgrows := h.complete hc (hservice n)
        simp only [answerCustomer, engine]
        generalize s.complete (a.service.getById n) = t at hgrows
        obtain ⟨raised | v, t⟩ := t
        · cases hanswer : answerFault r id raised.fault with
          | none => simpa only [hanswer] using hgrows
          | some answer =>
            simp only [hanswer]
            exact hgrows.trans (hgrows.sound.answering (hgrows.current.symm ▸ hc)
              (reports_answerFault hanswer))
        · exact hgrows
  | wrongMethod | nowhere =>
    exact h.answering hc (reports_answerSealed (isInner_faultEntry r _ (by simp) (by simp)) _ _ _)
  | redirection path => exact .refl h

theorem emissions_act {α : Type} {x : Action α} {e : Log.Entry}
    (h : (x s.machine.store).2.log = s.machine.store.log ++ [e]) :
    (s.act x).2.emissions = s.emissions ++ [⟨e, s.current⟩] := by
  simp [act, carry, Machine.act, h]

/-- The server when the variable holds the number of a request and it is noted that it came in. -/
def noting (s : Server) (r : Request) (path id : String) : Server :=
  begin engine r path (s.holding (some id))

theorem Sound.holding (h : s.Sound fits Log.Entry.IsInner) (number : Option String) :
    (s.holding number).Sound fits Log.Entry.IsInner := ⟨h.machine, h.tasks, h.strays⟩

theorem Sound.noting (h : s.Sound fits Log.Entry.IsInner) :
    (s.noting r path id).Sound fits Log.Entry.IsInner := (h.holding _).of_act _

theorem emissions_noting : (s.noting r path id).emissions =
    s.emissions ++ [⟨startedEntry r path, ⟨s.current.request, some id⟩⟩] := emissions_act rfl

/-- What a request adds: the records that mark its course, and records of the inside. -/
structure Adds (fits : Context → Prop) (s : Server) (marked : List Emission) (s' : Server) :
    Prop where
  sound : s'.Sound fits Log.Entry.IsInner
  served : s'.served = s.served
  emissions : ∃ added inner, s'.emissions = s.emissions ++ added ∧
    added.Perm (marked ++ inner) ∧ ∀ e ∈ inner, fits e.context ∧ e.entry.IsInner

/-- What the inside does and one more record when the variable was set back. -/
theorem Grows.concluded {α : Type} {t : Server} {x : Action α} {e : Log.Entry}
    (h : (s.noting r path id).Grows fits Log.Entry.IsInner t)
    (hlog : (x t.machine.store).2.log = t.machine.store.log ++ [e]) :
    let s' := ((t.holding s.current.number).act x).2
    s.Adds fits [⟨startedEntry r path, ⟨s.current.request, some id⟩⟩, ⟨e, s.current⟩] s' ∧
      s'.current = s.current := by
  obtain ⟨inner, hemissions, hinner⟩ := h.emissions
  have hcurrent : (t.holding s.current.number).current = s.current := by
    rw [Server.holding, h.current]
    rfl
  refine ⟨⟨(h.sound.holding _).of_act x, h.served,
    ⟨startedEntry r path, ⟨s.current.request, some id⟩⟩ :: (inner ++ [⟨e, s.current⟩]), inner,
    ?_, ?_, hinner⟩, hcurrent⟩
  · rw [emissions_act (s := t.holding s.current.number) hlog, hcurrent]
    change t.emissions ++ _ = _
    rw [hemissions, emissions_noting, List.append_assoc, List.append_assoc, List.singleton_append]
  · exact (List.perm_append_singleton _ inner).cons _

/-- A fault that is told outside adds one record. -/
theorem answerOutside_snd (f : Fault) :
    (answerOutside engine r id f s).2 = (s.act (answerUnhandled r id f)).2 := by
  simp only [answerOutside, engine]
  generalize s.act (answerUnhandled r id f) = u
  obtain ⟨_ | _, _⟩ := u <;> rfl

/-- When the address was taken apart, the layers around the inside conclude what it ended in. -/
theorem respond_eq (hpath : r.shownPath = .ok path) {handled : Handled} {t : Server}
    (h : Api.handle engine a r (r.id new) (s.noting r path (r.id new)) = (handled, t)) :
    Api.respond engine a r new s =
      conclude engine a r path (r.id new) handled (t.holding s.current.number) := by
  rw [noting] at h
  simp only [Api.respond, hpath]
  simp only [engine] at h ⊢
  rw [h]

/-- What the variable holds after a request: where the address cannot be taken apart, the number of
the request is left in it. -/
def leftBy (held : Option String) (request : Request × String) : Option String :=
  match request.1.shownPath with
  | .error _ => some (request.1.id request.2)
  | .ok _ => held

/-- What it holds after requests. -/
def held (before : Option String) (rs : List (Request × String)) : Option String :=
  rs.foldl leftBy before

/-- Where the address cannot be taken apart, the fault is told and the variable keeps the number. -/
theorem Sound.respond_unnoted {n : ℕ} {before : Option String} {f : Fault}
    (h : s.Sound fits Log.Entry.IsInner) (hcurrent : s.current = ⟨some n, before⟩)
    (hpath : r.shownPath = .error f) :
    let answered := Api.respond engine a r new s
    answered.2.current = ⟨some n, some (r.id new)⟩ ∧
      ∃ text, s.Adds fits [alarm r n (some (r.id new)) f.kind text] answered.2 := by
  have houtside : (Api.respond engine a r new s).2 =
      ((s.holding (some (r.id new))).act (answerUnhandled r (r.id new) f)).2 := by
    rw [Api.respond, hpath]
    exact answerOutside_snd f
  have hholding : (s.holding (some (r.id new))).current = ⟨some n, some (r.id new)⟩ :=
    congrArg (fun c ↦ Context.mk c.request (some (r.id new))) hcurrent
  dsimp only
  rw [houtside]
  refine ⟨hholding, (s.holding (some (r.id new))).machine.store.faultText f,
    (h.holding _).of_act _, rfl, _, [], ?_, .refl _, fun _ he ↦ by cases he⟩
  rw [emissions_act (log_answerUnhandled r _ f _), hholding, List.append_nil]
  rfl

/-- A request is answered. -/
theorem Sound.respond {n : ℕ} {before : Option String} (h : s.Sound fits Log.Entry.IsInner)
    (hcurrent : s.current = ⟨some n, before⟩) (hfits : fits ⟨some n, some (r.id new)⟩)
    (hservice : ∀ n, (a.service.getById n).Reports Log.Entry.IsInner) :
    let answered := Api.respond engine a r new s
    answered.2.current = ⟨some n, leftBy before (r, new)⟩ ∧ ∃ marked,
      s.Adds fits marked answered.2 ∧
        Marks a r s.machine n (r.id new) before answered.1 marked := by
  have hanswer : (Api.respond .machine a r new s.machine).1 = (Api.respond engine a r new s).1 := by
    rw [machine_follows.respond, Prod.map_fst, id]
  dsimp only
  rw [← hanswer]
  cases hpath : r.shownPath with
  | error f =>
    obtain ⟨hkept, text, hadds⟩ := h.respond_unnoted (a := a) hcurrent hpath
    have htelling : telling a r s.machine = .unnoted := by rw [telling, hpath]
    rw [respond_of_shownPath hpath]
    exact ⟨hkept.trans (by rw [leftBy, hpath]), _, hadds,
      .unnoted f.kind text htelling fun v ↦ by simp [reply]⟩
  | ok path =>
    have hleft : leftBy before (r, new) = before := by rw [leftBy, hpath]
    have hnoting : (s.noting r path (r.id new)).current = ⟨some n, some (r.id new)⟩ :=
      congrArg (fun c ↦ Context.mk c.request (some (r.id new))) hcurrent
    have hinside := h.noting.handle r (r.id new) (hnoting.symm ▸ hfits) hservice
    have hfollows :=
      congrArg Prod.fst (machine_follows.handle a r (r.id new) (s.noting r path (r.id new)))
    -- how the inside ends is what the machine alone says, with its records it is what the server
    -- says
    generalize ht : Api.handle engine a r (r.id new) (s.noting r path (r.id new)) = t
      at hinside hfollows
    obtain ⟨handled, t⟩ := t
    dsimp only at hinside
    have hhandled : (Api.handle .machine a r (r.id new) (begin .machine r path s.machine)).1 =
        handled := hfollows
    rw [respond_eq hpath ht, hleft, hcurrent]
    rcases handle_of_shownPath (r.id new) hpath with
      ⟨htelling, fault, hfault⟩ | ⟨htelling, response, hresponse, hheaders⟩
    · obtain rfl : handled = .error fault := hhandled.symm.trans hfault
      rw [conclude, answerOutside_snd, Api.respond_of_error hpath hfault]
      obtain ⟨hadds, hcurrent'⟩ := hinside.concluded (log_answerUnhandled r (r.id new) fault _)
      rw [hcurrent] at hadds hcurrent'
      exact ⟨hcurrent', _, hadds, .brokenOff path _ _ htelling fun v ↦ by simp [reply]⟩
    · obtain rfl : handled = .ok response := hhandled.symm.trans hresponse
      rw [Api.respond_of_ok hpath hresponse]
      obtain ⟨hadds, hcurrent'⟩ := hinside.concluded
        (x := Action.report (completedEntry r path (r.id new) response.status)) rfl
      rw [hcurrent] at hadds hcurrent'
      refine ⟨hcurrent', _, hadds, .complete path response.status htelling fun v ↦ ?_⟩
      simp [hheaders, notMem_originHeaders]

/-- The server `s` has answered a request, as its machine does alone, and has become `s'`. -/
structure Answers (fits : Context → Prop) (s : Server) (a : Application) (r : Request)
    (new : String) (answer : Response) (s' : Server) : Prop where
  machine : Api.serve a r new s.machine = (answer, s'.machine)
  sound : s'.Sound fits Log.Entry.IsInner
  current : s'.current = ⟨s.current.request, leftBy s.current.number (r, new)⟩
  served : s'.served = s.served + 1
  emissions : ∃ marked added inner, s'.emissions = s.emissions ++ added ∧
    added.Perm (marked ++ inner) ∧ (∀ e ∈ inner, fits e.context ∧ e.entry.IsInner) ∧
    Marks a r s.machine s.served (r.id new) s.current.number answer marked

theorem Sound.answers (h : s.Sound fits Log.Entry.IsInner)
    (hfits : fits ⟨some s.served, some (r.id new)⟩)
    (hservice : ∀ n, (a.service.getById n).Reports Log.Entry.IsInner) :
    s.Answers fits a r new (s.serve a r new).1 (s.serve a r new).2 := by
  have hworking : (s.workingFor (some s.served)).Sound fits Log.Entry.IsInner :=
    ⟨h.machine, h.tasks, h.strays⟩
  have hrespond := hworking.respond rfl hfits hservice
  have hfollows := machine_follows.respond a r new (s.workingFor (some s.served))
  unfold Server.serve
  generalize Api.respond engine a r new (s.workingFor (some s.served)) = t at hrespond hfollows
  obtain ⟨answer, t⟩ := t
  obtain ⟨hcurrent, marked, ⟨hsound, hserved, added, inner, hemissions, hperm, hinner⟩, hmarks⟩ :=
    hrespond
  dsimp only at hsound hcurrent hemissions hmarks ⊢
  refine ⟨?_, ⟨hsound.machine, hsound.tasks, hsound.strays⟩, ?_, rfl, marked, added, inner,
    hemissions, hperm, hinner, hmarks.trimmed⟩
  · have hmachine : Api.respond .machine a r new s.machine = (answer, t.machine) := hfollows
    rw [Api.serve, hmachine]
    rfl
  · rw [workingFor, hcurrent]

/-! ### Serving requests one after the other -/

/-- The records that were written for a request. -/
def recordsOf (s : Server) (n : ℕ) : List Emission :=
  s.emissions.filter fun e ↦ e.context.request = some n

/-- What works for a request has the number of this request. -/
def Numbers (rs : List (Request × String)) (c : Context) : Prop :=
  ∀ n, c.request = some n → ∃ r new, rs[n]? = some (r, new) ∧ c.number = some (r.id new)

section Runs

variable {rs : List (Request × String)} {answer : Response} {s' : Server} {n : ℕ}

theorem Numbers.append {c : Context} (h : Numbers rs c) (more : List (Request × String)) :
    Numbers (rs ++ more) c := by
  intro n hn
  obtain ⟨r, new, hr, hnumber⟩ := h n hn
  obtain ⟨hlt, -⟩ := List.getElem?_eq_some_iff.mp hr
  exact ⟨r, new, (List.getElem?_append_left hlt).trans hr, hnumber⟩

/-- Records of the inside that were written for a request have its number. -/
theorem number_of_mem_filter {inner : List Emission} (hr : rs[n]? = some (r, new))
    (hinner : ∀ e ∈ inner, Numbers rs e.context ∧ e.entry.IsInner) :
    ∀ e ∈ inner.filter fun e ↦ e.context.request = some n,
      e.entry.IsInner ∧ e.context.number = some (r.id new) := by
  intro e he
  obtain ⟨hmem, hn⟩ := List.mem_filter.mp he
  obtain ⟨hnumbers, he⟩ := hinner e hmem
  obtain ⟨r', new', hr', hnumber⟩ := hnumbers n (of_decide_eq_true hn)
  obtain ⟨rfl, rfl⟩ : r' = r ∧ new' = new := by simpa [hr] using hr'.symm
  exact ⟨he, hnumber⟩

/-- The records of the request that is answered. -/
theorem Answers.frames (h : s.Answers (Numbers rs) a r new answer s')
    (hr : rs[s.served]? = some (r, new))
    (hnew : ∀ e ∈ s.emissions, e.context.request ≠ some s.served) :
    ∃ marked, Marks a r s.machine s.served (r.id new) s.current.number answer marked ∧
      Frames (r.id new) marked (s'.recordsOf s.served) := by
  obtain ⟨marked, added, inner, hemissions, hperm, hinner, hmarks⟩ := h.emissions
  refine ⟨marked, hmarks, inner.filter fun e ↦ e.context.request = some s.served, ?_,
    number_of_mem_filter hr hinner⟩
  have hnone : s.recordsOf s.served = [] := by
    simpa [recordsOf, List.filter_eq_nil_iff] using hnew
  have hall : (marked.filter fun e ↦ e.context.request = some s.served) = marked :=
    List.filter_eq_self.mpr fun e he ↦ decide_eq_true (hmarks.request_eq e he)
  have hfilter := hperm.filter fun e ↦ e.context.request = some s.served
  rw [List.filter_append, hall] at hfilter
  rw [recordsOf, hemissions, List.filter_append]
  change (s.recordsOf s.served ++ _).Perm _
  rwa [hnone, List.nil_append]

/-- The records of requests that were answered before. -/
theorem Answers.exists_recordsOf_eq {r' : Request} {new' : String}
    (h : s.Answers (Numbers rs) a r new answer s') (hr : rs[n]? = some (r', new'))
    (hn : n ≠ s.served) :
    ∃ more, s'.recordsOf n = s.recordsOf n ++ more ∧
      ∀ e ∈ more, e.entry.IsInner ∧ e.context.number = some (r'.id new') := by
  obtain ⟨marked, added, inner, hemissions, hperm, hinner, hmarks⟩ := h.emissions
  refine ⟨added.filter fun e ↦ e.context.request = some n, ?_, fun e he ↦ ?_⟩
  · rw [recordsOf, hemissions, List.filter_append]
    rfl
  · obtain ⟨hadded, hrequest⟩ := List.mem_filter.mp he
    -- what marks the course of the new request does not work for the other one
    rcases List.mem_append.mp (hperm.mem_iff.mp hadded) with hmarked | hmem
    · have hserved : some s.served = some n :=
        (hmarks.request_eq e hmarked).symm.trans (of_decide_eq_true hrequest)
      exact absurd (Option.some.inj hserved).symm hn
    · exact number_of_mem_filter hr hinner e (List.mem_filter.mpr ⟨hmem, hrequest⟩)

theorem Answers.bounded (h : s.Answers (Numbers rs) a r new answer s')
    (hs : ∀ e ∈ s.emissions, ∀ n, e.context.request = some n → n < s.served)
    (hrs : rs.length = s.served + 1) :
    ∀ e ∈ s'.emissions, ∀ n, e.context.request = some n → n < rs.length := by
  obtain ⟨marked, added, inner, hemissions, hperm, hinner, hmarks⟩ := h.emissions
  rw [hemissions]
  refine List.forall_mem_append.mpr ⟨fun e he n hn ↦ (hs e he n hn).trans (by omega), ?_⟩
  intro e he n hn
  rcases List.mem_append.mp (hperm.mem_iff.mp he) with hmarked | hmem
  · have hserved : some s.served = some n := (hmarks.request_eq e hmarked).symm.trans hn
    have hn' := Option.some.inj hserved
    omega
  · obtain ⟨_, _, hr, -⟩ := (hinner e hmem).1 n hn
    exact (List.getElem?_eq_some_iff.mp hr).1

theorem serveAll_concat (a : Application) (rs : List (Request × String)) (r : Request)
    (new : String) (s : Server) :
    serveAll a (rs ++ [(r, new)]) s =
      ((serveAll a rs s).1 ++ [((serveAll a rs s).2.serve a r new).1],
        ((serveAll a rs s).2.serve a r new).2) := by
  induction rs generalizing s with
  | nil =>
    simp only [List.nil_append, serveAll]
  | cons x rest ih =>
    simp only [List.cons_append, serveAll]
    rw [ih]

theorem held_concat (before : Option String) (rs : List (Request × String))
    (request : Request × String) :
    held before (rs ++ [request]) = leftBy (held before rs) request := by
  rw [held, held, List.foldl_append, List.foldl_cons, List.foldl_nil]

/-- What there is to a request that was served on a machine, from its records: which of them mark
its course, and its answer, which is the one that the machine gives alone. -/
def IsRecorded (a : Application) (m : Machine) (before : Option String) (n : ℕ)
    (request : Request × String) (answer : Response) (records : List Emission) : Prop :=
  answer = (Api.serve a request.1 request.2 m).1 ∧
    ∃ marked, Marks a request.1 m n (request.1.id request.2) before answer marked ∧
      Frames (request.1.id request.2) marked records

/-- What a server has come to by serving requests. -/
structure Recounts (a : Application) (start : Server) (rs : List (Request × String)) : Prop where
  length : (serveAll a rs start).1.length = rs.length
  served : (serveAll a rs start).2.served = rs.length
  current : (serveAll a rs start).2.current =
    ⟨start.current.request, held start.current.number rs⟩
  sound : (serveAll a rs start).2.Sound (Numbers rs) Log.Entry.IsInner
  bounded : ∀ e ∈ (serveAll a rs start).2.emissions, ∀ n, e.context.request = some n →
    n < rs.length
  recorded : ∀ n request, rs[n]? = some request → ∃ answer,
    (serveAll a rs start).1[n]? = some answer ∧
    IsRecorded a (serveAll a (rs.take n) start).2.machine
      (held start.current.number (rs.take n)) n request answer
      ((serveAll a rs start).2.recordsOf n)

/-- One more request is served: its records begin, and those of the others only go on. -/
theorem Recounts.of_answers {start : Server} {answers : List Response} (h : Recounts a start rs)
    (hs : serveAll a rs start = (answers, s))
    (hs' : serveAll a (rs ++ [(r, new)]) start = (answers ++ [answer], s'))
    (hanswers : s.Answers (Numbers (rs ++ [(r, new)])) a r new answer s') :
    Recounts a start (rs ++ [(r, new)]) := by
  obtain ⟨hlength, hserved, hcurrent, -, hbounded, hrecorded⟩ := h
  rw [hs] at hlength hserved hcurrent hbounded hrecorded
  dsimp only at hlength hserved hcurrent hbounded hrecorded
  have hlast : (rs ++ [(r, new)])[s.served]? = some (r, new) := by simp [hserved]
  have hmore : (rs ++ [(r, new)]).length = s.served + 1 := by simp [hserved]
  refine ⟨?_, ?_, ?_, ?_, ?_, ?_⟩ <;> rw [hs']
  · simpa using hlength
  · exact hanswers.served.trans hmore.symm
  · rw [hanswers.current, hcurrent, held_concat]
  · exact hanswers.sound
  · exact hanswers.bounded (hserved ▸ hbounded) hmore
  · intro n request hrequest
    have hn : n < rs.length + 1 := by simpa using (List.getElem?_eq_some_iff.mp hrequest).1
    rw [List.take_append_of_le_length (Nat.le_of_lt_succ hn)]
    -- a request that was served before only gets records of the inside; the new one begins here
    rcases Nat.lt_succ_iff_lt_or_eq.mp hn with hn | rfl
    · have hrequest' : rs[n]? = some request := (List.getElem?_append_left hn).symm.trans hrequest
      obtain ⟨answer', hanswer', hequal, marked, hmarks, hframes⟩ :=
        hrecorded n request hrequest'
      obtain ⟨more, hrecords, hall⟩ := hanswers.exists_recordsOf_eq hrequest (hserved ▸ hn.ne)
      refine ⟨answer', (List.getElem?_append_left (hlength ▸ hn)).trans hanswer', hequal, marked,
        hmarks, ?_⟩
      rw [hrecords]
      exact hframes.append hall
    · obtain rfl : (r, new) = request := by simpa using hrequest
      obtain ⟨marked, hmarks, hframes⟩ := hanswers.frames hlast fun e he hn ↦
        absurd (hbounded e he _ hn) (by simp [hserved])
      rw [List.take_length, hs]
      rw [hcurrent, hserved] at hmarks
      rw [hserved] at hframes
      exact ⟨answer, by simp [← hlength], (congrArg Prod.fst hanswers.machine).symm, marked,
        hmarks, hframes⟩

/-- Whatever is served on a start, it is recounted. -/
theorem recounts {start : Server}
    (hservice : ∀ n, (a.service.getById n).Reports Log.Entry.IsInner)
    (hstart : Recounts a start []) (rs : List (Request × String)) : Recounts a start rs := by
  induction rs using List.reverseRecOn with
  | nil => exact hstart
  | append_singleton rs request ih =>
    obtain ⟨r, new⟩ := request
    have hfits : Numbers (rs ++ [(r, new)])
        ⟨some (serveAll a rs start).2.served, some (r.id new)⟩ := by
      intro n hn
      obtain rfl : rs.length = n := by simpa [ih.served] using hn
      exact ⟨r, new, by simp, rfl⟩
    exact ih.of_answers rfl (serveAll_concat a rs r new start)
      ((ih.sound.mono fun c hc ↦ hc.append _).answers hfits hservice)

/-- Every sequence of requests is correlated with its records, on every application that was
assembled and every machine whose processes keep to records of the inside. Every request has an
answer, the one that the machine gives alone. Its records are complete and have its number, as has
the answer, unless a fault passed the inside, when the records break off, or the address could not
be taken apart, when it is not noted at all. Afterwards the variable holds what it held before,
unless there was a request of the last kind. -/
theorem requests_are_correlated (a : Application) (ha : a.IsAssembled) (m : Machine)
    (hm : m.Reports Log.Entry.IsInner) (before : Option String) (rs : List (Request × String)) :
    let served := serveAll a rs (start m before)
    served.2.current.number = held before rs ∧ served.1.length = rs.length ∧
    ∀ n r new, rs[n]? = some (r, new) →
      let m' := (serveAll a (rs.take n) (start m before)).2.machine
      ∃ answer, served.1[n]? = some answer ∧ answer = (Api.serve a r new m').1 ∧
        match telling a r m' with
        | .unnoted => Unnoted (r.id new) answer (served.2.recordsOf n)
        | .brokenOff =>
          BreaksOff (r.id new) (held before (rs.take n)) answer (served.2.recordsOf n)
        | .complete => Correlates (r.id new) answer (served.2.recordsOf n) := by
  have hstart : Recounts a (start m before) [] := by
    refine ⟨rfl, rfl, rfl, ⟨hm, ?_, ?_⟩, ?_, ?_⟩ <;> simp [start, serveAll, Numbers]
  obtain ⟨hlength, -, hcurrent, -, -, hrecorded⟩ := recounts ha.reports_getById hstart rs
  refine ⟨congrArg Context.number hcurrent, hlength, fun n r new hr ↦ ?_⟩
  obtain ⟨answer, hanswer, hequal, marked, hmarks, hframes⟩ := hrecorded n (r, new) hr
  refine ⟨answer, hanswer, hequal, ?_⟩
  cases hmarks with
  | unnoted kind text h header =>
    rw [h]
    exact hframes.unnoted header
  | brokenOff path kind text h header =>
    rw [h]
    exact hframes.breaksOff header
  | complete path status h header =>
    rw [h]
    exact hframes.correlates header

end Runs

namespace Sample

/-- A store with a customer that has no day on which it joined. -/
def undated : Store :=
  { Store.empty with
    records :=
      #[⟨"Address",
          [("street", .text "3 Some Lane"), ("area", .text "Area"), ("province", .text "Province"),
            ("country_id", .int 1), ("zipcode", .text "0000"), ("phone_number", .text "")]⟩,
        ⟨"Customer",
          [("customer_number", .int 1), ("date_joined", .null), ("first_name", .text ""),
            ("surname", .text ""), ("phone_number", .text "01"),
            ("home_address", .record 0 "Address"), ("business_address", .null),
            ("shipping_address", .null)]⟩] }

/-- The application on top of this customer. -/
def assembled : Except Raised Application × Store :=
  Application.assemble (Settings.overriding []) Directory.standard.lookup
    [(.int 1, .record 1 "Customer")] undated

def application : Application := assembled.1.toOption.getD Api.Sample.vacant

def machine : Machine := { Machine.empty with store := assembled.2 }

/-- A request for the customer, which brings its own number along. -/
def first : Request := ⟨"GET", "/api/v1/customers/1", [("X-Request-ID", "req-1")]⟩

/-- A request for a customer that is not there. -/
def second : Request := ⟨"GET", "/api/v1/customers/7", []⟩

/-- A request with a host that is none. -/
def third : Request := ⟨"GET", "/health", [("host", "[")]⟩

theorem isAssembled_application : application.IsAssembled := by
  obtain ⟨a, s, -, hassemble, -⟩ := Application.exists_assemble (Settings.overriding [])
    Directory.standard.lookup [(.int 1, .record 1 "Customer")] undated
  have happlication : application = a := by
    rw [application, assembled, hassemble]
    rfl
  exact happlication ▸ ⟨_, _, _, _, s, .inl ⟨_, rfl⟩, hassemble⟩

/-- All three requests, with new numbers. -/
def requests : List (Request × String) := [(first, "new-1"), (second, "new-2"), (third, "new-3")]

/-- What there is to see when they are served. Only the second one is told to be answered. -/
theorem served_requests :
    (first.id "new-1" = "req-1" ∧ second.id "new-2" = "new-2" ∧ third.id "new-3" = "new-3") ∧
    telling application first
      (serveAll application (requests.take 0) (start machine none)).2.machine = .brokenOff ∧
    telling application second
      (serveAll application (requests.take 1) (start machine none)).2.machine = .complete ∧
    telling application third
      (serveAll application (requests.take 2) (start machine none)).2.machine = .unnoted ∧
    held none requests = some "new-3" ∧
    (serveAll application requests (start machine none)).1.map Response.headers =
      [[("content-type", "application/json")],
        [("content-type", "application/json"), ("x-request-id", "new-2")],
        [("content-type", "application/json")]] ∧
    ((serveAll application requests (start machine none)).2.recordsOf 0).countP
      (Emission.marks "Request completed") = 0 := by
  decide +kernel

/-- The records of the first request break off, those of the second one are complete, and the third
one is not noted and leaves its number in the variable. -/
theorem second_correlates :
    let served := serveAll application requests (start machine none)
    served.2.current.number = some "new-3" ∧
    (∃ answer, served.1[0]? = some answer ∧ BreaksOff "req-1" none answer (served.2.recordsOf 0)) ∧
    (∃ answer, served.1[1]? = some answer ∧ Correlates "new-2" answer (served.2.recordsOf 1)) ∧
    ∃ answer, served.1[2]? = some answer ∧ Unnoted "new-3" answer (served.2.recordsOf 2) := by
  obtain ⟨hnumber, -, hall⟩ := requests_are_correlated application isAssembled_application machine
    (Machine.Reports.empty.withStore _) none requests
  obtain ⟨⟨hid, hid', hid''⟩, hbroken, htold, hunnoted, hheld, -, -⟩ := served_requests
  obtain ⟨answer, hanswer, -, hbreaks⟩ := hall 0 first "new-1" rfl
  obtain ⟨answer', hanswer', -, hcorrelates⟩ := hall 1 second "new-2" rfl
  obtain ⟨answer'', hanswer'', -, hleft⟩ := hall 2 third "new-3" rfl
  rw [hbroken, hid] at hbreaks
  rw [htold, hid'] at hcorrelates
  rw [hunnoted, hid''] at hleft
  exact ⟨hnumber.trans hheld, ⟨answer, hanswer, hbreaks⟩, ⟨answer', hanswer', hcorrelates⟩,
    answer'', hanswer'', hleft⟩

/-- Nothing says that the first request was answered, and its answer does not have its number in its
header, so that its records are not complete. -/
theorem first_does_not_correlate :
    application.IsAssembled ∧ machine.Reports Log.Entry.IsInner ∧
      ∃ answer, (serveAll application requests (start machine none)).1[0]? = some answer ∧
        (∀ v, ("x-request-id", v) ∉ answer.headers) ∧
        ¬ Correlates "req-1" answer
          ((serveAll application requests (start machine none)).2.recordsOf 0) := by
  obtain ⟨-, -, -, -, -, hheaders, hcompleted⟩ := served_requests
  refine ⟨isAssembled_application, Machine.Reports.empty.withStore _, ?_⟩
  generalize serveAll application requests (start machine none) = served at hheaders hcompleted
  obtain ⟨answer, rest, hanswers, hanswer, -⟩ := List.map_eq_cons_iff.mp hheaders
  refine ⟨answer, by simp [hanswers], by simp [hanswer], fun h ↦ ?_⟩
  exact absurd h.completed (by simp [hcompleted])

end Sample

end Server

end Api

end Recast
