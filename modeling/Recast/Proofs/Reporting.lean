import Recast.Proofs.Move

/-!
What programs write to the log. A program keeps to records of a kind when all actions in it do,
wherever its outcomes lead (`Prog.Reports`), and a machine does when all that it holds does
(`Machine.Reports`). A run of such a program leaves a machine of this kind and a process of this
kind, and has added records of this kind only (`Machine.run_arrives`); so has every move
(`Machine.Move.arrives`), and with them a turn of a process, however long its parts have waited
(`Machine.advance_arrives`).
-/

set_option autoImplicit false

namespace Recast

section Kinds

variable (kind : Log.Entry → Prop)

/-- Only records of the kind were added to the log. -/
def Store.Reports (s s' : Store) : Prop := ∃ es, s'.log = s.log ++ es ∧ ∀ e ∈ es, kind e

/-- The action adds only records of the kind to the log. -/
def Action.Reports {α : Type} (a : Action α) : Prop :=
  ∀ s : Store, s.Reports kind (a s).2

/-- All actions of the program add only records of the kind to the log. -/
inductive Prog.Reports : Prog → Prop
  | done (o : Outcome) : Reports (.done o)
  | act {a : Action Value} {k : Outcome → Prog} (ha : a.Reports kind) (hk : ∀ o, Reports (k o)) :
    Reports (.act a k)
  | sleep {ms : ℕ} {k : Outcome → Prog} (hk : ∀ o, Reports (k o)) : Reports (.sleep ms k)
  | await {v : Value} {k : Outcome → Prog} (hk : ∀ o, Reports (k o)) : Reports (.await v k)
  | drive {c task : ℕ} {k : Outcome → Prog} (hk : ∀ o, Reports (k o)) : Reports (.drive c task k)
  | gather {parts : List Prog} {k : Option (List Outcome) → Prog}
      (hparts : ∀ p ∈ parts, Reports p) (hk : ∀ os, Reports (k os)) : Reports (.gather parts k)
  | race {parts : List Prog} {k : Except Raised (List Value) → Prog}
      (hparts : ∀ p ∈ parts, Reports p) (hk : ∀ r, Reports (k r)) : Reports (.race parts k)
  | call {f : ℕ} {args : List Value} {k : Outcome → Prog} (hk : ∀ o, Reports (k o)) :
    Reports (.call f args k)
  | make {form : AwaitableKind} {delay : Option ℕ} {body : Prog} {k : Value → Prog}
      (hbody : Reports body) (hk : ∀ v, Reports (k v)) : Reports (.make form delay body k)
  | share {v : Value} {k : Value → Prog} (hk : ∀ v, Reports (k v)) : Reports (.share v k)
  | close {v : Value} {k : Prog} (hk : Reports k) : Reports (.close v k)

/-- So does whatever the process may still run. -/
inductive Proc.Reports : Proc → Prop
  | settled (o : Outcome) : Reports (.settled o)
  | fresh {p : Prog} (hp : p.Reports kind) : Reports (.fresh p)
  | ready (o : Outcome) {k : Outcome → Prog} (hk : ∀ o, (k o).Reports kind) : Reports (.ready o k)
  | sleeping (wake : ℕ) {k : Outcome → Prog} (hk : ∀ o, (k o).Reports kind) :
    Reports (.sleeping wake k)
  | awaiting (i : ℕ) {k : Outcome → Prog} (hk : ∀ o, (k o).Reports kind) : Reports (.awaiting i k)
  | joining (cancelled : Bool) {parts : List Proc} {k : Option (List Outcome) → Prog}
      (hparts : ∀ p ∈ parts, Reports p) (hk : ∀ os, (k os).Reports kind) :
    Reports (.joining cancelled parts k)
  | racing {parts : List Proc} {k : Except Raised (List Value) → Prog}
      (hparts : ∀ p ∈ parts, Reports p) (hk : ∀ r, (k r).Reports kind) : Reports (.racing parts k)

/-- All that the machine holds adds only records of the kind to the log. -/
structure Machine.Reports (m : Machine) : Prop where
  functions : ∀ g ∈ m.functions, ∀ args, (g.run args).Reports kind
  bodies : ∀ p ∈ m.bodies, p.Reports kind
  tasks : ∀ p ∈ m.tasks, p.Reports kind
  customs : ∀ p ∈ m.customs, p.Reports kind
  strays : ∀ p ∈ m.strays, p.Reports kind

/-- A machine has become one that keeps to records of the kind, as does the process that is left,
and only records of the kind were added meanwhile. -/
structure Machine.Arrives (m m' : Machine) (q : Proc) : Prop where
  machine : m'.Reports kind
  proc : q.Reports kind
  log : m.store.Reports kind m'.store

end Kinds

variable {kind : Log.Entry → Prop} {s s' s'' : Store} {m m' m'' : Machine}

/-! ### Stores and actions -/

namespace Store.Reports

theorem of_log_eq (h : s'.log = s.log) : s.Reports kind s' := ⟨[], by simp [h], by simp⟩

theorem trans (h : s.Reports kind s') (h' : s'.Reports kind s'') : s.Reports kind s'' := by
  obtain ⟨es, hlog, hes⟩ := h
  obtain ⟨es', hlog', hes'⟩ := h'
  refine ⟨es ++ es', by rw [hlog', hlog, List.append_assoc], fun e he ↦ ?_⟩
  rcases List.mem_append.mp he with he | he
  · exact hes e he
  · exact hes' e he

end Store.Reports

namespace Action

variable {α β : Type}

theorem reports_of_log_eq {a : Action α} (h : ∀ s, (a s).2.log = s.log) : a.Reports kind :=
  fun s ↦ .of_log_eq (h s)

theorem reports_done (x : α) : (done x).Reports kind := reports_of_log_eq fun _ ↦ rfl

theorem reports_fail (f : Fault) : (fail (α := α) f).Reports kind := reports_of_log_eq fun _ ↦ rfl

theorem reports_report {e : Log.Entry} (he : kind e) : (report e).Reports kind :=
  fun _ ↦ ⟨[e], rfl, by simpa using he⟩

theorem reports_bind {x : Action α} {f : α → Action β} (hx : x.Reports kind)
    (hf : ∀ a, (f a).Reports kind) : (bind x f).Reports kind := by
  intro s
  have hfirst := hx s
  rw [bind]
  generalize x s = t at hfirst
  obtain ⟨e | a, s'⟩ := t
  · exact hfirst
  · exact hfirst.trans (hf a s')

end Action

/-! ### Programs -/

namespace Prog.Reports

variable {p : Prog} {f : Outcome → Prog}

theorem bind (hp : p.Reports kind) (hf : ∀ o, (f o).Reports kind) : (p.bind f).Reports kind := by
  induction hp with
  | done o => exact hf o
  | act ha _ ih => exact .act ha ih
  | sleep _ ih => exact .sleep ih
  | await _ ih => exact .await ih
  | drive _ ih => exact .drive ih
  | gather hparts _ _ ih => exact .gather hparts ih
  | race hparts _ _ ih => exact .race hparts ih
  | call _ ih => exact .call ih
  | make hbody _ _ ih => exact .make hbody ih
  | share _ ih => exact .share ih
  | close _ ih => exact .close ih

theorem give (v : Value) : (Prog.give v).Reports kind := .done _

theorem raise (e : Raised) : (Prog.raise e).Reports kind := .done _

theorem ofAction {a : Action Value} (ha : a.Reports kind) : (Prog.ofAction a).Reports kind :=
  .act ha .done

theorem andThen (hp : p.Reports kind) {g : Value → Prog} (hg : ∀ v, (g v).Reports kind) :
    (p.andThen g).Reports kind := by
  refine hp.bind fun o ↦ ?_
  cases o with
  | ok v => exact hg v
  | error e => exact raise e

theorem first {a : Action Value} (ha : a.Reports kind) {g : Value → Prog}
    (hg : ∀ v, (g v).Reports kind) : (Prog.first a g).Reports kind := by
  refine .act ha fun o ↦ ?_
  cases o with
  | ok v => exact hg v
  | error e => exact raise e

theorem also {a : Action Unit} (ha : a.Reports kind) (hp : p.Reports kind) :
    (Prog.also a p).Reports kind :=
  .act (Action.reports_bind ha fun _ ↦ Action.reports_done _) fun _ ↦ hp

theorem guarded (o : Outcome) : (Prog.guarded o).Reports kind := by
  unfold Prog.guarded
  split
  · exact ofAction (Action.reports_fail _)
  · exact .done _

theorem asCoroutine (hp : p.Reports kind) : p.asCoroutine.Reports kind := hp.bind guarded

end Prog.Reports

/-! ### Processes -/

theorem Proc.Reports.bind {p : Proc} {f : Outcome → Prog} (hp : p.Reports kind)
    (hf : ∀ o, (f o).Reports kind) : (p.bind f).Reports kind := by
  cases hp with
  | settled o => exact .ready o hf
  | fresh hp => exact .fresh (hp.bind hf)
  | ready o hk => exact .ready o fun o ↦ (hk o).bind hf
  | sleeping wake hk => exact .sleeping wake fun o ↦ (hk o).bind hf
  | awaiting i hk => exact .awaiting i fun o ↦ (hk o).bind hf
  | joining cancelled hparts hk => exact .joining cancelled hparts fun os ↦ (hk os).bind hf
  | racing hparts hk => exact .racing hparts fun r ↦ (hk r).bind hf

/-- Parts that have not begun keep to records of the kind when their programs do. -/
theorem Proc.reports_fresh {parts : List Prog} (h : ∀ p ∈ parts, p.Reports kind) :
    ∀ p ∈ parts.map Proc.fresh, p.Reports kind := by
  simpa using fun p hp ↦ .fresh (h p hp)

/-! ### Machines -/

namespace Machine

namespace Reports

theorem empty : Machine.empty.Reports kind := by
  constructor <;> simp [Machine.empty]

/-- It is about what the machine runs, and not about its store. -/
theorem withStore (h : m.Reports kind) (s : Store) : { m with store := s }.Reports kind :=
  ⟨h.functions, h.bodies, h.tasks, h.customs, h.strays⟩

theorem body (h : m.Reports kind) (c : ℕ) :
    (m.bodies[c]?.getD (.done (.ok .null))).Reports kind := by
  cases hbody : m.bodies[c]? with
  | none => exact .done _
  | some p => exact h.bodies p (Array.mem_of_getElem? hbody)

theorem custom (h : m.Reports kind) (c : ℕ) :
    (m.customs[c]?.getD (.done (.ok .null))).Reports kind := by
  cases hbody : m.customs[c]? with
  | none => exact .done _
  | some p => exact h.customs p (Array.mem_of_getElem? hbody)

theorem addCoroutine (h : m.Reports kind) {p : Prog} (hp : p.Reports kind) :
    (m.addCoroutine p).2.Reports kind where
  functions := h.functions
  bodies q hq := by
    rcases Array.mem_push.mp hq with hq | rfl
    · exact h.bodies q hq
    · exact hp
  tasks := h.tasks
  customs := h.customs
  strays := h.strays

theorem addCustom (h : m.Reports kind) {p : Prog} (hp : p.Reports kind) :
    (m.addCustom p).2.Reports kind where
  functions := h.functions
  bodies := h.bodies
  tasks := h.tasks
  customs q hq := by
    rcases Array.mem_push.mp hq with hq | rfl
    · exact h.customs q hq
    · exact hp
  strays := h.strays

theorem addFuture (h : m.Reports kind) (isTask : Bool) {p : Proc} (hp : p.Reports kind) :
    (m.addFuture isTask p).2.Reports kind where
  functions := h.functions
  bodies := h.bodies
  tasks q hq := by
    rcases Array.mem_push.mp hq with hq | rfl
    · exact h.tasks q hq
    · exact hp
  customs := h.customs
  strays := h.strays

theorem addStrays (h : m.Reports kind) {parts : List Proc} (hparts : ∀ p ∈ parts, p.Reports kind) :
    { m with strays := m.strays ++ parts.filter Proc.isOpen }.Reports kind where
  functions := h.functions
  bodies := h.bodies
  tasks := h.tasks
  customs := h.customs
  strays p hp := by
    rcases List.mem_append.mp hp with hp | hp
    · exact h.strays p hp
    · exact hparts p (List.mem_filter.mp hp).1

end Reports

theorem log_closeAwaitable (v : Value) (s : Store) : (closeAwaitable v s).log = s.log := by
  unfold closeAwaitable
  split <;> rfl

namespace Arrives

variable {q : Proc}

/-- What happened before did not disturb it. -/
theorem since (h : m'.Arrives kind m'' q) (hlog : m.store.Reports kind m'.store) :
    m.Arrives kind m'' q := ⟨h.machine, h.proc, hlog.trans h.log⟩

theorem since_eq (h : m'.Arrives kind m'' q) (hlog : m'.store.log = m.store.log) :
    m.Arrives kind m'' q := h.since (.of_log_eq hlog)

/-- To wait is to arrive. -/
theorem rest (hm : m.Reports kind) (hq : q.Reports kind) : m.Arrives kind m q :=
  ⟨hm, hq, .of_log_eq rfl⟩

end Arrives

/-- How programs are run inside of others keeps to records of the kind. -/
def Keeps (kind : Log.Entry → Prop) (enter : Prog → Machine → Machine × Proc) : Prop :=
  ∀ (p : Prog) (m : Machine), p.Reports kind → m.Reports kind →
    m.Arrives kind (enter p m).1 (enter p m).2

section Exec

variable {enter : Prog → Machine → Machine × Proc}

/-- What is called or awaited inside ends, and the program goes on, or it is waited for. -/
theorem Keeps.arrives (henter : Keeps kind enter) {p : Prog} {g : Outcome → Prog}
    {next : Outcome → Machine → Machine × Proc} (hm : m.Reports kind) (hp : p.Reports kind)
    (hnext : ∀ (o : Outcome) (m : Machine), m.Reports kind →
      m.Arrives kind (next o m).1 (next o m).2)
    (hg : ∀ o, (g o).Reports kind) {t : Machine × Proc}
    (ht : (match enter p m with
      | (m, .settled o) => next o m
      | (m, p) => (m, p.bind g)) = t) : m.Arrives kind t.1 t.2 := by
  have hentered := henter p m hp hm
  subst ht
  generalize enter p m = t at hentered
  obtain ⟨m', q⟩ := t
  cases q with
  | settled o => exact (hnext o m' hentered.machine).since hentered.log
  | _ => exact ⟨hentered.machine, hentered.proc.bind hg, hentered.log⟩

theorem reports_closing (c : ℕ) {k : Outcome → Prog} (hk : ∀ o, (k o).Reports kind) (o : Outcome) :
    (closing c k o).Reports kind :=
  .act (Action.reports_bind (Action.reports_of_log_eq fun _ ↦ rfl) fun _ ↦ Action.reports_done _)
    fun _ ↦ hk o

/-- The body of a coroutine is run inside, and the coroutine is closed when it ends. -/
theorem Keeps.arrives_body (henter : Keeps kind enter) {k : Outcome → Prog} (hm : m.Reports kind)
    (hk : ∀ o, (k o).Reports kind)
    (hnext : ∀ (o : Outcome) (m : Machine), m.Reports kind →
      m.Arrives kind (Machine.execWith enter (k o) m).1 (Machine.execWith enter (k o) m).2)
    (c : ℕ) (state : CoroutineState) {t : Machine × Proc}
    (ht : (match enter (m.bodies[c]?.getD (.done (.ok .null)))
        { m with store := setCoroutine c state m.store } with
      | (m, .settled o) =>
        Machine.execWith enter (k o) { m with store := setCoroutine c .closed m.store }
      | (m, p) => (m, p.bind (closing c k))) = t) : m.Arrives kind t.1 t.2 := by
  have hstarted : m.store.Reports kind (setCoroutine c state m.store) := .of_log_eq rfl
  refine (henter.arrives (hm.withStore _) (hm.body c) (fun o m hm ↦ ?_) (reports_closing c hk)
    ht).since hstarted
  exact (hnext o _ (hm.withStore _)).since_eq rfl

/-- A run keeps to records of the kind when the program and the machine do. -/
theorem Keeps.execWith (henter : Keeps kind enter) : Keeps kind (execWith enter) := by
  intro p m hp hm
  induction hp generalizing m with
  | done o => exact .rest hm (.settled o)
  | @act a k ha hk ih => exact (ih _ _ (hm.withStore _)).since (ha m.store)
  | sleep hk => exact .rest hm (.sleeping _ hk)
  | @await v k hk ih =>
    have hfault : ∀ f, m.Arrives kind
        (Machine.execWith enter (k (m.newFault f).1) (m.newFault f).2).1
        (Machine.execWith enter (k (m.newFault f).1) (m.newFault f).2).2 := fun f ↦
      (ih _ _ (hm.withStore _)).since_eq rfl
    cases v with
    | awaitable form c =>
      cases form with
      | coroutine =>
        simp only [Machine.execWith]
        cases m.coroutine c with
        | created => exact henter.arrives_body hm hk ih c (.running none) rfl
        | running owner => exact hfault _
        | closed => exact hfault _
      | custom =>
        simp only [Machine.execWith]
        exact (henter.arrives (hm.withStore _) (hm.custom c) ih hk rfl).since_eq rfl
      | task | future =>
        simp only [Machine.execWith]
        cases m.future? c with
        | some o => exact ih o m hm
        | none => exact .rest hm (.awaiting c hk)
    | _ => exact hfault _
  | @drive c task k hk ih =>
    rw [Machine.execWith]
    cases m.coroutine c with
    | created => exact henter.arrives_body hm hk ih c (.running (some task)) rfl
    | running owner =>
      cases owner with
      | none => exact (ih _ _ (hm.withStore _)).since_eq rfl
      | some owner =>
        exact .rest hm (.awaiting owner fun _ ↦ .act (Action.reports_fail _) hk)
    | closed => exact (ih _ _ (hm.withStore _)).since_eq rfl
  | @gather parts k hparts hk _ ih =>
    rw [Machine.execWith]
    by_cases hempty : parts.isEmpty
    · rw [if_pos hempty]
      exact ih _ m hm
    · rw [if_neg hempty]
      exact .rest hm (.joining false (Proc.reports_fresh hparts) hk)
  | @race parts k hparts hk _ ih =>
    rw [Machine.execWith]
    by_cases hempty : parts.isEmpty
    · rw [if_pos hempty]
      exact ih _ m hm
    · rw [if_neg hempty]
      exact .rest hm (.racing (Proc.reports_fresh hparts) hk)
  | @call f args k hk ih =>
    rw [Machine.execWith]
    cases hf : m.functions[f]? with
    | none => exact (ih _ _ (hm.withStore _)).since_eq rfl
    | some g =>
      have hg : (g.run args).Reports kind := hm.functions g (Array.mem_of_getElem? hf) args
      dsimp only
      by_cases hasynchronous : g.asynchronous
      · rw [if_pos hasynchronous]
        exact (ih _ _ (hm.addCoroutine hg)).since_eq rfl
      · rw [if_neg hasynchronous]
        exact henter.arrives hm hg ih hk rfl
  | @make form delay body k hbody hk _ ih =>
    cases form with
    | coroutine => exact (ih _ _ (hm.addCoroutine hbody)).since_eq rfl
    | task => exact (ih _ _ (hm.addFuture true (.fresh hbody))).since_eq rfl
    | future =>
      cases delay with
      | some ms => exact (ih _ _ (hm.addFuture false (.sleeping _ fun _ ↦ hbody))).since_eq rfl
      | none =>
        have hentered := henter body m hbody hm
        exact ((ih _ _ (hentered.machine.addFuture false hentered.proc)).since_eq rfl).since
          hentered.log
    | custom => exact (ih _ _ (hm.addCustom hbody)).since_eq rfl
  | @share v k hk ih =>
    cases v with
    | awaitable form c =>
      cases form with
      | coroutine =>
        exact (ih _ _ (hm.addFuture true (.fresh (.drive .done)))).since_eq rfl
      | custom => exact (ih _ _ (hm.addFuture true (.fresh (.await .done)))).since_eq rfl
      | task | future => exact ih _ m hm
    | _ => exact ih _ m hm
  | @close v k hk ih => exact (ih _ (hm.withStore _)).since_eq (log_closeAwaitable v m.store)

theorem keeps_exec (depth : ℕ) : Keeps kind (exec depth) := by
  induction depth with
  | zero =>
    refine Keeps.execWith fun p m _ hm ↦ ?_
    exact ⟨hm.withStore _, .settled _, .of_log_eq rfl⟩
  | succ depth ih => exact ih.execWith

/-- A run keeps to records of the kind when the program and the machine do. -/
theorem run_arrives {p : Prog} (hp : p.Reports kind) (hm : m.Reports kind) :
    m.Arrives kind (m.run p).1 (m.run p).2 := keeps_exec depthLimit p m hp hm

end Exec

/-! ### Moves -/

theorem Arrives.of_run {p : Prog} {q : Proc} (h : m.run p = (m', q)) (hp : p.Reports kind)
    (hm : m.Reports kind) : m.Arrives kind m' q := by
  have hrun := run_arrives hp hm
  rwa [h] at hrun

/-- A move keeps to records of the kind when the process and the machine do. -/
theorem Move.arrives {p q : Proc} (h : Move m p m' q) (hp : p.Reports kind) (hm : m.Reports kind) :
    m.Arrives kind m' q := by
  induction h with
  | start h =>
    cases hp with
    | fresh hp => exact .of_run h hp hm
  | resume h =>
    cases hp with
    | ready _ hk => exact .of_run h (hk _) hm
  | wake _ h =>
    cases hp with
    | sleeping _ hk => exact .of_run h (hk _) hm
  | receive _ h =>
    cases hp with
    | awaiting _ hk => exact .of_run h (hk _) hm
  | part _ ih =>
    cases hp with
    | joining _ hparts hk =>
      rw [List.forall_mem_append, List.forall_mem_cons] at hparts
      obtain ⟨hbefore, hpart, hafter⟩ := hparts
      obtain ⟨hm', hq, hlog⟩ := ih hpart
      refine ⟨hm', .joining _ ?_ hk, hlog⟩
      exact List.forall_mem_append.mpr ⟨hbefore, List.forall_mem_cons.mpr ⟨hq, hafter⟩⟩
  | join _ h =>
    cases hp with
    | joining _ _ hk => exact .of_run h (hk _) hm
  | contender _ ih =>
    cases hp with
    | racing hparts hk =>
      rw [List.forall_mem_append, List.forall_mem_cons] at hparts
      obtain ⟨hbefore, hpart, hafter⟩ := hparts
      obtain ⟨hm', hq, hlog⟩ := ih hpart
      refine ⟨hm', .racing ?_ hk, hlog⟩
      exact List.forall_mem_append.mpr ⟨hbefore, List.forall_mem_cons.mpr ⟨hq, hafter⟩⟩
  | lose _ h =>
    cases hp with
    | racing hparts hk => exact (Arrives.of_run h (hk _) (hm.addStrays hparts)).since_eq rfl
  | win _ h =>
    cases hp with
    | racing _ hk => exact .of_run h (hk _) hm

/-- So does a turn of a process, however many moves it takes. -/
theorem advance_arrives {p : Proc} (hp : p.Reports kind) (hm : m.Reports kind) :
    m.Arrives kind (advance p m).1 (advance p m).2 := by
  have hmoves : ∀ t : Machine × Proc, Moves (m, p) t → m.Arrives kind t.1 t.2 := by
    intro t ht
    induction ht with
    | refl => exact .rest hm hp
    | tail _ hmove ih => exact (hmove.arrives ih.proc ih.machine).since ih.log
  exact hmoves _ (advance_moves p m)

/-- So does a turn of the process of a future. -/
theorem advanceTask_reports (i : ℕ) (hm : m.Reports kind) :
    (advanceTask i m).Reports kind ∧ m.store.Reports kind (advanceTask i m).store := by
  rw [advanceTask]
  cases hp : m.tasks[i]? with
  | none => exact ⟨hm, .of_log_eq rfl⟩
  | some p =>
    have hadvanced := advance_arrives (hm.tasks p (Array.mem_of_getElem? hp)) hm
    dsimp only
    generalize advance p m = t at hadvanced ⊢
    obtain ⟨m', q⟩ := t
    obtain ⟨hm', hq, hlog⟩ := hadvanced
    have hwritten : { m' with tasks := m'.tasks.modify i fun _ ↦ q }.Reports kind := by
      refine ⟨hm'.functions, hm'.bodies, fun p hp ↦ ?_, hm'.customs, hm'.strays⟩
      obtain ⟨j, hj⟩ := Array.getElem?_of_mem hp
      rw [Array.getElem?_modify] at hj
      by_cases hij : i = j
      · cases hold : m'.tasks[j]? with
        | none => simp [hold] at hj
        | some old =>
          obtain rfl : q = p := by simpa [hij, hold] using hj
          exact hq
      · exact hm'.tasks p (Array.mem_of_getElem? (by simpa [hij] using hj))
    cases q.outcome? with
    | none => exact ⟨hwritten, hlog⟩
    | some o => exact ⟨hwritten.withStore _, hlog.trans (.of_log_eq rfl)⟩

end Machine

/-! ### Runs that are waited for -/

/-- The run keeps to records of the kind, and nobody cancels it. -/
def Leg.Reports (kind : Log.Entry → Prop) (l : Leg) : Prop :=
  l.proc.Reports kind ∧ l.deadline = none

namespace Machine

variable {legs : List Leg}

/-- A move of each run keeps to records of the kind. -/
theorem advanceLegs_reports (hm : m.Reports kind) (hlegs : ∀ l ∈ legs, l.Reports kind) :
    (advanceLegs legs m).1.Reports kind ∧ m.store.Reports kind (advanceLegs legs m).1.store ∧
      ∀ l ∈ (advanceLegs legs m).2, l.Reports kind := by
  induction legs generalizing m with
  | nil => exact ⟨hm, .of_log_eq rfl, by simp [advanceLegs]⟩
  | cons l rest ih =>
    obtain ⟨hl, hrest⟩ := List.forall_mem_cons.mp hlegs
    rw [advanceLegs]
    by_cases hopen : l.isOpen
    · rw [if_pos hopen]
      have hadvanced := advance_arrives hl.1 hm
      obtain ⟨hm', hlog, hlegs'⟩ := ih hadvanced.machine hrest
      exact ⟨hm', hadvanced.log.trans hlog,
        List.forall_mem_cons.mpr ⟨⟨hadvanced.proc, hl.2⟩, hlegs'⟩⟩
    · rw [if_neg hopen]
      obtain ⟨hm', hlog, hlegs'⟩ := ih hm hrest
      exact ⟨hm', hlog, List.forall_mem_cons.mpr ⟨hl, hlegs'⟩⟩

/-- Where nobody cancels, there is nothing to enforce. -/
theorem enforce_eq (hlegs : ∀ l ∈ legs, l.Reports kind) (m : Machine) :
    enforce legs m = (m, legs) := by
  induction legs with
  | nil => simp [enforce]
  | cons l rest ih =>
    obtain ⟨hl, hrest⟩ := List.forall_mem_cons.mp hlegs
    simp [enforce, hl.2, ih hrest]

end Machine

end Recast
