import Recast.Mapping.Rule
import Recast.Proofs.Footing

/-!
Awaitables that can be had once. An awaitable that is given as the compute of a rule is kept until
the rule is first used; then it is handed over: a future is noted for it, and a coroutine or an
awaitable of its own kind gets a task that runs it. As long as all others leave it and that task
alone, it is handed over at most once and run at most once, and its future ends in what it ended in
(`OneShot.Standing`). That others leave it alone is asked of them only where the facts hold that are
relied on (`Footing`).
-/

set_option autoImplicit false

namespace Recast

/-! ### Programs that were begun -/

/-- Each future has its process, and what has been noted for rules are futures. -/
structure Machine.IsRegular (m : Machine) : Prop where
  sizes : m.tasks.size = m.store.futures.size
  notes : ∀ e ∈ m.store.shared, ∃ i, e.2 = .awaitable .task i ∨ e.2 = .awaitable .future i

/-- A stretch of the process of a program where the facts hold: its beginning, at whatever depth of
calls, or a move. -/
inductive Machine.Plays (f : Footing) (p : Prog) : Machine → Machine → Proc → Prop
  | begin {depth : ℕ} {m m' : Machine} {q : Proc} (hm : m.IsRegular) (hf : f.holds m)
      (h : exec depth p m = (m', q)) : Plays f p m m' q
  | proceed {m₀ m₁ m m' : Machine} {q r : Proc} (h : Plays f p m₀ m₁ q) (hm : m.IsRegular)
      (hf : f.holds m) (hmove : Move m q m' r) : Plays f p m m' r

/-- What may be left of a program that was begun once. -/
def Prog.Remains (f : Footing) (p : Prog) (q : Proc) : Prop := ∃ m m', Machine.Plays f p m m' q

namespace Machine

theorem execWith_drive (enter : Prog → Machine → Machine × Proc) {m : Machine} {c : ℕ}
    (h : m.coroutine c = .created) (i : ℕ) (k : Outcome → Prog) :
    execWith enter (.drive c i k) m = goOnWith enter (closing c k)
      (enter (m.bodies[c]?.getD (.done (.ok .null)))
        { m with store := setCoroutine c (.running (some i)) m.store }) := by
  simp only [execWith, h]
  generalize enter _ _ = t
  obtain ⟨_, q⟩ := t
  cases q <;> rfl

/-- A coroutine that has not begun runs its body, and is closed when that has ended. -/
theorem run_drive {m : Machine} {c : ℕ} (h : m.coroutine c = .created) (i : ℕ)
    (k : Outcome → Prog) :
    m.run (.drive c i k) = goOn (closing c k) (exec (depthLimit - 1)
      (m.bodies[c]?.getD (.done (.ok .null)))
      { m with store := setCoroutine c (.running (some i)) m.store }) :=
  execWith_drive (exec (depthLimit - 1)) h i k

theorem execWith_await_custom (enter : Prog → Machine → Machine × Proc) (m : Machine) (c : ℕ)
    (k : Outcome → Prog) :
    execWith enter (.await (.awaitable .custom c) k) m = goOnWith enter k
      (enter (m.customs[c]?.getD (.done (.ok .null))) { m with
        store := { m.store with
          customs := m.store.customs.modify c fun x ↦ { x with awaited := x.awaited + 1 } } }) := by
  simp only [execWith]
  generalize enter _ _ = t
  obtain ⟨_, q⟩ := t
  cases q <;> rfl

/-- An awaitable of its own kind runs its body and counts that. -/
theorem run_await_custom (m : Machine) (c : ℕ) (k : Outcome → Prog) :
    m.run (.await (.awaitable .custom c) k) = goOn k (exec (depthLimit - 1)
      (m.customs[c]?.getD (.done (.ok .null))) { m with
        store := { m.store with
          customs := m.store.customs.modify c fun x ↦ { x with awaited := x.awaited + 1 } } }) :=
  execWith_await_custom (exec (depthLimit - 1)) m c k

/-- A future gives its outcome at once if it has one. -/
theorem execWith_await_future (enter : Prog → Machine → Machine × Proc) (m : Machine) {f : Value}
    {i : ℕ} (hf : f = .awaitable .task i ∨ f = .awaitable .future i) :
    (∃ o, m.future? i = some o ∧ execWith enter (Compute.await f) m = (m, .settled o)) ∨
      execWith enter (Compute.await f) m = (m, .awaiting i .done) := by
  cases ho : m.future? i with
  | none =>
    refine Or.inr ?_
    rcases hf with rfl | rfl <;> simp only [Compute.await, Value.isAwaitable, if_true, execWith, ho]
  | some o =>
    refine Or.inl ⟨o, rfl, ?_⟩
    rcases hf with rfl | rfl <;> simp only [Compute.await, Value.isAwaitable, if_true, execWith, ho]

/-- The machine with the process of a future replaced; when it has ended, the future is filled. -/
def writeBack (m : Machine) (i : ℕ) (q : Proc) : Machine :=
  let m := { m with tasks := m.tasks.modify i fun _ ↦ q }
  match q.outcome? with
  | some o => { m with store := fill i o m.store }
  | none => m

theorem advanceTask_eq {m : Machine} {i : ℕ} {p : Proc} (h : m.tasks[i]? = some p) :
    advanceTask i m = (advance p m).1.writeBack i (advance p m).2 := by
  simp only [advanceTask, h]
  rfl

theorem tasks_writeBack (m : Machine) (i : ℕ) (q : Proc) :
    (m.writeBack i q).tasks = m.tasks.modify i fun _ ↦ q := by
  unfold writeBack
  dsimp only
  split <;> rfl

theorem futures_writeBack (m : Machine) (i j : ℕ) (q : Proc) :
    (m.writeBack i q).store.futures[j]? =
      if i = j then m.store.futures[j]?.map fun f ↦ { f with outcome := f.outcome.or q.outcome? }
      else m.store.futures[j]? := by
  unfold writeBack
  dsimp only
  cases q.outcome? with
  | none =>
    cases m.store.futures[j]? with
    | none => simp
    | some f => cases f with | mk b o => cases o <;> simp
  | some o =>
    simp only [fill, Array.getElem?_modify]
    split_ifs with hij
    · cases m.store.futures[j]? with
      | none => rfl
      | some f => cases f with | mk b o => cases o <;> simp
    · rfl

theorem future?_writeBack {m : Machine} {j : ℕ} {o : Outcome} (h : m.future? j = some o) (i : ℕ)
    (q : Proc) : (m.writeBack i q).future? j = some o := by
  obtain ⟨f, hf, ho⟩ := Option.bind_eq_some_iff.mp h
  rw [future?, futures_writeBack, hf]
  split_ifs
  · simp [ho]
  · exact ho

theorem IsRegular.writeBack {m : Machine} (h : m.IsRegular) (i : ℕ) (q : Proc) :
    (m.writeBack i q).IsRegular := by
  unfold Machine.writeBack
  dsimp only
  split
  · exact ⟨by simpa [fill] using h.sizes, h.notes⟩
  · exact ⟨by simpa using h.sizes, h.notes⟩

end Machine

/-! ### An awaitable of one rule -/

/-- An awaitable that belongs to one rule: the cell of the rule, what the awaitable is, and what it
runs when it is awaited, if it runs by itself. -/
structure OneShot where
  cell : Cell
  kind : AwaitableKind
  id : ℕ
  body : Prog

/-- How far an awaitable has come that a task is to run. -/
inductive OneShot.Stage where
  | untouched
  | running (task : ℕ)
  | finished

namespace OneShot

variable {w : OneShot} {f : Footing} {m m' m'' : Machine}

/-- The awaitable. -/
def value (w : OneShot) : Value := .awaitable w.kind w.id

/-- A coroutine or an awaitable of its own kind is run by a task. A task or a future is there
already. -/
def isRun (w : OneShot) : Bool :=
  match w.kind with
  | .coroutine | .custom => true
  | .task | .future => false

/-- The futures that have been noted for the rule; each time it is handed over, one more is. -/
def noted (w : OneShot) (m : Machine) : List Value :=
  (m.store.shared.filter fun e ↦ e.1 = w.cell).map Prod.snd

/-- The state of a coroutine at a stage. -/
def Stage.coroutine : Stage → CoroutineState
  | untouched => .created
  | running task => .running (some task)
  | finished => .closed

/-- The state of an awaitable of its own kind at a stage. -/
def Stage.custom : Stage → CustomState
  | untouched => ⟨0, 0⟩
  | running _ | finished => ⟨1, 0⟩

/-- The awaitable is at a stage, if it is to be run, and has its body. -/
def IsAt (w : OneShot) (g : Stage) (m : Machine) : Prop :=
  match w.kind with
  | .coroutine => m.store.coroutines[w.id]? = some g.coroutine ∧ m.bodies[w.id]? = some w.body
  | .custom => m.store.customs[w.id]? = some g.custom ∧ m.customs[w.id]? = some w.body
  | .task | .future => True

/-- What has been noted for the rule stays, and so do the outcomes of futures. -/
structure Keeps (w : OneShot) (m m' : Machine) : Prop where
  regular : m.IsRegular → m'.IsRegular
  noted : w.noted m ≠ [] → w.noted m' = w.noted m
  filled : ∀ i o, m.future? i = some o → m'.future? i = some o

/-- Nothing more is noted for the rule, and the task that runs the awaitable is left alone. -/
structure SparesTask (w : OneShot) (m m' : Machine) : Prop where
  regular : m.IsRegular → m'.IsRegular
  noted : w.noted m' = w.noted m
  filled : ∀ i o, m.future? i = some o → m'.future? i = some o
  task : ∀ i p, w.isRun = true → .awaitable .task i ∈ w.noted m → m.tasks[i]? = some p →
    m'.tasks[i]? = some p
  future : ∀ i f, w.isRun = true → .awaitable .task i ∈ w.noted m →
    m.store.futures[i]? = some f → m'.store.futures[i]? = some f

/-- The awaitable is left alone as well. -/
structure Spares (w : OneShot) (m m' : Machine) : Prop extends w.SparesTask m m' where
  stage : ∀ g, w.IsAt g m → w.IsAt g m'

theorem Keeps.refl (w : OneShot) (m : Machine) : w.Keeps m m :=
  ⟨fun h ↦ h, fun _ ↦ rfl, fun _ _ h ↦ h⟩

theorem Keeps.trans (h : w.Keeps m m') (h' : w.Keeps m' m'') : w.Keeps m m'' where
  regular hm := h'.regular (h.regular hm)
  noted hne := by
    have hsame := h.noted hne
    exact (h'.noted (hsame.symm ▸ hne)).trans hsame
  filled i o ho := h'.filled i o (h.filled i o ho)

theorem SparesTask.keeps (h : w.SparesTask m m') : w.Keeps m m' :=
  ⟨h.regular, fun _ ↦ h.noted, h.filled⟩

theorem SparesTask.refl (w : OneShot) (m : Machine) : w.SparesTask m m :=
  ⟨fun h ↦ h, rfl, fun _ _ h ↦ h, fun _ _ _ _ h ↦ h, fun _ _ _ _ h ↦ h⟩

theorem SparesTask.trans (h : w.SparesTask m m') (h' : w.SparesTask m' m'') :
    w.SparesTask m m'' where
  regular hm := h'.regular (h.regular hm)
  noted := h'.noted.trans h.noted
  filled i o ho := h'.filled i o (h.filled i o ho)
  task i p hrun hmem hp := h'.task i p hrun (h.noted ▸ hmem) (h.task i p hrun hmem hp)
  future i f hrun hmem hf := h'.future i f hrun (h.noted ▸ hmem) (h.future i f hrun hmem hf)

theorem Spares.refl (w : OneShot) (m : Machine) : w.Spares m m := ⟨.refl w m, fun _ h ↦ h⟩

theorem Spares.trans (h : w.Spares m m') (h' : w.Spares m' m'') : w.Spares m m'' :=
  ⟨h.toSparesTask.trans h'.toSparesTask, fun g hg ↦ h'.stage g (h.stage g hg)⟩

/-- What changes neither futures nor awaitables nor what has been noted leaves the awaitable
alone. -/
theorem spares_of_sameBelow {base : ℕ} {s : Store} (h : m.store.SameBelow base s) :
    w.Spares m { m with store := s } where
  regular hm := ⟨by rw [h.futures]; exact hm.sizes, by rw [h.shared]; exact hm.notes⟩
  noted := by rw [OneShot.noted, OneShot.noted, h.shared]
  filled i o ho := by rwa [Machine.future?, h.futures]
  task _ _ _ _ hp := hp
  future _ _ _ _ hf := by rwa [h.futures]
  stage g hg := by
    unfold IsAt at hg ⊢
    rwa [h.coroutines, h.customs]

/-- Where the facts hold, what is left of the program leaves them and the awaitable alone, however
it goes on. -/
def Discreet (w : OneShot) (f : Footing) (p : Prog) : Prop :=
  ∀ m m' q, Machine.Plays f p m m' q → w.Spares m m' ∧ f.holds m'

theorem Discreet.move {p : Prog} {q r : Proc} (h : w.Discreet f p) (hq : p.Remains f q)
    (hm : m.IsRegular) (hf : f.holds m) (hmove : Machine.Move m q m' r) :
    w.Spares m m' ∧ f.holds m' ∧ p.Remains f r := by
  obtain ⟨_, _, hplays⟩ := hq
  have hnext := hplays.proceed hm hf hmove
  obtain ⟨hspares, hholds⟩ := h _ _ _ hnext
  exact ⟨hspares, hholds, _, _, hnext⟩

/-! ### The task that runs it -/

/-- What the task with a number runs. -/
def wrapper (w : OneShot) (i : ℕ) : Prog :=
  match w.kind with
  | .coroutine => .drive w.id i .done
  | _ => .await w.value .done

/-- What follows the body. -/
def afterwards (w : OneShot) : Outcome → Prog :=
  match w.kind with
  | .coroutine => Machine.closing w.id .done
  | _ => .done

/-- How the process of the task agrees with the stage of the awaitable. The body is begun once, and
what it ends in is what the task ends in. -/
inductive Drives (w : OneShot) (f : Footing) (i : ℕ) : Proc → Stage → Prop
  | fresh : Drives w f i (.fresh (w.wrapper i)) .untouched
  | running {q : Proc} (h : w.body.Remains f q) : Drives w f i (q.bind w.afterwards) (.running i)
  | finished {o : Outcome} (h : w.body.Remains f (.settled o)) : Drives w f i (.settled o) .finished

/-- The task begins the body. -/
theorem exists_run_wrapper (hrun : w.isRun = true) (hat : w.IsAt .untouched m) (i : ℕ) :
    ∃ m₀, m.run (w.wrapper i) =
        Machine.goOn w.afterwards (Machine.exec (Machine.depthLimit - 1) w.body m₀) ∧
      w.SparesTask m m₀ ∧ m.SameObjects m₀ ∧ w.IsAt (.running i) m₀ := by
  obtain ⟨cell, kind, id, body⟩ := w
  cases kind with
  | coroutine =>
    obtain ⟨hstate, hbody⟩ := hat
    have hcreated : m.coroutine id = .created := by
      rw [Machine.coroutine, hstate]
      rfl
    refine ⟨{ m with store := Machine.setCoroutine id (.running (some i)) m.store },
      (Machine.run_drive hcreated i .done).trans ?_, ⟨fun hm ↦ ⟨hm.sizes, hm.notes⟩, rfl,
      fun _ _ h ↦ h, fun _ _ _ _ h ↦ h, fun _ _ _ _ h ↦ h⟩, rfl, ?_, hbody⟩
    · rw [hbody]
      rfl
    · simp only [Machine.setCoroutine, Array.getElem?_modify, if_pos]
      rw [hstate]
      rfl
  | custom =>
    obtain ⟨hstate, hbody⟩ := hat
    refine ⟨{ m with
        store := { m.store with
          customs := m.store.customs.modify id fun x ↦ { x with awaited := x.awaited + 1 } } },
      (Machine.run_await_custom m id .done).trans ?_, ⟨fun hm ↦ ⟨hm.sizes, hm.notes⟩, rfl,
      fun _ _ h ↦ h, fun _ _ _ _ h ↦ h, fun _ _ _ _ h ↦ h⟩, rfl, ?_, hbody⟩
    · rw [hbody]
      rfl
    · simp only [Array.getElem?_modify, if_pos]
      rw [hstate]
      rfl
  | task | future => cases hrun

/-- When the body has ended, so has the awaitable. -/
theorem exists_run_afterwards {i : ℕ} (hrun : w.isRun = true) (hat : w.IsAt (.running i) m)
    (o : Outcome) : ∃ m', m.run (w.afterwards o) = (m', .settled o) ∧ w.SparesTask m m' ∧
      m.SameObjects m' ∧ w.IsAt .finished m' := by
  obtain ⟨cell, kind, id, body⟩ := w
  cases kind with
  | coroutine =>
    obtain ⟨hstate, hbody⟩ := hat
    refine ⟨{ m with store := Machine.setCoroutine id .closed m.store }, rfl,
      ⟨fun hm ↦ ⟨hm.sizes, hm.notes⟩, rfl, fun _ _ h ↦ h, fun _ _ _ _ h ↦ h,
        fun _ _ _ _ h ↦ h⟩, rfl, ?_, hbody⟩
    simp only [Machine.setCoroutine, Array.getElem?_modify, if_pos]
    rw [hstate]
    rfl
  | custom => exact ⟨m, rfl, .refl _ m, rfl, hat⟩
  | task | future => cases hrun

theorem Drives.goOn {i : ℕ} {q r : Proc} (hrun : w.isRun = true) (hq : w.body.Remains f q)
    (hf : f.holds m) (hat : w.IsAt (.running i) m)
    (h : Machine.goOn w.afterwards (m, q) = (m', r)) :
    ∃ g, w.Drives f i r g ∧ w.IsAt g m' ∧ w.SparesTask m m' ∧ f.holds m' := by
  by_cases hended : ∃ o, q = .settled o
  · obtain ⟨o, rfl⟩ := hended
    obtain ⟨m₁, hafter, hspares, hsame, hfinished⟩ := exists_run_afterwards hrun hat o
    cases hafter.symm.trans h
    exact ⟨_, .finished hq, hfinished, hspares, f.steady hf hsame⟩
  · rw [Machine.goOn_of_ne fun o ho ↦ hended ⟨o, ho⟩] at h
    cases h
    exact ⟨_, .running hq, hat, .refl w m, hf⟩

/-- The task moves: it begins the body, once, or the body goes on. -/
theorem Drives.move {i : ℕ} {p q : Proc} {g : Stage} (h : w.Drives f i p g) (hrun : w.isRun = true)
    (hbody : w.Discreet f w.body) (hat : w.IsAt g m) (hm : m.IsRegular) (hf : f.holds m)
    (hmove : Machine.Move m p m' q) :
    ∃ g', w.Drives f i q g' ∧ w.IsAt g' m' ∧ w.SparesTask m m' ∧ f.holds m' := by
  cases h with
  | fresh =>
    cases hmove with
    | start hstart =>
      obtain ⟨m₀, hwrapper, hbefore, hsame, hrunning⟩ := exists_run_wrapper hrun hat i
      rw [hwrapper] at hstart
      rcases hexec : Machine.exec (Machine.depthLimit - 1) w.body m₀ with ⟨m₁, r⟩
      rw [hexec] at hstart
      have hplays : Machine.Plays f w.body m₀ m₁ r :=
        .begin (hbefore.regular hm) (f.steady hf hsame) hexec
      obtain ⟨hspares, hf₁⟩ := hbody _ _ _ hplays
      obtain ⟨g', hq, hat', hafter, hf'⟩ :=
        Drives.goOn hrun ⟨_, _, hplays⟩ hf₁ (hspares.stage _ hrunning) hstart
      exact ⟨g', hq, hat', (hbefore.trans hspares.toSparesTask).trans hafter, hf'⟩
  | running hremains =>
    rcases hmove.of_bind with ⟨o, rfl, hend⟩ | ⟨m₁, r, hfirst, hrest⟩
    · exact Drives.goOn hrun hremains hf hat hend
    · obtain ⟨hspares, hf₁, hnext⟩ := hbody.move hremains hm hf hfirst
      obtain ⟨g', hq, hat', hafter, hf'⟩ :=
        Drives.goOn hrun hnext hf₁ (hspares.stage _ hat) hrest
      exact ⟨g', hq, hat', hspares.toSparesTask.trans hafter, hf'⟩
  | finished => exact absurd rfl (hmove.ne_settled _)

theorem Drives.moves {i : ℕ} {p : Proc} {g : Stage} (h : w.Drives f i p g) (hrun : w.isRun = true)
    (hbody : w.Discreet f w.body) (hat : w.IsAt g m) (hm : m.IsRegular) (hf : f.holds m)
    {t : Machine × Proc} (hmoves : Machine.Moves (m, p) t) :
    ∃ g', w.Drives f i t.2 g' ∧ w.IsAt g' t.1 ∧ w.SparesTask m t.1 ∧ f.holds t.1 := by
  induction hmoves with
  | refl => exact ⟨g, h, hat, .refl w m, hf⟩
  | tail _ hmove ih =>
    obtain ⟨g', hdrives, hat', hspares, hf'⟩ := ih
    obtain ⟨g'', hq, hat'', hlast, hf''⟩ :=
      hdrives.move hrun hbody hat' (hspares.regular hm) hf' hmove
    exact ⟨g'', hq, hat'', hspares.trans hlast, hf''⟩

/-! ### How far the awaitable has come -/

/-- The awaitable is kept, or it has been handed over once: it is its own future, or a task runs
it. -/
inductive Standing (w : OneShot) (f : Footing) (m : Machine) : Prop
  | kept (hnoted : w.noted m = []) (hat : w.IsAt .untouched m)
  | own (hrun : w.isRun = false) (hnoted : w.noted m = [w.value])
  | run {i : ℕ} {p : Proc} {g : Stage} (hrun : w.isRun = true)
      (hnoted : w.noted m = [.awaitable .task i]) (hp : m.tasks[i]? = some p)
      (hfuture : m.store.futures[i]? = some ⟨true, p.outcome?⟩) (hdrives : w.Drives f i p g)
      (hat : w.IsAt g m)

theorem Standing.length_noted_le (h : w.Standing f m) : (w.noted m).length ≤ 1 := by
  cases h with
  | kept hnoted => simp [hnoted]
  | own _ hnoted => simp [hnoted]
  | run _ hnoted => simp [hnoted]

theorem Standing.spares (h : w.Standing f m) (hspares : w.Spares m m') : w.Standing f m' := by
  cases h with
  | kept hnoted hat => exact .kept (hspares.noted.trans hnoted) (hspares.stage _ hat)
  | own hrun hnoted => exact .own hrun (hspares.noted.trans hnoted)
  | @run i p g hrun hnoted hp hfuture hdrives hat =>
    have hmem : .awaitable .task i ∈ w.noted m := hnoted ▸ List.mem_singleton_self _
    exact .run hrun (hspares.noted.trans hnoted) (hspares.task i p hrun hmem hp)
      (hspares.future i _ hrun hmem hfuture) hdrives (hspares.stage g hat)

/-- The task that runs the awaitable moves, and where it has ended, its future is filled. -/
def TaskMoves (w : OneShot) (m m' : Machine) : Prop :=
  ∃ i p t, w.isRun = true ∧ .awaitable .task i ∈ w.noted m ∧ m.tasks[i]? = some p ∧
    Machine.Moves (m, p) t ∧ m' = t.1.writeBack i t.2

theorem noted_writeBack (w : OneShot) (m : Machine) (i : ℕ) (q : Proc) :
    w.noted (m.writeBack i q) = w.noted m := by
  unfold Machine.writeBack
  dsimp only
  split <;> rfl

theorem sameObjects_writeBack (m : Machine) (i : ℕ) (q : Proc) :
    m.SameObjects (m.writeBack i q) := by
  unfold Machine.writeBack
  dsimp only
  split <;> rfl

theorem IsAt.writeBack {g : Stage} (h : w.IsAt g m) (i : ℕ) (q : Proc) :
    w.IsAt g (m.writeBack i q) := by
  unfold Machine.writeBack
  dsimp only
  split <;> exact h

theorem eq_of_moves_settled {o : Outcome} {t : Machine × Proc}
    (h : Machine.Moves (m, .settled o) t) : t = (m, .settled o) := by
  induction h with
  | refl => rfl
  | tail _ hmove ih =>
    subst ih
    exact absurd rfl (hmove.ne_settled o)

/-- What a task had ended in it still ends in. -/
theorem outcome?_or_of_moves {p : Proc} {t : Machine × Proc} (h : Machine.Moves (m, p) t) :
    p.outcome?.or t.2.outcome? = t.2.outcome? := by
  cases p with
  | settled o =>
    rw [eq_of_moves_settled h]
    rfl
  | _ => rfl

/-- The task that runs the awaitable may move as long as the facts hold, and then they still do. -/
theorem Standing.taskMoves (h : w.Standing f m) (hbody : w.isRun = true → w.Discreet f w.body)
    (hm : m.IsRegular) (hf : f.holds m) (hmoves : w.TaskMoves m m') :
    w.Standing f m' ∧ w.Keeps m m' ∧ f.holds m' := by
  obtain ⟨i, p, t, hrun, hmem, hp, hmoves, rfl⟩ := hmoves
  cases h with
  | kept hnoted => simp [hnoted] at hmem
  | own hrun' => cases hrun.symm.trans hrun'
  | @run j p' g _ hnoted hp' hfuture hdrives hat =>
    obtain rfl : i = j := by simpa [hnoted] using hmem
    cases hp.symm.trans hp'
    obtain ⟨g', hdrives', hat', hspares, hf'⟩ :=
      hdrives.moves hrun (hbody hrun) hat hm hf hmoves
    refine ⟨?_, ?_, f.steady hf' (sameObjects_writeBack t.1 i t.2)⟩
    · refine .run (i := i) (p := t.2) hrun ?_ ?_ ?_ hdrives' (hat'.writeBack i t.2)
      · exact (w.noted_writeBack t.1 i t.2).trans (hspares.noted.trans hnoted)
      · rw [Machine.tasks_writeBack, Array.getElem?_modify, if_pos rfl,
          hspares.task i p hrun hmem hp]
        rfl
      · rw [Machine.futures_writeBack, if_pos rfl, hspares.future i _ hrun hmem hfuture]
        exact congrArg (fun o ↦ some (FutureState.mk true o)) (outcome?_or_of_moves hmoves)
    · exact ⟨fun hm ↦ (hspares.regular hm).writeBack i t.2,
        fun _ ↦ (w.noted_writeBack t.1 i t.2).trans hspares.noted,
        fun j o ho ↦ Machine.future?_writeBack (hspares.filled j o ho) i t.2⟩

/-! ### Handing over -/

/-- The future that stands for the awaitable when it is handed over. -/
def future (w : OneShot) (m : Machine) : Value :=
  if w.isRun then .awaitable .task m.tasks.size else w.value

/-- The awaitable is handed over: a task is made that runs it, if need be, and the future is
noted. -/
def handOver (w : OneShot) (m : Machine) : Machine :=
  let m' := if w.isRun then (m.addFuture true (.fresh (w.wrapper m.tasks.size))).2 else m
  { m' with store := { m'.store with shared := (w.cell, w.future m) :: m'.store.shared } }

theorem lookup_eq_head? (w : OneShot) (m : Machine) :
    m.store.shared.lookup w.cell = (w.noted m).head? := by
  unfold noted
  induction m.store.shared with
  | nil => rfl
  | cons e rest ih =>
    obtain ⟨cell, f⟩ := e
    by_cases hcell : cell = w.cell
    · simp [hcell]
    · have hne : (w.cell == cell) = false := beq_false_of_ne (Ne.symm hcell)
      simp [List.lookup_cons, hne, hcell, ih]

/-- The first use of the rule hands the awaitable over. -/
theorem execWith_shareOnce_of_nil (enter : Prog → Machine → Machine × Proc)
    (h : w.noted m = []) :
    Machine.execWith enter (Rule.shareOnce w.cell w.value) m =
      (w.handOver m, .settled (.ok (w.future m))) := by
  have hlookup : m.store.shared.lookup w.cell = none := (w.lookup_eq_head? m).trans (h ▸ rfl)
  obtain ⟨cell, kind, id, body⟩ := w
  simp only [Rule.shareOnce, Prog.first, Machine.execWith, Machine.act, Rule.sharedFuture,
    Action.read, hlookup, Option.getD_none, value]
  cases kind <;> rfl

/-- Later uses take the future that has been noted. -/
theorem execWith_shareOnce_of_cons (enter : Prog → Machine → Machine × Proc) {f : Value}
    {rest : List Value} (h : w.noted m = f :: rest) (hf : f ≠ .null) :
    Machine.execWith enter (Rule.shareOnce w.cell w.value) m = (m, .settled (.ok f)) := by
  have hlookup : m.store.shared.lookup w.cell = some f := (w.lookup_eq_head? m).trans (h ▸ rfl)
  simp only [Rule.shareOnce, Prog.first, Machine.execWith, Machine.act, Rule.sharedFuture,
    Action.read, hlookup, Option.getD_some]
  cases f with
  | null => exact absurd rfl hf
  | _ => rfl

/-- Handing over adds at most one task with its future, and the note. -/
theorem handOver_cases (w : OneShot) (m : Machine) :
    (∃ p, (w.handOver m).tasks = m.tasks.push p ∧
        (w.handOver m).store.futures = m.store.futures.push ⟨true, none⟩) ∨
      (w.handOver m).tasks = m.tasks ∧ (w.handOver m).store.futures = m.store.futures := by
  unfold handOver
  cases w.isRun
  · exact Or.inr ⟨rfl, rfl⟩
  · exact Or.inl ⟨_, rfl, rfl⟩

theorem sameObjects_handOver (w : OneShot) (m : Machine) : m.SameObjects (w.handOver m) := by
  unfold handOver
  cases w.isRun <;> rfl

theorem shared_handOver (w : OneShot) (m : Machine) :
    (w.handOver m).store.shared = (w.cell, w.future m) :: m.store.shared := by
  unfold handOver
  cases w.isRun <;> rfl

theorem getElem?_push_of_some {α : Type} {xs : Array α} {i : ℕ} {x : α} (h : xs[i]? = some x)
    (y : α) : (xs.push y)[i]? = some x := by
  obtain ⟨hlt, hx⟩ := Array.getElem?_eq_some_iff.mp h
  rw [Array.getElem?_push_lt hlt, hx]

/-- What is not run is a future itself. -/
theorem exists_value (hrun : w.isRun = false) :
    ∃ i, w.value = .awaitable .task i ∨ w.value = .awaitable .future i := by
  obtain ⟨cell, kind, id, body⟩ := w
  cases kind with
  | task => exact ⟨id, Or.inl rfl⟩
  | future => exact ⟨id, Or.inr rfl⟩
  | coroutine | custom => cases hrun

theorem exists_future (w : OneShot) (m : Machine) :
    ∃ i, w.future m = .awaitable .task i ∨ w.future m = .awaitable .future i := by
  unfold future
  cases hrun : w.isRun with
  | false => exact exists_value hrun
  | true => exact ⟨_, Or.inl rfl⟩

theorem isRegular_handOver (w : OneShot) (hm : m.IsRegular) : (w.handOver m).IsRegular := by
  constructor
  · rcases w.handOver_cases m with ⟨p, htasks, hfutures⟩ | ⟨htasks, hfutures⟩
    · rw [htasks, hfutures, Array.size_push, Array.size_push, hm.sizes]
    · rw [htasks, hfutures, hm.sizes]
  · rw [w.shared_handOver]
    exact List.forall_mem_cons.mpr ⟨w.exists_future m, hm.notes⟩

theorem getElem?_tasks_handOver (w : OneShot) {i : ℕ} {p : Proc} (h : m.tasks[i]? = some p) :
    (w.handOver m).tasks[i]? = some p := by
  rcases w.handOver_cases m with ⟨q, htasks, _⟩ | ⟨htasks, _⟩
  · rw [htasks, getElem?_push_of_some h]
  · rwa [htasks]

theorem getElem?_futures_handOver (w : OneShot) {i : ℕ} {f : FutureState}
    (h : m.store.futures[i]? = some f) : (w.handOver m).store.futures[i]? = some f := by
  rcases w.handOver_cases m with ⟨_, _, hfutures⟩ | ⟨_, hfutures⟩
  · rw [hfutures, getElem?_push_of_some h]
  · rwa [hfutures]

theorem future?_handOver (w : OneShot) {i : ℕ} {o : Outcome} (h : m.future? i = some o) :
    (w.handOver m).future? i = some o := by
  obtain ⟨f, hf, ho⟩ := Option.bind_eq_some_iff.mp h
  exact Option.bind_eq_some_iff.mpr ⟨f, w.getElem?_futures_handOver hf, ho⟩

theorem isAt_handOver (w v : OneShot) {g : Stage} (h : v.IsAt g m) : v.IsAt g (w.handOver m) := by
  unfold handOver
  cases w.isRun <;> exact h

theorem noted_handOver (w : OneShot) (m : Machine) :
    w.noted (w.handOver m) = w.future m :: w.noted m := by
  rw [noted, w.shared_handOver, List.filter_cons_of_pos (by simp)]
  rfl

/-- Handing one awaitable over leaves those of other rules alone. -/
theorem spares_handOver {v : OneShot} (hcell : v.cell ≠ w.cell) : w.Spares m (v.handOver m) where
  regular hm := v.isRegular_handOver hm
  noted := by
    rw [noted, v.shared_handOver, List.filter_cons_of_neg (by simpa using hcell)]
    rfl
  filled i o ho := v.future?_handOver ho
  task i p _ _ hp := v.getElem?_tasks_handOver hp
  future i f _ _ hf := v.getElem?_futures_handOver hf
  stage g hg := v.isAt_handOver w hg

/-- An awaitable that was kept has been handed over. -/
theorem Standing.handOver (h : w.Standing f m) (hm : m.IsRegular) (hnoted : w.noted m = []) :
    w.Standing f (w.handOver m) := by
  have hnoted' : w.noted (w.handOver m) = [w.future m] := by rw [w.noted_handOver, hnoted]
  cases h with
  | kept _ hat =>
    have hat' := w.isAt_handOver w hat
    cases hrun : w.isRun with
    | false =>
      rw [future, if_neg (by simp [hrun])] at hnoted'
      exact .own hrun hnoted'
    | true =>
      rw [future, if_pos hrun] at hnoted'
      refine .run hrun hnoted' (p := .fresh (w.wrapper m.tasks.size)) ?_ ?_ .fresh hat'
      · unfold OneShot.handOver
        rw [if_pos hrun]
        exact Array.getElem?_push_size
      · unfold OneShot.handOver
        rw [if_pos hrun, hm.sizes]
        exact Array.getElem?_push_size
  | own _ hnoted' => simp [hnoted] at hnoted'
  | run _ hnoted' => simp [hnoted] at hnoted'

/-- A use of the rule hands the awaitable over, or takes the future that has been noted. -/
theorem exists_execWith_shareOnce (w : OneShot) (enter : Prog → Machine → Machine × Proc)
    (hm : m.IsRegular) : ∃ m' f,
      Machine.execWith enter (Rule.shareOnce w.cell w.value) m = (m', .settled (.ok f)) ∧
      (∃ i, f = .awaitable .task i ∨ f = .awaitable .future i) ∧
      (m' = w.handOver m ∧ f = w.future m ∧ w.noted m = [] ∨
        m' = m ∧ ∃ rest, w.noted m = f :: rest) := by
  cases hnoted : w.noted m with
  | nil =>
    exact ⟨_, _, execWith_shareOnce_of_nil enter hnoted, w.exists_future m,
      Or.inl ⟨rfl, rfl, rfl⟩⟩
  | cons f rest =>
    have hmem : f ∈ w.noted m := hnoted ▸ List.mem_cons_self
    obtain ⟨e, he, rfl⟩ := List.mem_map.mp hmem
    have hfuture := hm.notes e (List.mem_of_mem_filter he)
    refine ⟨m, e.2, execWith_shareOnce_of_cons enter hnoted ?_, hfuture, Or.inr ⟨rfl, rest, rfl⟩⟩
    obtain ⟨i, hi | hi⟩ := hfuture <;> rw [hi] <;> exact nofun

/-- The use of the rule leaves one future noted, which it takes. -/
theorem Standing.exists_shareOnce (h : w.Standing f m) (hm : m.IsRegular) :
    ∃ m' v, m.run (Rule.shareOnce w.cell w.value) = (m', .settled (.ok v)) ∧
      (∃ i, v = .awaitable .task i ∨ v = .awaitable .future i) ∧ w.noted m' = [v] ∧
      m'.IsRegular ∧ w.Standing f m' ∧ w.Keeps m m' ∧ m.SameObjects m' := by
  obtain ⟨m', v, hrun, hv, hcases⟩ :=
    w.exists_execWith_shareOnce (Machine.exec (Machine.depthLimit - 1)) hm
  refine ⟨m', v, hrun, hv, ?_⟩
  rcases hcases with ⟨rfl, rfl, hnoted⟩ | ⟨rfl, rest, hnoted⟩
  · refine ⟨by rw [w.noted_handOver, hnoted], w.isRegular_handOver hm, h.handOver hm hnoted, ?_,
      w.sameObjects_handOver m⟩
    exact ⟨fun _ ↦ w.isRegular_handOver hm, fun hne ↦ absurd hnoted hne,
      fun i o ho ↦ w.future?_handOver ho⟩
  · have hlength := h.length_noted_le
    rw [hnoted, List.length_cons] at hlength
    obtain rfl : rest = [] := List.length_eq_zero_iff.mp (by omega)
    exact ⟨hnoted, hm, h, .refl w m', rfl⟩

end OneShot

end Recast
