import Recast.Proofs.OneShot

/-!
What cancelling a process does. A process passes a cancellation on to the futures that it waits for,
the processes of these to the futures that they wait for, and so on. Nothing else changes: a future
that the cancelled process does not wait for, be it directly or through others, is left alone with
its process (`Machine.subsides_cancel`).
-/

set_option autoImplicit false

namespace Recast

/-! ### Waiting for futures -/

namespace Proc

mutual

/-- The futures that a process waits for. -/
def awaited : Proc → List ℕ
  | .awaiting i _ => [i]
  | .joining _ parts _ | .racing parts _ => awaitedAll parts
  | .settled _ | .fresh _ | .ready .. | .sleeping .. => []

/-- The futures that processes wait for. -/
def awaitedAll : List Proc → List ℕ
  | [] => []
  | p :: rest => p.awaited ++ awaitedAll rest

end

@[simp] theorem awaited_bind (p : Proc) (f : Outcome → Prog) : (p.bind f).awaited = p.awaited := by
  cases p <;> rfl

end Proc

namespace Machine

variable {m m' m'' : Machine} {kept : Set ℕ} {p q : Proc} {i j : ℕ}

/-- A process waits for a future that has not been filled, or for one whose process does. -/
inductive WaitsFor (m : Machine) : Proc → ℕ → Prop
  | directly {p : Proc} {i : ℕ} (hi : i ∈ p.awaited) (hopen : m.future? i = none) : WaitsFor m p i
  | through {p q : Proc} {i j : ℕ} (hi : i ∈ p.awaited) (hopen : m.future? i = none)
      (hq : m.tasks[i]? = some q) (hrest : WaitsFor m q j) : WaitsFor m p j

/-- Processes of futures have been cancelled. They wait for nothing new, futures that were filled
stay so, and those to be kept are as before with their processes. Nothing else has changed. -/
structure Subsides (m : Machine) (kept : Set ℕ) (m' : Machine) : Prop where
  rest : m' = { m with tasks := m'.tasks, store := { m.store with futures := m'.store.futures } }
  tasks_size : m'.tasks.size = m.tasks.size
  futures_size : m'.store.futures.size = m.store.futures.size
  filled : ∀ i o, m.future? i = some o → m'.future? i = some o
  tasks : ∀ i ∈ kept, m'.tasks[i]? = m.tasks[i]?
  futures : ∀ i ∈ kept, m'.store.futures[i]? = m.store.futures[i]?
  awaited : ∀ (i : ℕ) (q' : Proc), m'.tasks[i]? = some q' →
    ∃ q, m.tasks[i]? = some q ∧ q'.awaited ⊆ q.awaited

namespace Subsides

theorem refl (m : Machine) (kept : Set ℕ) : m.Subsides kept m :=
  ⟨rfl, rfl, rfl, fun _ _ h ↦ h, fun _ _ ↦ rfl, fun _ _ ↦ rfl,
    fun _ q' h ↦ ⟨q', h, List.Subset.refl _⟩⟩

theorem trans (h : m.Subsides kept m') (h' : m'.Subsides kept m'') : m.Subsides kept m'' where
  rest := by
    rw [h'.rest, h.rest]
  tasks_size := h'.tasks_size.trans h.tasks_size
  futures_size := h'.futures_size.trans h.futures_size
  filled i o ho := h'.filled i o (h.filled i o ho)
  tasks i hi := (h'.tasks i hi).trans (h.tasks i hi)
  futures i hi := (h'.futures i hi).trans (h.futures i hi)
  awaited i q'' hq'' := by
    obtain ⟨q', hq', hsub'⟩ := h'.awaited i q'' hq''
    obtain ⟨q, hq, hsub⟩ := h.awaited i q' hq'
    exact ⟨q, hq, List.Subset.trans hsub' hsub⟩

theorem open_of_open (h : m.Subsides kept m') (hopen : m'.future? i = none) :
    m.future? i = none := by
  cases ho : m.future? i with
  | none => rfl
  | some o =>
    rw [h.filled i o ho] at hopen
    cases hopen

/-- Nobody waits for more than before. -/
theorem waitsFor (h : m.Subsides kept m') (hq : q.awaited ⊆ p.awaited) (hwaits : m'.WaitsFor q j) :
    m.WaitsFor p j := by
  induction hwaits generalizing p with
  | directly hi hopen => exact .directly (hq hi) (h.open_of_open hopen)
  | through hi hopen htask _ ih =>
    obtain ⟨r, hr, hsub⟩ := h.awaited _ _ htask
    exact .through (hq hi) (h.open_of_open hopen) hr (ih hsub)

/-- The records stay as they are. -/
theorem spares (h : m.Subsides kept m') (refs : Set ℕ) : m.Spares refs m' := by
  rw [h.rest]
  exact ⟨rfl, le_rfl, fun _ _ _ ↦ rfl⟩

/-- A process is written back that waits for nothing new. -/
theorem writeBack (h : m.Subsides kept m') (hi : i ∉ kept) (hp : m.tasks[i]? = some p)
    (hq : q.awaited ⊆ p.awaited) : m.Subsides kept (m'.writeBack i q) := by
  have hne : ∀ {j}, j ∈ kept → i ≠ j := fun hj heq ↦ hi (heq ▸ hj)
  constructor
  · rw [Machine.writeBack]
    dsimp only
    split <;> rw [h.rest]
    rfl
  · rw [tasks_writeBack, Array.size_modify, h.tasks_size]
  · rw [Machine.writeBack]
    dsimp only
    split
    · rw [← h.futures_size]
      exact Array.size_modify
    · exact h.futures_size
  · exact fun j o ho ↦ future?_writeBack (h.filled j o ho) i q
  · intro j hj
    rw [tasks_writeBack, Array.getElem?_modify, if_neg (hne hj), h.tasks j hj]
  · intro j hj
    rw [futures_writeBack, if_neg (hne hj), h.futures j hj]
  · intro j r hr
    rw [tasks_writeBack, Array.getElem?_modify] at hr
    split_ifs at hr with hij
    · subst hij
      obtain ⟨_, _, rfl⟩ := Option.map_eq_some_iff.mp hr
      exact ⟨p, hp, hq⟩
    · exact h.awaited j r hr

end Subsides

/-! ### Passing a cancellation on -/

/-- When the process passes a cancellation on, the futures to be kept stay as they are. -/
def Heeds (m : Machine) (kept : Set ℕ) (stop : ℕ → Machine → Machine) (awaited : List ℕ) : Prop :=
  ∀ i ∈ awaited, ∀ m', m.Subsides kept m' → m'.future? i = none → m'.Subsides kept (stop i m')

variable {stop : ℕ → Machine → Machine} {awaited fewer : List ℕ}

theorem Heeds.mono (h : m.Heeds kept stop awaited) (hfewer : fewer ⊆ awaited) :
    m.Heeds kept stop fewer :=
  fun i hi ↦ h i (hfewer hi)

theorem Heeds.subsides (h : m.Heeds kept stop awaited) (hm : m.Subsides kept m') :
    m'.Heeds kept stop awaited :=
  fun i hi _ hm'' ↦ h i hi _ (hm.trans hm'')

mutual

/-- A process that is cancelled waits for nothing new, and so do the processes that it passes the
cancellation on to. -/
theorem subsides_cancelWith : ∀ (p : Proc) (m : Machine), m.Heeds kept stop p.awaited →
    m.Subsides kept (cancelWith stop p m).1 ∧ (cancelWith stop p m).2.awaited ⊆ p.awaited
  | .settled _, m, _ | .fresh _, m, _ | .ready _ _, m, _ | .sleeping _ _, m, _ =>
    ⟨.refl m kept, List.Subset.refl _⟩
  | .awaiting i k, m, h => by
    rw [cancelWith]
    cases hi : m.future? i with
    | some o => exact ⟨.refl m kept, List.nil_subset _⟩
    | none => exact ⟨h i (List.mem_singleton_self i) m (.refl m kept) hi, List.Subset.refl _⟩
  | .joining _ parts _, m, h | .racing parts _, m, h => subsides_cancelAllWith parts m h

theorem subsides_cancelAllWith : ∀ (parts : List Proc) (m : Machine),
    m.Heeds kept stop (Proc.awaitedAll parts) → m.Subsides kept (cancelAllWith stop parts m).1 ∧
      Proc.awaitedAll (cancelAllWith stop parts m).2 ⊆ Proc.awaitedAll parts
  | [], m, _ => ⟨.refl m kept, List.Subset.refl _⟩
  | p :: rest, m, h => by
    obtain ⟨hfirst, hp⟩ := subsides_cancelWith p m (h.mono (List.subset_append_left _ _))
    obtain ⟨hrest, hparts⟩ := subsides_cancelAllWith rest (cancelWith stop p m).1
      ((h.mono (List.subset_append_right _ _)).subsides hfirst)
    exact ⟨hfirst.trans hrest, List.append_subset.mpr
      ⟨List.Subset.trans hp (List.subset_append_left _ _),
        List.Subset.trans hparts (List.subset_append_right _ _)⟩⟩

end

/-- Stopping a future leaves those alone that its process does not wait for. -/
theorem subsides_stopAt (depth : ℕ) (hi : i ∉ kept)
    (h : ∀ p, m.tasks[i]? = some p → ∀ j ∈ kept, ¬ m.WaitsFor p j) :
    m.Subsides kept (stopAt depth i m) := by
  induction depth generalizing i m with
  | zero => exact .refl m kept
  | succ depth ih =>
    rw [stopAt]
    split
    next f p _ hp =>
      split_ifs
      · exact .refl m kept
      · have hheeds : m.Heeds kept (stopAt depth) p.awaited := by
          intro j hj m' hm' hopen
          have hopen' := hm'.open_of_open hopen
          refine ih (fun hmem ↦ h p hp j hmem (.directly hj hopen')) ?_
          intro q' hq' l hl hwaits
          obtain ⟨q, hq, hsub⟩ := hm'.awaited j q' hq'
          exact h p hp l hl (.through hj hopen' hq (hm'.waitsFor hsub hwaits))
        obtain ⟨hm', hp'⟩ := subsides_cancelWith p m hheeds
        exact hm'.writeBack hi hp hp'
      · exact (Subsides.refl m kept).writeBack (q := .settled (.error .cancelled)) hi hp
          (List.nil_subset _)
    next => exact .refl m kept

/-- A process that waits for none of the futures to be kept heeds them. -/
theorem heeds_of_not_waitsFor (h : ∀ i ∈ kept, ¬ m.WaitsFor p i) (depth : ℕ) :
    m.Heeds kept (stopAt depth) p.awaited := by
  intro i hi m' hm' hopen
  have hopen' := hm'.open_of_open hopen
  refine subsides_stopAt depth (fun hmem ↦ h i hmem (.directly hi hopen')) ?_
  intro q' hq' j hj hwaits
  obtain ⟨q, hq, hsub⟩ := hm'.awaited i q' hq'
  exact h j hj (.through hi hopen' hq (hm'.waitsFor hsub hwaits))

/-- Futures that a cancelled process does not wait for are left alone, and all else as well. -/
theorem subsides_cancel (h : ∀ i ∈ kept, ¬ m.WaitsFor p i) : m.Subsides kept (cancel p m).1 :=
  (subsides_cancelWith p m (heeds_of_not_waitsFor h _)).1

/-- A process that is followed by a program is cancelled like the process itself, unless it has not
begun or has just ended: then it ends, or goes on with the cancellation. -/
theorem cancelWith_bind (stop : ℕ → Machine → Machine) (p : Proc) (f : Outcome → Prog)
    (m : Machine) : (cancelWith stop (p.bind f) m).1 = (cancelWith stop p m).1 ∧
      ((cancelWith stop (p.bind f) m).2 = (cancelWith stop p m).2.bind f ∨
        (cancelWith stop (p.bind f) m).2 = .ready (.error .cancelled) f ∨
        (cancelWith stop (p.bind f) m).2 = .settled (.error .cancelled)) := by
  cases p with
  | settled o => exact ⟨rfl, Or.inr (Or.inl rfl)⟩
  | fresh q => exact ⟨rfl, Or.inr (Or.inr rfl)⟩
  | awaiting i k =>
    simp only [Proc.bind, cancelWith]
    split_ifs <;> exact ⟨rfl, Or.inl rfl⟩
  | _ => exact ⟨rfl, Or.inl rfl⟩

end Machine

/-! ### Awaitables of rules -/

namespace OneShot

/-- The futures that stand for the awaitable. -/
def places (w : OneShot) (m : Machine) : Set ℕ :=
  {i | if w.isRun then .awaitable .task i ∈ w.noted m else i = w.id}

/-- An awaitable whose futures are kept is left alone. -/
theorem spares_of_subsides {w : OneShot} {m m' : Machine} {kept : Set ℕ}
    (h : m.Subsides kept m') (hkept : w.places m ⊆ kept) : w.Spares m m' := by
  have hmem : ∀ i, w.isRun = true → .awaitable .task i ∈ w.noted m → i ∈ kept :=
    fun i hrun hi ↦ hkept (by rwa [places, Set.mem_ofPred, if_pos hrun])
  refine ⟨⟨fun hm ↦ ⟨?_, ?_⟩, ?_, h.filled, fun i p hrun hi hp ↦ ?_, fun i f hrun hi hf ↦ ?_⟩, ?_⟩
  · rw [h.tasks_size, h.futures_size, hm.sizes]
  · rw [h.rest]
    exact hm.notes
  · rw [h.rest]
    rfl
  · rwa [h.tasks i (hmem i hrun hi)]
  · rwa [h.futures i (hmem i hrun hi)]
  · intro g hg
    rw [h.rest]
    exact hg

end OneShot

end Recast
